import RustLibs.Metrics.Bindings
import RustLibs.Encoding.Recovery

/-!
# The codec on JavaScript strings

`encode` is handed a JavaScript string, which Web IDL converts to a
USVString first, and the string `decode` returns is read by JavaScript as
UTF-16 code units. On such strings `decode(encode(v))` is `v` exactly when
`v` has no lone surrogate and does not start with U+FEFF. Bytes in front of
an encoded text, a cut sequence among them, cannot reach into the text. The
two lengths bound each other: `encode` writes at most three bytes per code
unit, and `decode` returns at most one code unit per byte.
-/

namespace RustLibs.Metrics

open Buffers Encoding Utf8Decoder

/-! ### Round trip -/

/-- A JavaScript string comes back from `decode(encode(v))` unchanged exactly
when it is well formed and does not start with the code unit 0xFEFF. -/
theorem decode_encode_jsString (string : List CodeUnit) :
    codePointsToString (decode (encode (.string (toUsvString string)))) = string ↔
      isStringWellFormedUnicode string ∧ string.head? ≠ some 0xFEFF := by
  rw [decode_encode_string]
  split_ifs with hBOM
  · refine iff_of_false (fun h => ?_) (fun h => h.2 ((head_toUsvString_eq_bom string).mp hBOM))
    obtain ⟨tail, hData⟩ := List.head?_eq_some_iff.mp hBOM
    have hLength := length_codePointsToString_toUsvString string
    have hTail := congrArg List.length h
    rw [codePointsToString, hData, List.flatMap_cons, List.length_append] at hLength
    simp only [codePointsToString, hData, List.tail_cons] at hTail
    have hBOMUnit : (utf16EncodeCodePoint '\uFEFF'.toNat).length = 1 := rfl
    omega
  · rw [codePointsToString_toUsvString_eq_self_iff]
    exact ⟨fun h => ⟨h, mt (head_toUsvString_eq_bom string).mpr hBOM⟩, And.left⟩

/-! ### Resynchronisation -/

/-- Whatever bytes come first, an encoded text after them is decoded as it
is, a leading U+FEFF included, and they decode as if the input ended there. -/
theorem decode_append_encode {bytes : List Byte} (hBytes : bytes ≠ []) (text : String) :
    decode (bytes ++ encode (.string text)) = decode bytes ++ text := by
  obtain ⟨chars⟩ := text
  have hItems := run_finish_ne_nil inv_init (.inr hBytes)
  simp only [decode, encode, TextDecoder.decode, TextEncoder.encode]
  rw [run_append_encode, serializeIoQueue_append hItems, List.map_map]
  simp only [Function.comp_def, Char.ofNat_toNat, List.map_id']
  rfl

theorem decode_append_encode_cut :
    ([0xE0] : List Byte) ≠ [] ∧
      decode ([0xE0] ++ encode (.string "\uFEFFa")) = decode [0xE0] ++ "\uFEFFa" :=
  ⟨by decide, decode_append_encode (by decide) _⟩

/-! ### Lengths -/

theorem length_codePointsToString_serializeIoQueue (ignoreBOM bomSeen : Bool) (items : List Nat) :
    (codePointsToString ⟨serializeIoQueue ignoreBOM bomSeen items⟩).length ≤ (items.map width).sum := by
  induction items generalizing bomSeen with
  | nil => exact Nat.le_refl 0
  | cons item items ih =>
    have hTrue := ih true
    have hSame := ih bomSeen
    have hWidth : (utf16EncodeCodePoint (Char.ofNat item).toNat).length = width item := rfl
    simp only [serializeIoQueue, List.map_cons, List.sum_cons]
    split_ifs
    · omega
    · rw [codePointsToString_cons, List.length_append]; omega
    · rw [codePointsToString_cons, List.length_append]; omega

/-- The string `decode` returns has no more UTF-16 code units than there are
bytes. -/
theorem length_decode_le (v : List Byte) : (codePointsToString (decode v)).length ≤ v.length :=
  (length_codePointsToString_serializeIoQueue false false _).trans (width_run_le v)

theorem length_encodeCodePoint_le (c : Char) :
    (encodeCodePoint c).length ≤ 3 * (utf16EncodeCodePoint c.toNat).length := by
  have hScalar := scalar_cases c
  by_cases h₁ : c.toNat ≤ 0x7F
  · simp [encodeCodePoint_of_le_0x7F h₁, utf16EncodeCodePoint, show c.toNat ≤ 0xFFFF by omega]
  by_cases h₂ : c.toNat ≤ 0x7FF
  · simp [encodeCodePoint_of_le_0x7FF (by omega) h₂, utf16EncodeCodePoint,
      show c.toNat ≤ 0xFFFF by omega]
  by_cases h₃ : c.toNat ≤ 0xFFFF
  · simp [encodeCodePoint_of_le_0xFFFF (by omega) h₃, utf16EncodeCodePoint, h₃]
  · simp [encodeCodePoint_of_gt_0xFFFF (c := c) (by omega), utf16EncodeCodePoint, h₃]

theorem length_encode_le_codePointsToString (text : String) :
    (encode (.string text)).length ≤ 3 * (codePointsToString text).length := by
  obtain ⟨chars⟩ := text
  induction chars with
  | nil => simp [encode, TextEncoder.encode, codePointsToString]
  | cons c chars ih =>
    have hChar := length_encodeCodePoint_le c
    simp only [encode, TextEncoder.encode, List.flatMap_cons, List.length_append,
      codePointsToString_cons] at ih ⊢
    omega

/-- `encode` writes at most three bytes for each code unit of a JavaScript
string, lone surrogates included. -/
theorem length_encode_le (string : List CodeUnit) :
    (encode (.string (toUsvString string))).length ≤ 3 * string.length :=
  calc (encode (.string (toUsvString string))).length
      ≤ 3 * (codePointsToString (toUsvString string)).length := length_encode_le_codePointsToString _
    _ = 3 * string.length := by rw [length_codePointsToString_toUsvString]

end RustLibs.Metrics
