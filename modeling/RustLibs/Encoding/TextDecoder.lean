import RustLibs.Encoding.Utf8Decoder

/-!
# `TextDecoder.decode`, and decoding what `TextEncoder` encoded

`decode` runs a fresh UTF-8 decoder over the bytes, adds the error of an
unfinished sequence at the end of the queue, and serializes the code points.
Unless the decoder ignores the BOM, serializing drops a U+FEFF that comes
first. Decoding an encoding therefore gives the text back, except for one
leading U+FEFF.
-/

namespace RustLibs.Encoding

open Buffers Utf8Decoder

/-- A `TextDecoder` for UTF-8 with `fatal` unset; `new TextDecoder()` is
`⟨false⟩`. -/
structure TextDecoder where
  ignoreBOM : Bool

/-- Serialize I/O queue, from the decoder's BOM seen flag on. -/
def serializeIoQueue (ignoreBOM : Bool) : Bool → List Nat → List Char
  | _, [] => []
  | bomSeen, item :: rest =>
    if !ignoreBOM && !bomSeen then
      if item = 0xFEFF then serializeIoQueue ignoreBOM true rest
      else Char.ofNat item :: serializeIoQueue ignoreBOM true rest
    else Char.ofNat item :: serializeIoQueue ignoreBOM bomSeen rest

/-- `decoder.decode(input)`, without the `stream` option. -/
def TextDecoder.decode (decoder : TextDecoder) (input : List Byte) : String :=
  ⟨serializeIoQueue decoder.ignoreBOM false ((init.run input).1 ++ (init.run input).2.finish)⟩

theorem serializeIoQueue_of_seen (ignoreBOM bomSeen : Bool) (h : ignoreBOM = true ∨ bomSeen = true)
    (items : List Nat) : serializeIoQueue ignoreBOM bomSeen items = items.map Char.ofNat := by
  induction items with
  | nil => rfl
  | cons item items ih => rcases h with rfl | rfl <;> simp_all [serializeIoQueue]

theorem serializeIoQueue_cons (item : Nat) (items : List Nat) :
    serializeIoQueue false false (item :: items) =
      if item = 0xFEFF then items.map Char.ofNat else Char.ofNat item :: items.map Char.ofNat := by
  simp [serializeIoQueue, serializeIoQueue_of_seen false true (.inr rfl)]

theorem toNat_eq_bom {c : Char} : c.toNat = 0xFEFF ↔ c = '\uFEFF' :=
  ⟨fun h => Char.ext (UInt32.toNat.inj h), fun h => h ▸ rfl⟩

theorem scalar_cases (c : Char) : c.toNat < 0xD800 ∨ (0xDFFF < c.toNat ∧ c.toNat < 0x110000) := by
  simpa [UInt32.isValidChar, Nat.isValidChar, Char.toNat] using c.valid

theorem trail_mod (x : Nat) : (0x80 + x % 64) % 256 % 64 = x % 64 := by omega

theorem run_encodeCodePoint (c : Char) : init.run (encodeCodePoint c) = ([c.toNat], init) := by
  have hValid := scalar_cases c
  by_cases h₁ : c.toNat ≤ 0x7F
  · rw [encodeCodePoint_of_le_0x7F h₁, run_cons,
      read_of_handler (init_handler_ascii (by simp; omega)) (by simp)]
    simp; omega
  by_cases h₂ : c.toNat ≤ 0x7FF
  · rw [encodeCodePoint_of_le_0x7FF (by omega) h₂, run_cons,
      read_of_handler (init_handler_two (by simp; omega) (by simp; omega)) (by simp),
      run_trail _ _ _ rfl (by simp; omega) (by simp)]
    simp [trail_mod]; omega
  by_cases h₃ : c.toNat ≤ 0xFFFF
  · rw [encodeCodePoint_of_le_0xFFFF (by omega) h₃, run_cons,
      read_of_handler (init_handler_three (by simp; omega) (by simp; omega)) (by simp),
      run_trail _ _ _ rfl (by simp; split_ifs <;> omega) (by simp; omega)]
    simp [trail_mod]; omega
  · rw [encodeCodePoint_of_gt_0xFFFF (by omega), run_cons,
      read_of_handler (init_handler_four (by simp; omega) (by simp; omega)) (by simp),
      run_trail _ _ _ rfl (by simp; split_ifs <;> omega) (by simp; omega)]
    simp [trail_mod]; omega

theorem run_encode (text : List Char) :
    init.run (text.flatMap encodeCodePoint) = (text.map Char.toNat, init) := by
  induction text with
  | nil => rfl
  | cons c text ih => rw [List.flatMap_cons, run_append, run_encodeCodePoint, ih]; rfl

theorem TextDecoder.decode_encode (decoder : TextDecoder) (text : List Char) :
    decoder.decode (TextEncoder.encode ⟨text⟩) =
      ⟨if decoder.ignoreBOM = false ∧ text.head? = some '\uFEFF' then text.tail else text⟩ := by
  have hKeep : ∀ items : List Char, (items.map Char.toNat).map Char.ofNat = items := by
    intro items; simp [Function.comp_def, Char.ofNat_toNat]
  have hRun : init.run (TextEncoder.encode ⟨text⟩) = (text.map Char.toNat, init) := run_encode text
  have hFinish : init.finish = [] := rfl
  simp only [TextDecoder.decode, hRun, hFinish, List.append_nil]
  rcases decoder with ⟨_ | _⟩ <;> rcases text with _ | ⟨c, rest⟩
  · rfl
  · simp [serializeIoQueue_cons, hKeep, toNat_eq_bom]
  · rfl
  · simp [serializeIoQueue_of_seen, hKeep]

end RustLibs.Encoding
