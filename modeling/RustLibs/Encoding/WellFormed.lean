import RustLibs.Encoding.ScalarValues

/-!
# What the decoder accepts is well formed

The converse of decoding an encoding: bytes on which the UTF-8 decoder emits
no U+FFFD, the end of the queue included, are the UTF-8 encoding of the
code points it emits. A lead byte fixes the sequence's length and the range
of its first trailing byte; the code point these bytes assemble is a scalar
value whose encoding is exactly these bytes.
-/

namespace RustLibs.Encoding

open Buffers

theorem ofNat_toNat_byte {n : Nat} {byte : Byte} (h : n = byte.toNat) : UInt8.ofNat n = byte :=
  UInt8.toNat.inj (by rw [toNat_ofNat_byte, h]; exact Nat.mod_eq_of_lt byte.toNat_lt_size)

theorem encodeCodePoint_one {lead : Byte} (hLead : lead.toNat ≤ 0x7F) :
    ∃ c : Char, c.toNat = lead.toNat ∧ encodeCodePoint c = [lead] := by
  obtain ⟨c, hc⟩ : ∃ c : Char, c.toNat = lead.toNat :=
    ⟨_, toNat_ofNat_of_isValidChar (.inl (by omega))⟩
  refine ⟨c, hc, ?_⟩
  rw [encodeCodePoint_of_le_0x7F (c := c) (by omega), ofNat_toNat_byte hc]

theorem encodeCodePoint_two {lead t₁ : Byte} (hLead : 0xC2 ≤ lead.toNat ∧ lead.toNat ≤ 0xDF)
    (h₁ : 0x80 ≤ t₁.toNat ∧ t₁.toNat ≤ 0xBF) :
    ∃ c : Char, c.toNat = lead.toNat % 32 * 64 + t₁.toNat % 64 ∧ encodeCodePoint c = [lead, t₁] := by
  obtain ⟨c, hc⟩ : ∃ c : Char, c.toNat = lead.toNat % 32 * 64 + t₁.toNat % 64 :=
    ⟨_, toNat_ofNat_of_isValidChar (.inl (by omega))⟩
  refine ⟨c, hc, ?_⟩
  rw [encodeCodePoint_of_le_0x7FF (c := c) (by omega) (by omega)]
  simp only [List.cons.injEq, and_true]
  exact ⟨ofNat_toNat_byte (by omega), ofNat_toNat_byte (by omega)⟩

theorem encodeCodePoint_three {lead t₁ t₂ : Byte} (hLead : 0xE0 ≤ lead.toNat ∧ lead.toNat ≤ 0xEF)
    (h₁ : (if lead.toNat = 0xE0 then 0xA0 else 0x80) ≤ t₁.toNat ∧
      t₁.toNat ≤ (if lead.toNat = 0xED then 0x9F else 0xBF))
    (h₂ : 0x80 ≤ t₂.toNat ∧ t₂.toNat ≤ 0xBF) :
    ∃ c : Char, c.toNat = (lead.toNat % 16 * 64 + t₁.toNat % 64) * 64 + t₂.toNat % 64 ∧
      encodeCodePoint c = [lead, t₁, t₂] := by
  have hTrail : 0x80 ≤ t₁.toNat ∧ t₁.toNat ≤ 0xBF := by split_ifs at h₁ <;> omega
  have hScalar : 0x7FF < (lead.toNat % 16 * 64 + t₁.toNat % 64) * 64 + t₂.toNat % 64 ∧
      (lead.toNat % 16 * 64 + t₁.toNat % 64) * 64 + t₂.toNat % 64 < 0xD800 ∨
    0xDFFF < (lead.toNat % 16 * 64 + t₁.toNat % 64) * 64 + t₂.toNat % 64 ∧
      (lead.toNat % 16 * 64 + t₁.toNat % 64) * 64 + t₂.toNat % 64 ≤ 0xFFFF := by
    split_ifs at h₁ <;> omega
  obtain ⟨c, hc⟩ : ∃ c : Char, c.toNat = (lead.toNat % 16 * 64 + t₁.toNat % 64) * 64 + t₂.toNat % 64 :=
    ⟨_, toNat_ofNat_of_isValidChar (by unfold Nat.isValidChar; omega)⟩
  refine ⟨c, hc, ?_⟩
  rw [encodeCodePoint_of_le_0xFFFF (c := c) (by omega) (by omega)]
  simp only [List.cons.injEq, and_true]
  exact ⟨ofNat_toNat_byte (by omega), ofNat_toNat_byte (by omega), ofNat_toNat_byte (by omega)⟩

theorem encodeCodePoint_four {lead t₁ t₂ t₃ : Byte} (hLead : 0xF0 ≤ lead.toNat ∧ lead.toNat ≤ 0xF4)
    (h₁ : (if lead.toNat = 0xF0 then 0x90 else 0x80) ≤ t₁.toNat ∧
      t₁.toNat ≤ (if lead.toNat = 0xF4 then 0x8F else 0xBF))
    (h₂ : 0x80 ≤ t₂.toNat ∧ t₂.toNat ≤ 0xBF) (h₃ : 0x80 ≤ t₃.toNat ∧ t₃.toNat ≤ 0xBF) :
    ∃ c : Char,
      c.toNat = ((lead.toNat % 8 * 64 + t₁.toNat % 64) * 64 + t₂.toNat % 64) * 64 + t₃.toNat % 64 ∧
      encodeCodePoint c = [lead, t₁, t₂, t₃] := by
  have hTrail : 0x80 ≤ t₁.toNat ∧ t₁.toNat ≤ 0xBF := by split_ifs at h₁ <;> omega
  have hScalar :
      0xFFFF < ((lead.toNat % 8 * 64 + t₁.toNat % 64) * 64 + t₂.toNat % 64) * 64 + t₃.toNat % 64 ∧
      ((lead.toNat % 8 * 64 + t₁.toNat % 64) * 64 + t₂.toNat % 64) * 64 + t₃.toNat % 64 < 0x110000 := by
    split_ifs at h₁ <;> omega
  obtain ⟨c, hc⟩ : ∃ c : Char,
      c.toNat = ((lead.toNat % 8 * 64 + t₁.toNat % 64) * 64 + t₂.toNat % 64) * 64 + t₃.toNat % 64 :=
    ⟨_, toNat_ofNat_of_isValidChar (.inr ⟨by omega, hScalar.2⟩)⟩
  refine ⟨c, hc, ?_⟩
  rw [encodeCodePoint_of_gt_0xFFFF (c := c) (by omega)]
  simp only [List.cons.injEq, and_true]
  exact ⟨ofNat_toNat_byte (by omega), ofNat_toNat_byte (by omega), ofNat_toNat_byte (by omega),
    ofNat_toNat_byte (by omega)⟩

namespace Utf8Decoder

/-- The decoder emits no U+FFFD on `bytes`, the end of the queue included. -/
def Clean (d : Utf8Decoder) (bytes : List Byte) : Prop :=
  0xFFFD ∉ (d.run bytes).1 ++ (d.run bytes).2.finish

theorem clean_cons {d : Utf8Decoder} {byte : Byte} {rest : List Byte} :
    d.Clean (byte :: rest) ↔ 0xFFFD ∉ (d.read byte).1 ∧ (d.read byte).2.Clean rest := by
  simp only [Clean, run_cons, List.mem_append, not_or, and_assoc]

theorem clean_pending {d : Utf8Decoder} (hNeeded : d.bytesNeeded ≠ 0) {bytes : List Byte}
    (h : d.Clean bytes) :
    ∃ first tail rest, bytes = first :: tail ++ rest ∧
      d.bytesNeeded = d.bytesSeen + tail.length + 1 ∧
      (d.lowerBoundary ≤ first.toNat ∧ first.toNat ≤ d.upperBoundary) ∧
      (∀ b ∈ tail, 0x80 ≤ b.toNat ∧ b.toNat ≤ 0xBF) ∧ init.Clean rest := by
  induction bytes generalizing d with
  | nil => simp [Clean, finish, hNeeded] at h
  | cons byte bytes ih =>
    rw [clean_cons] at h
    by_cases hRange : d.lowerBoundary ≤ byte.toNat ∧ byte.toNat ≤ d.upperBoundary
    · by_cases hSeen : d.bytesSeen + 1 = d.bytesNeeded
      · rw [read_of_handler (handler_last hNeeded hRange hSeen) (by simp)] at h
        exact ⟨byte, [], bytes, rfl, by simpa using hSeen.symm, hRange, by simp, h.2⟩
      · rw [read_of_handler (handler_trail hNeeded hRange hSeen) (by simp)] at h
        obtain ⟨first, tail, rest, rfl, hLength, hFirst, hTail, hRest⟩ := ih (by exact hNeeded) h.2
        refine ⟨byte, first :: tail, rest, rfl, by simp at hLength ⊢; omega, hRange, ?_, hRest⟩
        exact List.forall_mem_cons.mpr ⟨hFirst, hTail⟩
    · simp [read, handler_out_of_range hNeeded hRange] at h

theorem clean_sequence {byte : Byte} {d : Utf8Decoder} {rest : List Byte}
    (hLead : init.handler byte = (.continue, d)) (hNeeded : d.bytesNeeded ≠ 0)
    (h : init.Clean (byte :: rest)) :
    ∃ first tail rest', rest = first :: tail ++ rest' ∧
      d.bytesNeeded = d.bytesSeen + tail.length + 1 ∧
      (d.lowerBoundary ≤ first.toNat ∧ first.toNat ≤ d.upperBoundary) ∧
      (∀ b ∈ tail, 0x80 ≤ b.toNat ∧ b.toNat ≤ 0xBF) ∧ init.Clean rest' ∧
      (init.run (byte :: rest)).1 =
        (first :: tail).foldl (fun acc b => acc * 64 + b.toNat % 64) d.utf8CodePoint ::
          (init.run rest').1 := by
  rw [clean_cons, read_of_handler hLead (by simp)] at h
  obtain ⟨first, tail, rest', rfl, hLength, hFirst, hTail, hClean⟩ := clean_pending hNeeded h.2
  refine ⟨first, tail, rest', rfl, hLength, hFirst, hTail, hClean, ?_⟩
  rw [run_cons, read_of_handler hLead (by simp)]
  simp only [HandlerResult.output, List.nil_append]
  rw [run_append, run_trail d first tail hLength hFirst hTail]
  rfl

theorem encodeCodePoint_ne_nil (c : Char) : encodeCodePoint c ≠ [] := fun h => by
  simpa [h] using run_encodeCodePoint c

theorem clean_first {byte : Byte} {rest : List Byte} (h : init.Clean (byte :: rest)) :
    ∃ c rest', byte :: rest = encodeCodePoint c ++ rest' ∧
      (init.run (byte :: rest)).1 = c.toNat :: (init.run rest').1 ∧ init.Clean rest' := by
  by_cases h₁ : byte.toNat ≤ 0x7F
  · obtain ⟨c, hc, hEncode⟩ := encodeCodePoint_one h₁
    have hRead := read_of_handler (init_handler_ascii h₁) (by simp)
    rw [clean_cons, hRead] at h
    exact ⟨c, rest, by rw [hEncode]; rfl, by rw [run_cons, hRead, hc]; rfl, h.2⟩
  by_cases h₂ : 0xC2 ≤ byte.toNat ∧ byte.toNat ≤ 0xDF
  · obtain ⟨t₁, tail, rest', rfl, hTailLength, hFirst, -, hClean, hOut⟩ :=
      clean_sequence (init_handler_two h₂.1 h₂.2) (by simp) h
    simp only at hFirst hTailLength
    obtain rfl : tail = [] := List.eq_nil_of_length_eq_zero (show tail.length = 0 by omega)
    obtain ⟨c, hc, hEncode⟩ := encodeCodePoint_two h₂ hFirst
    exact ⟨c, rest', by rw [hEncode]; rfl, by rw [hOut, hc]; rfl, hClean⟩
  by_cases h₃ : 0xE0 ≤ byte.toNat ∧ byte.toNat ≤ 0xEF
  · obtain ⟨t₁, tail, rest', rfl, hTailLength, hFirst, hTail, hClean, hOut⟩ :=
      clean_sequence (init_handler_three h₃.1 h₃.2) (by simp) h
    simp only at hFirst hTailLength
    obtain ⟨t₂, rfl⟩ := List.length_eq_one.mp (show tail.length = 1 by omega)
    obtain ⟨c, hc, hEncode⟩ := encodeCodePoint_three h₃ hFirst (hTail t₂ (by simp))
    exact ⟨c, rest', by rw [hEncode]; rfl, by rw [hOut, hc]; rfl, hClean⟩
  by_cases h₄ : 0xF0 ≤ byte.toNat ∧ byte.toNat ≤ 0xF4
  · obtain ⟨t₁, tail, rest', rfl, hTailLength, hFirst, hTail, hClean, hOut⟩ :=
      clean_sequence (init_handler_four h₄.1 h₄.2) (by simp) h
    simp only at hFirst hTailLength
    obtain ⟨t₂, t₃, rfl⟩ := List.length_eq_two.mp (show tail.length = 2 by omega)
    obtain ⟨c, hc, hEncode⟩ := encodeCodePoint_four h₄ hFirst (hTail t₂ (by simp)) (hTail t₃ (by simp))
    exact ⟨c, rest', by rw [hEncode]; rfl, by rw [hOut, hc]; rfl, hClean⟩
  · rw [clean_cons, read_of_handler (init_handler_invalid h₁ h₂ h₃ h₄) (by simp)] at h
    simp at h

theorem clean_init {bytes : List Byte} (h : init.Clean bytes) :
    ∃ text : List Char, (init.run bytes).1 = text.map Char.toNat ∧
      bytes = text.flatMap encodeCodePoint := by
  obtain ⟨n, hLength⟩ : ∃ n, bytes.length = n := ⟨_, rfl⟩
  induction n using Nat.strong_induction_on generalizing bytes with
  | _ n ih =>
  match bytes, h with
  | [], _ => exact ⟨[], rfl, rfl⟩
  | byte :: rest, h =>
    obtain ⟨c, rest', hBytes, hOut, hClean⟩ := clean_first h
    have hShorter : rest'.length < n := by
      have := List.length_pos.mpr (encodeCodePoint_ne_nil c)
      rw [← hLength, hBytes, List.length_append]
      omega
    obtain ⟨text, hText, rfl⟩ := ih _ hShorter hClean rfl
    exact ⟨c :: text, by rw [hOut, hText]; rfl, by rw [hBytes, List.flatMap_cons]⟩

end Utf8Decoder

open Utf8Decoder

theorem mem_serializeIoQueue {ignoreBOM bomSeen : Bool} {items : List Nat} {x : Nat}
    (hx : x ∈ items) (hBOM : x ≠ 0xFEFF) : Char.ofNat x ∈ serializeIoQueue ignoreBOM bomSeen items := by
  induction items generalizing bomSeen with
  | nil => cases hx
  | cons item items ih =>
    simp only [serializeIoQueue]
    rcases List.mem_cons.mp hx with rfl | hx
    · split_ifs <;> simp_all
    · split_ifs <;> simp [ih hx]

theorem head_of_take_encode {text : List Char}
    (h : (text.flatMap encodeCodePoint).take 3 = [0xEF, 0xBB, 0xBF]) : text.head? = some '\uFEFF' := by
  have hSplit := List.take_append_drop 3 (text.flatMap encodeCodePoint)
  rw [h] at hSplit
  have hRun := congrArg (fun bytes => (init.run bytes).1) hSplit
  simp only [run_append, show init.run [0xEF, 0xBB, 0xBF] = ([0xFEFF], init) by decide,
    run_encode] at hRun
  rcases text with _ | ⟨c, rest⟩
  · cases hRun
  · simp only [List.map_cons, List.singleton_append, List.cons.injEq] at hRun
    rw [List.head?_cons, toNat_eq_bom.mp hRun.1.symm]

theorem TextDecoder.encode_decode_of_no_replacement (decoder : TextDecoder) (bytes : List Byte)
    (h : '\uFFFD' ∉ (decoder.decode bytes).data) :
    TextEncoder.encode (decoder.decode bytes) =
      if decoder.ignoreBOM = false ∧ bytes.take 3 = [0xEF, 0xBB, 0xBF] then bytes.drop 3 else bytes := by
  have hClean : init.Clean bytes := fun hMem => h (mem_serializeIoQueue hMem (by decide))
  obtain ⟨text, -, rfl⟩ := clean_init hClean
  rw [show text.flatMap encodeCodePoint = TextEncoder.encode ⟨text⟩ from rfl, TextDecoder.decode_encode]
  by_cases hBOM : decoder.ignoreBOM = false ∧ text.head? = some '\uFEFF'
  · obtain ⟨hIgnore, hHead⟩ := hBOM
    obtain ⟨rest, rfl⟩ : ∃ rest, text = '\uFEFF' :: rest := ⟨text.tail, by
      rcases text with _ | ⟨c, rest⟩ <;> simp_all⟩
    have hEncode : TextEncoder.encode ⟨'\uFEFF' :: rest⟩ = [0xEF, 0xBB, 0xBF] ++ TextEncoder.encode ⟨rest⟩ :=
      congrArg (· ++ TextEncoder.encode ⟨rest⟩) (show encodeCodePoint '\uFEFF' = _ by decide)
    simp [hIgnore, hEncode]
  · rw [if_neg hBOM, if_neg (fun hTake => hBOM ⟨hTake.1, head_of_take_encode hTake.2⟩)]

end RustLibs.Encoding
