import Mathlib
import RustLibs.Encoding.Utf16

/-!
# How the decoder recovers from errors

A decoder in the middle of a sequence takes only trailing bytes, and the
encoder never writes a trailing byte first. So the first byte of an encoded
scalar value ends any unfinished sequence with one U+FFFD, is read again by
the reset decoder, and the value comes out as it went in: whatever bytes
come before, they never reach into the text that follows.

The restored byte is also what the output bound has to pay for: a byte can
put two code points on the output. Counting the bytes of the unfinished
sequence as credit, each byte adds at most one UTF-16 code unit, so a
decoded string never has more code units than there were bytes.
-/

namespace RustLibs.Encoding

open Buffers

namespace Utf8Decoder

theorem init_handler_cases (byte : Byte) :
    init.handler byte = (.codePoint byte.toNat, init) ∨ init.handler byte = (.error false, init) ∨
      ∃ d, init.handler byte = (.continue, d) ∧ d.bytesSeen = 0 ∧ d.bytesNeeded ≠ 0 := by
  by_cases h₁ : byte.toNat ≤ 0x7F
  · exact .inl (init_handler_ascii h₁)
  by_cases h₂ : 0xC2 ≤ byte.toNat ∧ byte.toNat ≤ 0xDF
  · exact .inr (.inr ⟨_, init_handler_two h₂.1 h₂.2, rfl, by simp⟩)
  by_cases h₃ : 0xE0 ≤ byte.toNat ∧ byte.toNat ≤ 0xEF
  · exact .inr (.inr ⟨_, init_handler_three h₃.1 h₃.2, rfl, by simp⟩)
  by_cases h₄ : 0xF0 ≤ byte.toNat ∧ byte.toNat ≤ 0xF4
  · exact .inr (.inr ⟨_, init_handler_four h₄.1 h₄.2, rfl, by simp⟩)
  · exact .inr (.inl (init_handler_invalid h₁ h₂ h₃ h₄))

theorem init_handler_ne_restored (byte : Byte) : (init.handler byte).1 ≠ .error true := by
  rcases init_handler_cases byte with h | h | ⟨d, h, -⟩ <;> simp [h]

theorem Inv.eq_init {d : Utf8Decoder} (hd : d.Inv) (hNeeded : d.bytesNeeded = 0) : d = init := by
  simpa [Inv, hNeeded] using hd

theorem init_read (byte : Byte) :
    init.read byte = ((init.handler byte).1.output, (init.handler byte).2) :=
  read_of_handler rfl (init_handler_ne_restored byte)

theorem read_of_out_of_range {d : Utf8Decoder} {byte : Byte} (hNeeded : d.bytesNeeded ≠ 0)
    (hRange : ¬(d.lowerBoundary ≤ byte.toNat ∧ byte.toNat ≤ d.upperBoundary)) :
    d.read byte = (0xFFFD :: (init.read byte).1, (init.read byte).2) := by
  rw [init_read, read, handler_out_of_range hNeeded hRange]

theorem Inv.boundaries {d : Utf8Decoder} (hd : d.Inv) (hNeeded : d.bytesNeeded ≠ 0) :
    0x80 ≤ d.lowerBoundary ∧ d.upperBoundary ≤ 0xBF := by
  obtain ⟨cp, seen, needed, lower, upper⟩ := d
  match needed, seen, hd with
  | 1, 0, hd | 2, 0, hd | 2, 1, hd | 3, 0, hd | 3, 1, hd | 3, 2, hd =>
    simp only [Inv] at hd ⊢
    (try split_ifs at hd) <;> omega
  | 0, _, _ => exact absurd rfl hNeeded
  | 1, _ + 1, hd | 2, _ + 2, hd | 3, _ + 3, hd | _ + 4, _, hd => exact hd.elim

end Utf8Decoder

theorem encodeCodePoint_lead (c : Char) :
    ∃ lead rest, encodeCodePoint c = lead :: rest ∧ (lead.toNat ≤ 0x7F ∨ 0xC0 ≤ lead.toNat) := by
  have hScalar := scalar_cases c
  by_cases h₁ : c.toNat ≤ 0x7F
  · exact ⟨_, _, encodeCodePoint_of_le_0x7F h₁, by simp; omega⟩
  by_cases h₂ : c.toNat ≤ 0x7FF
  · exact ⟨_, _, encodeCodePoint_of_le_0x7FF (by omega) h₂, by simp; omega⟩
  by_cases h₃ : c.toNat ≤ 0xFFFF
  · exact ⟨_, _, encodeCodePoint_of_le_0xFFFF (by omega) h₃, by simp; omega⟩
  · exact ⟨_, _, encodeCodePoint_of_gt_0xFFFF (by omega), by simp; omega⟩

namespace Utf8Decoder

/-! ### Resynchronisation -/

theorem run_encodeCodePoint_of_inv {d : Utf8Decoder} (hd : d.Inv) (c : Char) :
    d.run (encodeCodePoint c) = (d.finish ++ [c.toNat], init) := by
  by_cases hNeeded : d.bytesNeeded = 0
  · obtain rfl := hd.eq_init hNeeded
    exact run_encodeCodePoint c
  · obtain ⟨lead, rest, hEncode, hLead⟩ := encodeCodePoint_lead c
    have hBoundaries := hd.boundaries hNeeded
    have hFromInit := run_encodeCodePoint c
    rw [hEncode, run_cons] at hFromInit
    rw [hEncode, run_cons, read_of_out_of_range hNeeded (by omega), finish, if_pos hNeeded]
    obtain ⟨hOut, hState⟩ := Prod.mk.inj hFromInit
    rw [List.cons_append, hOut, hState]
    rfl

theorem run_append_encode (bytes : List Byte) (text : List Char) :
    (init.run (bytes ++ text.flatMap encodeCodePoint)).1 ++
        (init.run (bytes ++ text.flatMap encodeCodePoint)).2.finish =
      (init.run bytes).1 ++ (init.run bytes).2.finish ++ text.map Char.toNat := by
  rw [run_append]
  cases text with
  | nil => simp
  | cons c text =>
    rw [List.flatMap_cons, run_append, run_encodeCodePoint_of_inv (run_inv inv_init bytes).1, run_encode]
    simp [finish, init]

theorem read_output_or_pending {d : Utf8Decoder} (hd : d.Inv) (byte : Byte) :
    (d.read byte).1 ≠ [] ∨ (d.read byte).2.bytesNeeded ≠ 0 := by
  by_cases hNeeded : d.bytesNeeded = 0
  · obtain rfl := hd.eq_init hNeeded
    rw [init_read]
    rcases init_handler_cases byte with h | h | ⟨d, h, -, hPending⟩
    · simp [h]
    · simp [h]
    · simp [h, hPending]
  by_cases hRange : d.lowerBoundary ≤ byte.toNat ∧ byte.toNat ≤ d.upperBoundary
  · by_cases hSeen : d.bytesSeen + 1 = d.bytesNeeded
    · simp [read_of_handler (handler_last hNeeded hRange hSeen) (by simp)]
    · simp [read_of_handler (handler_trail hNeeded hRange hSeen) (by simp), hNeeded]
  · simp [read_of_out_of_range hNeeded hRange]

theorem run_finish_ne_nil {d : Utf8Decoder} (hd : d.Inv) {bytes : List Byte}
    (h : d.bytesNeeded ≠ 0 ∨ bytes ≠ []) : (d.run bytes).1 ++ (d.run bytes).2.finish ≠ [] := by
  induction bytes generalizing d with
  | nil => simpa [finish] using h
  | cons byte bytes ih =>
    simp only [run_cons, List.append_assoc]
    rcases read_output_or_pending hd byte with hOut | hPending
    · exact fun hNil => hOut (List.append_eq_nil.mp hNil).1
    · exact fun hNil => ih (read_inv hd byte).1 (.inl hPending) (List.append_eq_nil.mp hNil).2

/-! ### The output bound -/

/-- The UTF-16 code units a decoded code point takes in the JavaScript string. -/
def width (cp : Nat) : Nat := (utf16EncodeCodePoint (Char.ofNat cp).toNat).length

theorem width_le_two (cp : Nat) : width cp ≤ 2 := by
  unfold width utf16EncodeCodePoint
  split_ifs <;> simp

theorem width_of_lt {cp : Nat} (h : cp < 0xD800) : width cp = 1 := by
  rw [width, toNat_ofNat_of_isValidChar (.inl h), utf16EncodeCodePoint, if_pos (by omega)]
  rfl

theorem width_replacement : width 0xFFFD = 1 := by decide

/-- The bytes of the unfinished sequence, which pay for its U+FFFD or its
code point. -/
def credit (d : Utf8Decoder) : Nat := if d.bytesNeeded ≠ 0 then d.bytesSeen + 1 else 0

@[simp] theorem credit_init : init.credit = 0 := rfl

theorem width_finish_le_credit (d : Utf8Decoder) : (d.finish.map width).sum ≤ d.credit := by
  unfold finish credit
  split_ifs <;> simp [width_replacement]

theorem init_read_width (byte : Byte) :
    ((init.read byte).1.map width).sum + (init.read byte).2.credit ≤ 1 := by
  rw [init_read]
  rcases init_handler_cases byte with h | h | ⟨d, h, hSeen, hNeeded⟩ <;> rw [h]
  · simp [width_of_lt (byte.toNat_lt_size.trans (by decide))]
  · simp [width_replacement]
  · simp [credit, hSeen, hNeeded]

theorem read_width {d : Utf8Decoder} (hd : d.Inv) (byte : Byte) :
    ((d.read byte).1.map width).sum + (d.read byte).2.credit ≤ 1 + d.credit := by
  by_cases hNeeded : d.bytesNeeded = 0
  · obtain rfl := hd.eq_init hNeeded
    exact (init_read_width byte).trans (Nat.le_add_right 1 _)
  have hCredit : d.credit = d.bytesSeen + 1 := if_pos hNeeded
  by_cases hRange : d.lowerBoundary ≤ byte.toNat ∧ byte.toNat ≤ d.upperBoundary
  · by_cases hSeen : d.bytesSeen + 1 = d.bytesNeeded
    · rw [read_of_handler (handler_last hNeeded hRange hSeen) (by simp), hCredit]
      have := width_le_two (d.utf8CodePoint * 64 + byte.toNat % 64)
      simp only [HandlerResult.output, List.map_cons, List.map_nil, List.sum_cons, List.sum_nil,
        credit_init]
      omega
    · rw [read_of_handler (handler_trail hNeeded hRange hSeen) (by simp)]
      simp [credit, hNeeded]
      omega
  · rw [read_of_out_of_range hNeeded hRange]
    have := init_read_width byte
    simp only [List.map_cons, List.sum_cons, width_replacement] at this ⊢
    omega

theorem run_width {d : Utf8Decoder} (hd : d.Inv) (bytes : List Byte) :
    ((d.run bytes).1.map width).sum + (d.run bytes).2.credit ≤ bytes.length + d.credit := by
  induction bytes generalizing d with
  | nil => simp
  | cons byte bytes ih =>
    have hStep := read_width hd byte
    have hRest := ih (read_inv hd byte).1
    simp only [run_cons, List.map_append, List.sum_append, List.length_cons]
    omega

theorem width_run_le (bytes : List Byte) :
    (((init.run bytes).1 ++ (init.run bytes).2.finish).map width).sum ≤ bytes.length := by
  have hRun := run_width inv_init bytes
  have hFinish := width_finish_le_credit (init.run bytes).2
  rw [List.map_append, List.sum_append]
  rw [credit_init, Nat.add_zero] at hRun
  omega

end Utf8Decoder

theorem serializeIoQueue_append {items : List Nat} (h : items ≠ []) (rest : List Nat) :
    serializeIoQueue false false (items ++ rest) =
      serializeIoQueue false false items ++ rest.map Char.ofNat := by
  obtain ⟨item, items, rfl⟩ := List.exists_cons_of_ne_nil h
  rw [List.cons_append, serializeIoQueue_cons, serializeIoQueue_cons]
  split_ifs <;> simp

end RustLibs.Encoding
