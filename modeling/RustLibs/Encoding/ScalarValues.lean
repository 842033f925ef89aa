import RustLibs.Encoding.TextDecoder

/-!
# The decoder emits only scalar values

Whatever the bytes, every code point the UTF-8 decoder puts on the output is
a Unicode scalar value: the lead byte and the boundaries it sets rule out
overlong forms, surrogates and values past U+10FFFF before the last
trailing byte arrives. So `Char.ofNat` keeps every code point of `decode`.
The invariant says, for each number of bytes needed and seen, what the bits
gathered so far can still become.
-/

namespace RustLibs.Encoding

open Buffers

namespace Utf8Decoder

/-- What the gathered bits can still complete to is a scalar value. -/
def Inv (d : Utf8Decoder) : Prop :=
  match d.bytesNeeded, d.bytesSeen with
  | 0, _ => d = init
  | 1, 0 => 2 ≤ d.utf8CodePoint ∧ d.utf8CodePoint ≤ 31 ∧
      d.lowerBoundary = 0x80 ∧ d.upperBoundary = 0xBF
  | 2, 0 => d.utf8CodePoint ≤ 15 ∧
      d.lowerBoundary = (if d.utf8CodePoint = 0 then 0xA0 else 0x80) ∧
      d.upperBoundary = (if d.utf8CodePoint = 0xD then 0x9F else 0xBF)
  | 2, 1 => 32 ≤ d.utf8CodePoint ∧ d.utf8CodePoint ≤ 1023 ∧
      (d.utf8CodePoint < 0x360 ∨ 0x37F < d.utf8CodePoint) ∧
      d.lowerBoundary = 0x80 ∧ d.upperBoundary = 0xBF
  | 3, 0 => d.utf8CodePoint ≤ 4 ∧
      d.lowerBoundary = (if d.utf8CodePoint = 0 then 0x90 else 0x80) ∧
      d.upperBoundary = (if d.utf8CodePoint = 4 then 0x8F else 0xBF)
  | 3, 1 => 16 ≤ d.utf8CodePoint ∧ d.utf8CodePoint ≤ 271 ∧
      d.lowerBoundary = 0x80 ∧ d.upperBoundary = 0xBF
  | 3, 2 => 1024 ≤ d.utf8CodePoint ∧ d.utf8CodePoint ≤ 17407 ∧
      d.lowerBoundary = 0x80 ∧ d.upperBoundary = 0xBF
  | _, _ => False

def Scalar (result : HandlerResult) : Prop := ∀ cp ∈ result.output, cp.isValidChar

theorem inv_init : init.Inv := rfl

theorem handler_init_inv (byte : Byte) : (init.handler byte).2.Inv ∧ Scalar (init.handler byte).1 := by
  by_cases h₁ : byte.toNat ≤ 0x7F
  · rw [init_handler_ascii h₁]
    exact ⟨inv_init, by simp [Scalar, Nat.isValidChar]; omega⟩
  by_cases h₂ : 0xC2 ≤ byte.toNat ∧ byte.toNat ≤ 0xDF
  · rw [init_handler_two h₂.1 h₂.2]
    refine ⟨?_, by simp [Scalar]⟩
    unfold Inv
    dsimp only
    omega
  by_cases h₃ : 0xE0 ≤ byte.toNat ∧ byte.toNat ≤ 0xEF
  · rw [init_handler_three h₃.1 h₃.2]
    have hE0 : byte.toNat % 16 = 0 ↔ byte.toNat = 0xE0 := by omega
    have hED : byte.toNat % 16 = 0xD ↔ byte.toNat = 0xED := by omega
    exact ⟨⟨by dsimp only; omega, by simp only [hE0], by simp only [hED]⟩, by simp [Scalar]⟩
  by_cases h₄ : 0xF0 ≤ byte.toNat ∧ byte.toNat ≤ 0xF4
  · rw [init_handler_four h₄.1 h₄.2]
    have hF0 : byte.toNat % 8 = 0 ↔ byte.toNat = 0xF0 := by omega
    have hF4 : byte.toNat % 8 = 4 ↔ byte.toNat = 0xF4 := by omega
    exact ⟨⟨by dsimp only; omega, by simp only [hF0], by simp only [hF4]⟩, by simp [Scalar]⟩
  · rw [init_handler_invalid h₁ h₂ h₃ h₄]
    exact ⟨inv_init, by simp [Scalar, Nat.isValidChar]⟩

theorem handler_inv {d : Utf8Decoder} (hd : d.Inv) (byte : Byte) :
    (d.handler byte).2.Inv ∧ Scalar (d.handler byte).1 := by
  by_cases hNeeded : d.bytesNeeded = 0
  · have hInit : d = init := by simpa [Inv, hNeeded] using hd
    subst hInit
    exact handler_init_inv byte
  by_cases hRange : d.lowerBoundary ≤ byte.toNat ∧ byte.toNat ≤ d.upperBoundary
  · obtain ⟨cp, seen, needed, lower, upper⟩ := d
    match needed, seen, hd with
    | 1, 0, hd | 2, 1, hd | 3, 2, hd =>
      rw [handler_last hNeeded hRange rfl]
      simp only [Inv] at hd
      exact ⟨inv_init, by simp [Scalar, Nat.isValidChar]; omega⟩
    | 2, 0, hd | 3, 0, hd | 3, 1, hd =>
      rw [handler_trail hNeeded hRange (by simp)]
      refine ⟨?_, by simp [Scalar]⟩
      simp only [Inv, and_true] at hd hRange ⊢
      (try split_ifs at hd) <;> omega
    | 0, _, _ => exact absurd rfl hNeeded
    | 1, _ + 1, hd | 2, _ + 2, hd | 3, _ + 3, hd | _ + 4, _, hd => exact hd.elim
  · rw [handler_out_of_range hNeeded hRange]
    exact ⟨inv_init, by simp [Scalar, Nat.isValidChar]⟩

theorem read_inv {d : Utf8Decoder} (hd : d.Inv) (byte : Byte) :
    (d.read byte).2.Inv ∧ ∀ cp ∈ (d.read byte).1, cp.isValidChar := by
  obtain ⟨hInv, hScalar⟩ := handler_inv hd byte
  unfold read
  split
  · rename_i d' h
    rw [h] at hInv
    obtain ⟨hInv', hScalar'⟩ := handler_inv hInv byte
    refine ⟨hInv', fun cp hcp => ?_⟩
    rcases List.mem_cons.mp hcp with rfl | hcp
    · simp [Nat.isValidChar]
    · exact hScalar' cp hcp
  · rename_i h
    rw [h] at hInv hScalar
    exact ⟨hInv, hScalar⟩

theorem run_inv {d : Utf8Decoder} (hd : d.Inv) (bytes : List Byte) :
    (d.run bytes).2.Inv ∧ ∀ cp ∈ (d.run bytes).1, cp.isValidChar := by
  induction bytes generalizing d with
  | nil => exact ⟨hd, by simp⟩
  | cons byte bytes ih =>
    obtain ⟨hRead, hFirst⟩ := read_inv hd byte
    obtain ⟨hRun, hRest⟩ := ih hRead
    rw [run_cons]
    exact ⟨hRun, fun cp hcp => (List.mem_append.mp hcp).elim (hFirst cp) (hRest cp)⟩

end Utf8Decoder

open Utf8Decoder

theorem toNat_ofNat_of_isValidChar {n : Nat} (h : n.isValidChar) : (Char.ofNat n).toNat = n := by
  simp [Char.ofNat, h, Char.ofNatAux, Char.toNat, UInt32.toNat]

/-- For any bytes, every code point the decoder emits, the end of the queue
included, is a scalar value, which `Char.ofNat` keeps as it is. -/
theorem decoder_output_scalar (bytes : List Byte) :
    ∀ cp ∈ (init.run bytes).1 ++ (init.run bytes).2.finish,
      cp.isValidChar ∧ (Char.ofNat cp).toNat = cp := by
  have hRun := run_inv inv_init bytes
  have hValid : ∀ cp ∈ (init.run bytes).1 ++ (init.run bytes).2.finish, cp.isValidChar := by
    intro cp hcp
    rcases List.mem_append.mp hcp with hcp | hcp
    · exact hRun.2 cp hcp
    · simp only [finish] at hcp
      split at hcp <;> simp_all [Nat.isValidChar]
  exact fun cp hcp => ⟨hValid cp hcp, toNat_ofNat_of_isValidChar (hValid cp hcp)⟩

theorem decoder_output_scalar_surrogate :
    (init.run [0xED, 0xA0, 0x80]).1 ++ (init.run [0xED, 0xA0, 0x80]).2.finish =
        [0xFFFD, 0xFFFD, 0xFFFD] ∧
      Nat.isValidChar 0xFFFD ∧ (Char.ofNat 0xFFFD).toNat = 0xFFFD := by
  have hOut : (init.run [0xED, 0xA0, 0x80]).1 ++ (init.run [0xED, 0xA0, 0x80]).2.finish =
      [0xFFFD, 0xFFFD, 0xFFFD] := by decide
  exact ⟨hOut, decoder_output_scalar [0xED, 0xA0, 0x80] 0xFFFD (by rw [hOut]; simp)⟩

end RustLibs.Encoding
