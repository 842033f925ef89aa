import RustLibs.Runtime.Buffers

/-!
# The length-prefixed buffers of the metrics bindings

Every `"buffer"` result of the native library is read by `readPointer`: a
four-byte big-endian unsigned length, then exactly that many payload bytes.
The native side's framing is `toUint32BE`; reading a framed payload gives the
payload back for every length below `2 ^ 32`, whatever follows it.
-/

namespace RustLibs.Metrics

open Buffers

/-- `readPointer(v)`. The `DataView` is built on `lengthBe`'s buffer, so it
reads the header bytes that the first `copyInto` wrote. -/
def readPointer (ptr : UnsafePointerView) : Option (List Byte) := do
  let lengthBe ← ptr.copyInto (Uint8Array.new 4) 0
  let length ← DataView.getUint32 lengthBe 0 false
  ptr.copyInto (Uint8Array.new length.toNat) 4

/-- The header the native side writes before a payload of `n` bytes. -/
def toUint32BE (n : Nat) : List Byte :=
  [UInt8.ofNat (n / 2 ^ 24), UInt8.ofNat (n / 2 ^ 16), UInt8.ofNat (n / 2 ^ 8), UInt8.ofNat n]

theorem uint32BE_toUint32BE {n : Nat} (h : n < 2 ^ 32) :
    uint32BE (UInt8.ofNat (n / 2 ^ 24)) (UInt8.ofNat (n / 2 ^ 16)) (UInt8.ofNat (n / 2 ^ 8))
      (UInt8.ofNat n) = n := by
  simp only [uint32BE, toNat_ofNat_byte]
  omega

theorem readPointer_cons (b₀ b₁ b₂ b₃ : Byte) (rest : List Byte) :
    readPointer ⟨b₀ :: b₁ :: b₂ :: b₃ :: rest⟩ =
      if uint32BE b₀ b₁ b₂ b₃ ≤ rest.length then some (rest.take (uint32BE b₀ b₁ b₂ b₃))
      else none := by
  have hHeader : (UInt32.ofNat (uint32BE b₀ b₁ b₂ b₃)).toNat = uint32BE b₀ b₁ b₂ b₃ :=
    UInt32.toNat_ofNat_of_lt (uint32BE_lt b₀ b₁ b₂ b₃)
  simp only [readPointer, UnsafePointerView.copyInto, Uint8Array.length_new, List.length_cons]
  simp [Uint8Array.new, DataView.getUint32_bigEndian, hHeader]
  exact if_congr (by omega) rfl rfl

theorem toUint32BE_cons (n : Nat) (rest : List Byte) : toUint32BE n ++ rest =
    UInt8.ofNat (n / 2 ^ 24) :: UInt8.ofNat (n / 2 ^ 16) :: UInt8.ofNat (n / 2 ^ 8) ::
      UInt8.ofNat n :: rest := rfl

theorem readPointer_toUint32BE (payload rest : List Byte) (h : payload.length < 2 ^ 32) :
    readPointer ⟨toUint32BE payload.length ++ payload ++ rest⟩ = some payload := by
  rw [List.append_assoc, toUint32BE_cons, readPointer_cons, uint32BE_toUint32BE h,
    if_pos (by simp), List.take_left]

theorem readPointer_framed :
    (∀ payload rest : List Byte, payload.length < 2 ^ 32 →
      readPointer ⟨toUint32BE payload.length ++ payload ++ rest⟩ = some payload) ∧
    (∀ (b₀ b₁ b₂ b₃ : Byte) (rest : List Byte), uint32BE b₀ b₁ b₂ b₃ ≤ rest.length →
      readPointer ⟨b₀ :: b₁ :: b₂ :: b₃ :: rest⟩ = some (rest.take (uint32BE b₀ b₁ b₂ b₃))) :=
  ⟨readPointer_toUint32BE, fun b₀ b₁ b₂ b₃ rest h => by rw [readPointer_cons, if_pos h]⟩

theorem readPointer_framed_small :
    ([7, 9] : List Byte).length < 2 ^ 32 ∧
      readPointer ⟨toUint32BE ([7, 9] : List Byte).length ++ [7, 9] ++ [1]⟩ = some [7, 9] ∧
    uint32BE 0 0 0 2 ≤ ([7, 9, 1] : List Byte).length ∧
      readPointer ⟨[0, 0, 0, 2, 7, 9, 1]⟩ = some (([7, 9, 1] : List Byte).take (uint32BE 0 0 0 2)) :=
  ⟨by decide, readPointer_framed.1 [7, 9] [1] (by decide), by decide,
    readPointer_framed.2 0 0 0 2 [7, 9, 1] (by decide)⟩

end RustLibs.Metrics
