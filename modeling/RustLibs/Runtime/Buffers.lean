import Mathlib.Data.List.Basic
import Mathlib.Algebra.Group.Nat.Basic

/-!
# Byte buffers of the runtime

`Uint8Array`, an `UnsafePointerView` over native memory and
`DataView.getUint32`, as far as the metrics bindings use them. A pointer
view is all the memory mapped from the pointer on. `copyInto` checks no
bound, so a copy past the allocation the pointer came from reads whatever
memory follows it; only a copy past mapped memory faults (`none`).
-/

namespace RustLibs.Buffers

abbrev Byte := UInt8

@[simp] theorem toNat_ofNat_byte (n : Nat) : (UInt8.ofNat n).toNat = n % 256 := rfl

/-- `new Uint8Array(n)`: `n` zero bytes. -/
def Uint8Array.new (n : Nat) : List Byte := List.replicate n 0

@[simp] theorem Uint8Array.length_new (n : Nat) : (Uint8Array.new n).length = n :=
  List.length_replicate n 0

/-- Native memory seen from a pointer: every byte mapped from it on, past
the end of its allocation included. -/
structure UnsafePointerView where
  bytes : List Byte
  deriving DecidableEq

/-- `copyInto(destination, offset)` overwrites all of `destination` with the
bytes that start `offset` bytes after the pointer. -/
def UnsafePointerView.copyInto (view : UnsafePointerView) (destination : List Byte)
    (offset : Nat) : Option (List Byte) :=
  if offset + destination.length ≤ view.bytes.length then
    some ((view.bytes.drop offset).take destination.length)
  else none

/-- The unsigned value of four bytes, most significant first. -/
def uint32BE (b₀ b₁ b₂ b₃ : Byte) : Nat :=
  b₀.toNat * 2 ^ 24 + b₁.toNat * 2 ^ 16 + b₂.toNat * 2 ^ 8 + b₃.toNat

theorem uint32BE_lt (b₀ b₁ b₂ b₃ : Byte) : uint32BE b₀ b₁ b₂ b₃ < 2 ^ 32 := by
  have := b₀.toNat_lt_size; have := b₁.toNat_lt_size
  have := b₂.toNat_lt_size; have := b₃.toNat_lt_size
  simp only [uint32BE, UInt8.size] at *
  omega

/-- `DataView.getUint32(byteOffset, littleEndian)`: `rawBytes` are put in
little-endian order, then read as an unsigned little-endian number; `none`
is the `RangeError` of an offset whose four bytes leave the buffer. -/
def DataView.getUint32 (buffer : List Byte) (byteOffset : Nat) (littleEndian : Bool) :
    Option UInt32 :=
  if byteOffset + 4 ≤ buffer.length then
    let rawBytes := (buffer.drop byteOffset).take 4
    let ordered := if littleEndian then rawBytes else rawBytes.reverse
    some (UInt32.ofNat (ordered.foldr (fun b acc => b.toNat + 256 * acc) 0))
  else none

theorem DataView.getUint32_bigEndian (b₀ b₁ b₂ b₃ : Byte) :
    DataView.getUint32 [b₀, b₁, b₂, b₃] 0 false = some (UInt32.ofNat (uint32BE b₀ b₁ b₂ b₃)) := by
  simp [DataView.getUint32, uint32BE]
  congr 1
  omega

end RustLibs.Buffers
