import RustLibs.Runtime.Buffers

/-!
# The UTF-8 encoder behind `TextEncoder`

`new TextEncoder().encode(v)` runs the UTF-8 encoder over the scalar values
of `v`. A Lean `Char` is a scalar value, so a string with no lone surrogate
is a `String` and its conversion to scalar values changes nothing. The
encoder writes a lead byte, then `count` trailing bytes of six bits each in
a loop; the masks and shifts are rewritten once here into `/` and `%`.
-/

namespace RustLibs.Encoding

open Buffers

theorem and_0x3F (x : Nat) : x &&& 0x3F = x % 64 := Nat.and_pow_two_sub_one_eq_mod x 6
theorem and_0x1F (x : Nat) : x &&& 0x1F = x % 32 := Nat.and_pow_two_sub_one_eq_mod x 5
theorem and_0xF (x : Nat) : x &&& 0xF = x % 16 := Nat.and_pow_two_sub_one_eq_mod x 4
theorem and_0x7 (x : Nat) : x &&& 0x7 = x % 8 := Nat.and_pow_two_sub_one_eq_mod x 3

theorem shiftLeft_six_or (a x : Nat) : (a <<< 6) ||| (x &&& 0x3F) = a * 64 + x % 64 := by
  rw [and_0x3F, Nat.shiftLeft_eq, Nat.mul_comm]
  exact (Nat.mul_add_lt_is_or (show x % 64 < 2 ^ 6 from Nat.mod_lt x (by decide)) a).symm

/-- Step 5 of the encoder: `count` trailing bytes, most significant first. -/
def trailBytes (codePoint : Nat) : Nat → List Nat
  | 0 => []
  | count + 1 =>
    (0x80 ||| ((codePoint >>> (6 * count)) &&& 0x3F)) :: trailBytes codePoint count

theorem trailByte_eq (x : Nat) : 0x80 ||| (x &&& 0x3F) = 0x80 + x % 64 :=
  shiftLeft_six_or 2 x

/-- The UTF-8 encoder's handler on one scalar value. -/
def encodeCodePoint (c : Char) : List Byte :=
  let codePoint := c.toNat
  if codePoint ≤ 0x7F then [UInt8.ofNat codePoint]
  else
    let (count, offset) :=
      if codePoint ≤ 0x7FF then (1, 0xC0) else if codePoint ≤ 0xFFFF then (2, 0xE0) else (3, 0xF0)
    (((codePoint >>> (6 * count)) + offset) :: trailBytes codePoint count).map UInt8.ofNat

/-- `new TextEncoder().encode(v)`. -/
def TextEncoder.encode (v : String) : List Byte := v.data.flatMap encodeCodePoint

theorem encodeCodePoint_of_le_0x7F {c : Char} (h : c.toNat ≤ 0x7F) :
    encodeCodePoint c = [UInt8.ofNat c.toNat] := if_pos h

theorem encodeCodePoint_of_le_0x7FF {c : Char} (h₁ : 0x7F < c.toNat) (h₂ : c.toNat ≤ 0x7FF) :
    encodeCodePoint c = [UInt8.ofNat (c.toNat / 64 + 0xC0), UInt8.ofNat (0x80 + c.toNat % 64)] := by
  simp [encodeCodePoint, trailBytes, trailByte_eq, Nat.shiftRight_eq_div_pow, h₂,
    show ¬ c.toNat ≤ 0x7F by omega]

theorem encodeCodePoint_of_le_0xFFFF {c : Char} (h₁ : 0x7FF < c.toNat) (h₂ : c.toNat ≤ 0xFFFF) :
    encodeCodePoint c = [UInt8.ofNat (c.toNat / 4096 + 0xE0),
      UInt8.ofNat (0x80 + c.toNat / 64 % 64), UInt8.ofNat (0x80 + c.toNat % 64)] := by
  simp [encodeCodePoint, trailBytes, trailByte_eq, Nat.shiftRight_eq_div_pow, h₂,
    show ¬ c.toNat ≤ 0x7F by omega, show ¬ c.toNat ≤ 0x7FF by omega]

theorem encodeCodePoint_of_gt_0xFFFF {c : Char} (h : 0xFFFF < c.toNat) :
    encodeCodePoint c = [UInt8.ofNat (c.toNat / 262144 + 0xF0),
      UInt8.ofNat (0x80 + c.toNat / 4096 % 64), UInt8.ofNat (0x80 + c.toNat / 64 % 64),
      UInt8.ofNat (0x80 + c.toNat % 64)] := by
  simp [encodeCodePoint, trailBytes, trailByte_eq, Nat.shiftRight_eq_div_pow,
    show ¬ c.toNat ≤ 0x7F by omega, show ¬ c.toNat ≤ 0x7FF by omega, Nat.not_le.mpr h]

end RustLibs.Encoding
