import RustLibs.Encoding.Utf8Encoder

/-!
# The UTF-8 decoder behind `TextDecoder`

The decoder reads one byte at a time. A lead byte fixes how many trailing
bytes are needed and the range the next one must fall in; each trailing
byte appends six bits; a byte outside the range is an error, and that byte
is read again by the reset decoder. `TextDecoder` without `fatal` puts
U+FFFD on the output for every error.
-/

namespace RustLibs.Encoding

open Buffers

/-- The decoder's UTF-8 code point, bytes seen, bytes needed, lower
boundary and upper boundary. -/
structure Utf8Decoder where
  utf8CodePoint : Nat
  bytesSeen : Nat
  bytesNeeded : Nat
  lowerBoundary : Nat
  upperBoundary : Nat
  deriving DecidableEq, Repr

namespace Utf8Decoder

def init : Utf8Decoder := ⟨0, 0, 0, 0x80, 0xBF⟩

inductive HandlerResult where
  | continue
  | codePoint (value : Nat)
  | error (restored : Bool)
  deriving DecidableEq, Repr

/-- What a handler result puts on the output, in replacement mode. -/
@[simp] def HandlerResult.output : HandlerResult → List Nat
  | .continue => []
  | .codePoint value => [value]
  | .error _ => [0xFFFD]

/-- The handler on a byte that is not the end of the queue. -/
def handler (d : Utf8Decoder) (byte : Byte) : HandlerResult × Utf8Decoder :=
  let b := byte.toNat
  if d.bytesNeeded = 0 then
    if b ≤ 0x7F then (.codePoint b, d)
    else if 0xC2 ≤ b ∧ b ≤ 0xDF then
      (.continue, { d with bytesNeeded := 1, utf8CodePoint := b &&& 0x1F })
    else if 0xE0 ≤ b ∧ b ≤ 0xEF then
      (.continue, { d with
        lowerBoundary := if b = 0xE0 then 0xA0 else d.lowerBoundary
        upperBoundary := if b = 0xED then 0x9F else d.upperBoundary
        bytesNeeded := 2, utf8CodePoint := b &&& 0xF })
    else if 0xF0 ≤ b ∧ b ≤ 0xF4 then
      (.continue, { d with
        lowerBoundary := if b = 0xF0 then 0x90 else d.lowerBoundary
        upperBoundary := if b = 0xF4 then 0x8F else d.upperBoundary
        bytesNeeded := 3, utf8CodePoint := b &&& 0x7 })
    else (.error false, d)
  else if ¬(d.lowerBoundary ≤ b ∧ b ≤ d.upperBoundary) then (.error true, init)
  else
    let d' := { d with
      lowerBoundary := 0x80, upperBoundary := 0xBF
      utf8CodePoint := (d.utf8CodePoint <<< 6) ||| (b &&& 0x3F), bytesSeen := d.bytesSeen + 1 }
    if d'.bytesSeen ≠ d'.bytesNeeded then (.continue, d')
    else (.codePoint d'.utf8CodePoint, { d' with utf8CodePoint := 0, bytesNeeded := 0, bytesSeen := 0 })

/-- One byte through "process an item". A restored byte is read again at
once, by a decoder that needs no bytes. -/
def read (d : Utf8Decoder) (byte : Byte) : List Nat × Utf8Decoder :=
  match d.handler byte with
  | (.error true, d') => (0xFFFD :: (d'.handler byte).1.output, (d'.handler byte).2)
  | (result, d') => (result.output, d')

/-- The code points decoded from a stream of bytes, and the decoder after it. -/
def run (d : Utf8Decoder) : List Byte → List Nat × Utf8Decoder
  | [] => ([], d)
  | byte :: rest => ((d.read byte).1 ++ ((d.read byte).2.run rest).1, ((d.read byte).2.run rest).2)

/-- The end of the queue: an unfinished sequence is one more error. -/
def finish (d : Utf8Decoder) : List Nat := if d.bytesNeeded ≠ 0 then [0xFFFD] else []

@[simp] theorem run_nil (d : Utf8Decoder) : d.run [] = ([], d) := rfl

theorem run_cons (d : Utf8Decoder) (byte : Byte) (rest : List Byte) :
    d.run (byte :: rest) =
      ((d.read byte).1 ++ ((d.read byte).2.run rest).1, ((d.read byte).2.run rest).2) := rfl

theorem run_append (d : Utf8Decoder) (xs ys : List Byte) :
    d.run (xs ++ ys) = ((d.run xs).1 ++ ((d.run xs).2.run ys).1, ((d.run xs).2.run ys).2) := by
  induction xs generalizing d with
  | nil => rfl
  | cons byte xs ih => simp [run_cons, ih]

theorem read_of_handler {d d' : Utf8Decoder} {byte : Byte} {result : HandlerResult}
    (h : d.handler byte = (result, d')) (hResult : result ≠ .error true) :
    d.read byte = (result.output, d') := by
  unfold read
  split <;> simp_all

/-! ### What one byte does from the reset decoder, and to a sequence in progress -/

theorem init_handler_ascii {byte : Byte} (h : byte.toNat ≤ 0x7F) :
    init.handler byte = (.codePoint byte.toNat, init) := by
  simp [handler, init, h]

theorem init_handler_two {byte : Byte} (h₁ : 0xC2 ≤ byte.toNat) (h₂ : byte.toNat ≤ 0xDF) :
    init.handler byte = (.continue, ⟨byte.toNat % 32, 0, 1, 0x80, 0xBF⟩) := by
  simp [handler, init, and_0x1F, h₁, h₂, show ¬byte.toNat ≤ 0x7F by omega]

theorem init_handler_three {byte : Byte} (h₁ : 0xE0 ≤ byte.toNat) (h₂ : byte.toNat ≤ 0xEF) :
    init.handler byte = (.continue, ⟨byte.toNat % 16, 0, 2,
      if byte.toNat = 0xE0 then 0xA0 else 0x80, if byte.toNat = 0xED then 0x9F else 0xBF⟩) := by
  simp [handler, init, and_0xF, h₁, h₂, show ¬byte.toNat ≤ 0x7F by omega,
    show ¬(0xC2 ≤ byte.toNat ∧ byte.toNat ≤ 0xDF) by omega]

theorem init_handler_four {byte : Byte} (h₁ : 0xF0 ≤ byte.toNat) (h₂ : byte.toNat ≤ 0xF4) :
    init.handler byte = (.continue, ⟨byte.toNat % 8, 0, 3,
      if byte.toNat = 0xF0 then 0x90 else 0x80, if byte.toNat = 0xF4 then 0x8F else 0xBF⟩) := by
  simp [handler, init, and_0x7, h₁, h₂, show ¬byte.toNat ≤ 0x7F by omega,
    show ¬(0xC2 ≤ byte.toNat ∧ byte.toNat ≤ 0xDF) by omega,
    show ¬(0xE0 ≤ byte.toNat ∧ byte.toNat ≤ 0xEF) by omega]

theorem init_handler_invalid {byte : Byte} (h₁ : ¬byte.toNat ≤ 0x7F)
    (h₂ : ¬(0xC2 ≤ byte.toNat ∧ byte.toNat ≤ 0xDF)) (h₃ : ¬(0xE0 ≤ byte.toNat ∧ byte.toNat ≤ 0xEF))
    (h₄ : ¬(0xF0 ≤ byte.toNat ∧ byte.toNat ≤ 0xF4)) : init.handler byte = (.error false, init) := by
  simp [handler, init, h₁, h₂, h₃, h₄]

theorem handler_trail {d : Utf8Decoder} {byte : Byte} (hNeeded : d.bytesNeeded ≠ 0)
    (hRange : d.lowerBoundary ≤ byte.toNat ∧ byte.toNat ≤ d.upperBoundary)
    (hSeen : d.bytesSeen + 1 ≠ d.bytesNeeded) :
    d.handler byte = (.continue,
      ⟨d.utf8CodePoint * 64 + byte.toNat % 64, d.bytesSeen + 1, d.bytesNeeded, 0x80, 0xBF⟩) := by
  simp [handler, hNeeded, hRange, shiftLeft_six_or, hSeen]

theorem handler_last {d : Utf8Decoder} {byte : Byte} (hNeeded : d.bytesNeeded ≠ 0)
    (hRange : d.lowerBoundary ≤ byte.toNat ∧ byte.toNat ≤ d.upperBoundary)
    (hSeen : d.bytesSeen + 1 = d.bytesNeeded) :
    d.handler byte = (.codePoint (d.utf8CodePoint * 64 + byte.toNat % 64), init) := by
  simp [handler, hNeeded, hRange, shiftLeft_six_or, hSeen, init]

theorem handler_out_of_range {d : Utf8Decoder} {byte : Byte} (hNeeded : d.bytesNeeded ≠ 0)
    (hRange : ¬(d.lowerBoundary ≤ byte.toNat ∧ byte.toNat ≤ d.upperBoundary)) :
    d.handler byte = (.error true, init) := by
  simp [handler, hNeeded, hRange]

theorem run_trail (d : Utf8Decoder) (byte : Byte) (rest : List Byte)
    (hNeeded : d.bytesNeeded = d.bytesSeen + rest.length + 1)
    (hFirst : d.lowerBoundary ≤ byte.toNat ∧ byte.toNat ≤ d.upperBoundary)
    (hRest : ∀ b ∈ rest, 0x80 ≤ b.toNat ∧ b.toNat ≤ 0xBF) :
    d.run (byte :: rest) =
      ([(byte :: rest).foldl (fun acc b => acc * 64 + b.toNat % 64) d.utf8CodePoint], init) := by
  induction rest generalizing d byte with
  | nil =>
    rw [run_cons, read_of_handler (handler_last (by omega) hFirst (by simpa using hNeeded.symm))
      (by simp)]
    rfl
  | cons next rest ih =>
    have hSeen : d.bytesSeen + 1 ≠ d.bytesNeeded := by simp at hNeeded; omega
    rw [run_cons, read_of_handler (handler_trail (by omega) hFirst hSeen) (by simp)]
    exact ih _ next (by simp at hNeeded ⊢; omega) (hRest next (List.mem_cons_self _ _))
      (fun b hb => hRest b (List.mem_cons_of_mem _ hb))

end Utf8Decoder

end RustLibs.Encoding
