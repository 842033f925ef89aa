import RustLibs.Encoding.ScalarValues

/-!
# JavaScript strings

A JavaScript string is a sequence of UTF-16 code units, and may hold a
surrogate that belongs to no pair. Web IDL converts the argument of
`TextEncoder.encode` to a USVString: it reads the string's code points as
ECMA-262 StringToCodePoints does and replaces every surrogate code point by
U+FFFD. The string `TextDecoder.decode` returns is written as UTF-16, one
or two code units per scalar value. Reading code points back inverts the
writing, and writing inverts the conversion exactly on the strings
IsStringWellFormedUnicode accepts.
-/

namespace RustLibs.Encoding

abbrev CodeUnit := UInt16

@[simp] theorem toNat_ofNat_codeUnit (n : Nat) : (UInt16.ofNat n).toNat = n % 65536 := rfl

def isLeadingSurrogate (cu : Nat) : Bool := 0xD800 ≤ cu && cu ≤ 0xDBFF

def isTrailingSurrogate (cu : Nat) : Bool := 0xDC00 ≤ cu && cu ≤ 0xDFFF

/-- UTF16SurrogatePairToCodePoint. -/
def utf16SurrogatePairToCodePoint (lead trail : Nat) : Nat :=
  (lead - 0xD800) * 0x400 + (trail - 0xDC00) + 0x10000

/-- StringToCodePoints, with CodePointAt inlined: a leading surrogate
followed by a trailing one is one code point, and every other code unit,
a lone surrogate included, is a code point of its own. -/
def stringToCodePoints : List CodeUnit → List Nat
  | [] => []
  | [first] => [first.toNat]
  | first :: second :: rest =>
    if isLeadingSurrogate first.toNat && isTrailingSurrogate second.toNat then
      utf16SurrogatePairToCodePoint first.toNat second.toNat :: stringToCodePoints rest
    else first.toNat :: stringToCodePoints (second :: rest)

def isSurrogate (cp : Nat) : Bool := 0xD800 ≤ cp && cp ≤ 0xDFFF

/-- IsStringWellFormedUnicode. -/
def isStringWellFormedUnicode (string : List CodeUnit) : Bool :=
  (stringToCodePoints string).all fun cp => !isSurrogate cp

/-- Infra's scalar value of a code point: a surrogate becomes U+FFFD. -/
def scalarValue (cp : Nat) : Char := if isSurrogate cp then '\uFFFD' else Char.ofNat cp

/-- The USVString Web IDL converts a JavaScript string to. -/
def toUsvString (string : List CodeUnit) : String := ⟨(stringToCodePoints string).map scalarValue⟩

/-- UTF16EncodeCodePoint. -/
def utf16EncodeCodePoint (cp : Nat) : List CodeUnit :=
  if cp ≤ 0xFFFF then [UInt16.ofNat cp]
  else [UInt16.ofNat ((cp - 0x10000) / 0x400 + 0xD800), UInt16.ofNat ((cp - 0x10000) % 0x400 + 0xDC00)]

/-- CodePointsToString: the JavaScript string of a sequence of scalar values. -/
def codePointsToString (text : String) : List CodeUnit :=
  text.data.flatMap fun c => utf16EncodeCodePoint c.toNat

@[simp] theorem codePointsToString_cons (c : Char) (chars : List Char) :
    codePointsToString ⟨c :: chars⟩ = utf16EncodeCodePoint c.toNat ++ codePointsToString ⟨chars⟩ := rfl

/-! ### Reading code points -/

theorem stringToCodePoints_cons_of_not_leading {first : CodeUnit}
    (h : isLeadingSurrogate first.toNat = false) (rest : List CodeUnit) :
    stringToCodePoints (first :: rest) = first.toNat :: stringToCodePoints rest := by
  cases rest with
  | nil => rfl
  | cons second rest => simp [stringToCodePoints, h]

theorem stringToCodePoints_pair {first second : CodeUnit}
    (h₁ : isLeadingSurrogate first.toNat) (h₂ : isTrailingSurrogate second.toNat) (rest : List CodeUnit) :
    stringToCodePoints (first :: second :: rest) =
      utf16SurrogatePairToCodePoint first.toNat second.toNat :: stringToCodePoints rest := by
  simp [stringToCodePoints, h₁, h₂]

theorem stringToCodePoints_encode (c : Char) (rest : List CodeUnit) :
    stringToCodePoints (utf16EncodeCodePoint c.toNat ++ rest) = c.toNat :: stringToCodePoints rest := by
  have hScalar := scalar_cases c
  by_cases hBMP : c.toNat ≤ 0xFFFF
  · rw [utf16EncodeCodePoint, if_pos hBMP, List.singleton_append,
      stringToCodePoints_cons_of_not_leading (by simp [isLeadingSurrogate]; omega)]
    simp only [toNat_ofNat_codeUnit, List.cons.injEq, and_true]
    omega
  · rw [utf16EncodeCodePoint, if_neg hBMP, List.cons_append, List.cons_append, List.nil_append,
      stringToCodePoints_pair (by simp [isLeadingSurrogate]; omega) (by simp [isTrailingSurrogate]; omega)]
    simp only [toNat_ofNat_codeUnit, utf16SurrogatePairToCodePoint, List.cons.injEq, and_true]
    omega

theorem stringToCodePoints_codePointsToString (text : String) :
    stringToCodePoints (codePointsToString text) = text.data.map Char.toNat := by
  obtain ⟨chars⟩ := text
  induction chars with
  | nil => rfl
  | cons c chars ih =>
    rw [codePointsToString, List.flatMap_cons, stringToCodePoints_encode]
    exact congrArg _ ih

theorem isStringWellFormedUnicode_codePointsToString (text : String) :
    isStringWellFormedUnicode (codePointsToString text) := by
  rw [isStringWellFormedUnicode, stringToCodePoints_codePointsToString]
  simp only [List.all_eq_true, List.mem_map]
  rintro _ ⟨c, -, rfl⟩
  have := scalar_cases c
  simp [isSurrogate]
  omega

/-! ### Writing back what Web IDL converted -/

theorem codePointsToString_toUsvString_eq (string : List CodeUnit) :
    codePointsToString (toUsvString string) =
      (stringToCodePoints string).flatMap fun cp => utf16EncodeCodePoint (scalarValue cp).toNat :=
  List.flatMap_map _ _ _

theorem utf16EncodeCodePoint_scalarValue_unit {u : CodeUnit} (h : isSurrogate u.toNat = false) :
    utf16EncodeCodePoint (scalarValue u.toNat).toNat = [u] := by
  have hu := u.toNat_lt_size
  simp only [isSurrogate, Bool.and_eq_false_iff, decide_eq_false_iff_not, Nat.not_le] at h
  have hc : (Char.ofNat u.toNat).toNat = u.toNat :=
    toNat_ofNat_of_isValidChar (by unfold Nat.isValidChar; simp only [UInt16.size] at hu; omega)
  rw [scalarValue, if_neg (by simp [isSurrogate]; omega), hc, utf16EncodeCodePoint,
    if_pos (by simp only [UInt16.size] at hu; omega)]
  exact congrArg (· :: []) (UInt16.toNat.inj (by simp only [UInt16.size] at hu; simp; omega))

theorem utf16EncodeCodePoint_scalarValue_pair {first second : CodeUnit}
    (h₁ : isLeadingSurrogate first.toNat) (h₂ : isTrailingSurrogate second.toNat) :
    utf16EncodeCodePoint (scalarValue (utf16SurrogatePairToCodePoint first.toNat second.toNat)).toNat =
      [first, second] := by
  simp only [isLeadingSurrogate, isTrailingSurrogate, Bool.and_eq_true, decide_eq_true_eq] at h₁ h₂
  have hRange : 0x10000 ≤ utf16SurrogatePairToCodePoint first.toNat second.toNat ∧
      utf16SurrogatePairToCodePoint first.toNat second.toNat < 0x110000 := by
    unfold utf16SurrogatePairToCodePoint; omega
  have hc := toNat_ofNat_of_isValidChar (n := utf16SurrogatePairToCodePoint first.toNat second.toNat)
    (.inr ⟨by omega, hRange.2⟩)
  rw [scalarValue, if_neg (by simp [isSurrogate]; omega), hc, utf16EncodeCodePoint, if_neg (by omega)]
  unfold utf16SurrogatePairToCodePoint
  simp only [List.cons.injEq, and_true]
  exact ⟨UInt16.toNat.inj (by simp; omega), UInt16.toNat.inj (by simp; omega)⟩

theorem codePointsToString_toUsvString {string : List CodeUnit} (h : isStringWellFormedUnicode string) :
    codePointsToString (toUsvString string) = string := by
  induction string using stringToCodePoints.induct with
  | case1 => rfl
  | case2 first =>
    simp only [isStringWellFormedUnicode, stringToCodePoints, List.all_cons, List.all_nil,
      Bool.and_true, Bool.not_eq_true'] at h
    rw [codePointsToString_toUsvString_eq, stringToCodePoints, List.flatMap_singleton,
      utf16EncodeCodePoint_scalarValue_unit h]
  | case3 first second rest hPair ih =>
    rw [Bool.and_eq_true] at hPair
    have hCodePoints := stringToCodePoints_pair hPair.1 hPair.2 rest
    rw [isStringWellFormedUnicode, hCodePoints, List.all_cons, Bool.and_eq_true] at h
    rw [codePointsToString_toUsvString_eq, hCodePoints, List.flatMap_cons,
      utf16EncodeCodePoint_scalarValue_pair hPair.1 hPair.2, ← codePointsToString_toUsvString_eq, ih h.2]
    rfl
  | case4 first second rest hPair ih =>
    have hCodePoints : stringToCodePoints (first :: second :: rest) =
        first.toNat :: stringToCodePoints (second :: rest) := by
      rw [stringToCodePoints, if_neg hPair]
    rw [isStringWellFormedUnicode, hCodePoints, List.all_cons, Bool.and_eq_true, Bool.not_eq_true'] at h
    rw [codePointsToString_toUsvString_eq, hCodePoints, List.flatMap_cons,
      utf16EncodeCodePoint_scalarValue_unit h.1, ← codePointsToString_toUsvString_eq, ih h.2]
    rfl

theorem codePointsToString_toUsvString_eq_self_iff (string : List CodeUnit) :
    codePointsToString (toUsvString string) = string ↔ isStringWellFormedUnicode string :=
  ⟨fun h => h ▸ isStringWellFormedUnicode_codePointsToString _, codePointsToString_toUsvString⟩

theorem length_utf16EncodeCodePoint_scalarValue_unit (u : CodeUnit) :
    (utf16EncodeCodePoint (scalarValue u.toNat).toNat).length = 1 := by
  cases hSurrogate : isSurrogate u.toNat
  · rw [utf16EncodeCodePoint_scalarValue_unit hSurrogate]; rfl
  · rw [scalarValue, if_pos hSurrogate]; rfl

theorem length_codePointsToString_toUsvString (string : List CodeUnit) :
    (codePointsToString (toUsvString string)).length = string.length := by
  induction string using stringToCodePoints.induct with
  | case1 => rfl
  | case2 first =>
    rw [codePointsToString_toUsvString_eq, stringToCodePoints, List.flatMap_singleton,
      length_utf16EncodeCodePoint_scalarValue_unit]
    rfl
  | case3 first second rest hPair ih =>
    rw [Bool.and_eq_true] at hPair
    rw [codePointsToString_toUsvString_eq, stringToCodePoints_pair hPair.1 hPair.2, List.flatMap_cons,
      List.length_append, utf16EncodeCodePoint_scalarValue_pair hPair.1 hPair.2,
      ← codePointsToString_toUsvString_eq, ih]
    simp only [List.length_cons, List.length_nil]
    omega
  | case4 first second rest hPair ih =>
    rw [codePointsToString_toUsvString_eq, stringToCodePoints, if_neg hPair, List.flatMap_cons,
      List.length_append, length_utf16EncodeCodePoint_scalarValue_unit,
      ← codePointsToString_toUsvString_eq, ih]
    simp only [List.length_cons]
    omega

/-! ### The byte order mark -/

theorem scalarValue_eq_bom {cp : Nat} (h : cp < 0x110000) : scalarValue cp = '\uFEFF' ↔ cp = 0xFEFF := by
  unfold scalarValue
  split_ifs with hSurrogate
  · simp only [isSurrogate, Bool.and_eq_true, decide_eq_true_eq] at hSurrogate
    exact ⟨fun hEq => absurd hEq (by decide), fun hEq => by omega⟩
  · simp only [isSurrogate, Bool.and_eq_true, decide_eq_true_eq, not_and, Nat.not_le] at hSurrogate
    have hValid : cp.isValidChar := by unfold Nat.isValidChar; omega
    rw [← toNat_eq_bom, toNat_ofNat_of_isValidChar hValid]

theorem head_toUsvString_eq_bom (string : List CodeUnit) :
    (toUsvString string).data.head? = some '\uFEFF' ↔ string.head? = some 0xFEFF := by
  have hUnit : ∀ first : CodeUnit, first = 0xFEFF ↔ first.toNat = 0xFEFF :=
    fun first => ⟨fun h => h ▸ rfl, fun h => UInt16.toNat.inj h⟩
  match string with
  | [] => simp [toUsvString, stringToCodePoints]
  | [first] =>
    simp only [toUsvString, stringToCodePoints, List.map_cons, List.head?_cons, Option.some.injEq, hUnit]
    exact scalarValue_eq_bom (by have := first.toNat_lt_size; simp only [UInt16.size] at this; omega)
  | first :: second :: rest =>
    simp only [toUsvString, List.head?_cons, Option.some.injEq, hUnit]
    by_cases hPair : isLeadingSurrogate first.toNat && isTrailingSurrogate second.toNat
    · rw [Bool.and_eq_true] at hPair
      rw [stringToCodePoints_pair hPair.1 hPair.2, List.map_cons, List.head?_cons, Option.some.injEq]
      simp only [isLeadingSurrogate, isTrailingSurrogate, Bool.and_eq_true, decide_eq_true_eq] at hPair
      rw [scalarValue_eq_bom (by unfold utf16SurrogatePairToCodePoint; omega)]
      unfold utf16SurrogatePairToCodePoint
      omega
    · rw [stringToCodePoints, if_neg hPair, List.map_cons, List.head?_cons, Option.some.injEq]
      exact scalarValue_eq_bom (by have := first.toNat_lt_size; simp only [UInt16.size] at this; omega)

end RustLibs.Encoding
