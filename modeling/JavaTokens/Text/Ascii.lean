/-!
# Classes of ASCII bytes

No class holds the zero byte, so a run of any of them ends where the padding of a text begins.
-/

namespace JavaTokens.Ascii

def isDigit (b : UInt8) : Bool := '0'.toUInt8 ≤ b && b ≤ '9'.toUInt8

def isOctalDigit (b : UInt8) : Bool := '0'.toUInt8 ≤ b && b ≤ '7'.toUInt8

def isBinaryDigit (b : UInt8) : Bool := b == '0'.toUInt8 || b == '1'.toUInt8

def isHexDigit (b : UInt8) : Bool :=
  isDigit b || ('a'.toUInt8 ≤ b && b ≤ 'f'.toUInt8) || ('A'.toUInt8 ≤ b && b ≤ 'F'.toUInt8)

def isLowercase (b : UInt8) : Bool := 'a'.toUInt8 ≤ b && b ≤ 'z'.toUInt8

def isUppercase (b : UInt8) : Bool := 'A'.toUInt8 ≤ b && b ≤ 'Z'.toUInt8

def isLetter (b : UInt8) : Bool := isLowercase b || isUppercase b

/-- One of the two spellings of a letter given in lower case. -/
def isLetterOf (lower : Char) (b : UInt8) : Bool := b == lower.toUInt8 || b == lower.toUpper.toUInt8

def isSign (b : UInt8) : Bool := b == '+'.toUInt8 || b == '-'.toUInt8

/-- The letters `f` and `d`, which end a floating-point numeral. -/
def isFloatSuffix (b : UInt8) : Bool := isLetterOf 'f' b || isLetterOf 'd' b

/-- The bytes that may begin a Java word. -/
def isWordStart (b : UInt8) : Bool := isLetter b || b == '_'.toUInt8 || b == '$'.toUInt8

/-- The bytes that may stand in a Java word after its first. -/
def isWordPart (b : UInt8) : Bool := isWordStart b || isDigit b

/-- Space, tab and form feed: the blanks that do not end a line. -/
def isBlank (b : UInt8) : Bool := b == ' '.toUInt8 || b == '\t'.toUInt8 || b == 0x0C

def isLineEnd (b : UInt8) : Bool := b == '\n'.toUInt8 || b == '\r'.toUInt8

/-- The bytes at which the body of a string literal stops to be looked at. -/
def isStringStop (b : UInt8) : Bool := b == '"'.toUInt8 || b == '\\'.toUInt8 || isLineEnd b

/-! ## Numbers of classes -/

variable {b : UInt8}

theorem isDigit_iff : isDigit b = true ↔ 48 ≤ b.toNat ∧ b.toNat ≤ 57 := by
  simp only [isDigit, Bool.and_eq_true, decide_eq_true_eq]
  exact Iff.rfl

theorem isOctalDigit_iff : isOctalDigit b = true ↔ 48 ≤ b.toNat ∧ b.toNat ≤ 55 := by
  simp only [isOctalDigit, Bool.and_eq_true, decide_eq_true_eq]
  exact Iff.rfl

theorem isLowercase_iff : isLowercase b = true ↔ 97 ≤ b.toNat ∧ b.toNat ≤ 122 := by
  simp only [isLowercase, Bool.and_eq_true, decide_eq_true_eq]
  exact Iff.rfl

theorem isUppercase_iff : isUppercase b = true ↔ 65 ≤ b.toNat ∧ b.toNat ≤ 90 := by
  simp only [isUppercase, Bool.and_eq_true, decide_eq_true_eq]
  exact Iff.rfl

theorem isHexDigit_iff : isHexDigit b = true ↔
    ((48 ≤ b.toNat ∧ b.toNat ≤ 57) ∨ (97 ≤ b.toNat ∧ b.toNat ≤ 102)) ∨
      (65 ≤ b.toNat ∧ b.toNat ≤ 70) := by
  simp only [isHexDigit, Bool.or_eq_true, isDigit_iff, Bool.and_eq_true, decide_eq_true_eq]
  exact Iff.rfl

theorem beq_iff_toNat {c : UInt8} : (b == c) = true ↔ b.toNat = c.toNat := by
  rw [beq_iff_eq, UInt8.toNat_inj]

theorem isLetterOf_iff {lower : Char} : isLetterOf lower b = true ↔
    b.toNat = lower.toUInt8.toNat ∨ b.toNat = lower.toUpper.toUInt8.toNat := by
  simp only [isLetterOf, Bool.or_eq_true, beq_iff_toNat]

theorem isBinaryDigit_iff : isBinaryDigit b = true ↔ b.toNat = 48 ∨ b.toNat = 49 := by
  simp only [isBinaryDigit, Bool.or_eq_true, beq_iff_toNat]
  exact Iff.rfl

theorem isWordStart_iff : isWordStart b = true ↔
    (((97 ≤ b.toNat ∧ b.toNat ≤ 122) ∨ (65 ≤ b.toNat ∧ b.toNat ≤ 90)) ∨ b.toNat = 95) ∨
      b.toNat = 36 := by
  simp only [isWordStart, isLetter, Bool.or_eq_true, isLowercase_iff, isUppercase_iff,
    beq_iff_toNat]
  exact Iff.rfl

theorem isWordPart_iff : isWordPart b = true ↔
    ((((97 ≤ b.toNat ∧ b.toNat ≤ 122) ∨ (65 ≤ b.toNat ∧ b.toNat ≤ 90)) ∨ b.toNat = 95) ∨
      b.toNat = 36) ∨ (48 ≤ b.toNat ∧ b.toNat ≤ 57) := by
  rw [isWordPart, Bool.or_eq_true, isWordStart_iff, isDigit_iff]

theorem isBlank_iff : isBlank b = true ↔ (b.toNat = 32 ∨ b.toNat = 9) ∨ b.toNat = 12 := by
  simp only [isBlank, Bool.or_eq_true, beq_iff_toNat]
  exact Iff.rfl

theorem isLineEnd_iff : isLineEnd b = true ↔ b.toNat = 10 ∨ b.toNat = 13 := by
  simp only [isLineEnd, Bool.or_eq_true, beq_iff_toNat]
  exact Iff.rfl

end JavaTokens.Ascii
