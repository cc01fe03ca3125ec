import JavaTokens.Proofs.ByteLanguages
import JavaTokens.Proofs.Separators

/-!
# The grammar of numerals

Each form of numerals is a regular expression over characters.  The test for numerals takes every
part of a form as long as it can and never goes back.  It finds the words of the expression all the
same: what has to stand behind a run never goes on with the class of the run.  Only the letters `f`
and `d` behind the digits of a hexadecimal numeral do, and these may be taken for digits as well.

    the form of a text is the expression that it matches              (form?_eq_some_iff)
    a text of no form matches none, and no text matches two           (form?_recognises)
-/

namespace JavaTokens

open Text Ascii Computability
open Cut (oneByte run groups)

namespace Numeral

/-! ## Expressions -/

/-- Any one of the characters. -/
def oneOf (characters : String) : RegularExpression Char :=
  characters.toList.foldr (fun c e => .char c + e) 0

def many (e : RegularExpression Char) : RegularExpression Char := e * e.star

def optional (e : RegularExpression Char) : RegularExpression Char := 1 + e

/-- Runs of digits that are joined by single separators. -/
def grouped (digit : RegularExpression Char) : RegularExpression Char :=
  (many digit * oneOf "_").star * many digit

def digits : RegularExpression Char := many (oneOf "0123456789")

def exponentPart : RegularExpression Char := oneOf "eE" * optional (oneOf "+-") * digits

/-- A floating-point numeral without its suffix. -/
def FloatForm.expression : FloatForm → RegularExpression Char
  | .fraction => digits * oneOf "." * digits * optional exponentPart
  | .trailingDot => digits * oneOf "." * optional exponentPart
  | .leadingDot => oneOf "." * digits * optional exponentPart
  | .exponent => digits * exponentPart

def Form.expression : Form → RegularExpression Char
  | .hexadecimal =>
    oneOf "0" * oneOf "xX" * grouped (oneOf "0123456789abcdefABCDEF") * optional (oneOf "lLfFdD")
  | .binary => oneOf "0" * oneOf "bB" * grouped (oneOf "01") * optional (oneOf "lL")
  | .integer => grouped (oneOf "0123456789") * optional (oneOf "lLfFdD")
  | .float form => form.expression * optional (oneOf "fFdD")

/-! ## Words of bytes -/

/-- The characters that occur in an expression. -/
def characters : RegularExpression Char → List Char
  | .zero => []
  | .epsilon => []
  | .char c => [c]
  | .plus e f => characters e ++ characters f
  | .comp e f => characters e ++ characters f
  | .star e => characters e

theorem mem_characters {e : RegularExpression Char} {w : List Char} (h : w ∈ e.matches') :
    ∀ c ∈ w, c ∈ characters e := by
  induction e generalizing w with
  | zero => cases h
  | epsilon =>
    cases h
    exact nofun
  | char c =>
    cases h
    exact fun d hd => hd
  | plus e f ihe ihf =>
    intro c hc
    rw [characters, List.mem_append]
    rcases h with h | h
    · exact .inl (ihe h c hc)
    · exact .inr (ihf h c hc)
  | comp e f ihe ihf =>
    obtain ⟨u, hu, v, hv, rfl⟩ := h
    intro c hc
    rw [characters, List.mem_append]
    rcases List.mem_append.mp hc with hc | hc
    · exact .inl (ihe hu c hc)
    · exact .inr (ihf hv c hc)
  | star e ih =>
    obtain ⟨ws, rfl, hws⟩ := h
    intro c hc
    obtain ⟨v, hv, hcv⟩ := List.mem_flatten.mp hc
    exact ih (hws v hv) c hcv

/-- The words of an expression as bytes, one for each character. -/
def byteWords (e : RegularExpression Char) : Language UInt8 := (e.map Char.toUInt8).matches'

/-- What holds of the characters of a text holds of its bytes as long as an expression has none but
ASCII characters. -/
theorem bytes_mem_byteWords {e : RegularExpression Char} {text : String}
    (he : ∀ c ∈ characters e, c.toNat < 0x80) :
    bytes text ∈ byteWords e ↔ text.toList ∈ e.matches' := by
  have hbytes {w : List Char} (hw : w ∈ e.matches') :
      w.flatMap String.utf8EncodeChar = w.map Char.toUInt8 := by
    rw [List.map_eq_flatMap, List.flatMap_congr]
    intro c hc
    obtain ⟨-, hone⟩ | ⟨hle, -⟩ := utf8EncodeChar_cases c
    · exact hone
    · have hlt := he c (mem_characters hw c hc)
      omega
  rw [byteWords, RegularExpression.matches'_map]
  constructor
  · rintro ⟨w, hw, hmap⟩
    have htext : bytes (String.ofList w) = bytes text := by
      rw [bytes, String.toList_ofList, hbytes hw]
      exact hmap
    rwa [← bytes_inj htext, String.toList_ofList]
  · intro h
    exact ⟨text.toList, h, (hbytes h).symm⟩

theorem byteWords_mul (e f : RegularExpression Char) :
    byteWords (e * f) = byteWords e * byteWords f := rfl

theorem byteWords_optional (e : RegularExpression Char) :
    byteWords (optional e) = 1 + byteWords e := rfl

/-- Whether the bytes of the class are those of the characters. -/
def isClassOf (characters : String) (p : UInt8 → Bool) : Bool :=
  let bytes := characters.toList.map Char.toUInt8
  bytes.all p && (List.range 256).all fun n => !p (UInt8.ofNat n) || bytes.contains (UInt8.ofNat n)

theorem mem_byteWords_foldr {l : List Char} {w : List UInt8} :
    w ∈ byteWords (l.foldr (fun c e => .char c + e) 0) ↔ ∃ c ∈ l, w = [c.toUInt8] := by
  induction l with
  | nil =>
    constructor
    · intro h
      cases h
    · rintro ⟨c, hc, -⟩
      cases hc
  | cons c l ih =>
    simp only [List.mem_cons, exists_eq_or_imp, ← ih]
    exact Iff.rfl

theorem byteWords_oneOf {cs : String} {p : UInt8 → Bool} (h : isClassOf cs p = true) :
    byteWords (oneOf cs) = oneByte p := by
  unfold isClassOf at h
  rw [Bool.and_eq_true, List.all_eq_true, List.all_eq_true] at h
  ext w
  rw [oneOf, mem_byteWords_foldr]
  constructor
  · rintro ⟨c, hc, rfl⟩
    exact ⟨c.toUInt8, h.1 _ (List.mem_map_of_mem hc), rfl⟩
  · rintro ⟨b, hb, rfl⟩
    have hmem := h.2 b.toNat (List.mem_range.mpr b.toNat_lt)
    rw [UInt8.ofNat_toNat, hb, Bool.not_true, Bool.false_or, List.contains_iff_mem,
      List.mem_map] at hmem
    obtain ⟨c, hc, rfl⟩ := hmem
    exact ⟨c, hc, rfl⟩

theorem byteWords_grouped {digit : RegularExpression Char} {p : UInt8 → Bool}
    (hdigit : byteWords digit = oneByte p) : byteWords (grouped digit) = groups p := by
  have hseparator : byteWords (oneOf "_") = oneByte (· == '_'.toUInt8) :=
    byteWords_oneOf (by decide +kernel)
  show (byteWords digit * (byteWords digit)∗ * byteWords (oneOf "_"))∗ *
    (byteWords digit * (byteWords digit)∗) = _
  rw [hdigit, hseparator]
  rfl

theorem byteWords_decimal : byteWords (oneOf "0123456789") = oneByte isDigit :=
  byteWords_oneOf (by decide +kernel)

theorem byteWords_digits : byteWords digits = run isDigit := by
  show byteWords (oneOf "0123456789") * (byteWords (oneOf "0123456789"))∗ = _
  rw [byteWords_decimal]
  rfl

theorem byteWords_exponentPart : byteWords exponentPart =
    oneByte (isLetterOf 'e') * (1 + oneByte isSign) * run isDigit := by
  have hmark : byteWords (oneOf "eE") = oneByte (isLetterOf 'e') :=
    byteWords_oneOf (by decide +kernel)
  have hsign : byteWords (oneOf "+-") = oneByte isSign := byteWords_oneOf (by decide +kernel)
  rw [exponentPart, byteWords_mul, byteWords_mul, byteWords_optional, hmark, hsign,
    byteWords_digits]

end Numeral

namespace Cut

open Numeral

variable {s t : List UInt8} {L : Language UInt8} {form : FloatForm} {mark : Char}

/-! ## Classes apart -/

theorem forall_isLetterOf {P : UInt8 → Prop} {lower : Char} (hlower : P lower.toUInt8)
    (hupper : P lower.toUpper.toUInt8) : ∀ b, isLetterOf lower b = true → P b := by
  intro b hb
  rw [isLetterOf, Bool.or_eq_true, beq_iff_eq, beq_iff_eq] at hb
  rcases hb with rfl | rfl
  · exact hlower
  · exact hupper

theorem not_isDigit_of_isFloatSuffix (b : UInt8) (hb : isFloatSuffix b = true) :
    isDigit b = false := by
  rcases (Bool.or_eq_true _ _).mp hb with hb | hb
  · exact forall_isLetterOf (P := (isDigit · = false)) rfl rfl b hb
  · exact forall_isLetterOf (P := (isDigit · = false)) rfl rfl b hb

/-- The letter of an exponent ends no numeral. -/
theorem not_isExponentMark_of_isFloatSuffix (b : UInt8) (hb : isFloatSuffix b = true) :
    isLetterOf 'e' b = false := by
  rcases (Bool.or_eq_true _ _).mp hb with hb | hb
  · exact forall_isLetterOf (P := (isLetterOf 'e' · = false)) rfl rfl b hb
  · exact forall_isLetterOf (P := (isLetterOf 'e' · = false)) rfl rfl b hb

theorem not_isSign_of_isDigit (b : UInt8) (hb : isDigit b = true) : isSign b = false := by
  rw [isDigit_iff] at hb
  rw [Bool.eq_false_iff, isSign, Ne, Bool.or_eq_true, beq_iff_toNat, beq_iff_toNat]
  show ¬ (b.toNat = 43 ∨ b.toNat = 45)
  omega

/-- The marks behind the whole part of a floating-point numeral. -/
def isFloatMark (b : UInt8) : Bool := b == '.'.toUInt8 || isLetterOf 'e' b

theorem forall_isFloatMark {P : UInt8 → Prop} (hdot : P '.'.toUInt8) (hlower : P 'e'.toUInt8)
    (hupper : P 'E'.toUInt8) : ∀ b, isFloatMark b = true → P b := by
  intro b hb
  rcases (Bool.or_eq_true _ _).mp hb with hb | hb
  · exact eq_of_beq hb ▸ hdot
  · exact forall_isLetterOf hlower hupper b hb

/-! ## Floating-point numerals -/

/-- What may end a floating-point numeral behind its mantissa. -/
def floatWords : Language UInt8 := (1 + byteWords exponentPart) * (1 + oneByte isFloatSuffix)

theorem mem_exponentPart_mul : s ∈ byteWords exponentPart * (1 + oneByte isFloatSuffix) ↔
    begins (isLetterOf 'e') s = true ∧ endsFloat s = true := by
  have hdigits : ∀ w ∈ 1 + oneByte isFloatSuffix, begins isDigit w = false :=
    not_begins_optional not_isDigit_of_isFloatSuffix
  have hsign : ∀ w ∈ run isDigit * (1 + oneByte isFloatSuffix), begins isSign w = false :=
    not_begins_run_mul not_isSign_of_isDigit
  rw [byteWords_exponentPart, mul_assoc, mul_assoc]
  rcases s with _ | ⟨b, s⟩
  · constructor
    · intro h
      exact absurd h nil_notMem_oneByte_mul
    · rintro ⟨h, -⟩
      cases h
  · rw [cons_mem_oneByte_mul, mem_optional_mul hsign, mem_run_mul hdigits, mem_optional,
      begins_cons]
    refine and_congr_right fun hb => ?_
    rw [endsFloat, afterExponent?, if_pos hb, dropSign_eq, afterDigits?]
    split
    · next hd => exact and_iff_right hd
    · next hd => exact ⟨fun h => absurd h.1 hd, fun h => absurd h Bool.false_ne_true⟩

theorem mem_floatWords : s ∈ floatWords ↔ endsFloat s = true := by
  rw [floatWords, add_mul, one_mul, Language.mem_add, mem_exponentPart_mul, mem_optional]
  have hnone (he : begins (isLetterOf 'e') s = false) : afterExponent? s = some s := by
    rcases s with _ | ⟨b, s⟩
    · rfl
    · exact if_neg (Bool.eq_false_iff.mp he)
  constructor
  · rintro (h | ⟨-, h⟩)
    · have he : begins (isLetterOf 'e') s = false :=
        not_begins_optional not_isExponentMark_of_isFloatSuffix s (mem_optional.mpr h)
      rw [endsFloat, hnone he]
      exact h
    · exact h
  · intro h
    cases he : begins (isLetterOf 'e') s with
    | true => exact .inr ⟨rfl, h⟩
    | false =>
      rw [endsFloat, hnone he] at h
      exact .inl h

theorem not_begins_floatWords : ∀ w ∈ floatWords, begins isDigit w = false := by
  rw [floatWords, add_mul, one_mul]
  rintro w (hw | hw)
  · exact not_begins_optional not_isDigit_of_isFloatSuffix w hw
  · rw [byteWords_exponentPart, mul_assoc, mul_assoc] at hw
    exact not_begins_oneByte_mul (forall_isLetterOf rfl rfl) w hw

theorem mem_dot_mul : s ∈ oneByte (· == '.'.toUInt8) * L ↔ ∃ t, s = '.'.toUInt8 :: t ∧ t ∈ L := by
  rw [mem_oneByte_mul]
  constructor
  · rintro ⟨b, t, rfl, hb, ht⟩
    rw [eq_of_beq hb]
    exact ⟨t, rfl, ht⟩
  · rintro ⟨t, rfl, ht⟩
    exact ⟨_, t, rfl, rfl, ht⟩

theorem mem_run_dot_mul : s ∈ run isDigit * (oneByte (· == '.'.toUInt8) * L) ↔
    begins isDigit s = true ∧ ∃ t, s.dropWhile isDigit = '.'.toUInt8 :: t ∧ t ∈ L := by
  have hdot : ∀ b : UInt8, (b == '.'.toUInt8) = true → isDigit b = false := by
    intro b hb
    rw [eq_of_beq hb]
    rfl
  rw [mem_run_mul (not_begins_oneByte_mul hdot), mem_dot_mul]

theorem byteWords_dot : byteWords (oneOf ".") = oneByte (· == '.'.toUInt8) :=
  byteWords_oneOf (by decide +kernel)

theorem mem_mantissa_mul : s ∈ byteWords form.expression * (1 + oneByte isFloatSuffix) ↔
    ∃ t, Mantissa form s t ∧ endsFloat t = true := by
  have hend := not_begins_floatWords
  cases form with
  | fraction =>
    rw [FloatForm.expression, byteWords_mul, byteWords_mul, byteWords_mul, byteWords_optional,
      byteWords_digits, byteWords_dot, mul_assoc, mul_assoc, mul_assoc, ← floatWords,
      mem_run_dot_mul]
    constructor
    · rintro ⟨hs, r, hr, hrun⟩
      rw [mem_run_mul hend, mem_floatWords] at hrun
      exact ⟨_, .fraction hs hr hrun.1, hrun.2⟩
    · rintro ⟨t, hmantissa, ht⟩
      cases hmantissa with
      | fraction hs hr hd =>
        exact ⟨hs, _, hr, (mem_run_mul hend).mpr ⟨hd, mem_floatWords.mpr ht⟩⟩
  | trailingDot =>
    rw [FloatForm.expression, byteWords_mul, byteWords_mul, byteWords_optional, byteWords_digits,
      byteWords_dot, mul_assoc, mul_assoc, ← floatWords, mem_run_dot_mul]
    constructor
    · rintro ⟨hs, r, hr, hmem⟩
      exact ⟨r, .trailingDot hs hr (hend r hmem), mem_floatWords.mp hmem⟩
    · rintro ⟨t, hmantissa, ht⟩
      cases hmantissa with
      | trailingDot hs hr hd => exact ⟨hs, t, hr, mem_floatWords.mpr ht⟩
  | leadingDot =>
    rw [FloatForm.expression, byteWords_mul, byteWords_mul, byteWords_optional, byteWords_digits,
      byteWords_dot, mul_assoc, mul_assoc, ← floatWords, mem_dot_mul]
    constructor
    · rintro ⟨r, rfl, hrun⟩
      rw [mem_run_mul hend, mem_floatWords] at hrun
      exact ⟨_, .leadingDot hrun.1, hrun.2⟩
    · rintro ⟨t, hmantissa, ht⟩
      cases hmantissa with
      | leadingDot hd => exact ⟨_, rfl, (mem_run_mul hend).mpr ⟨hd, mem_floatWords.mpr ht⟩⟩
  | exponent =>
    have hexponent : ∀ w ∈ byteWords exponentPart * (1 + oneByte isFloatSuffix),
        begins isDigit w = false := fun w hw => hend w (by
      rw [floatWords, add_mul]
      exact .inr hw)
    rw [FloatForm.expression, byteWords_mul, byteWords_digits, mul_assoc, mem_run_mul hexponent,
      mem_exponentPart_mul]
    constructor
    · rintro ⟨hs, he, ht⟩
      exact ⟨_, .exponent hs rfl he, ht⟩
    · rintro ⟨t, hmantissa, ht⟩
      cases hmantissa with
      | exponent hs hr he =>
        rw [hr]
        exact ⟨hs, he, ht⟩

/-! ## Forms -/

theorem mem_radix_mul :
    s ∈ oneByte (· == '0'.toUInt8) * (oneByte (isLetterOf mark) * L) ↔
      ∃ t, afterRadix? mark s = some t ∧ t ∈ L := by
  constructor
  · intro h
    obtain ⟨b, t, rfl, hb, ht⟩ := mem_oneByte_mul.mp h
    obtain ⟨x, t, rfl, hx, ht⟩ := mem_oneByte_mul.mp ht
    refine ⟨t, ?_, ht⟩
    rw [afterRadix?, hb, hx]
    rfl
  · rintro ⟨t, hradix, ht⟩
    obtain ⟨x, rfl, hx⟩ := eq_of_afterRadix? hradix
    exact cons_mem_oneByte_mul.mpr ⟨rfl, cons_mem_oneByte_mul.mpr ⟨hx, ht⟩⟩

/-- A radix mark is the first byte behind the decimal digits. -/
theorem afterRadix?_eq_none (hmark : ∀ b, isLetterOf mark b = true → isDigit b = false)
    (h : begins (isLetterOf mark) (s.dropWhile isDigit) = false) : afterRadix? mark s = none := by
  cases hradix : afterRadix? mark s with
  | none => rfl
  | some t =>
    obtain ⟨x, rfl, hx⟩ := eq_of_afterRadix? hradix
    have hrest : (x :: t).dropWhile isDigit = x :: t := dropWhile_of_not_begins (hmark x hx)
    rw [List.dropWhile_cons_of_pos rfl, hrest, begins_cons, hx] at h
    cases h

theorem begins_of_afterRadix? (hmark : ∀ b, isLetterOf mark b = true → isDigit b = false)
    (h : afterRadix? mark s = some t) : begins (isLetterOf mark) (s.dropWhile isDigit) = true := by
  rw [← Bool.not_eq_false]
  intro hnot
  rw [afterRadix?_eq_none hmark hnot] at h
  cases h

theorem Mantissa.begins_isFloatMark (h : Mantissa form s t) :
    begins isFloatMark (s.dropWhile isDigit) = true := by
  cases h with
  | fraction hs hr hd | trailingDot hs hr hd =>
    rw [hr]
    rfl
  | leadingDot hd =>
    rw [List.dropWhile_cons_of_neg (by decide)]
    rfl
  | exponent hs hr he =>
    obtain ⟨b, r, rfl, hb⟩ := exists_cons_of_begins he
    rw [hr, begins_cons, isFloatMark, hb, Bool.or_true]

/-- Behind the digits of an integer no mark of another form stands. -/
theorem not_begins_of_isGrouped {m : UInt8 → Bool} (h : isGrouped isDigit isNumberSuffix s = true)
    (hm : ∀ b, m b = true → b ≠ '_'.toUInt8 ∧ isNumberSuffix b = false) :
    begins m (s.dropWhile isDigit) = false := by
  rw [Bool.eq_false_iff]
  intro hmark
  obtain ⟨b, t, hrest, hb⟩ := exists_cons_of_begins hmark
  obtain ⟨hseparator, hnot⟩ := hm b hb
  have hgroups : groupsRest isDigit s = b :: t := by
    rw [groupsRest_eq_dropWhile, hrest]
    rw [hrest]
    exact beq_eq_false_iff_ne.mpr hseparator
  unfold isGrouped afterGroups? at h
  split at h
  · rw [hgroups, Option.any_some, isSuffix_iff] at h
    rcases h with h | ⟨c, h, hc⟩
    · cases h
    · cases h
      rw [hc] at hnot
      cases hnot
  · cases h

/-- The forms are tried one after the other, but what stands behind the digits tells them apart. -/
theorem Admits.formOfBytes?_eq {form : Form} (h : Admits form s) : formOfBytes? s = some form := by
  have hnone {mark : Char} {m : UInt8 → Bool}
      (hdigit : ∀ b, isLetterOf mark b = true → isDigit b = false)
      (hm : ∀ b, m b = true → isLetterOf mark b = false)
      (hs : begins m (s.dropWhile isDigit) = true) : afterRadix? mark s = none := by
    refine afterRadix?_eq_none hdigit ?_
    obtain ⟨b, r, hr, hb⟩ := exists_cons_of_begins hs
    rw [hr]
    exact hm b hb
  have hx : ∀ b, isLetterOf 'x' b = true → isDigit b = false := forall_isLetterOf rfl rfl
  have hb : ∀ b, isLetterOf 'b' b = true → isDigit b = false := forall_isLetterOf rfl rfl
  cases h with
  | hexadecimal hradix hgrouped =>
    simp only [formOfBytes?, hradix, if_pos hgrouped]
  | binary hradix hgrouped =>
    have hx := hnone hx (forall_isLetterOf rfl rfl) (begins_of_afterRadix? hb hradix)
    simp only [formOfBytes?, hx, hradix, Option.any_some, if_pos hgrouped]
  | integer hgrouped =>
    have hx := afterRadix?_eq_none hx
      (not_begins_of_isGrouped hgrouped (forall_isLetterOf ⟨by decide, rfl⟩ ⟨by decide, rfl⟩))
    have hb := afterRadix?_eq_none hb
      (not_begins_of_isGrouped hgrouped (forall_isLetterOf ⟨by decide, rfl⟩ ⟨by decide, rfl⟩))
    simp only [formOfBytes?, hx, hb, Option.any_none, Bool.false_eq_true, if_false, if_pos hgrouped]
  | float hmantissa ht =>
    have hmark := hmantissa.begins_isFloatMark
    have hx := hnone hx (forall_isFloatMark rfl rfl rfl) hmark
    have hb := hnone hb (forall_isFloatMark rfl rfl rfl) hmark
    have hinteger : ¬ isGrouped isDigit isNumberSuffix s = true := by
      intro h
      rw [not_begins_of_isGrouped h (forall_isFloatMark ⟨by decide, rfl⟩ ⟨by decide, rfl⟩
        ⟨by decide, rfl⟩)] at hmark
      cases hmark
    simp only [formOfBytes?, hx, hb, Option.any_none, Bool.false_eq_true, if_false,
      if_neg hinteger, hmantissa.floatForm?_eq ht, Option.map_some]

theorem byteWords_numberSuffix : byteWords (oneOf "lLfFdD") = oneByte isNumberSuffix :=
  byteWords_oneOf (by decide +kernel)

theorem byteWords_zero : byteWords (oneOf "0") = oneByte (· == '0'.toUInt8) :=
  byteWords_oneOf (by decide +kernel)

theorem mem_byteWords_iff_admits {form : Form} : s ∈ byteWords form.expression ↔ Admits form s := by
  cases form with
  | hexadecimal =>
    have hmark : byteWords (oneOf "xX") = oneByte (isLetterOf 'x') :=
      byteWords_oneOf (by decide +kernel)
    have hdigit : byteWords (oneOf "0123456789abcdefABCDEF") = oneByte isHexDigit :=
      byteWords_oneOf (by decide +kernel)
    rw [Form.expression, byteWords_mul, byteWords_mul, byteWords_mul, byteWords_optional,
      byteWords_zero, hmark, byteWords_grouped hdigit, byteWords_numberSuffix, mul_assoc, mul_assoc,
      mem_radix_mul]
    constructor
    · rintro ⟨t, hradix, ht⟩
      exact .hexadecimal hradix (mem_groups_mul.mp ht)
    · intro h
      cases h with
      | hexadecimal hradix ht => exact ⟨_, hradix, mem_groups_mul.mpr ht⟩
  | binary =>
    have hmark : byteWords (oneOf "bB") = oneByte (isLetterOf 'b') :=
      byteWords_oneOf (by decide +kernel)
    have hdigit : byteWords (oneOf "01") = oneByte isBinaryDigit :=
      byteWords_oneOf (by decide +kernel)
    have hsuffix : byteWords (oneOf "lL") = oneByte (isLetterOf 'l') :=
      byteWords_oneOf (by decide +kernel)
    rw [Form.expression, byteWords_mul, byteWords_mul, byteWords_mul, byteWords_optional,
      byteWords_zero, hmark, byteWords_grouped hdigit, hsuffix, mul_assoc, mul_assoc,
      mem_radix_mul]
    constructor
    · rintro ⟨t, hradix, ht⟩
      exact .binary hradix (mem_groups_mul.mp ht)
    · intro h
      cases h with
      | binary hradix ht => exact ⟨_, hradix, mem_groups_mul.mpr ht⟩
  | integer =>
    rw [Form.expression, byteWords_mul, byteWords_optional, byteWords_grouped byteWords_decimal,
      byteWords_numberSuffix, mem_groups_mul]
    constructor
    · exact .integer
    · intro h
      cases h with
      | integer ht => exact ht
  | float form =>
    have hsuffix : byteWords (oneOf "fFdD") = oneByte isFloatSuffix :=
      byteWords_oneOf (by decide +kernel)
    rw [Form.expression, byteWords_mul, byteWords_optional, hsuffix, mem_mantissa_mul]
    constructor
    · rintro ⟨t, hmantissa, ht⟩
      exact .float hmantissa ht
    · intro h
      cases h with
      | float hmantissa ht => exact ⟨_, hmantissa, ht⟩

theorem formOfBytes?_eq_some_iff {form : Form} :
    formOfBytes? s = some form ↔ s ∈ byteWords form.expression := by
  rw [mem_byteWords_iff_admits]
  exact ⟨admits_of_formOfBytes?, Admits.formOfBytes?_eq⟩

end Cut

/-! ## Main result -/

namespace Numeral

theorem ascii_of_mem_characters (form : Form) :
    ∀ c ∈ characters form.expression, c.toNat < 0x80 := by
  have hall : ((characters form.expression).all fun c => c.toNat < 0x80) = true := by
    rcases form with _ | _ | _ | (_ | _ | _ | _)
    all_goals decide +kernel
  intro c hc
  exact of_decide_eq_true (List.all_eq_true.mp hall c hc)

/-- The form that the test finds is the form whose expression the text matches. -/
theorem form?_eq_some_iff {text : String} {form : Form} :
    form? text = some form ↔ text.toList ∈ form.expression.matches' := by
  rw [← bytes_mem_byteWords (ascii_of_mem_characters form)]
  exact Cut.formOfBytes?_eq_some_iff

/-- The test for numerals recognises their grammar: it finds a form just where the text matches its
expression, and none where the text matches no expression.  No text matches two. -/
theorem form?_recognises :
    (∀ (text : String) (form : Form),
      form? text = some form ↔ text.toList ∈ form.expression.matches') ∧
    (∀ text : String,
      form? text = none ↔ ∀ form : Form, text.toList ∉ form.expression.matches') ∧
    Pairwise fun f g : Form =>
      ∀ w : List Char, ¬ (w ∈ f.expression.matches' ∧ w ∈ g.expression.matches') := by
  refine ⟨fun text form => form?_eq_some_iff, ?_, ?_⟩
  · intro text
    simp only [← form?_eq_some_iff, Option.eq_none_iff_forall_ne_some]
  · rintro f g hne w ⟨hf, hg⟩
    have hword {form : Form} (h : w ∈ form.expression.matches') :
        form? (String.ofList w) = some form := by
      rwa [form?_eq_some_iff, String.toList_ofList]
    exact hne (Option.some.inj ((hword hf).symm.trans (hword hg)))

end Numeral

end JavaTokens
