import JavaTokens.Proofs.Kind.Numeral
import JavaTokens.Proofs.PlainBytes

/-!
# Separators of numerals

The test for numerals knows separators in digits of every radix, and reading knows none.  Between
the two a numeral is made plain, which leaves out separators between decimal digits, and not even
all of these.  Reading does the same with every form that is left: it reads a numeral up to the first
separator.

    a numeral is digits in groups, and a suffix                       (exists_groups_of_isGrouped)
    or digits and a mantissa, by its form                             (spelled_of_form)
    it is read up to its first separator                              (Spelled.stopsAtSeparator)
    and so it is when it is made plain                                (stopsAtSeparator_of_form)
-/

namespace JavaTokens.Cut

open Text Ascii Lexeme Numeral

variable {b : UInt8} {p q : UInt8 → Bool} {s w g e : List UInt8}

/-! ## Groups of digits -/

/-- Digits of a class and separators, the first of them a digit. -/
structure IsGroups (p : UInt8 → Bool) (g : List UInt8) : Prop where
  begins : begins p g = true
  mem : ∀ b ∈ g, p b = true ∨ b = '_'.toUInt8

theorem takes_groupsRest (p : UInt8 → Bool) (s : List UInt8) :
    Takes (fun b => p b || b == '_'.toUInt8) s (groupsRest p s) := by
  fun_induction groupsRest p s with
  | case1 => exact .refl _ []
  | case2 b rest hb ih => exact .cons (by rw [hb, Bool.true_or]) ih
  | case3 b rest hb hseparator ih =>
    rw [Bool.and_eq_true] at hseparator
    exact .cons (by rw [hseparator.1, Bool.or_true]) ih
  | case4 b rest hb hseparator => exact .refl _ _

theorem begins_groupsRest (p : UInt8 → Bool) (s : List UInt8) :
    begins p (groupsRest p s) = false := by
  fun_induction groupsRest p s with
  | case1 => rfl
  | case2 b rest hb ih => exact ih
  | case3 b rest hb hseparator ih => exact ih
  | case4 b rest hb hseparator => exact Bool.eq_false_iff.mpr hb

theorem exists_groups_of_isGrouped (h : isGrouped p q s = true) :
    ∃ g e, s = g ++ e ∧ IsGroups p g ∧ isSuffix q e = true ∧ begins p e = false := by
  unfold isGrouped afterGroups? at h
  split at h
  · next hs =>
    obtain ⟨g, hg, hmem⟩ := takes_groupsRest p s
    have hend := begins_groupsRest p s
    refine ⟨g, groupsRest p s, hg, ⟨?_, ?_⟩, h, hend⟩
    · rcases g with _ | ⟨b, g⟩
      · rw [List.nil_append] at hg
        rw [← hg] at hend
        exact absurd hs (Bool.eq_false_iff.mp hend)
      · rw [hg] at hs
        exact hs
    · intro b hb
      have hclass := hmem b hb
      rwa [Bool.or_eq_true, beq_iff_eq] at hclass
  · cases h

/-- Separators that are left out leave groups of digits. -/
theorem IsGroups.plainBytes (hg : IsGroups p g) : IsGroups p (plainBytes g) where
  begins := by
    rw [JavaTokens.begins, head?_plainBytes]
    exact hg.begins
  mem b hb := hg.mem b ((plainBytes_sublist g).subset hb)

/-! ## Suffixes -/

theorem isNumberSuffix_iff : isNumberSuffix b = true ↔
    (b.toNat = 108 ∨ b.toNat = 76) ∨ (b.toNat = 102 ∨ b.toNat = 70) ∨ b.toNat = 100 ∨
      b.toNat = 68 := by
  simp only [isNumberSuffix, isFloatSuffix, Bool.or_eq_true, isLetterOf_iff]
  exact Iff.rfl

theorem isSeparate_of_isNumberSuffix (h : isNumberSuffix b = true) : isSeparate b = true := by
  have hdigit : isDigit b = false := by
    rw [isNumberSuffix_iff] at h
    rw [Bool.eq_false_iff, Ne, isDigit_iff]
    omega
  have hseparator : b ≠ '_'.toUInt8 := by
    rintro rfl
    cases h
  have hmark : b ≠ 'b'.toUInt8 := by
    rintro rfl
    cases h
  rw [isSeparate, hdigit, bne_iff_ne.mpr hseparator, bne_iff_ne.mpr hmark]
  rfl

theorem isSuffix_iff : isSuffix q e = true ↔ e = [] ∨ ∃ b, e = [b] ∧ q b = true := by
  rcases e with _ | ⟨b, _ | ⟨c, e⟩⟩ <;> simp [isSuffix]

theorem dropOne_of_isSuffix (he : isSuffix q e = true) : dropOne q e = [] := by
  rcases isSuffix_iff.mp he with rfl | ⟨b, rfl, hb⟩
  · rfl
  · exact if_pos hb

/-- A suffix is kept, and the digits before it are made plain on their own. -/
theorem plainBytes_append_suffix (he : isSuffix isNumberSuffix e = true) (g : List UInt8) :
    plainBytes (g ++ e) = plainBytes g ++ e := by
  rcases isSuffix_iff.mp he with rfl | ⟨b, rfl, hb⟩
  · rw [List.append_nil, List.append_nil]
  · exact plainBytes_append_cons (isSeparate_of_isNumberSuffix hb) g []

theorem isSuffix_isNumberSuffix (he : isSuffix (isLetterOf 'l') e = true) :
    isSuffix isNumberSuffix e = true :=
  isSuffix_mono (fun b hb => by rw [isNumberSuffix, hb, Bool.true_or]) he

/-! ## Readings that stop at a separator -/

/-- What stands from the first separator on. -/
def fromSeparator (s : List UInt8) : List UInt8 := s.dropWhile (· != '_'.toUInt8)

/-- Up to the first separator a numeral is read, and from there on nothing but letters and digits
stand. -/
structure StopsAtSeparator (s : List UInt8) : Prop where
  first : ∃ shape, first s = ⟨.numeral shape, fromSeparator s⟩
  isWordPart : ∀ b ∈ fromSeparator s, isWordPart b = true

theorem fromSeparator_append (h : '_'.toUInt8 ∉ s) (t : List UInt8) :
    fromSeparator (s ++ t) = fromSeparator t := by
  refine List.dropWhile_append_of_pos fun b hb => ?_
  rw [bne_iff_ne]
  rintro rfl
  exact h hb

theorem fromSeparator_eq_nil (h : '_'.toUInt8 ∉ s) : fromSeparator s = [] := by
  have hsplit := fromSeparator_append h []
  rwa [List.append_nil] at hsplit

theorem stopsAtSeparator_of_not_mem {shape : NumeralShape} (hs : '_'.toUInt8 ∉ s)
    (hfirst : first s = ⟨.numeral shape, []⟩) : StopsAtSeparator s := by
  rw [← fromSeparator_eq_nil hs] at hfirst
  refine ⟨⟨shape, hfirst⟩, ?_⟩
  rw [fromSeparator_eq_nil hs]
  exact nofun

/-- The digits up to the first separator end before a suffix or at that separator. -/
theorem IsGroups.dropWhile_cases (hg : IsGroups p g) (hp : p '_'.toUInt8 = false)
    (he : '_'.toUInt8 ∉ e) (hpe : JavaTokens.begins p e = false) :
    ((g ++ e).dropWhile p = e ∧ fromSeparator (g ++ e) = []) ∨
      ∃ r, (g ++ e).dropWhile p = '_'.toUInt8 :: r ∧
        fromSeparator (g ++ e) = '_'.toUInt8 :: r := by
  have hdigits : '_'.toUInt8 ∉ g.takeWhile p := by
    intro hmem
    rw [List.mem_takeWhile_imp hmem] at hp
    cases hp
  have hsplit := List.takeWhile_append_dropWhile (p := p) (l := g)
  cases hr : g.dropWhile p with
  | nil =>
    left
    rw [hr, List.append_nil] at hsplit
    rw [hsplit] at hdigits
    constructor
    · rw [List.dropWhile_append, hr, List.isEmpty_nil, if_pos rfl, dropWhile_of_not_begins hpe]
    · rw [fromSeparator_append hdigits, fromSeparator_eq_nil he]
  | cons b r =>
    right
    have hb : b = '_'.toUInt8 := by
      have hnot := begins_dropWhile p g
      rw [hr, begins_cons] at hnot
      refine (hg.mem b ?_).resolve_left (Bool.eq_false_iff.mp hnot)
      exact (List.dropWhile_sublist p).subset (by rw [hr]; exact List.mem_cons_self)
    subst hb
    rw [hr] at hsplit
    refine ⟨r ++ e, ?_, ?_⟩
    · rw [List.dropWhile_append, hr, List.isEmpty_cons, if_neg Bool.false_ne_true,
        List.cons_append]
    · rw [← hsplit, List.append_assoc, fromSeparator_append hdigits]
      rfl

/-- Digits and a suffix are read up to the first separator if they are read so by the digits. -/
theorem IsGroups.stopsAtSeparator {m : List UInt8} (hg : IsGroups p g)
    (hp : ∀ b, p b = true → isWordPart b = true) (hp' : p '_'.toUInt8 = false)
    (hm : '_'.toUInt8 ∉ m) (he : isSuffix isNumberSuffix e = true)
    (hpe : JavaTokens.begins p e = false)
    (hend : (g ++ e).dropWhile p = e →
      ∃ shape, Cut.first (m ++ (g ++ e)) = ⟨.numeral shape, []⟩)
    (hsep : ∀ r, (g ++ e).dropWhile p = '_'.toUInt8 :: r →
      ∃ shape, Cut.first (m ++ (g ++ e)) = ⟨.numeral shape, '_'.toUInt8 :: r⟩) :
    StopsAtSeparator (m ++ (g ++ e)) := by
  have hsuffix : ∀ b ∈ e, isNumberSuffix b = true := by
    intro b hb
    rcases isSuffix_iff.mp he with rfl | ⟨c, rfl, hc⟩
    · cases hb
    · rwa [List.mem_singleton.mp hb]
  have he' : '_'.toUInt8 ∉ e := by
    intro hmem
    cases hsuffix _ hmem
  have hparts : ∀ b ∈ g ++ e, isWordPart b = true := by
    intro b hb
    rcases List.mem_append.mp hb with hb | hb
    · rcases hg.mem b hb with hb | rfl
      · exact hp b hb
      · rfl
    · have hb := hsuffix b hb
      rw [isNumberSuffix_iff] at hb
      rw [isWordPart_iff]
      omega
  rcases hg.dropWhile_cases hp' he' hpe with ⟨hrest, hstop⟩ | ⟨r, hrest, hstop⟩
  · rw [← fromSeparator_append hm] at hstop
    constructor
    · rw [hstop]
      exact hend hrest
    · rw [hstop]
      exact nofun
  · constructor
    · rw [fromSeparator_append hm, hstop]
      exact hsep r hrest
    · rw [fromSeparator_append hm]
      exact fun b hb => hparts b ((List.dropWhile_sublist _).subset hb)

/-! ## Decimal numerals -/

def isRadixMark (b : UInt8) : Bool := isLetterOf 'x' b || isLetterOf 'b' b

theorem isRadixMark_iff : isRadixMark b = true ↔
    (b.toNat = 120 ∨ b.toNat = 88) ∨ b.toNat = 98 ∨ b.toNat = 66 := by
  simp only [isRadixMark, Bool.or_eq_true, isLetterOf_iff]
  exact Iff.rfl

theorem ofByte_of_isDigit (h : isDigit b = true) : Rule.ofByte b = .number := by
  have hstart : isWordStart b = false := by
    rw [isDigit_iff] at h
    rw [Bool.eq_false_iff, Ne, isWordStart_iff]
    omega
  rw [Rule.ofByte, hstart, if_neg Bool.false_ne_true, if_pos h]

/-- What begins with a digit is read as a decimal numeral unless a radix mark stands behind the
digits. -/
theorem first_eq_decimalEnd (hs : begins isDigit s = true)
    (hmark : begins isRadixMark (s.dropWhile isDigit) = false) :
    first s = decimalEnd (s.dropWhile isDigit) := by
  obtain ⟨b, s, rfl, hb⟩ := exists_cons_of_begins hs
  rw [dropWhile_of_begins hs, List.drop_succ_cons, List.drop_zero] at hmark ⊢
  have hnone : begins isRadixMark s = false := by
    rcases s with _ | ⟨c, s⟩
    · rfl
    · rw [Bool.eq_false_iff, begins_cons]
      intro hc
      have hdigit : isDigit c = false := by
        rw [isRadixMark_iff] at hc
        rw [Bool.eq_false_iff, Ne, isDigit_iff]
        omega
      rw [List.dropWhile_cons_of_neg (Bool.eq_false_iff.mp hdigit), begins_cons, hc] at hmark
      cases hmark
  have hzero : afterZero s = decimal s := by
    rcases s with _ | ⟨c, s⟩
    · rfl
    · rw [begins_cons, isRadixMark, Bool.or_eq_false_iff] at hnone
      rw [afterZero, begins_cons, begins_cons, hnone.1, hnone.2]
      rfl
  rw [first_cons, ofByte_of_isDigit hb]
  show number b s = decimal s
  rw [number, hzero, ite_self]

theorem decimalEnd_of_isSuffix (he : isSuffix isNumberSuffix e = true) :
    decimalEnd e = ⟨.numeral (if begins isFloatSuffix e then .floating else .decimal), []⟩ := by
  rcases isSuffix_iff.mp he with rfl | ⟨b, rfl, hb⟩
  · rfl
  · have hdot : (b == '.'.toUInt8) = false := by
      rw [beq_eq_false_iff_ne]
      rintro rfl
      cases hb
    have hexponent : isLetterOf 'e' b = false := by
      rw [isNumberSuffix_iff] at hb
      rw [Bool.eq_false_iff, Ne, isLetterOf_iff]
      show ¬ (b.toNat = 101 ∨ b.toNat = 69)
      omega
    rw [decimalEnd, begins_cons, begins_cons, begins_cons, hdot, hexponent,
      if_neg Bool.false_ne_true, if_neg Bool.false_ne_true]
    by_cases hfloat : isFloatSuffix b = true
    · rw [if_pos hfloat, if_pos hfloat]
      rfl
    · rw [isNumberSuffix, Bool.eq_false_iff.mpr hfloat, Bool.or_false] at hb
      rw [if_neg hfloat, if_neg hfloat]
      exact congrArg (Cut.mk _) (if_pos hb)

/-- The suffix of a number is no digit and no radix mark. -/
theorem not_begins_of_isSuffix (he : isSuffix isNumberSuffix e = true) :
    begins isDigit e = false ∧ begins isRadixMark e = false := by
  rcases isSuffix_iff.mp he with rfl | ⟨b, rfl, hb⟩
  · exact ⟨rfl, rfl⟩
  · rw [isNumberSuffix_iff] at hb
    rw [begins_cons, begins_cons, Bool.eq_false_iff, Bool.eq_false_iff, Ne, Ne, isDigit_iff,
      isRadixMark_iff]
    omega

/-- Digits and a suffix are a floating-point numeral if the suffix is that of one. -/
theorem first_integer (hs : begins isDigit s = true) (he : isSuffix isNumberSuffix e = true)
    (hrest : s.dropWhile isDigit = e) :
    first s = ⟨.numeral (if begins isFloatSuffix e then .floating else .decimal), []⟩ := by
  rw [first_eq_decimalEnd hs (by rw [hrest, (not_begins_of_isSuffix he).2]), hrest,
    decimalEnd_of_isSuffix he]

theorem stopsAtSeparator_of_decimal (hg : IsGroups isDigit g)
    (he : isSuffix isNumberSuffix e = true) : StopsAtSeparator (g ++ e) := by
  have hbegins := begins_append hg.begins e
  refine hg.stopsAtSeparator (m := []) ?_ rfl (List.not_mem_nil) he (not_begins_of_isSuffix he).1
    ?_ ?_
  · intro b hb
    rw [isWordPart, hb, Bool.or_true]
  · intro hrest
    exact ⟨_, first_integer hbegins he hrest⟩
  · intro r hrest
    refine ⟨.decimal, ?_⟩
    rw [List.nil_append, first_eq_decimalEnd hbegins (by rw [hrest]; rfl), hrest]
    rfl

/-! ## Hexadecimal and binary numerals -/

variable {x : UInt8} {shape : NumeralShape}

/-- The suffix of a long numeral is no digit of any radix. -/
theorem not_begins_of_long (hp : ∀ b, p b = true → isHexDigit b = true)
    (he : isSuffix (isLetterOf 'l') e = true) : begins p e = false := by
  rcases isSuffix_iff.mp he with rfl | ⟨b, rfl, hb⟩
  · rfl
  · rw [begins_cons, Bool.eq_false_iff]
    intro hdigit
    have hhex := hp b hdigit
    have hb : b.toNat = 108 ∨ b.toNat = 76 := isLetterOf_iff.mp hb
    rw [isHexDigit_iff] at hhex
    omega

theorem stopsAtSeparator_of_radix (hg : IsGroups p g) (he : isSuffix (isLetterOf 'l') e = true)
    (hp : ∀ b, p b = true → isHexDigit b = true) (hx : isRadixMark x = true)
    (hfirst : ∀ s, begins p s = true → first ('0'.toUInt8 :: x :: s) =
      ⟨.numeral shape, dropOne (isLetterOf 'l') (s.dropWhile p)⟩) :
    StopsAtSeparator ('0'.toUInt8 :: x :: (g ++ e)) := by
  have hseparator : p '_'.toUInt8 = false := Bool.eq_false_iff.mpr fun h => by cases hp _ h
  have hmarks : '_'.toUInt8 ∉ ['0'.toUInt8, x] := by
    rw [List.mem_cons, List.mem_singleton]
    rintro (h | rfl)
    · cases h
    · cases hx
  have hsuffix := not_begins_of_long hp he
  have hbegins := begins_append hg.begins e
  refine hg.stopsAtSeparator (m := ['0'.toUInt8, x]) ?_ hseparator hmarks
    (isSuffix_isNumberSuffix he) hsuffix ?_ ?_
  · intro b hb
    have hhex := hp b hb
    rw [isHexDigit_iff] at hhex
    rw [isWordPart_iff]
    omega
  · intro hrest
    have hread := hfirst _ hbegins
    rw [hrest, dropOne_of_isSuffix he] at hread
    exact ⟨shape, hread⟩
  · intro r hrest
    have hread := hfirst _ hbegins
    rw [hrest] at hread
    exact ⟨shape, hread⟩

theorem first_hexadecimal (hx : isLetterOf 'x' x = true) (hs : begins isHexDigit s = true) :
    first ('0'.toUInt8 :: x :: s) =
      ⟨.numeral .hexadecimal, dropOne (isLetterOf 'l') (s.dropWhile isHexDigit)⟩ := by
  show afterZero (x :: s) = _
  rw [afterZero, begins_cons, if_pos hx, List.drop_succ_cons, List.drop_zero, hexadecimal,
    if_pos hs, ← dropWhile_of_begins hs]

theorem first_binary (hx : isLetterOf 'b' x = true) (hs : begins isBinaryDigit s = true) :
    first ('0'.toUInt8 :: x :: s) =
      ⟨.numeral .binary, dropOne (isLetterOf 'l') (s.dropWhile isBinaryDigit)⟩ := by
  have hx' : isLetterOf 'x' x = false := by
    have hx : x.toNat = 98 ∨ x.toNat = 66 := isLetterOf_iff.mp hx
    rw [Bool.eq_false_iff, Ne, isLetterOf_iff]
    show ¬ (x.toNat = 120 ∨ x.toNat = 88)
    omega
  show afterZero (x :: s) = _
  rw [afterZero, begins_cons, begins_cons, hx', if_neg Bool.false_ne_true, if_pos hx,
    List.drop_succ_cons, List.drop_zero, if_pos hs, binary, List.drop_succ_cons,
    ← dropWhile_of_begins hs]

/-! ## Floating-point numerals -/

variable {form : FloatForm}

theorem floatTail_of_endsFloat (h : endsFloat s = true) :
    floatTail s = ⟨.numeral .floating, []⟩ := by
  rcases s with _ | ⟨b, s⟩
  · rfl
  · rw [endsFloat, afterExponent?] at h
    rw [floatTail, begins_cons]
    split at h
    · next he =>
      rw [dropSign_eq, afterDigits?] at h
      rw [if_pos he]
      show exponentDigits (dropOne isSign s) = _
      split at h
      · next hd =>
        have hdigit : begins isDigit (dropOne isSign s) = true := hd
        rw [exponentDigits, if_pos hdigit, ← dropWhile_of_begins hdigit]
        exact congrArg (Cut.mk _) (dropOne_of_isSuffix h)
      · cases h
    · next he =>
      rw [if_neg he]
      exact congrArg (Cut.mk _) (dropOne_of_isSuffix h)

/-- A dot before a digit begins a fraction. -/
theorem first_dot (hs : begins isDigit s = true) : first ('.'.toUInt8 :: s) = fraction s := by
  show (if begins isDigit s then fraction (s.drop 1) else dots s) = _
  rw [if_pos hs, fraction_drop_one hs]

/-- The mark of an exponent is no radix mark and no dot. -/
theorem not_isMark_of_exponent (hb : isLetterOf 'e' b = true) :
    isRadixMark b = false ∧ (b == '.'.toUInt8) = false := by
  simp only [isLetterOf, Bool.or_eq_true, beq_iff_eq] at hb
  rcases hb with rfl | rfl
  · exact ⟨rfl, rfl⟩
  · exact ⟨rfl, rfl⟩

theorem decimalEnd_of_exponent (hb : isLetterOf 'e' b = true) :
    decimalEnd (b :: s) = exponent s := by
  rw [decimalEnd, begins_cons, begins_cons, (not_isMark_of_exponent hb).2,
    if_neg Bool.false_ne_true, if_pos hb]
  rfl

theorem Mantissa.first_eq (h : Mantissa form w s) : first w = floatTail s := by
  have hdot {r : List UInt8} (hw : begins isDigit w = true)
      (hr : w.dropWhile isDigit = '.'.toUInt8 :: r) :
      first w = floatTail (r.dropWhile isDigit) := by
    rw [first_eq_decimalEnd hw (by rw [hr]; rfl), hr]
    rfl
  cases h with
  | fraction hw hr hd => exact hdot hw hr
  | trailingDot hw hr hd =>
    rw [hdot hw hr, dropWhile_of_not_begins hd]
  | leadingDot hd => exact first_dot hd
  | exponent hw hs he =>
    obtain ⟨b, t, rfl, hb⟩ := exists_cons_of_begins he
    rw [first_eq_decimalEnd hw (by rw [hs]; exact (not_isMark_of_exponent hb).1), hs,
      decimalEnd_of_exponent hb, floatTail, begins_cons, if_pos hb]
    rfl

theorem Mantissa.takes (h : Mantissa form w s) : Takes isFloatPart w s := by
  have hdigits (s : List UInt8) : Takes isFloatPart s (s.dropWhile isDigit) :=
    takes_dropWhile isFloatPart_of_isDigit s
  have hdot (r : List UInt8) : Takes isFloatPart ('.'.toUInt8 :: r) r := .cons rfl (.refl _ r)
  cases h with
  | fraction hw hr hd => exact (hr ▸ hdigits w).trans ((hdot _).trans (hdigits _))
  | trailingDot hw hr hd => exact (hr ▸ hdigits w).trans (hdot s)
  | leadingDot hd => exact (hdot _).trans (hdigits _)
  | exponent hw hs he => exact hs ▸ hdigits w

theorem isFloatPart_ne (h : isFloatPart b = true) : b ≠ '_'.toUInt8 ∧ b ≠ 'b'.toUInt8 := by
  constructor
  · rintro rfl
    cases h
  · rintro rfl
    cases h

theorem exists_mantissa_of_floatForm? (h : floatForm? w = some form) :
    ∃ s, Mantissa form w s ∧ endsFloat s = true := by
  cases hm : mantissa? w with
  | none => simp [floatForm?, hm] at h
  | some found =>
    obtain ⟨form', s⟩ := found
    cases ht : afterExponent? s with
    | none => simp [floatForm?, hm, ht] at h
    | some t =>
      simp only [floatForm?, hm, ht, Option.bind_eq_bind, Option.bind_some] at h
      split at h
      · next hsuffix =>
        obtain rfl := Option.some.inj h
        refine ⟨s, mantissa_of_eq_some hm, ?_⟩
        rw [endsFloat, ht, Option.any_some, hsuffix]
      · cases h

/-- A floating-point numeral is read to its end. -/
theorem first_of_floatForm? (h : floatForm? w = some form) :
    first w = ⟨.numeral .floating, []⟩ ∧ ∀ b ∈ w, isFloatPart b = true := by
  obtain ⟨s, hmantissa, hs⟩ := exists_mantissa_of_floatForm? h
  have hend := floatTail_of_endsFloat hs
  have htail := takes_floatTail s
  rw [hend] at htail
  obtain ⟨u, hu, hparts⟩ := hmantissa.takes.trans htail
  obtain rfl : w = u := by rwa [List.append_nil] at hu
  exact ⟨hmantissa.first_eq.trans hend, hparts⟩

/-! ## Numerals -/

theorem eq_of_afterRadix? {mark : Char} (h : afterRadix? mark w = some s) :
    ∃ x, w = '0'.toUInt8 :: x :: s ∧ isLetterOf mark x = true := by
  rcases w with _ | ⟨a, _ | ⟨x, w⟩⟩
  · cases h
  · cases h
  · rw [afterRadix?] at h
    split at h
    · next hmark =>
      rw [Bool.and_eq_true, beq_iff_eq] at hmark
      obtain rfl := Option.some.inj h
      exact ⟨x, by rw [hmark.1], hmark.2⟩
    · cases h

/-- Radix marks other than `b` are kept, and the digits behind them are made plain on their own. -/
theorem plainBytes_radix (hx : isRadixMark x = true) (hb : x ≠ 'b'.toUInt8) (s : List UInt8) :
    plainBytes ('0'.toUInt8 :: x :: s) = '0'.toUInt8 :: x :: plainBytes s := by
  have hseparate : isSeparate x = true := by
    have hdigit : isDigit x = false := by
      rw [isRadixMark_iff] at hx
      rw [Bool.eq_false_iff, Ne, isDigit_iff]
      omega
    have hseparator : x ≠ '_'.toUInt8 := by
      rintro rfl
      cases hx
    rw [isSeparate, hdigit, bne_iff_ne.mpr hseparator, bne_iff_ne.mpr hb]
    rfl
  exact plainBytes_append_cons hseparate ['0'.toUInt8] s

theorem isHexDigit_of_isBinaryDigit (b : UInt8) (h : isBinaryDigit b = true) :
    isHexDigit b = true := by
  rw [isBinaryDigit_iff] at h
  rw [isHexDigit_iff]
  omega

theorem isDigit_of_isBinaryDigit (h : isBinaryDigit b = true) : isDigit b = true := by
  rw [isBinaryDigit_iff] at h
  rw [isDigit_iff]
  omega

theorem isRadixMark_of_x (hx : isLetterOf 'x' x = true) : isRadixMark x = true := by
  rw [isRadixMark, hx, Bool.true_or]

theorem isRadixMark_of_b (hx : isLetterOf 'b' x = true) : isRadixMark x = true := by
  rw [isRadixMark, hx, Bool.or_true]

theorem stopsAtSeparator_of_hexadecimal (hx : isLetterOf 'x' x = true)
    (hg : IsGroups isHexDigit g) (he : isSuffix (isLetterOf 'l') e = true) :
    StopsAtSeparator ('0'.toUInt8 :: x :: (g ++ e)) :=
  stopsAtSeparator_of_radix hg he (fun _ hb => hb) (isRadixMark_of_x hx)
    fun _ hs => first_hexadecimal hx hs

theorem stopsAtSeparator_of_binary (hx : isLetterOf 'b' x = true)
    (hg : IsGroups isBinaryDigit g) (he : isSuffix (isLetterOf 'l') e = true) :
    StopsAtSeparator ('0'.toUInt8 :: x :: (g ++ e)) :=
  stopsAtSeparator_of_radix hg he isHexDigit_of_isBinaryDigit (isRadixMark_of_b hx)
    fun _ hs => first_binary hx hs

/-- What each form asks of the bytes. -/
inductive Admits : Form → List UInt8 → Prop
  | hexadecimal {s t : List UInt8} : afterRadix? 'x' s = some t →
      isGrouped isHexDigit isNumberSuffix t = true → Admits .hexadecimal s
  | binary {s t : List UInt8} : afterRadix? 'b' s = some t →
      isGrouped isBinaryDigit (isLetterOf 'l') t = true → Admits .binary s
  | integer {s : List UInt8} : isGrouped isDigit isNumberSuffix s = true → Admits .integer s
  | float {form : FloatForm} {s t : List UInt8} : Mantissa form s t → endsFloat t = true →
      Admits (.float form) s

theorem admits_of_formOfBytes? {form : Form} (h : formOfBytes? s = some form) : Admits form s := by
  unfold formOfBytes? at h
  split at h
  · next digits hradix =>
    split at h
    · next hgrouped =>
      cases h
      exact .hexadecimal hradix hgrouped
    · cases h
  · split at h
    · next hbinary =>
      cases h
      obtain ⟨digits, hradix, hgrouped⟩ := (Option.any_eq_true _ _).mp hbinary
      exact .binary hradix hgrouped
    · split at h
      · next hinteger =>
        cases h
        exact .integer hinteger
      · obtain ⟨form, hform, rfl⟩ := Option.map_eq_some_iff.mp h
        obtain ⟨t, hmantissa, ht⟩ := exists_mantissa_of_floatForm? hform
        exact .float hmantissa ht

/-- How each form is spelled, the digits of one radix in groups. -/
inductive Spelled : Form → List UInt8 → Prop
  | hexadecimal {x : UInt8} {g e : List UInt8} : isLetterOf 'x' x = true → IsGroups isHexDigit g →
      isSuffix (isLetterOf 'l') e = true → Spelled .hexadecimal ('0'.toUInt8 :: x :: (g ++ e))
  | binary {x : UInt8} {g e : List UInt8} : isLetterOf 'b' x = true → IsGroups isBinaryDigit g →
      isSuffix (isLetterOf 'l') e = true → Spelled .binary ('0'.toUInt8 :: x :: (g ++ e))
  | integer {g e : List UInt8} : IsGroups isDigit g → isSuffix isNumberSuffix e = true →
      Spelled .integer (g ++ e)
  | float {w : List UInt8} {form : FloatForm} : floatForm? w = some form → Spelled (.float form) w

theorem spelled_of_form {form : Form} (h : formOfBytes? w = some form) : Spelled form w := by
  cases admits_of_formOfBytes? h with
  | hexadecimal hradix hgrouped =>
    obtain ⟨x, rfl, hx⟩ := eq_of_afterRadix? hradix
    obtain ⟨g, e, rfl, hg, he, hdigit⟩ := exists_groups_of_isGrouped hgrouped
    refine .hexadecimal hx hg ?_
    -- the letters `f` and `d` are digits, so only `l` is left to end the numeral
    rcases isSuffix_iff.mp he with rfl | ⟨c, rfl, hc⟩
    · rfl
    · rw [begins_cons, Bool.eq_false_iff, Ne, isHexDigit_iff] at hdigit
      rw [isNumberSuffix_iff] at hc
      show isLetterOf 'l' c = true
      rw [isLetterOf_iff]
      show c.toNat = 108 ∨ c.toNat = 76
      omega
  | binary hradix hgrouped =>
    obtain ⟨x, rfl, hx⟩ := eq_of_afterRadix? hradix
    obtain ⟨g, e, rfl, hg, he, -⟩ := exists_groups_of_isGrouped hgrouped
    exact .binary hx hg he
  | integer hgrouped =>
    obtain ⟨g, e, rfl, hg, he, -⟩ := exists_groups_of_isGrouped hgrouped
    exact .integer hg he
  | float hmantissa hend => exact .float (hmantissa.floatForm?_eq hend)

/-- A numeral is read up to its first separator. -/
theorem Spelled.stopsAtSeparator {form : Form} (h : Spelled form w) : StopsAtSeparator w := by
  cases h with
  | hexadecimal hx hg he => exact stopsAtSeparator_of_hexadecimal hx hg he
  | binary hx hg he => exact stopsAtSeparator_of_binary hx hg he
  | integer hg he => exact stopsAtSeparator_of_decimal hg he
  | float hform =>
    obtain ⟨hfirst, hparts⟩ := first_of_floatForm? hform
    exact stopsAtSeparator_of_not_mem (fun hmem => (isFloatPart_ne (hparts _ hmem)).1 rfl) hfirst

/-- A binary numeral that has lost its mark is read as a decimal one. -/
theorem Spelled.stopsAtSeparator_plainBytes {form : Form} (h : Spelled form w) :
    StopsAtSeparator (plainBytes w) := by
  cases h with
  | @hexadecimal x g e hx hg he =>
    have hb : x ≠ 'b'.toUInt8 := by
      rintro rfl
      cases hx
    rw [plainBytes_radix (isRadixMark_of_x hx) hb,
      plainBytes_append_suffix (isSuffix_isNumberSuffix he)]
    exact stopsAtSeparator_of_hexadecimal hx hg.plainBytes he
  | @binary x g e hx hg he =>
    have hsuffix := isSuffix_isNumberSuffix he
    by_cases hb : x = 'b'.toUInt8
    · subst hb
      obtain ⟨d, g, rfl, hd⟩ := exists_cons_of_begins hg.begins
      have hdrops : dropsMiddleByte '0'.toUInt8 'b'.toUInt8 d = true := by
        rw [dropsMiddleByte, hd]
        rfl
      have hdigits : IsGroups isDigit ('0'.toUInt8 :: d :: plainBytes g) := by
        refine ⟨rfl, ?_⟩
        have hrest : ∀ b ∈ d :: plainBytes g, b ∈ d :: g :=
          ((plainBytes_sublist g).cons_cons d).subset
        intro b hb
        rcases List.mem_cons.mp hb with rfl | hb
        · exact .inl rfl
        · exact (hg.mem b (hrest b hb)).imp_left isDigit_of_isBinaryDigit
      rw [List.cons_append, plainBytes, if_pos hdrops, plainBytes_append_suffix hsuffix]
      exact stopsAtSeparator_of_decimal hdigits hsuffix
    · rw [plainBytes_radix (isRadixMark_of_b hx) hb, plainBytes_append_suffix hsuffix]
      exact stopsAtSeparator_of_binary hx hg.plainBytes he
  | integer hg he =>
    rw [plainBytes_append_suffix he]
    exact stopsAtSeparator_of_decimal hg.plainBytes he
  | float hform =>
    obtain ⟨hfirst, hparts⟩ := first_of_floatForm? hform
    have hne : ∀ b ∈ w, b ≠ '_'.toUInt8 ∧ b ≠ 'b'.toUInt8 := fun b hb =>
      isFloatPart_ne (hparts b hb)
    rw [plainBytes_eq_self hne]
    exact stopsAtSeparator_of_not_mem (fun hmem => (hne _ hmem).1 rfl) hfirst

/-- A numeral that is made plain is read up to its first separator. -/
theorem stopsAtSeparator_of_form (h : (formOfBytes? w).isSome = true) :
    StopsAtSeparator (plainBytes w) := by
  obtain ⟨form, hform⟩ := Option.isSome_iff_exists.mp h
  exact (spelled_of_form hform).stopsAtSeparator_plainBytes

end JavaTokens.Cut
