import JavaTokens.Proofs.Kind.Numeral
import JavaTokens.Proofs.Separators
import JavaTokens.Proofs.Partition

/-!
# Longest numerals

Reading never goes back, and still it finds the longest numeral, as the test for numerals sees it.
Of what begins like a numeral it takes the longest piece that passes the test and has no separator.
Only where a mark stands behind that piece and lacks its digits, reading has taken the mark already,
and the lexeme is a defect.

    a numeral without separators is read to its end                   (first_of_form)
    what begins like a numeral is read as its longest one             (first_longest)
    the same of texts                                                 (ofText_numeral)
-/

namespace JavaTokens

open Text Ascii

namespace Numeral

/-! ## Numerals and the marks behind them -/

/-- What begins with a digit, or with a dot and a digit. -/
def beginsNumeral (s : List UInt8) : Bool :=
  begins isDigit s || begins (· == '.'.toUInt8) s && begins isDigit (s.drop 1)

/-- The shape that reading tells of a numeral.  An integer with the suffix of a floating-point
numeral is read as one. -/
def Form.shape (form : Form) (w : List UInt8) : NumeralShape :=
  match form with
  | .hexadecimal => .hexadecimal
  | .binary => .binary
  | .integer => if w.getLast?.any isFloatSuffix then .floating else .decimal
  | .float _ => .floating

def isDigitOrDot (b : UInt8) : Bool := isDigit b || b == '.'.toUInt8

/-- Digits and at most one dot. -/
def isPlainMantissa (w : List UInt8) : Bool := w.all isDigitOrDot && w.count '.'.toUInt8 ≤ 1

/-- Whether a mark stands behind the numeral `w`, at the beginning of `t`, with which reading goes
on: that of hexadecimal numerals behind a zero, or that of exponents behind a mantissa. -/
def isCutOff (w t : List UInt8) : Bool :=
  w == ['0'.toUInt8] && begins (isLetterOf 'x') t || isPlainMantissa w && begins (isLetterOf 'e') t

/-- How many bytes a mark takes, with the sign behind the mark of an exponent. -/
def markLength : List UInt8 → Nat
  | mark :: sign :: _ => if isLetterOf 'e' mark && isSign sign then 2 else 1
  | _ => 1

end Numeral

namespace Cut

open Numeral

variable {b e : UInt8} {s t u v w r : List UInt8} {form : Form}

/-! ## Numerals that are read to their end -/

theorem IsGroups.of_not_mem {p : UInt8 → Bool} (hg : IsGroups p w) (h : '_'.toUInt8 ∉ w) :
    ∀ b ∈ w, p b = true := by
  intro b hb
  refine (hg.mem b hb).resolve_right ?_
  rintro rfl
  exact h hb

/-- An integer ends in the suffix of a floating-point numeral if that stands behind its digits. -/
theorem getLast?_any_append (hd : ∀ b ∈ u, isDigit b = true)
    (ht : isSuffix isNumberSuffix t = true) :
    (u ++ t).getLast?.any isFloatSuffix = begins isFloatSuffix t := by
  rcases isSuffix_iff.mp ht with rfl | ⟨b, rfl, -⟩
  · rw [List.append_nil, begins_nil, Bool.eq_false_iff]
    intro hany
    obtain ⟨b, hlast, hb⟩ := (Option.any_eq_true _ _).mp hany
    have hdigit := hd b (List.mem_of_getLast? hlast)
    have hb : (b.toNat = 102 ∨ b.toNat = 70) ∨ b.toNat = 100 ∨ b.toNat = 68 := by
      rwa [isFloatSuffix, Bool.or_eq_true, isLetterOf_iff, isLetterOf_iff] at hb
    rw [isDigit_iff] at hdigit
    omega
  · rw [List.getLast?_concat]
    rfl

/-- A numeral without separators is read to its end, as the shape of its form. -/
theorem first_of_form (h : formOfBytes? w = some form) (hw : '_'.toUInt8 ∉ w) :
    first w = ⟨.numeral (form.shape w), []⟩ := by
  have hspelled := spelled_of_form h
  obtain ⟨shape, hfirst⟩ := hspelled.stopsAtSeparator.first
  rw [fromSeparator_eq_nil hw] at hfirst
  cases hspelled with
  | @hexadecimal x g e hx hg he =>
    have hread := first_hexadecimal hx (begins_append hg.begins e)
    rw [hfirst] at hread ⊢
    exact congrArg (Cut.mk · []) (congrArg Cut.terminal hread)
  | @binary x g e hx hg he =>
    have hread := first_binary hx (begins_append hg.begins e)
    rw [hfirst] at hread ⊢
    exact congrArg (Cut.mk · []) (congrArg Cut.terminal hread)
  | @integer g e hg he =>
    have hdigits := hg.of_not_mem fun hmem => hw (List.mem_append_left e hmem)
    have hrest := dropWhile_append_of_all hdigits (not_begins_of_isSuffix he).1
    rw [first_integer (begins_append hg.begins e) he hrest, Form.shape,
      getLast?_any_append hdigits he]
  | float hform => exact (first_of_floatForm? hform).1

/-- What is read to its end as a numeral has no separator, and is read as the shape of its form. -/
theorem exists_form_of_first {shape : NumeralShape} (h : first w = ⟨.numeral shape, []⟩) :
    ∃ form : Form, formOfBytes? w = some form ∧ '_'.toUInt8 ∉ w ∧ shape = form.shape w := by
  obtain ⟨form, hform⟩ := Option.isSome_iff_exists.mp (isSome_form_of_first h)
  obtain ⟨shape', hstop⟩ := (spelled_of_form hform).stopsAtSeparator.first
  rw [h, Cut.mk.injEq] at hstop
  have hplain : '_'.toUInt8 ∉ w := by
    intro hmem
    have hne := List.dropWhile_eq_nil_iff.mp hstop.2.symm _ hmem
    rw [bne_self_eq_false] at hne
    cases hne
  have hfirst := first_of_form hform hplain
  rw [h, Cut.mk.injEq, Terminal.numeral.injEq] at hfirst
  exact ⟨form, hform, hplain, hfirst.1⟩

/-! ## Mantissas -/

/-- Digits, or digits around a dot. -/
inductive IsMantissa : List UInt8 → Prop
  | whole {w : List UInt8} : begins isDigit w = true → (∀ b ∈ w, isDigit b = true) → IsMantissa w
  | dotted {u v : List UInt8} : (∀ b ∈ u, isDigit b = true) → (∀ b ∈ v, isDigit b = true) →
      begins isDigit u = true ∨ begins isDigit v = true → IsMantissa (u ++ '.'.toUInt8 :: v)

/-- Behind a mantissa a numeral goes on as behind digits or as behind a fraction. -/
theorem IsMantissa.first_append (hw : IsMantissa w) (ht : begins isDigit t = false)
    (hmark : begins isRadixMark t = false) :
    first (w ++ t) = decimalEnd t ∨ first (w ++ t) = floatTail t := by
  cases hw with
  | whole hw hdigits =>
    have hrest := dropWhile_append_of_all hdigits ht
    left
    rw [first_eq_decimalEnd (begins_append hw t) (by rw [hrest, hmark]), hrest]
  | @dotted u v hu hv hdigit =>
    have hrest := dropWhile_append_of_all hv ht
    right
    rw [List.append_assoc, List.cons_append]
    cases hbegins : begins isDigit u with
    | true =>
      have hdot : (u ++ '.'.toUInt8 :: (v ++ t)).dropWhile isDigit = '.'.toUInt8 :: (v ++ t) :=
        dropWhile_append_of_all hu rfl
      rw [first_eq_decimalEnd (begins_append hbegins _) (by rw [hdot]; rfl), hdot]
      exact congrArg floatTail hrest
    | false =>
      -- no digit stands before the dot, so one stands behind it
      obtain rfl : u = [] := by
        by_contra hne
        rw [begins_of_all hu hne] at hbegins
        cases hbegins
      have hv := begins_append (hdigit.resolve_left (by simp)) t
      rw [List.nil_append, first_dot hv, fraction, hrest]

/-- Behind a mantissa the mark of an exponent is taken, whatever follows. -/
theorem IsMantissa.first_exponent (hw : IsMantissa w) (he : isLetterOf 'e' e = true)
    (t : List UInt8) : first (w ++ e :: t) = exponent t := by
  have hdigit : isDigit e = false := by
    have he : e.toNat = 101 ∨ e.toNat = 69 := isLetterOf_iff.mp he
    rw [Bool.eq_false_iff, Ne, isDigit_iff]
    omega
  rcases hw.first_append (t := e :: t) hdigit (not_isMark_of_exponent he).1 with h | h
  · rw [h, decimalEnd_of_exponent he]
  · rw [h, floatTail, begins_cons, if_pos he]
    rfl

theorem IsMantissa.exists_first (hw : IsMantissa w) : ∃ shape, first w = ⟨.numeral shape, []⟩ := by
  rcases hw.first_append (t := []) rfl rfl with h | h
  · rw [List.append_nil] at h
    exact ⟨.decimal, h⟩
  · rw [List.append_nil] at h
    exact ⟨.floating, h⟩

theorem count_dot_of_digits (hu : ∀ b ∈ u, isDigit b = true) : u.count '.'.toUInt8 = 0 := by
  rw [List.count_eq_zero]
  intro hmem
  cases hu _ hmem

theorem IsMantissa.isPlainMantissa (hw : IsMantissa w) : isPlainMantissa w = true := by
  rw [Numeral.isPlainMantissa, Bool.and_eq_true, List.all_eq_true, decide_eq_true_iff]
  cases hw with
  | whole _ hdigits =>
    constructor
    · intro b hb
      rw [isDigitOrDot, hdigits b hb, Bool.true_or]
    · rw [count_dot_of_digits hdigits]
      omega
  | dotted hu hv _ =>
    constructor
    · intro b hb
      rw [List.mem_append, List.mem_cons] at hb
      rcases hb with hb | rfl | hb
      · rw [isDigitOrDot, hu b hb, Bool.true_or]
      · rfl
      · rw [isDigitOrDot, hv b hb, Bool.true_or]
    · rw [List.count_append, List.count_cons_self, count_dot_of_digits hu, count_dot_of_digits hv]

/-- A numeral of digits and at most one dot is a mantissa. -/
theorem isMantissa_of_isPlainMantissa (hw : isPlainMantissa w = true)
    (hform : formOfBytes? w = some form) : IsMantissa w := by
  rw [Numeral.isPlainMantissa, Bool.and_eq_true, List.all_eq_true, decide_eq_true_iff] at hw
  obtain ⟨hparts, hcount⟩ := hw
  -- where no dot stands, only digits are left
  have hdigit {u : List UInt8} (hsub : ∀ b ∈ u, b ∈ w) (hdot : '.'.toUInt8 ∉ u) :
      ∀ b ∈ u, isDigit b = true := by
    intro b hb
    have hpart := hparts b (hsub b hb)
    rw [isDigitOrDot, Bool.or_eq_true] at hpart
    refine hpart.resolve_right fun hb' => hdot ?_
    rwa [← eq_of_beq hb']
  by_cases hdot : '.'.toUInt8 ∈ w
  · obtain ⟨u, v, rfl, hu⟩ := List.eq_append_cons_of_mem hdot
    have hv : '.'.toUInt8 ∉ v := by
      rw [List.count_append, List.count_cons_self] at hcount
      rw [← List.count_eq_zero]
      omega
    have hu := hdigit (fun b hb => List.mem_append_left _ hb) hu
    have hv := hdigit (fun b hb => List.mem_append_right _ (List.mem_cons_of_mem _ hb)) hv
    refine .dotted hu hv ?_
    by_cases hne : u = []
    · refine .inr (begins_of_all hv ?_)
      rintro rfl
      rw [hne] at hform
      cases hform
    · exact .inl (begins_of_all hu hne)
  · have hdigits := hdigit (fun _ hb => hb) hdot
    refine .whole (begins_of_all hdigits ?_) hdigits
    rintro rfl
    cases hform

/-! ## Marks without digits -/

/-- A mantissa with the mark of an exponent behind it, and `r` where the digits are missing. -/
def LacksExponent (s r : List UInt8) : Prop :=
  ∃ w e t, s = w ++ e :: t ∧ IsMantissa w ∧ isLetterOf 'e' e = true ∧ r = dropOne isSign t

theorem eq_of_exponent (h : exponent t = ⟨.defect .digitlessNumeral, r⟩) :
    r = dropOne isSign t := by
  unfold exponent exponentDigits at h
  split at h
  · cases h
  · rw [Cut.mk.injEq] at h
    exact h.2.symm

theorem lacksExponent_of_mark (hw : IsMantissa w) (he : isLetterOf 'e' e = true)
    (h : exponent t = ⟨.defect .digitlessNumeral, r⟩) : LacksExponent (w ++ e :: t) r :=
  ⟨w, e, t, rfl, hw, he, eq_of_exponent h⟩

theorem exists_of_floatTail (h : floatTail s = ⟨.defect .digitlessNumeral, r⟩) :
    ∃ e t, s = e :: t ∧ isLetterOf 'e' e = true ∧
      exponent t = ⟨.defect .digitlessNumeral, r⟩ := by
  unfold floatTail at h
  split at h
  · next hmark =>
    obtain ⟨e, t, rfl, he⟩ := exists_cons_of_begins hmark
    exact ⟨e, t, rfl, he, h⟩
  · cases h

theorem lacksExponent_of_fraction (hu : ∀ b ∈ u, isDigit b = true)
    (hdigit : begins isDigit u = true ∨ begins isDigit s = true)
    (h : fraction s = ⟨.defect .digitlessNumeral, r⟩) :
    LacksExponent (u ++ '.'.toUInt8 :: s) r := by
  obtain ⟨e, t, ht, he, hexponent⟩ := exists_of_floatTail h
  have hsplit := List.takeWhile_append_dropWhile (p := isDigit) (l := s)
  have hdigits : begins isDigit u = true ∨ begins isDigit (s.takeWhile isDigit) = true := by
    refine hdigit.imp_right fun hs => ?_
    obtain ⟨b, s, rfl, hb⟩ := exists_cons_of_begins hs
    rwa [List.takeWhile_cons_of_pos hb]
  have hw : IsMantissa (u ++ '.'.toUInt8 :: s.takeWhile isDigit) :=
    .dotted hu (fun _ hb => List.mem_takeWhile_imp hb) hdigits
  have hlacks := lacksExponent_of_mark hw he hexponent
  rwa [List.append_assoc, List.cons_append, ← ht, hsplit] at hlacks

/-- What stands behind digits lacks those of an exponent. -/
theorem lacksExponent_of_decimalEnd (hu : ∀ b ∈ u, isDigit b = true)
    (hdigit : begins isDigit u = true) (h : decimalEnd s = ⟨.defect .digitlessNumeral, r⟩) :
    LacksExponent (u ++ s) r := by
  unfold decimalEnd at h
  split at h
  · next hdot =>
    obtain ⟨b, s, rfl, hb⟩ := exists_cons_of_begins hdot
    obtain rfl := eq_of_beq hb
    exact lacksExponent_of_fraction hu (.inl hdigit) h
  · split at h
    · next hmark =>
      obtain ⟨e, t, rfl, he⟩ := exists_cons_of_begins hmark
      exact lacksExponent_of_mark (.whole hdigit hu) he h
    · split at h
      · cases h
      · cases h

theorem lacksExponent_of_decimal (hb : isDigit b = true)
    (h : decimal s = ⟨.defect .digitlessNumeral, r⟩) : LacksExponent (b :: s) r := by
  have hdigits : ∀ c ∈ b :: s.takeWhile isDigit, isDigit c = true := by
    rw [List.forall_mem_cons]
    exact ⟨hb, fun _ hc => List.mem_takeWhile_imp hc⟩
  have hlacks := lacksExponent_of_decimalEnd hdigits hb h
  rwa [List.cons_append, List.takeWhile_append_dropWhile] at hlacks

/-- Behind a digit a numeral is read, and behind a dot the digits of a fraction. -/
theorem first_of_beginsNumeral (hs : beginsNumeral s = true) :
    (∃ b t, s = b :: t ∧ isDigit b = true ∧ first s = number b t) ∨
      ∃ t, s = '.'.toUInt8 :: t ∧ begins isDigit t = true ∧ first s = fraction t := by
  rw [beginsNumeral, Bool.or_eq_true, Bool.and_eq_true] at hs
  rcases hs with hs | ⟨hdot, hs⟩
  · obtain ⟨b, t, rfl, hb⟩ := exists_cons_of_begins hs
    refine .inl ⟨b, t, rfl, hb, ?_⟩
    rw [first_cons, ofByte_of_isDigit hb]
    rfl
  · obtain ⟨b, t, rfl, hb⟩ := exists_cons_of_begins hdot
    obtain rfl := eq_of_beq hb
    exact .inr ⟨t, rfl, hs, first_dot hs⟩

theorem first_cases (hs : beginsNumeral s = true) : (first s).terminal.isNumeral = true ∨
    (first s).terminal = .defect .digitlessNumeral := by
  rcases first_of_beginsNumeral hs with ⟨b, t, -, -, h⟩ | ⟨t, -, -, h⟩
  · rw [h]
    exact number_cases b t
  · rw [h]
    exact floatTail_cases _

/-- What begins like a numeral and is none lacks the digits of an exponent, or those of a
hexadecimal numeral. -/
theorem cases_of_digitless (hs : beginsNumeral s = true)
    (h : first s = ⟨.defect .digitlessNumeral, r⟩) :
    (∃ x, s = '0'.toUInt8 :: x :: r ∧ isLetterOf 'x' x = true) ∨ LacksExponent s r := by
  rcases first_of_beginsNumeral hs with ⟨b, t, rfl, hb, hread⟩ | ⟨t, rfl, ht, hread⟩
  · rw [hread] at h
    unfold number at h
    split at h
    · next hzero =>
      obtain rfl := eq_of_beq hzero
      unfold afterZero at h
      split at h
      · next hmark =>
        obtain ⟨x, t, rfl, hx⟩ := exists_cons_of_begins hmark
        change hexadecimal t = _ at h
        unfold hexadecimal at h
        split at h
        · cases h
        · rw [Cut.mk.injEq] at h
          exact .inl ⟨x, by rw [h.2], hx⟩
      · split at h
        · split at h
          · cases h
          · exact .inr (lacksExponent_of_decimal hb h)
        · exact .inr (lacksExponent_of_decimal hb h)
    · exact .inr (lacksExponent_of_decimal hb h)
  · rw [hread] at h
    exact .inr (lacksExponent_of_fraction (u := []) nofun (.inr ht) h)

/-! ## The longest numeral -/

/-- The longest of the numerals without separators with which `s` begins. -/
structure IsLongest (w s : List UInt8) : Prop where
  isSome_form : (formOfBytes? w).isSome = true
  plain : '_'.toUInt8 ∉ w
  length_le : ∀ v u, s = v ++ u → (formOfBytes? v).isSome = true → '_'.toUInt8 ∉ v →
    v.length ≤ w.length

/-- Reading takes every numeral in front, and more than it where it ends in a defect. -/
theorem length_rest_of_form (hv : (formOfBytes? v).isSome = true) (hplain : '_'.toUInt8 ∉ v)
    (u : List UInt8) : (first (v ++ u)).rest.length ≤ u.length ∧
      ((first (v ++ u)).terminal = .defect .digitlessNumeral →
        (first (v ++ u)).rest.length < u.length) := by
  obtain ⟨form, hform⟩ := Option.isSome_iff_exists.mp hv
  rcases first_append_cases (first_of_form hform hplain) u with h | h
  · rw [h]
    exact ⟨Nat.le_refl _, nofun⟩
  · exact ⟨Nat.le_of_lt h, fun _ => h⟩

theorem isLongest_of_first {shape : NumeralShape} (h : first (w ++ t) = ⟨.numeral shape, t⟩) :
    IsLongest w (w ++ t) ∧ ∃ form, formOfBytes? w = some form ∧ shape = form.shape w := by
  obtain ⟨form, hform, hplain, hshape⟩ := exists_form_of_first (local_first.truncate h)
  refine ⟨⟨Option.isSome_of_eq_some hform, hplain, ?_⟩, form, hform, hshape⟩
  intro v u hs hv hv'
  have hle := (length_rest_of_form hv hv' u).1
  have hlengths := congrArg List.length hs
  rw [← hs, h] at hle
  change t.length ≤ u.length at hle
  rw [List.length_append, List.length_append] at hlengths
  omega

/-- Reading that ends behind a numeral has met no mark there, or it would have taken it as well. -/
theorem not_isCutOff_of_first (hform : formOfBytes? w = some form)
    (h : (first (w ++ t)).rest = t) : isCutOff w t = false := by
  rw [Bool.eq_false_iff, isCutOff, Ne, Bool.or_eq_true, Bool.and_eq_true, Bool.and_eq_true]
  rintro (⟨hzero, hmark⟩ | ⟨hplain, hmark⟩)
  · obtain rfl := eq_of_beq hzero
    obtain ⟨x, t, rfl, hx⟩ := exists_cons_of_begins hmark
    have hrest := local_hexadecimal.length_le t
    have hread : first (['0'.toUInt8] ++ x :: t) = hexadecimal t := if_pos hx
    rw [← hread, h, List.length_cons] at hrest
    omega
  · obtain ⟨e, t, rfl, he⟩ := exists_cons_of_begins hmark
    have hw := isMantissa_of_isPlainMantissa hplain hform
    have hrest := local_exponent.length_le t
    rw [← hw.first_exponent he, h, List.length_cons] at hrest
    omega

theorem drop_markLength (he : isLetterOf 'e' e = true) (t : List UInt8) :
    (e :: t).drop (markLength (e :: t)) = dropOne isSign t := by
  rcases t with _ | ⟨c, t⟩
  · rfl
  · rw [markLength, he, Bool.true_and, dropOne, begins_cons]
    split <;> rfl

theorem drop_markLength_of_x (hx : isLetterOf 'x' b = true) (t : List UInt8) :
    (b :: t).drop (markLength (b :: t)) = t := by
  have he : isLetterOf 'e' b = false := by
    have hx : b.toNat = 120 ∨ b.toNat = 88 := isLetterOf_iff.mp hx
    rw [Bool.eq_false_iff, Ne, isLetterOf_iff]
    show ¬ (b.toNat = 101 ∨ b.toNat = 69)
    omega
  rcases t with _ | ⟨c, t⟩
  · rfl
  · rw [markLength, he]
    rfl

/-- Behind a zero, the mark of hexadecimal numerals ends the longest numeral. -/
theorem isLongest_zero (h : first ('0'.toUInt8 :: b :: r) = ⟨.defect .digitlessNumeral, r⟩) :
    IsLongest ['0'.toUInt8] ('0'.toUInt8 :: b :: r) := by
  refine ⟨rfl, by decide, ?_⟩
  intro v u hs hv hplain
  have hlt := (length_rest_of_form hv hplain u).2
  have hlengths := congrArg List.length hs
  rw [← hs, h] at hlt
  have hlt : r.length < u.length := hlt rfl
  rw [List.length_append, List.length_cons, List.length_cons] at hlengths
  rw [List.length_singleton]
  omega

/-- A mantissa is the longest numeral where the mark behind it lacks the digits of an exponent. -/
theorem IsMantissa.isLongest (hw : IsMantissa w) (he : isLetterOf 'e' e = true)
    (h : first (w ++ e :: t) = ⟨.defect .digitlessNumeral, dropOne isSign t⟩) :
    IsLongest w (w ++ e :: t) := by
  obtain ⟨shape, hshape⟩ := hw.exists_first
  obtain ⟨form, hform, hplain, -⟩ := exists_form_of_first hshape
  refine ⟨Option.isSome_of_eq_some hform, hplain, ?_⟩
  intro v u hs hv hv'
  have hlt := (length_rest_of_form hv hv' u).2
  have hlengths := congrArg List.length hs
  rw [← hs, h] at hlt
  have hlt : (dropOne isSign t).length < u.length := hlt rfl
  have hsign : t.length ≤ (dropOne isSign t).length + 1 := by
    unfold dropOne
    split
    · rw [List.length_drop]
      omega
    · omega
  rw [List.length_append, List.length_append, List.length_cons] at hlengths
  -- only the mantissa with the mark alone is left, and that is no numeral
  by_contra hlong
  have hmark : v = w ++ [e] := by
    have hsplit : w ++ [e] ++ t = v ++ u := by rw [← hs, List.append_assoc, List.singleton_append]
    refine (List.append_inj hsplit ?_).1.symm
    rw [List.length_append, List.length_singleton]
    omega
  obtain ⟨form', hform'⟩ := Option.isSome_iff_exists.mp hv
  have hread := first_of_form hform' hv'
  rw [hmark, hw.first_exponent he []] at hread
  cases hread

/-- What begins like a numeral is read as the longest one, and over the mark behind it where that
lacks its digits. -/
theorem first_longest (hs : beginsNumeral s = true) :
    ∃ w t form, s = w ++ t ∧ IsLongest w s ∧ formOfBytes? w = some form ∧
      first s = if isCutOff w t then ⟨.defect .digitlessNumeral, t.drop (markLength t)⟩
        else ⟨.numeral (form.shape w), t⟩ := by
  cases h : first s with
  | mk k r =>
  have hcases := first_cases hs
  have hrest := first_suffix s
  rw [h] at hcases hrest
  rcases hcases with hk | hk
  · cases k with
    | numeral shape =>
      obtain ⟨w, rfl⟩ := hrest
      obtain ⟨hlongest, form, hform, rfl⟩ := isLongest_of_first h
      refine ⟨w, r, form, rfl, hlongest, hform, ?_⟩
      rw [not_isCutOff_of_first hform (by rw [h]), if_neg Bool.false_ne_true]
    | _ => cases hk
  · change k = .defect .digitlessNumeral at hk
    subst hk
    rcases cases_of_digitless hs h with ⟨x, rfl, hx⟩ | ⟨w, e, t, rfl, hw, he, rfl⟩
    · have hcut : isCutOff ['0'.toUInt8] (x :: r) = true := by
        rw [isCutOff, begins_cons, hx]
        rfl
      refine ⟨['0'.toUInt8], x :: r, .integer, rfl, isLongest_zero h, rfl, ?_⟩
      rw [hcut, if_pos rfl, drop_markLength_of_x hx]
    · have hlongest := hw.isLongest he h
      obtain ⟨form, hform⟩ := Option.isSome_iff_exists.mp hlongest.isSome_form
      have hcut : isCutOff w (e :: t) = true := by
        rw [isCutOff, begins_cons, begins_cons, he, hw.isPlainMantissa, Bool.and_true, Bool.or_true]
      refine ⟨w, e :: t, form, rfl, hlongest, hform, ?_⟩
      rw [hcut, if_pos rfl, drop_markLength he]

end Cut

/-! ## Texts -/

/-- The longest of the numerals without separators with which a text begins. -/
structure Numeral.IsLongest (numeral text : String) : Prop where
  isNumeral : isNumeral numeral = true
  plain : '_' ∉ numeral.toList
  size_le : ∀ v u : String, text = v ++ u → Numeral.isNumeral v = true → '_' ∉ v.toList →
    v.utf8ByteSize ≤ numeral.utf8ByteSize

theorem separator_mem_iff {text : String} : '_'.toUInt8 ∈ bytes text ↔ '_' ∈ text.toList :=
  mem_bytes_iff rfl (by decide)

theorem Numeral.isLongest_of_bytes {numeral text : String}
    (h : Cut.IsLongest (bytes numeral) (bytes text)) : IsLongest numeral text where
  isNumeral := h.isSome_form
  plain := separator_mem_iff.not.mp h.plain
  size_le v u htext hv hplain := by
    rw [← length_bytes, ← length_bytes]
    exact h.length_le (bytes v) (bytes u) (by rw [htext, bytes_append]) hv
      (separator_mem_iff.not.mpr hplain)

/-- A mark behind a numeral is a character of its own, and what is taken of it is there. -/
theorem Numeral.mark_of_isCutOff {w t : List UInt8} (h : isCutOff w t = true) :
    (∀ b ∈ t.head?, isContinuation b = false) ∧ markLength t ≤ t.length := by
  have hmark : begins (fun b => isLetterOf 'x' b || isLetterOf 'e' b) t = true := by
    rw [isCutOff, Bool.or_eq_true, Bool.and_eq_true, Bool.and_eq_true] at h
    rcases t with _ | ⟨b, t⟩
    · rcases h with h | h
      · cases h.2
      · cases h.2
    · rw [begins_cons, Bool.or_eq_true]
      exact h.imp And.right And.right
  obtain ⟨b, t, rfl, hb⟩ := exists_cons_of_begins hmark
  constructor
  · intro c hc
    obtain rfl : b = c := by simpa using hc
    refine isContinuation_of_ascii ?_
    rw [Bool.or_eq_true, isLetterOf_iff, isLetterOf_iff] at hb
    change (b.toNat = 120 ∨ b.toNat = 88) ∨ b.toNat = 101 ∨ b.toNat = 69 at hb
    rw [UInt8.lt_iff_toNat_lt]
    show b.toNat < 128
    omega
  · rcases t with _ | ⟨c, t⟩
    · exact Nat.le_refl 1
    · rw [markLength, List.length_cons, List.length_cons]
      split <;> omega

/-- The first lexeme of a text that begins like a numeral is the longest numeral without separators
that it begins with, of the shape that the form of the numeral tells; or it is a defect, if a mark
behind that numeral lacks its digits, and ends behind the mark and the sign of an exponent. -/
theorem ofText_numeral (text : String) (hsize : text.utf8ByteSize ≤ maxOffset)
    (hbegins : Numeral.beginsNumeral (bytes text) = true) :
    ∃ (numeral rest : String) (form : Numeral.Form), text = numeral ++ rest ∧
      Numeral.IsLongest numeral text ∧ Numeral.form? numeral = some form ∧
      ∃ lexemes : List Lexeme, Lexeme.ofText (PaddedText.ofString text) =
        .ok ((if Numeral.isCutOff (bytes numeral) (bytes rest) then
            ⟨.defect .digitlessNumeral,
              numeral.utf8ByteSize + Numeral.markLength (bytes rest)⟩
          else ⟨.numeral (form.shape (bytes numeral)), numeral.utf8ByteSize⟩) :: lexemes) := by
  obtain ⟨w, t, form, hsplit, hlongest, hform, hfirst⟩ := Cut.first_longest hbegins
  have hw : w ≠ [] := by
    rintro rfl
    cases hform
  have hutf8 := isUtf8_bytes text
  have ht : IsUtf8 t := by
    cases hcut : Numeral.isCutOff w t with
    | true =>
      rw [hsplit] at hutf8
      exact hutf8.of_append (Numeral.mark_of_isCutOff hcut).1
    | false =>
      rw [hcut, if_neg Bool.false_ne_true] at hfirst
      exact Cut.isUtf8_of_first hutf8 hfirst
  rw [hsplit] at hutf8
  obtain ⟨numeral, rfl⟩ := (hutf8.left_of_append ht).exists_bytes
  obtain ⟨rest, rfl⟩ := ht.exists_bytes
  have htext : text = numeral ++ rest := bytes_inj (by rw [hsplit, bytes_append])
  refine ⟨numeral, rest, form, htext, Numeral.isLongest_of_bytes hlongest, hform, ?_⟩
  cases hcut : Numeral.isCutOff (bytes numeral) (bytes rest) with
  | true =>
    rw [hcut, if_pos rfl] at hfirst
    let mark := (bytes rest).take (Numeral.markLength (bytes rest))
    have hmark : mark.length = Numeral.markLength (bytes rest) :=
      List.length_take_of_le (Numeral.mark_of_isCutOff hcut).2
    have hread := exists_ofText_cons (w := bytes numeral ++ mark) hsize
      (List.append_ne_nil_of_left_ne_nil hw mark)
      (by rw [List.append_assoc, List.take_append_drop, hsplit]) hfirst
    rw [List.length_append, hmark, length_bytes] at hread
    exact hread
  | false =>
    rw [hcut, if_neg Bool.false_ne_true] at hfirst
    have hread := exists_ofText_cons hsize hw hsplit hfirst
    rw [length_bytes] at hread
    exact hread

/-- The exponent takes its mark and its sign with it, and has no digits. -/
theorem ofText_numeral_exponent : ∃ (numeral rest : String) (form : Numeral.Form),
    "1.5e+x" = numeral ++ rest ∧ Numeral.IsLongest numeral "1.5e+x" ∧
      Numeral.form? numeral = some form ∧
      Numeral.isCutOff (bytes numeral) (bytes rest) = true ∧
      numeral.utf8ByteSize + Numeral.markLength (bytes rest) = 5 := by
  obtain ⟨numeral, rest, form, htext, hlongest, hform, lexemes, hread⟩ :=
    ofText_numeral "1.5e+x" (by decide) (by decide)
  have hlexemes : (Lexeme.ofText (PaddedText.ofString "1.5e+x")).toOption =
      some [⟨.defect .digitlessNumeral, 5⟩, ⟨.word, 1⟩] := by
    decide +kernel
  rw [hread] at hlexemes
  refine ⟨numeral, rest, form, htext, hlongest, hform, ?_⟩
  cases hcut : Numeral.isCutOff (bytes numeral) (bytes rest) with
  | true =>
    rw [hcut] at hlexemes
    have hhead := (List.cons.inj (Option.some.inj hlexemes)).1
    exact ⟨rfl, (Lexeme.mk.inj hhead).2⟩
  | false =>
    rw [hcut] at hlexemes
    have hhead := (List.cons.inj (Option.some.inj hlexemes)).1
    cases (Lexeme.mk.inj hhead).1

end JavaTokens
