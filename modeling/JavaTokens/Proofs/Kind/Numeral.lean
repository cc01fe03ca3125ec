import JavaTokens.Numeral.Form
import JavaTokens.Proofs.Spelling

/-!
# Numerals as they are read and as they are tested

What is read to its end as a numeral has one of the forms of numerals.  Reading knows no separators,
so the groups of digits that the test finds are single runs.

    what is read as a numeral is one                                  (isNumeral_of_first)
-/

namespace JavaTokens

open Text Ascii

namespace Cut

open Lexeme Numeral

variable {b : UInt8} {s w : List UInt8} {k : Terminal} {p q : UInt8 → Bool}

/-! ## Suffixes and groups -/

theorem isSuffix_of_dropOne (h : dropOne p s = []) : isSuffix p s = true := by
  rcases s with _ | ⟨b, s⟩
  · rfl
  · unfold dropOne at h
    split at h
    · next hb =>
      obtain rfl : s = [] := h
      exact hb
    · cases h

theorem isSuffix_mono (hpq : ∀ b, p b = true → q b = true) (h : isSuffix p s = true) :
    isSuffix q s = true := by
  rcases s with _ | ⟨b, _ | ⟨c, s⟩⟩
  · rfl
  · exact hpq b h
  · cases h

/-- Where no separator stands behind the digits, they are all one group. -/
theorem groupsRest_eq_dropWhile (h : begins (· == '_'.toUInt8) (s.dropWhile p) = false) :
    groupsRest p s = s.dropWhile p := by
  induction s with
  | nil => rfl
  | cons b s ih =>
    rw [List.dropWhile_cons] at h
    rw [groupsRest, List.dropWhile_cons]
    split
    · next hb =>
      rw [if_pos hb] at h
      exact ih h
    · next hb =>
      rw [if_neg hb, begins_cons] at h
      rw [h, Bool.false_and, if_neg Bool.false_ne_true]

theorem isGrouped_of_isSuffix (hs : begins p s = true) (hq : q '_'.toUInt8 = false)
    (ht : isSuffix q (s.dropWhile p) = true) : isGrouped p q s = true := by
  have hgroups : groupsRest p s = s.dropWhile p := by
    refine groupsRest_eq_dropWhile ?_
    generalize s.dropWhile p = t at ht
    rcases t with _ | ⟨b, _ | ⟨c, t⟩⟩
    · rfl
    · rw [begins_cons, beq_eq_false_iff_ne]
      rintro rfl
      rw [isSuffix, hq] at ht
      cases ht
    · cases ht
  have hafter : afterGroups? p s = some (s.dropWhile p) := by
    rw [← hgroups]
    exact if_pos hs
  rw [isGrouped, hafter, Option.any_some]
  exact ht

/-! ## Floating-point numerals -/

/-- An exponent, which may be missing, and a suffix. -/
def endsFloat (s : List UInt8) : Bool := (afterExponent? s).any (isSuffix isFloatSuffix)

theorem dropSign_eq (s : List UInt8) : dropSign s = dropOne isSign s := by
  rcases s with _ | ⟨b, s⟩ <;> rfl

theorem endsFloat_of_exponent (hb : isLetterOf 'e' b = true) (h : exponent s = ⟨k, []⟩)
    (hk : k.isToken = true) : endsFloat (b :: s) = true := by
  rw [endsFloat, afterExponent?, if_pos hb, dropSign_eq]
  unfold exponent exponentDigits at h
  split at h
  · next hd =>
    have hafter : afterDigits? (dropOne isSign s) = some ((dropOne isSign s).dropWhile isDigit) :=
      if_pos hd
    rw [hafter, Option.any_some, dropWhile_of_begins hd]
    exact isSuffix_of_dropOne (congrArg Cut.rest h)
  · obtain rfl : _ = k := congrArg Cut.terminal h
    cases hk

theorem endsFloat_of_floatTail (h : floatTail s = ⟨k, []⟩) (hk : k.isToken = true) :
    endsFloat s = true := by
  unfold floatTail at h
  split at h
  · next he =>
    obtain ⟨b, t, rfl, hb⟩ := exists_cons_of_begins he
    exact endsFloat_of_exponent hb h hk
  · next he =>
    have hafter : afterExponent? s = some s := by
      rcases s with _ | ⟨b, s⟩
      · rfl
      · exact if_neg he
    rw [endsFloat, hafter, Option.any_some]
    exact isSuffix_of_dropOne (congrArg Cut.rest h)

/-- How the mantissa of each form is spelled, with what is left behind it.  Without a dot an exponent
has to stand there. -/
inductive Mantissa : FloatForm → List UInt8 → List UInt8 → Prop
  | fraction {w s : List UInt8} : begins isDigit w = true →
      w.dropWhile isDigit = '.'.toUInt8 :: s → begins isDigit s = true →
      Mantissa .fraction w (s.dropWhile isDigit)
  | trailingDot {w s : List UInt8} : begins isDigit w = true →
      w.dropWhile isDigit = '.'.toUInt8 :: s → begins isDigit s = false → Mantissa .trailingDot w s
  | leadingDot {s : List UInt8} : begins isDigit s = true →
      Mantissa .leadingDot ('.'.toUInt8 :: s) (s.dropWhile isDigit)
  | exponent {w s : List UInt8} : begins isDigit w = true → w.dropWhile isDigit = s →
      begins (isLetterOf 'e') s = true → Mantissa .exponent w s

theorem Mantissa.eq_some {form : FloatForm} (h : Mantissa form w s) :
    mantissa? w = some (form, s) := by
  cases h with
  | @fraction _ s hw hs hd =>
    have hwhole : w.head?.any isDigit = true := hw
    have hdigit : s.head?.any isDigit = true := hd
    unfold mantissa?
    simp only [hwhole, hs, hdigit, beq_self_eq_true, if_true]
  | trailingDot hw hs hd =>
    have hwhole : w.head?.any isDigit = true := hw
    have hdigit : s.head?.any isDigit = false := hd
    unfold mantissa?
    simp only [hwhole, hs, hdigit, beq_self_eq_true, if_true]
  | @leadingDot s hd =>
    have hdot : ('.'.toUInt8 :: s).dropWhile isDigit = '.'.toUInt8 :: s :=
      List.dropWhile_cons_of_neg (by decide)
    have hnone : ('.'.toUInt8 :: s).head?.any isDigit = false := rfl
    have hdigit : s.head?.any isDigit = true := hd
    unfold mantissa?
    simp only [hdot, hnone, hdigit, beq_self_eq_true, if_true]
  | exponent hw hs he =>
    obtain ⟨b, t, rfl, hb⟩ := exists_cons_of_begins he
    have hwhole : w.head?.any isDigit = true := hw
    have hdot : (b == '.'.toUInt8) = false := by
      rw [beq_eq_false_iff_ne]
      rintro rfl
      cases hb
    unfold mantissa?
    simp only [hwhole, hs, hdot, hb, Bool.and_self, Bool.false_eq_true, if_false, if_true]

theorem mantissa_of_eq_some {form : FloatForm} (h : mantissa? w = some (form, s)) :
    Mantissa form w s := by
  unfold mantissa? at h
  cases hr : w.dropWhile isDigit with
  | nil => simp [hr] at h
  | cons b r =>
    simp only [hr] at h
    split at h
    · next hb =>
      obtain rfl := eq_of_beq hb
      split at h
      · next hwhole hdigit =>
        cases h
        exact .fraction hwhole hr hdigit
      · next hwhole hdigit =>
        cases h
        exact .trailingDot hwhole hr hdigit
      · next hwhole hdigit =>
        cases h
        rw [dropWhile_of_not_begins hwhole] at hr
        exact hr ▸ .leadingDot hdigit
      · cases h
    · split at h
      · next hb hmark =>
        cases h
        rw [Bool.and_eq_true] at hmark
        exact .exponent hmark.1 hr hmark.2
      · cases h

theorem Mantissa.floatForm?_eq {form : FloatForm} (hw : Mantissa form w s)
    (hs : endsFloat s = true) : floatForm? w = some form := by
  obtain ⟨t, ht, hsuffix⟩ := (Option.any_eq_true _ _).mp hs
  simp only [floatForm?, hw.eq_some, Option.bind_eq_bind, Option.bind_some, ht, if_pos hsuffix]

/-- Behind a dot the digits, if there are any, belong to the mantissa. -/
theorem exists_mantissa_of_dot (hw : begins isDigit w = true)
    (hs : w.dropWhile isDigit = '.'.toUInt8 :: s) :
    ∃ form, Mantissa form w (s.dropWhile isDigit) := by
  cases hd : begins isDigit s with
  | true => exact ⟨.fraction, .fraction hw hs hd⟩
  | false =>
    rw [dropWhile_of_not_begins hd]
    exact ⟨.trailingDot, .trailingDot hw hs hd⟩

/-! ## Forms -/

theorem isSome_form_of_decimal (hw : begins isDigit w = true)
    (h : decimalEnd (w.dropWhile isDigit) = ⟨k, []⟩) (hk : k.isToken = true) :
    isGrouped isDigit isNumberSuffix w = true ∨ (floatForm? w).isSome = true := by
  have hgrouped {q : UInt8 → Bool} (hq : ∀ b, q b = true → isNumberSuffix b = true)
      (ht : isSuffix q (w.dropWhile isDigit) = true) : isGrouped isDigit isNumberSuffix w = true :=
    isGrouped_of_isSuffix hw rfl (isSuffix_mono hq ht)
  unfold decimalEnd at h
  split at h
  · next hdot =>
    obtain ⟨b, t, ht, hb⟩ := exists_cons_of_begins hdot
    obtain rfl := eq_of_beq hb
    obtain ⟨form, hform⟩ := exists_mantissa_of_dot hw ht
    rw [ht] at h
    rw [hform.floatForm?_eq (endsFloat_of_floatTail h hk)]
    exact .inr rfl
  · split at h
    · next he =>
      obtain ⟨b, t, ht, hb⟩ := exists_cons_of_begins he
      rw [ht] at h
      rw [(Mantissa.exponent hw ht hb).floatForm?_eq (endsFloat_of_exponent hb h hk)]
      exact .inr rfl
    · split at h
      · next hf =>
        refine .inl (hgrouped (q := isFloatSuffix) ?_ ?_)
        · intro b hb
          rw [isNumberSuffix, hb, Bool.or_true]
        · refine isSuffix_of_dropOne ?_
          rw [dropOne, if_pos hf]
          exact congrArg Cut.rest h
      · refine .inl (hgrouped (q := isLetterOf 'l') ?_ (isSuffix_of_dropOne (congrArg Cut.rest h)))
        intro b hb
        rw [isNumberSuffix, hb, Bool.true_or]

/-- Without the mark of hexadecimal numerals, the other forms are all tried. -/
theorem isSome_formOfBytes? (hx : afterRadix? 'x' w = none)
    (h : isGrouped isDigit isNumberSuffix w = true ∨ (floatForm? w).isSome = true) :
    (formOfBytes? w).isSome = true := by
  simp only [formOfBytes?, hx]
  by_cases hbinary : (afterRadix? 'b' w).any (isGrouped isBinaryDigit (isLetterOf 'l')) = true
  · rw [if_pos hbinary]
    rfl
  · rw [if_neg hbinary]
    by_cases hinteger : isGrouped isDigit isNumberSuffix w = true
    · rw [if_pos hinteger]
      rfl
    · rw [if_neg hinteger, Option.isSome_map]
      exact h.resolve_left hinteger

theorem isGrouped_of_hexadecimal (h : hexadecimal s = ⟨k, []⟩) (hk : k.isToken = true) :
    isGrouped isHexDigit isNumberSuffix s = true := by
  unfold hexadecimal at h
  split at h
  · next hd =>
    have hrest : dropOne (isLetterOf 'l') ((s.drop 1).dropWhile isHexDigit) = [] :=
      congrArg Cut.rest h
    rw [← dropWhile_of_begins hd] at hrest
    refine isGrouped_of_isSuffix hd rfl (isSuffix_mono ?_ (isSuffix_of_dropOne hrest))
    intro b hb
    rw [isNumberSuffix, hb, Bool.true_or]
  · obtain rfl : _ = k := congrArg Cut.terminal h
    cases hk

theorem isGrouped_of_binary (hd : begins isBinaryDigit s = true)
    (h : binary (s.drop 1) = ⟨k, []⟩) : isGrouped isBinaryDigit (isLetterOf 'l') s = true := by
  have hrest : dropOne (isLetterOf 'l') ((s.drop 1).dropWhile isBinaryDigit) = [] :=
    congrArg Cut.rest h
  rw [← dropWhile_of_begins hd] at hrest
  exact isGrouped_of_isSuffix hd rfl (isSuffix_of_dropOne hrest)

theorem afterRadix?_zero (mark : Char) (s : List UInt8) :
    afterRadix? mark ('0'.toUInt8 :: s) =
      if begins (isLetterOf mark) s then some (s.drop 1) else none := by
  rcases s with _ | ⟨b, s⟩ <;> rfl

theorem afterRadix?_of_ne (mark : Char) (hb : (b == '0'.toUInt8) = false) (s : List UInt8) :
    afterRadix? mark (b :: s) = none := by
  rcases s with _ | ⟨c, s⟩
  · rfl
  · rw [afterRadix?, hb, Bool.false_and, if_neg Bool.false_ne_true]

theorem isSome_form_of_number (hb : isDigit b = true) (h : number b s = ⟨k, []⟩)
    (hk : k.isToken = true) : (formOfBytes? (b :: s)).isSome = true := by
  have hdigits : (b :: s).dropWhile isDigit = s.dropWhile isDigit := dropWhile_of_begins hb
  have hdecimal (hx : afterRadix? 'x' (b :: s) = none) (h : decimal s = ⟨k, []⟩) :
      (formOfBytes? (b :: s)).isSome = true :=
    isSome_formOfBytes? hx (isSome_form_of_decimal hb (by rwa [hdigits]) hk)
  unfold number at h
  split at h
  · next hzero =>
    obtain rfl := eq_of_beq hzero
    have hmark := afterRadix?_zero 'x' s
    unfold afterZero at h
    split at h
    · next hx =>
      rw [if_pos hx] at hmark
      simp only [formOfBytes?, hmark, if_pos (isGrouped_of_hexadecimal h hk)]
      rfl
    · next hx =>
      rw [if_neg hx] at hmark
      split at h
      · next hm =>
        split at h
        · next hd =>
          have hafter := afterRadix?_zero 'b' s
          have hgrouped := isGrouped_of_binary hd (by rwa [List.drop_drop])
          rw [if_pos hm] at hafter
          simp only [formOfBytes?, hmark, hafter, Option.any_some, if_pos hgrouped]
          rfl
        · exact hdecimal hmark h
      · exact hdecimal hmark h
  · next hzero => exact hdecimal (afterRadix?_of_ne 'x' (Bool.eq_false_iff.mpr hzero) s) h

theorem isSome_form_of_fraction (hd : begins isDigit s = true)
    (h : fraction (s.drop 1) = ⟨k, []⟩) (hk : k.isToken = true) :
    (formOfBytes? ('.'.toUInt8 :: s)).isSome = true := by
  rw [fraction_drop_one hd] at h
  have hform := (Mantissa.leadingDot hd).floatForm?_eq (endsFloat_of_floatTail h hk)
  refine isSome_formOfBytes? (afterRadix?_of_ne 'x' rfl s) (.inr ?_)
  rw [hform]
  rfl

/-! ## First bytes -/

theorem mantissa?_eq_none (hd : isDigit b = false) (hdot : (b == '.'.toUInt8) = false) :
    mantissa? (b :: s) = none := by
  have hwhole : (b :: s).head?.any isDigit = false := hd
  have hs : (b :: s).dropWhile isDigit = b :: s := dropWhile_of_not_begins hd
  unfold mantissa?
  simp only [hwhole, hs, hdot, Bool.false_and, Bool.false_eq_true, if_false]

/-- A numeral begins with a digit or a dot. -/
theorem begins_of_isSome_form (h : (formOfBytes? w).isSome = true) :
    begins (fun b => isDigit b || b == '.'.toUInt8) w = true := by
  rcases w with _ | ⟨b, s⟩
  · cases h
  rw [begins_cons, ← Bool.not_eq_false, Bool.or_eq_false_iff]
  rintro ⟨hd, hdot⟩
  have hzero : (b == '0'.toUInt8) = false := by
    rw [beq_eq_false_iff_ne]
    rintro rfl
    cases hd
  have hgroups : afterGroups? isDigit (b :: s) = none := if_neg (Bool.eq_false_iff.mp hd)
  have hfloat : floatForm? (b :: s) = none := by
    simp only [floatForm?, mantissa?_eq_none hd hdot, Option.bind_eq_bind, Option.bind_none]
  simp only [formOfBytes?, afterRadix?_of_ne _ hzero, isGrouped, hgroups, hfloat, Option.any_none,
    Bool.false_eq_true, if_false, Option.map_none, Option.isSome_none] at h

/-- What is read as a numeral has the form of one. -/
theorem isSome_form_of_first {shape : NumeralShape} (h : first w = ⟨.numeral shape, []⟩) :
    (formOfBytes? w).isSome = true := by
  obtain ⟨b, s, r, rfl, hleads, hreads, hcut⟩ := exists_rule_of_isToken h rfl
  cases r with
  | number => exact isSome_form_of_number hleads hcut rfl
  | dot =>
    obtain rfl := eq_of_beq hleads
    change (if begins isDigit s then fraction (s.drop 1) else dots s) = _ at hcut
    by_cases hd : begins isDigit s = true
    · rw [if_pos hd] at hcut
      exact isSome_form_of_fraction hd hcut rfl
    · rw [if_neg hd] at hcut
      have hsymbol := (completes_dots s).isSymbol
      rw [hcut] at hsymbol
      cases hsymbol
  | _ => cases hreads

end Cut

/-- What is read as a numeral is one. -/
theorem isNumeral_of_first {text : String} {shape : NumeralShape}
    (h : Cut.first (bytes text) = ⟨.numeral shape, []⟩) : Numeral.isNumeral text = true :=
  Cut.isSome_form_of_first h

end JavaTokens
