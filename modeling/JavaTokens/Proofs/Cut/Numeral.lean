import JavaTokens.Lexeme.Numeral
import JavaTokens.Proofs.Cut.Basic

/-!
# Cuts of numerals

The rules for numerals, behind their first byte.  No rule goes back: what a mark has taken stays
taken, so `1e` and `0x` are defects that reach to behind their marks.
-/

namespace JavaTokens.Cut

open Lexeme ReadM Ascii

/-! ## Rules -/

def floatEnd (s : List UInt8) : Cut := ⟨.numeral .floating, dropOne isFloatSuffix s⟩

/-- Behind an exponent mark and its sign. -/
def exponentDigits (s : List UInt8) : Cut :=
  if begins isDigit s then floatEnd ((s.drop 1).dropWhile isDigit)
  else ⟨.defect .digitlessNumeral, s⟩

/-- Behind an exponent mark. -/
def exponent (s : List UInt8) : Cut := exponentDigits (dropOne isSign s)

def floatTail (s : List UInt8) : Cut :=
  if begins (isLetterOf 'e') s then exponent (s.drop 1) else floatEnd s

/-- Behind the dot. -/
def fraction (s : List UInt8) : Cut := floatTail (s.dropWhile isDigit)

/-- The first digit of a fraction may be taken with the dot. -/
theorem fraction_drop_one {s : List UInt8} (h : begins isDigit s = true) :
    fraction (s.drop 1) = fraction s := by
  rw [fraction, fraction, dropWhile_of_begins h]

/-- Behind the radix mark. -/
def hexadecimal (s : List UInt8) : Cut :=
  if begins isHexDigit s then
    ⟨.numeral .hexadecimal, dropOne (isLetterOf 'l') ((s.drop 1).dropWhile isHexDigit)⟩
  else ⟨.defect .digitlessNumeral, s⟩

/-- Behind the radix mark and one digit. -/
def binary (s : List UInt8) : Cut :=
  ⟨.numeral .binary, dropOne (isLetterOf 'l') (s.dropWhile isBinaryDigit)⟩

/-- Behind the digits. -/
def decimalEnd (s : List UInt8) : Cut :=
  if begins (· == '.'.toUInt8) s then fraction (s.drop 1)
  else if begins (isLetterOf 'e') s then exponent (s.drop 1)
  else if begins isFloatSuffix s then ⟨.numeral .floating, s.drop 1⟩
  else ⟨.numeral .decimal, dropOne (isLetterOf 'l') s⟩

def decimal (s : List UInt8) : Cut := decimalEnd (s.dropWhile isDigit)

/-- Behind a zero. -/
def afterZero (s : List UInt8) : Cut :=
  if begins (isLetterOf 'x') s then hexadecimal (s.drop 1)
  else if begins (isLetterOf 'b') s then
    if begins isBinaryDigit (s.drop 1) then binary (s.drop 2) else decimal s
  else decimal s

/-- Behind the first digit `b`. -/
def number (b : UInt8) (s : List UInt8) : Cut :=
  if b == '0'.toUInt8 then afterZero s else decimal s

/-! ## Terminals -/

theorem exponent_cases (s : List UInt8) : (exponent s).terminal.isNumeral = true ∨
    (exponent s).terminal = .defect .digitlessNumeral := by
  unfold exponent exponentDigits
  split
  · exact .inl rfl
  · exact .inr rfl

theorem floatTail_cases (s : List UInt8) : (floatTail s).terminal.isNumeral = true ∨
    (floatTail s).terminal = .defect .digitlessNumeral := by
  unfold floatTail
  split
  · exact exponent_cases _
  · exact .inl rfl

theorem decimal_cases (s : List UInt8) : (decimal s).terminal.isNumeral = true ∨
    (decimal s).terminal = .defect .digitlessNumeral := by
  unfold decimal decimalEnd
  split
  · exact floatTail_cases _
  · split
    · exact exponent_cases _
    · split
      · exact .inl rfl
      · exact .inl rfl

theorem afterZero_cases (s : List UInt8) : (afterZero s).terminal.isNumeral = true ∨
    (afterZero s).terminal = .defect .digitlessNumeral := by
  unfold afterZero
  split
  · unfold hexadecimal
    split
    · exact .inl rfl
    · exact .inr rfl
  · split
    · split
      · exact .inl rfl
      · exact decimal_cases s
    · exact decimal_cases s

/-- What begins with a digit is a numeral, or lacks the digits behind a mark. -/
theorem number_cases (b : UInt8) (s : List UInt8) : (number b s).terminal.isNumeral = true ∨
    (number b s).terminal = .defect .digitlessNumeral := by
  unfold number
  split
  · exact afterZero_cases s
  · exact decimal_cases s

/-! ## Reading -/

theorem cuts_longSuffix (t : Terminal) (s : List UInt8) :
    Cuts (longSuffix >>= fun _ => pure t) s ⟨t, dropOne (isLetterOf 'l') s⟩ :=
  Cuts.bind (yields_skipOptional rfl s) (Cuts.pure t _)

theorem cuts_floatEnd (s : List UInt8) :
    Cuts (skipOptional isFloatSuffix >>= fun _ => pure (.numeral .floating)) s (floatEnd s) :=
  Cuts.bind (yields_skipOptional rfl s) (Cuts.pure _ _)

theorem cuts_floatTail (s : List UInt8) : Cuts Lexeme.floatTail s (floatTail s) := by
  unfold Lexeme.floatTail Lexeme.exponent floatTail
  rw [bind_assoc]
  refine Cuts.current ?_
  rw [← headD_test (p := isLetterOf 'e') rfl s]
  cases h : begins (isLetterOf 'e') s with
  | false => exact cuts_floatEnd s
  | true =>
    obtain ⟨b, t, rfl, -⟩ := exists_cons_of_begins h
    have hy : Yields (do skip 1; skipOptional isSign; skipSome isDigit) (b :: t)
        (begins isDigit (dropOne isSign t)) ((dropOne isSign t).dropWhile isDigit) :=
      (yields_skip_one b t).bind ((yields_skipOptional rfl t).bind (yields_skipSome rfl _))
    show Cuts _ _ (exponentDigits (dropOne isSign t))
    refine Cuts.bind hy (Cuts.ite rfl ?_ ?_)
    · intro hd
      rw [dropWhile_of_begins hd]
      exact cuts_floatEnd _
    · intro hd
      rw [dropWhile_of_not_begins hd]
      exact Cuts.pure _ _

theorem cuts_fraction (b : UInt8) (s : List UInt8) : Cuts Lexeme.fraction (b :: s) (fraction s) :=
  Cuts.skip_one (Cuts.bind (yields_skipWhile rfl s) (cuts_floatTail _))

theorem cuts_hexadecimal (b : UInt8) (s : List UInt8) :
    Cuts Lexeme.hexadecimal (b :: s) (hexadecimal s) := by
  refine Cuts.skip_one (Cuts.bind (yields_skipSome rfl s) (Cuts.ite rfl ?_ ?_))
  · intro h
    rw [dropWhile_of_begins h]
    exact cuts_longSuffix _ _
  · intro h
    rw [dropWhile_of_not_begins h]
    exact Cuts.pure _ s

theorem cuts_binary (b : UInt8) {s : List UInt8} (h : begins isBinaryDigit s = true) :
    Cuts Lexeme.binary (b :: s) (binary (s.drop 1)) := by
  refine Cuts.skip_one (Cuts.bind (yields_skipWhile rfl s) ?_)
  rw [dropWhile_of_begins h]
  exact cuts_longSuffix _ _

/-- An exponent and a suffix are told apart before the tail of the numeral, or in it. -/
theorem decimalEnd_eq (s : List UInt8) :
    decimalEnd s =
      if begins (· == '.'.toUInt8) s then fraction (s.drop 1)
      else if begins (fun b => isLetterOf 'e' b || isFloatSuffix b) s then floatTail s
      else ⟨.numeral .decimal, dropOne (isLetterOf 'l') s⟩ := by
  rcases s with _ | ⟨b, s⟩
  · rfl
  · simp only [decimalEnd, floatTail, floatEnd, dropOne, begins_cons]
    by_cases he : isLetterOf 'e' b = true <;> by_cases hf : isFloatSuffix b = true <;> simp [he, hf]

theorem cuts_decimal (s : List UInt8) : Cuts Lexeme.decimal s (decimal s) := by
  refine Cuts.bind (yields_skipWhile rfl s) (Cuts.current ?_)
  rw [decimal, decimalEnd_eq]
  refine Cuts.ite (headD_test rfl _) ?_ ?_
  · intro h
    obtain ⟨b, t, ht, -⟩ := exists_cons_of_begins h
    rw [ht]
    exact cuts_fraction b t
  · intro _
    exact Cuts.ite (headD_test rfl _) (fun _ => cuts_floatTail _) fun _ => cuts_longSuffix _ _

theorem cuts_afterZero (s : List UInt8) : Cuts Lexeme.afterZero s (afterZero s) := by
  refine Cuts.current (Cuts.ite (headD_test rfl s) ?_ ?_)
  · intro h
    obtain ⟨b, t, rfl, -⟩ := exists_cons_of_begins h
    exact cuts_hexadecimal b t
  · intro _
    refine Cuts.ite (headD_test rfl s) ?_ fun _ => cuts_decimal s
    intro h
    obtain ⟨b, t, rfl, -⟩ := exists_cons_of_begins h
    exact Cuts.look_one (Cuts.ite (headD_test rfl t) (fun h => cuts_binary b h)
      fun _ => cuts_decimal _)

theorem cuts_number (b : UInt8) (s : List UInt8) : Cuts Lexeme.number (b :: s) (number b s) :=
  Cuts.current (Cuts.skip_one (Cuts.ite rfl (fun _ => cuts_afterZero s) fun _ => cuts_decimal s))

/-! ## What is taken -/

/-- The bytes of numerals. -/
def isNumeralPart (b : UInt8) : Bool := isWordPart b || b == '.'.toUInt8 || isSign b

theorem isNumeralPart_iff {b : UInt8} : isNumeralPart b = true ↔
    (isWordPart b = true ∨ b.toNat = 46) ∨ (b.toNat = 43 ∨ b.toNat = 45) := by
  simp only [isNumeralPart, isSign, Bool.or_eq_true, beq_iff_toNat]
  exact Iff.rfl

theorem isNumeralPart_of_isHexDigit (b : UInt8) (h : isHexDigit b = true) :
    isNumeralPart b = true := by
  rw [isHexDigit_iff] at h
  rw [isNumeralPart_iff, isWordPart_iff]
  omega

theorem isNumeralPart_of_isDigit (b : UInt8) (h : isDigit b = true) : isNumeralPart b = true := by
  rw [isDigit_iff] at h
  rw [isNumeralPart_iff, isWordPart_iff]
  omega

theorem isNumeralPart_of_isBinaryDigit (b : UInt8) (h : isBinaryDigit b = true) :
    isNumeralPart b = true := by
  rw [isBinaryDigit_iff] at h
  rw [isNumeralPart_iff, isWordPart_iff]
  omega

/-- Radix marks, exponent marks and suffixes. -/
theorem isNumeralPart_of_mark {c : Char} (hc : c ∈ ['b', 'd', 'e', 'f', 'l', 'x']) (b : UInt8)
    (h : isLetterOf c b = true) : isNumeralPart b = true := by
  simp only [List.mem_cons, List.not_mem_nil, or_false] at hc
  rw [isLetterOf, Bool.or_eq_true] at h
  rcases hc with rfl | rfl | rfl | rfl | rfl | rfl
  all_goals
    rcases h with h | h
    · rw [eq_of_beq h]
      rfl
    · rw [eq_of_beq h]
      rfl

theorem isNumeralPart_of_isFloatSuffix (b : UInt8) (h : isFloatSuffix b = true) :
    isNumeralPart b = true := by
  rw [isFloatSuffix, Bool.or_eq_true] at h
  rcases h with h | h
  · exact isNumeralPart_of_mark (by simp) b h
  · exact isNumeralPart_of_mark (by simp) b h

theorem isNumeralPart_of_dot (b : UInt8) (h : (b == '.'.toUInt8) = true) :
    isNumeralPart b = true := by
  rw [eq_of_beq h]
  rfl

/-- The bytes of floating-point numerals. -/
def isFloatPart (b : UInt8) : Bool :=
  isDigit b || b == '.'.toUInt8 || isLetterOf 'e' b || isSign b || isFloatSuffix b

theorem isFloatPart_of_isDigit (b : UInt8) (h : isDigit b = true) : isFloatPart b = true := by
  simp only [isFloatPart, h, Bool.true_or]

theorem isNumeralPart_of_isFloatPart (b : UInt8) (h : isFloatPart b = true) :
    isNumeralPart b = true := by
  simp only [isFloatPart, Bool.or_eq_true] at h
  rcases h with (((h | h) | h) | h) | h
  · exact isNumeralPart_of_isDigit b h
  · exact isNumeralPart_of_dot b h
  · exact isNumeralPart_of_mark (by simp) b h
  · rw [isNumeralPart, h, Bool.or_true]
  · exact isNumeralPart_of_isFloatSuffix b h

/-- Numerals are ASCII and stay in their line. -/
theorem ascii_of_isNumeralPart (b : UInt8) (h : isNumeralPart b = true) :
    b < 0x80 ∧ isInLine b = true := by
  rw [isNumeralPart_iff, isWordPart_iff] at h
  rw [ascii_isInLine_iff]
  omega

theorem takes_floatEnd (s : List UInt8) : Takes isFloatPart s (floatEnd s).rest :=
  takes_dropOne (by simp +contextual [isFloatPart]) s

theorem takes_exponent (s : List UInt8) : Takes isFloatPart s (exponent s).rest := by
  have hsign : Takes isFloatPart s (dropOne isSign s) :=
    takes_dropOne (by simp +contextual [isFloatPart]) s
  have hdigits (s : List UInt8) :
      Takes isFloatPart s (floatEnd (s.dropWhile isDigit)).rest :=
    (takes_dropWhile isFloatPart_of_isDigit s).trans (takes_floatEnd _)
  exact hsign.trans (takes_branch (g := Cut.mk (.defect .digitlessNumeral))
    isFloatPart_of_isDigit hdigits (Takes.refl _) _)

theorem takes_floatTail (s : List UInt8) : Takes isFloatPart s (floatTail s).rest :=
  takes_branch (by simp +contextual [isFloatPart]) takes_exponent takes_floatEnd s

theorem takes_fraction (s : List UInt8) : Takes isNumeralPart s (fraction s).rest := by
  have hfraction : Takes isFloatPart s (fraction s).rest :=
    (takes_dropWhile isFloatPart_of_isDigit s).trans (takes_floatTail _)
  exact hfraction.mono isNumeralPart_of_isFloatPart

/-- Digits and the suffix of a long numeral behind them. -/
theorem takes_longDigits {p : UInt8 → Bool} (hp : ∀ b, p b = true → isNumeralPart b = true)
    (s : List UInt8) : Takes isNumeralPart s (dropOne (isLetterOf 'l') (s.dropWhile p)) :=
  (takes_dropWhile hp s).trans (takes_dropOne (isNumeralPart_of_mark (by simp)) _)

theorem takes_hexadecimal (s : List UInt8) : Takes isNumeralPart s (hexadecimal s).rest := by
  have hlong := takes_longDigits isNumeralPart_of_isHexDigit
  exact takes_branch (f := fun t =>
      ⟨.numeral .hexadecimal, dropOne (isLetterOf 'l') (t.dropWhile isHexDigit)⟩)
    (g := Cut.mk (.defect .digitlessNumeral)) isNumeralPart_of_isHexDigit hlong (Takes.refl _) s

theorem takes_binary (s : List UInt8) : Takes isNumeralPart s (binary s).rest :=
  takes_longDigits isNumeralPart_of_isBinaryDigit s

theorem takes_decimalEnd (s : List UInt8) : Takes isNumeralPart s (decimalEnd s).rest := by
  have hlong (s : List UInt8) : Takes isNumeralPart s (dropOne (isLetterOf 'l') s) :=
    takes_dropOne (isNumeralPart_of_mark (by simp)) s
  have hsuffix := takes_branch (f := Cut.mk (.numeral .floating))
    (g := fun t => ⟨.numeral .decimal, dropOne (isLetterOf 'l') t⟩)
    isNumeralPart_of_isFloatSuffix (Takes.refl _) hlong
  have hmark := isNumeralPart_of_mark (c := 'e') (by simp)
  have hexponent (s : List UInt8) : Takes isNumeralPart s (exponent s).rest :=
    (takes_exponent s).mono isNumeralPart_of_isFloatPart
  exact takes_branch isNumeralPart_of_dot takes_fraction (takes_branch hmark hexponent hsuffix) s

theorem takes_decimal (s : List UInt8) : Takes isNumeralPart s (decimal s).rest :=
  (takes_dropWhile isNumeralPart_of_isDigit s).trans (takes_decimalEnd _)

theorem takes_afterZero (s : List UInt8) : Takes isNumeralPart s (afterZero s).rest := by
  have hbinary := takes_branch_two (isNumeralPart_of_mark (c := 'b') (by simp))
    isNumeralPart_of_isBinaryDigit takes_binary takes_decimal
  exact takes_branch (isNumeralPart_of_mark (by simp)) takes_hexadecimal hbinary s

theorem takes_number (b : UInt8) (s : List UInt8) : Takes isNumeralPart s (number b s).rest := by
  unfold number
  split
  · exact takes_afterZero s
  · exact takes_decimal s

/-! ## Indifference to what is left -/

theorem local_floatEnd : Local floatEnd := .of_rest _ (localRest_dropOne _)

theorem local_exponent : Local exponent := by
  have h : Local exponentDigits :=
    (local_floatEnd.comp (localRest_dropWhile isDigit)).branch (.of_rest _ localRest_id)
  exact h.comp (localRest_dropOne isSign)

theorem local_floatTail : Local floatTail := local_exponent.branch local_floatEnd

theorem local_fraction : Local fraction := local_floatTail.comp (localRest_dropWhile isDigit)

theorem local_hexadecimal : Local hexadecimal :=
  Local.branch
    (.of_rest _ ((localRest_dropOne (isLetterOf 'l')).comp (localRest_dropWhile isHexDigit)))
    (.of_rest _ localRest_id)

theorem local_binary : Local binary :=
  .of_rest _ ((localRest_dropOne (isLetterOf 'l')).comp (localRest_dropWhile isBinaryDigit))

theorem local_decimal : Local decimal := by
  have h : Local decimalEnd :=
    local_fraction.branch (local_exponent.branch
      (Local.branch (.of_rest _ localRest_id) (.of_rest _ (localRest_dropOne (isLetterOf 'l')))))
  exact h.comp (localRest_dropWhile isDigit)

theorem local_number (b : UInt8) : Local (number b) := by
  have h : Local afterZero := local_hexadecimal.branch (local_binary.branch_two local_decimal)
  by_cases hb : (b == '0'.toUInt8) = true
  · exact (funext fun s => if_pos hb : number b = afterZero) ▸ h
  · exact (funext fun s => if_neg hb : number b = decimal) ▸ local_decimal

end JavaTokens.Cut
