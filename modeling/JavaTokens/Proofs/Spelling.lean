import JavaTokens.Proofs.Cut.First

/-!
# Spellings of symbols

Each rule reads tokens of one sort, apart from the one for a dot, which begins a numeral as well as a
symbol.  The bytes of a symbol are its spelling, and nothing more is taken for it.

    a token is of the sort of the rule that reads it                  (conforms_ofRule)
    first s = ⟨symbol sym, t⟩ → s = bytes sym.spelling ++ t           (eq_spelling_of_first)
-/

namespace JavaTokens

def Terminal.isSymbol : Terminal → Bool
  | symbol _ => true
  | _ => false

namespace Cut

open Lexeme Text Ascii

/-! ## First bytes of tokens -/

/-- How a byte begins the tokens of the rule that it picks. -/
def leads (b : UInt8) : Rule → Bool
  | .single s => bytes s.spelling == [b]
  | .assignable bare assigned =>
    bytes bare.spelling == [b] && bytes assigned.spelling == [b, '='.toUInt8]
  | .doubling twice bare assigned =>
    bytes twice.spelling == [b, b] && bytes bare.spelling == [b] &&
      bytes assigned.spelling == [b, '='.toUInt8]
  | .less => b == '<'.toUInt8
  | .greater => b == '>'.toUInt8
  | .dot => b == '.'.toUInt8
  | .slash => b == '/'.toUInt8
  | .number => isDigit b
  | .word => isWordStart b
  | .string => b == '"'.toUInt8
  | .character => b == '\''.toUInt8
  | .beyondAscii => isBeyondAscii b
  | _ => true

theorem leads_ofByte (b : UInt8) : leads b (Rule.ofByte b) = true := by
  have hall : ∀ n, n < 256 → leads (UInt8.ofNat n) (Rule.ofByte (UInt8.ofNat n)) = true := by
    decide +kernel
  rw [← UInt8.ofNat_toNat (x := b)]
  exact hall b.toNat b.toNat_lt

/-! ## Symbols -/

/-- The cut ends a symbol of which the bytes `lead` have been taken. -/
def Completes (lead s : List UInt8) (c : Cut) : Prop :=
  ∃ sym : Symbol, c.terminal = .symbol sym ∧ lead ++ s = bytes sym.spelling ++ c.rest

variable {lead s : List UInt8} {b : UInt8}

theorem Completes.isSymbol {c : Cut} (h : Completes lead s c) : c.terminal.isSymbol = true := by
  obtain ⟨sym, hsym, -⟩ := h
  rw [hsym]
  rfl

theorem Completes.cons {c : Cut} (h : Completes (lead ++ [b]) s c) : Completes lead (b :: s) c := by
  obtain ⟨sym, hsym, hbytes⟩ := h
  exact ⟨sym, hsym, by rw [← hbytes, List.append_assoc, List.singleton_append]⟩

theorem completes_bare {sym : Symbol} (h : bytes sym.spelling = lead) :
    Completes lead s ⟨.symbol sym, s⟩ :=
  ⟨sym, rfl, by rw [h]⟩

/-- A choice by the next byte, which is taken if it is the given one. -/
theorem completes_branch {f g : List UInt8 → Cut} (hf : ∀ t, Completes (lead ++ [b]) t (f t))
    (hg : Completes lead s (g s)) :
    Completes lead s (if begins (· == b) s then f (s.drop 1) else g s) := by
  split
  · next h =>
    obtain ⟨c, t, rfl, hc⟩ := exists_cons_of_begins h
    obtain rfl := eq_of_beq hc
    exact (hf t).cons
  · exact hg

theorem completes_assignable {bare assigned : Symbol} (hbare : bytes bare.spelling = lead)
    (hassigned : bytes assigned.spelling = lead ++ ['='.toUInt8]) (s : List UInt8) :
    Completes lead s (assignable bare assigned s) :=
  completes_branch (f := Cut.mk (.symbol assigned)) (g := Cut.mk (.symbol bare))
    (fun _ => completes_bare hassigned) (completes_bare hbare)

theorem completes_doubling {twice bare assigned : Symbol} (htwice : bytes twice.spelling = [b, b])
    (hbare : bytes bare.spelling = [b]) (hassigned : bytes assigned.spelling = [b, '='.toUInt8])
    (s : List UInt8) : Completes [b] s (doubling b twice bare assigned s) :=
  completes_branch (f := Cut.mk (.symbol twice)) (fun _ => completes_bare htwice)
    (completes_assignable hbare hassigned s)

theorem completes_less (s : List UInt8) : Completes ['<'.toUInt8] s (less s) :=
  completes_branch (completes_assignable rfl rfl) (completes_assignable rfl rfl s)

theorem completes_greater (s : List UInt8) : Completes ['>'.toUInt8] s (greater s) := by
  have htwice (s : List UInt8) : Completes ['>'.toUInt8, '>'.toUInt8] s (greaterTwice s) :=
    completes_branch (completes_assignable rfl rfl) (completes_assignable rfl rfl s)
  exact completes_branch htwice (completes_assignable rfl rfl s)

theorem completes_dots (s : List UInt8) : Completes ['.'.toUInt8] s (dots s) := by
  have hdot (s : List UInt8) : Completes ['.'.toUInt8] s ⟨.symbol .dot, s⟩ := completes_bare rfl
  unfold dots
  split
  · next h =>
    obtain ⟨c, t, rfl, hc⟩ := exists_cons_of_begins h
    obtain rfl := eq_of_beq hc
    split
    · next h' =>
      obtain ⟨d, t, rfl, hd⟩ := exists_cons_of_begins h'
      obtain rfl := eq_of_beq hd
      have hellipsis : Completes ['.'.toUInt8, '.'.toUInt8, '.'.toUInt8] _ ⟨.symbol .ellipsis, t⟩ :=
        completes_bare rfl
      exact hellipsis.cons.cons
    · exact hdot _
  · exact hdot s

theorem completes_slash (h : (slash s).terminal.isToken = true) :
    Completes ['/'.toUInt8] s (slash s) := by
  unfold slash at *
  split
  · next hline =>
    rw [if_pos hline] at h
    cases h
  · next hline =>
    rw [if_neg hline] at h
    split
    · next hblock =>
      rw [if_pos hblock] at h
      exact absurd h (Bool.eq_false_iff.mp (isToken_blockComment _))
    · exact completes_branch (f := Cut.mk (.symbol .divideAssign))
        (g := Cut.mk (.symbol .divide)) (fun _ => completes_bare rfl) (completes_bare rfl)

/-! ## Tokens of rules -/

theorem isNumeral_of_isToken {t : Terminal}
    (h : t.isNumeral = true ∨ t = .defect .digitlessNumeral) (ht : t.isToken = true) :
    t.isNumeral = true := by
  refine h.resolve_right ?_
  rintro rfl
  cases ht

/-- Whether a rule reads tokens of the terminal. -/
def reads : Rule → Terminal → Bool
  | .word, t | .beyondAscii, t => t == .word
  | .number, t => t.isNumeral
  | .dot, t => t.isNumeral || t.isSymbol
  | .string, t => t == .string
  | .character, t => t == .character
  | .null, _ | .blanks, _ | .carriageReturn, _ | .lineFeed, _ | .stray, _ => false
  | _, t => t.isSymbol

theorem isSymbol_of_isNumeral {t : Terminal} (h : t.isNumeral = true) : t.isSymbol = false := by
  cases t with
  | numeral shape => rfl
  | _ => cases h

/-- A cut behind `b` is of the sort of the rule, and a symbol is complete. -/
def Conforms (b : UInt8) (s : List UInt8) (r : Rule) (c : Cut) : Prop :=
  reads r c.terminal = true ∧ (c.terminal.isSymbol = true → Completes [b] s c)

theorem Conforms.of_isNumeral {c : Cut} {r : Rule} (hc : c.terminal.isNumeral = true)
    (hr : reads r c.terminal = true) : Conforms b s r c := by
  refine ⟨hr, fun hsym => ?_⟩
  rw [isSymbol_of_isNumeral hc] at hsym
  cases hsym

theorem Completes.conforms {c : Cut} {r : Rule} (hc : Completes [b] s c)
    (hr : reads r c.terminal = true) : Conforms b s r c :=
  ⟨hr, fun _ => hc⟩

theorem conforms_string (h : (stringRest s).terminal.isToken = true) :
    Conforms b s .string (stringRest s) := by
  rcases stringRest_cases s with ⟨ht, -⟩ | ht
  · rw [Conforms, ht]
    exact ⟨rfl, nofun⟩
  · rw [ht] at h
    cases h

theorem conforms_character (h : (character s).terminal.isToken = true) :
    Conforms b s .character (character s) := by
  rcases character_cases s with ht | ht
  · rw [Conforms, ht]
    exact ⟨rfl, nofun⟩
  · rw [ht] at h
    cases h

theorem conforms_dot
    (h : (if begins isDigit s then fraction (s.drop 1) else dots s).terminal.isToken = true) :
    Conforms '.'.toUInt8 s .dot (if begins isDigit s then fraction (s.drop 1) else dots s) := by
  split
  · next hd =>
    rw [if_pos hd] at h
    have hn : (fraction (s.drop 1)).terminal.isNumeral = true :=
      isNumeral_of_isToken (floatTail_cases _) h
    exact .of_isNumeral hn (by rw [reads, hn, Bool.true_or])
  · have hc := completes_dots s
    exact hc.conforms (by rw [reads, hc.isSymbol, Bool.or_true])

theorem conforms_beyondAscii (h : (beyondAscii (b :: s)).terminal.isToken = true) :
    Conforms b s .beyondAscii (beyondAscii (b :: s)) := by
  unfold beyondAscii at *
  split
  · exact ⟨rfl, nofun⟩
  · next ha =>
    rw [if_neg ha] at h
    cases h

theorem conforms_ofRule {r : Rule} (hleads : leads b r = true)
    (h : (ofRule b s r).terminal.isToken = true) : Conforms b s r (ofRule b s r) := by
  cases r with
  | null | blanks | carriageReturn | lineFeed | stray => cases h
  | word => exact ⟨rfl, nofun⟩
  | number =>
    have hn := isNumeral_of_isToken (number_cases b s) h
    exact .of_isNumeral hn hn
  | string => exact conforms_string h
  | character => exact conforms_character h
  | slash =>
    obtain rfl := eq_of_beq hleads
    have hc := completes_slash h
    exact hc.conforms hc.isSymbol
  | single sym => exact (completes_bare (eq_of_beq hleads)).conforms rfl
  | assignable bare assigned =>
    simp only [leads, Bool.and_eq_true, beq_iff_eq] at hleads
    have hc := completes_assignable hleads.1 hleads.2 s
    exact hc.conforms hc.isSymbol
  | doubling twice bare assigned =>
    simp only [leads, Bool.and_eq_true, beq_iff_eq] at hleads
    have hc := completes_doubling hleads.1.1 hleads.1.2 hleads.2 s
    exact hc.conforms hc.isSymbol
  | less =>
    obtain rfl := eq_of_beq hleads
    have hc := completes_less s
    exact hc.conforms hc.isSymbol
  | greater =>
    obtain rfl := eq_of_beq hleads
    have hc := completes_greater s
    exact hc.conforms hc.isSymbol
  | dot =>
    obtain rfl := eq_of_beq hleads
    exact conforms_dot h
  | beyondAscii => exact conforms_beyondAscii h

/-- A token begins with a byte that leads the tokens of its rule. -/
theorem exists_rule_of_isToken {w : List UInt8} {k : Terminal} {t : List UInt8}
    (h : first w = ⟨k, t⟩) (hk : k.isToken = true) :
    ∃ b s r, w = b :: s ∧ leads b r = true ∧ reads r k = true ∧ ofRule b s r = ⟨k, t⟩ := by
  rcases w with _ | ⟨b, s⟩
  · cases h
    cases hk
  · rw [first_cons] at h
    have hconforms := conforms_ofRule (leads_ofByte b) (by rw [h]; exact hk)
    rw [h] at hconforms
    exact ⟨b, s, Rule.ofByte b, rfl, leads_ofByte b, hconforms.1, h⟩

/-- The bytes of a symbol are its spelling. -/
theorem eq_spelling_of_first {w t : List UInt8} {sym : Symbol}
    (h : first w = ⟨.symbol sym, t⟩) : w = bytes sym.spelling ++ t := by
  rcases w with _ | ⟨b, s⟩
  · cases h
  · rw [first_cons] at h
    have hconforms := conforms_ofRule (leads_ofByte b) (by rw [h]; rfl)
    rw [h] at hconforms
    obtain ⟨sym', hsym, hbytes⟩ := hconforms.2 rfl
    obtain rfl : sym = sym' := Terminal.symbol.inj hsym
    exact hbytes

end Cut

end JavaTokens
