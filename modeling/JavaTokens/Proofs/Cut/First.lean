import JavaTokens.Lexeme
import JavaTokens.Proofs.Cut.Word
import JavaTokens.Proofs.Cut.Symbol
import JavaTokens.Proofs.Cut.Numeral
import JavaTokens.Proofs.Cut.Quoted
import JavaTokens.Proofs.Cut.Trivia

/-!
# The first lexeme

The cut that the first byte of a text picks, by whatever rule.

    first s leaves less of s                                          (length_first_lt)
    IsUtf8 s → IsUtf8 (first s).rest                                  (isUtf8_first)
    a token stays the same before a space                             (first_append_space)
    a lexeme stays the same before a line feed                        (first_append_lineFeed)

The last one leaves out a comment that is not closed and a carriage return, which go on over the
line feed.
-/

namespace JavaTokens.Cut

open Lexeme ReadM Text Ascii

/-! ## The cut of a rule -/

/-- The cut of a rule behind the first byte `b`. -/
def ofRule (b : UInt8) (s : List UInt8) : Rule → Cut
  | .null => ⟨.defect .nullByte, s⟩
  | .blanks => blanks s
  | .carriageReturn => carriageReturn s
  | .lineFeed => ⟨.trivia .lineEnd, s⟩
  | .word => word s
  | .number => number b s
  | .string => stringRest s
  | .character => character s
  | .slash => slash s
  | .single sym => ⟨.symbol sym, s⟩
  | .assignable bare assigned => assignable bare assigned s
  | .doubling twice bare assigned => doubling b twice bare assigned s
  | .less => less s
  | .greater => greater s
  | .dot => if begins isDigit s then fraction (s.drop 1) else dots s
  | .beyondAscii => beyondAscii (b :: s)
  | .stray => ⟨.defect .strayCharacter, s⟩

/-- The first lexeme of a text, which is its end if nothing is left. -/
def first : List UInt8 → Cut
  | [] => ⟨.finish, []⟩
  | b :: s => ofRule b s (Rule.ofByte b)

theorem first_cons (b : UInt8) (s : List UInt8) : first (b :: s) = ofRule b s (Rule.ofByte b) := rfl

/-! ## First bytes -/

/-- What a byte is if it picks the rule. -/
def fits (b : UInt8) : Rule → Bool
  | .carriageReturn => b == '\r'.toUInt8
  | .blanks => isBlank b
  | .doubling _ _ _ => isMark b
  | .beyondAscii => isBeyondAscii b
  | _ => b < 0x80

theorem fits_ofByte (b : UInt8) : fits b (Rule.ofByte b) = true := by
  have hall : ∀ n, n < 256 → fits (UInt8.ofNat n) (Rule.ofByte (UInt8.ofNat n)) = true := by
    decide +kernel
  rw [← UInt8.ofNat_toNat (x := b)]
  exact hall b.toNat b.toNat_lt

theorem isBlank_of_ofByte {b : UInt8} (h : Rule.ofByte b = .blanks) : isBlank b = true := by
  have hfits := fits_ofByte b
  rwa [h] at hfits

theorem ofByte_of_isBlank {b : UInt8} (h : isBlank b = true) : Rule.ofByte b = .blanks := by
  simp only [isBlank, Bool.or_eq_true, beq_iff_eq] at h
  rcases h with (rfl | rfl) | rfl
  all_goals rfl

theorem isMark_of_ofByte {b : UInt8} {twice bare assigned : Symbol}
    (h : Rule.ofByte b = .doubling twice bare assigned) : isMark b = true := by
  have hfits := fits_ofByte b
  rwa [h] at hfits

theorem eq_of_ofByte_carriageReturn {b : UInt8} (h : Rule.ofByte b = .carriageReturn) :
    b = '\r'.toUInt8 := by
  have hfits := fits_ofByte b
  rw [h] at hfits
  exact eq_of_beq hfits

theorem eq_of_ofByte_lineFeed {b : UInt8} (h : Rule.ofByte b = .lineFeed) : b = '\n'.toUInt8 := by
  have hall : ∀ n, n < 256 → Rule.ofByte (UInt8.ofNat n) = .lineFeed →
      UInt8.ofNat n = '\n'.toUInt8 := by
    decide +kernel
  rw [← UInt8.ofNat_toNat (x := b)] at h ⊢
  exact hall b.toNat b.toNat_lt h

theorem lt_of_ofByte {b : UInt8} (h : Rule.ofByte b ≠ .beyondAscii) : b < 0x80 := by
  have hfits := fits_ofByte b
  cases hr : Rule.ofByte b with
  | beyondAscii => exact absurd hr h
  | carriageReturn =>
    rw [eq_of_ofByte_carriageReturn hr]
    decide
  | blanks => exact (ascii_of_isBlank b (isBlank_of_ofByte hr)).1
  | doubling => exact (ascii_of_isMark b (isMark_of_ofByte hr)).1
  | _ =>
    rw [hr] at hfits
    exact of_decide_eq_true hfits

theorem isInLine_of_ofByte {b : UInt8} (hcr : Rule.ofByte b ≠ .carriageReturn)
    (hlf : Rule.ofByte b ≠ .lineFeed) : isInLine b = true := by
  rw [isInLine, isLineEnd, Bool.not_eq_true', Bool.or_eq_false_iff, beq_eq_false_iff_ne,
    beq_eq_false_iff_ne]
  constructor
  · rintro rfl
    exact hlf rfl
  · rintro rfl
    exact hcr rfl

/-! ## Reading -/

theorem cuts_dot (b : UInt8) (s : List UInt8) : Cuts Lexeme.dot (b :: s) (ofRule b s .dot) := by
  refine Cuts.look_one (Cuts.ite (headD_test rfl s) ?_ fun _ => cuts_dots b s)
  intro h
  rw [fraction_drop_one h]
  exact cuts_fraction b s

theorem cuts_ofRule (b : UInt8) (s : List UInt8) :
    Cuts (Rule.ofByte b).read (b :: s) (ofRule b s (Rule.ofByte b)) := by
  cases hr : Rule.ofByte b with
  | null => exact cuts_null b s
  | blanks => exact cuts_blanks (isBlank_of_ofByte hr) s
  | carriageReturn => exact cuts_carriageReturn b s
  | lineFeed => exact cuts_lineFeed b s
  | word => exact cuts_word b s
  | number => exact cuts_number b s
  | string => exact cuts_string b s
  | character => exact cuts_character b s
  | slash => exact cuts_slash b s
  | single sym => exact cuts_single sym b s
  | assignable bare assigned => exact cuts_assignable bare assigned b s
  | doubling twice bare assigned =>
    refine cuts_doubling twice bare assigned ?_ s
    rintro rfl
    have hmark := isMark_of_ofByte hr
    cases hmark
  | less => exact cuts_less b s
  | greater => exact cuts_greater b s
  | dot => exact cuts_dot b s
  | beyondAscii => exact cuts_beyondAscii b s
  | stray => exact cuts_stray b s

theorem cuts_first (s : List UInt8) :
    Cuts (current >>= fun b => (Rule.ofByte b).read) s (first s) := by
  refine Cuts.current ?_
  rcases s with _ | ⟨b, s⟩
  · exact cuts_null_nil
  · exact cuts_ofRule b s

/-! ## Indifference to what is left -/

theorem length_beyondAscii_cons_le (b : UInt8) (s : List UInt8) :
    (beyondAscii (b :: s)).rest.length ≤ s.length := by
  have hl := length_beyondAscii_le (b :: s)
  have hd := length_dropChar_lt (List.cons_ne_nil b s)
  rw [List.length_cons] at hd
  omega

theorem local_ofRule (b : UInt8) (r : Rule) : Local fun s => ofRule b s r := by
  cases r with
  | null => exact .of_rest _ localRest_id
  | blanks => exact .of_rest _ (localRest_dropWhile _)
  | carriageReturn => exact .of_rest _ (localRest_dropOne _)
  | lineFeed => exact .of_rest _ localRest_id
  | word => exact local_word
  | number => exact local_number b
  | string => exact local_stringRest
  | character => exact local_character
  | slash => exact local_slash
  | single sym => exact .of_rest _ localRest_id
  | assignable bare assigned => exact local_assignable bare assigned
  | doubling twice bare assigned => exact local_doubling b twice bare assigned
  | less => exact local_less
  | greater => exact local_greater
  | dot => exact local_fraction.branch local_dots
  | beyondAscii => exact ⟨length_beyondAscii_cons_le b, fun u => local_beyondAscii.append (b :: u)⟩
  | stray => exact .of_rest _ localRest_id

/-- Every lexeme takes at least one byte. -/
theorem length_first_lt {s : List UInt8} (h : s ≠ []) : (first s).rest.length < s.length := by
  obtain ⟨b, s, rfl⟩ := List.exists_cons_of_ne_nil h
  exact Nat.lt_succ_of_le ((local_ofRule b (Rule.ofByte b)).length_le s)

theorem local_first : Local first where
  length_le s := by
    rcases s with _ | ⟨b, s⟩
    · exact Nat.le_refl 0
    · exact Nat.le_of_lt (length_first_lt (List.cons_ne_nil b s))
  append u v := by
    rcases u with _ | ⟨b, u⟩
    · rcases v with _ | ⟨c, v⟩
      · exact .inl rfl
      · exact .inr (length_first_lt (List.cons_ne_nil c v))
    · exact (local_ofRule b (Rule.ofByte b)).append u v

/-- With more behind it a lexeme stays the same, or some of what is behind is taken. -/
theorem first_append_cases {s : List UInt8} {k : Terminal} (h : first s = ⟨k, []⟩)
    (t : List UInt8) : first (s ++ t) = ⟨k, t⟩ ∨ (first (s ++ t)).rest.length < t.length := by
  have happend := local_first.append s t
  rwa [h] at happend

/-! ## Terminals of rules -/

/-- Whether a rule reads lexemes of the terminal. -/
def answers : Rule → Terminal → Bool
  | .null, .defect .nullByte => true
  | .blanks, .trivia .blanks => true
  | .carriageReturn, .trivia .lineEnd | .lineFeed, .trivia .lineEnd => true
  | .word, .word | .beyondAscii, .word => true
  | .beyondAscii, .defect .strayCharacter | .stray, .defect .strayCharacter => true
  | .number, .numeral _ | .number, .defect .digitlessNumeral => true
  | .dot, .numeral _ | .dot, .defect .digitlessNumeral => true
  | .string, .string | .string, .defect .openString => true
  | .character, .character | .character, .defect .openCharacter => true
  | .slash, .trivia .lineComment => true
  | .slash, .trivia .blockComment | .slash, .defect .openComment => true
  | .slash, .symbol _ | .dot, .symbol _ | .less, .symbol _ | .greater, .symbol _ => true
  | .single _, .symbol _ | .assignable _ _, .symbol _ | .doubling _ _ _, .symbol _ => true
  | _, _ => false

theorem answers_of_numeral {r : Rule} {t : Terminal} (hr : r = .number ∨ r = .dot)
    (h : t.isNumeral = true ∨ t = .defect .digitlessNumeral) : answers r t = true := by
  rcases h with h | rfl
  · cases t with
    | numeral shape => rcases hr with rfl | rfl <;> rfl
    | _ => cases h
  · rcases hr with rfl | rfl <;> rfl

theorem exists_symbol_of_assignable (bare assigned : Symbol) (s : List UInt8) :
    ∃ sym, (assignable bare assigned s).terminal = .symbol sym := by
  unfold assignable
  split
  · exact ⟨assigned, rfl⟩
  · exact ⟨bare, rfl⟩

theorem answers_slash (s : List UInt8) : answers .slash (slash s).terminal = true := by
  unfold slash
  split
  · rfl
  · split
    · rcases blockComment_cases (s.drop 1) with h | h
      · rw [h]
        rfl
      · rw [h]
        rfl
    · split <;> rfl

/-- Every rule reads lexemes of its own terminals only. -/
theorem answers_ofRule (b : UInt8) (s : List UInt8) (r : Rule) :
    answers r (ofRule b s r).terminal = true := by
  cases r with
  | null | blanks | carriageReturn | lineFeed | single | stray | word => rfl
  | number => exact answers_of_numeral (.inl rfl) (number_cases b s)
  | string =>
    rcases stringRest_cases s with ⟨h, -⟩ | h
    all_goals simp [ofRule, h, answers]
  | character =>
    rcases character_cases s with h | h
    all_goals simp [ofRule, h, answers]
  | slash => exact answers_slash s
  | assignable bare assigned =>
    obtain ⟨sym, h⟩ := exists_symbol_of_assignable bare assigned s
    simp [ofRule, h, answers]
  | doubling twice bare assigned =>
    obtain ⟨sym, h⟩ := exists_symbol_of_assignable bare assigned s
    show answers _ (doubling b twice bare assigned s).terminal = true
    unfold doubling
    split
    · rfl
    · simp [h, answers]
  | less =>
    show answers .less (less s).terminal = true
    unfold less
    split
    all_goals
      obtain ⟨sym, h⟩ := exists_symbol_of_assignable _ _ _
      rw [h]
      rfl
  | greater =>
    show answers .greater (greater s).terminal = true
    unfold greater greaterTwice
    repeat' split
    all_goals
      obtain ⟨sym, h⟩ := exists_symbol_of_assignable _ _ _
      rw [h]
      rfl
  | dot =>
    show answers .dot (if begins isDigit s then fraction (s.drop 1) else dots s).terminal = true
    split
    · exact answers_of_numeral (.inr rfl) (floatTail_cases _)
    · unfold dots
      repeat' split
      all_goals rfl
  | beyondAscii =>
    show answers .beyondAscii (beyondAscii (b :: s)).terminal = true
    unfold beyondAscii
    split <;> rfl

/-- The end is read where nothing is left. -/
theorem ofRule_ne_finish (b : UInt8) (s : List UInt8) (r : Rule) :
    (ofRule b s r).terminal ≠ .finish := by
  intro h
  have hanswers := answers_ofRule b s r
  rw [h] at hanswers
  cases r <;> cases hanswers

theorem first_finish_iff {s : List UInt8} : (first s).terminal = .finish ↔ s = [] := by
  rcases s with _ | ⟨b, s⟩
  · exact ⟨fun _ => rfl, fun _ => rfl⟩
  · exact ⟨fun h => absurd h (ofRule_ne_finish b s _), nofun⟩

/-! ## Boundaries of characters -/

/-- Only line ends and block comments take line ends. -/
theorem inLine_ofRule {b : UInt8} {s : List UInt8} (hs : IsUtf8 (b :: s))
    (hcr : Rule.ofByte b ≠ .carriageReturn) (hlf : Rule.ofByte b ≠ .lineFeed)
    (hslash : Rule.ofByte b = .slash → begins (· == '*'.toUInt8) s = false) :
    InLine (b :: s) (ofRule b s (Rule.ofByte b)).rest := by
  have hb := isInLine_of_ofByte hcr hlf
  have htail (h : Rule.ofByte b ≠ .beyondAscii) : IsUtf8 s := hs.tail_of_ascii (lt_of_ofByte h)
  have hmarks {t : List UInt8} (h : Takes isMark s t) (hr : Rule.ofByte b ≠ .beyondAscii) :
      InLine (b :: s) t :=
    .cons hb (.of_takes h ascii_of_isMark (htail hr))
  have hparts {t : List UInt8} (h : Takes isNumeralPart s t) (hr : Rule.ofByte b ≠ .beyondAscii) :
      InLine (b :: s) t :=
    .cons hb (.of_takes h ascii_of_isNumeralPart (htail hr))
  cases hr : Rule.ofByte b with
  | carriageReturn => exact absurd hr hcr
  | lineFeed => exact absurd hr hlf
  | null => exact .cons hb (.refl (htail (by simp [hr])))
  | blanks =>
    have htaken := takes_dropWhile (p := isBlank) (fun _ h => h) s
    exact .cons hb (.of_takes htaken ascii_of_isBlank (htail (by simp [hr])))
  | word => exact .cons hb (inLine_dropWord (htail (by simp [hr])))
  | number => exact hparts (takes_number b s) (by simp [hr])
  | string => exact .cons hb (inLine_stringRest (u := []) (htail (by simp [hr])))
  | character => exact .cons hb (inLine_character (htail (by simp [hr])))
  | slash => exact .cons hb (inLine_slash (htail (by simp [hr])) (hslash hr))
  | single sym => exact .cons hb (.refl (htail (by simp [hr])))
  | assignable bare assigned => exact hmarks (takes_assignable bare assigned s) (by simp [hr])
  | doubling twice bare assigned =>
    exact hmarks (takes_doubling twice bare assigned (isMark_of_ofByte hr) s) (by simp [hr])
  | less => exact hmarks (takes_less s) (by simp [hr])
  | greater => exact hmarks (takes_greater s) (by simp [hr])
  | dot =>
    show InLine (b :: s) (if begins isDigit s then fraction (s.drop 1) else dots s).rest
    split
    · next hd =>
      exact hparts (((takes_drop_one hd).mono isNumeralPart_of_isDigit).trans (takes_fraction _))
        (by simp [hr])
    · exact hmarks (takes_dots s) (by simp [hr])
  | beyondAscii => exact inLine_beyondAscii hs (by simpa [isInLine] using hb)
  | stray => exact .cons hb (.refl (htail (by simp [hr])))

theorem isUtf8_first {s : List UInt8} (hs : IsUtf8 s) : IsUtf8 (first s).rest := by
  rcases s with _ | ⟨b, s⟩
  · exact hs
  by_cases hcr : Rule.ofByte b = .carriageReturn
  · have hb := lt_of_ofByte (b := b) (by simp [hcr])
    rw [first, hcr]
    exact (takes_dropOne (fun _ h => h) s).isUtf8 (fun b hb => eq_of_beq hb ▸ (by decide))
      (hs.tail_of_ascii hb)
  by_cases hlf : Rule.ofByte b = .lineFeed
  · have hb := lt_of_ofByte (b := b) (by simp [hlf])
    rw [first, hlf]
    exact hs.tail_of_ascii hb
  by_cases hslash : Rule.ofByte b = .slash ∧ begins (· == '*'.toUInt8) s = true
  · obtain ⟨hslash, hstar⟩ := hslash
    obtain ⟨c, t, rfl, hc⟩ := exists_cons_of_begins hstar
    obtain rfl := eq_of_beq hc
    rw [first, hslash]
    exact isUtf8_blockComment (u := [b, '*'.toUInt8]) hs
  · exact (inLine_ofRule hs hcr hlf fun h => by simpa [h] using hslash).isUtf8

theorem isUtf8_of_first {s t : List UInt8} {k : Terminal} (hs : IsUtf8 s)
    (h : first s = ⟨k, t⟩) : IsUtf8 t := by
  have hrest := isUtf8_first hs
  rwa [h] at hrest

/-- A token stays in its line. -/
theorem inLine_of_isToken {s : List UInt8} (hs : IsUtf8 s)
    (h : (first s).terminal.isToken = true) : InLine s (first s).rest := by
  rcases s with _ | ⟨b, s⟩
  · cases h
  rw [first_cons] at h ⊢
  refine inLine_ofRule hs ?_ ?_ ?_
  · intro hcr
    rw [hcr] at h
    cases h
  · intro hlf
    rw [hlf] at h
    cases h
  · intro hslash
    rw [hslash] at h
    cases hstar : begins (· == '*'.toUInt8) s with
    | false => rfl
    | true =>
      obtain ⟨c, t, rfl, hc⟩ := exists_cons_of_begins hstar
      obtain rfl := eq_of_beq hc
      exact absurd h (Bool.eq_false_iff.mp (isToken_blockComment t))

/-! ## Before a line feed -/

/-- A lexeme that does not go on over a line feed ends before it. -/
theorem first_append_lineFeed {s x : List UInt8} (hs : IsUtf8 (s ++ '\n'.toUInt8 :: x))
    (hne : s ≠ []) (hcr : s ≠ ['\r'.toUInt8]) (hc : (first s).terminal ≠ .defect .openComment) :
    first (s ++ '\n'.toUInt8 :: x) = (first s).before ('\n'.toUInt8 :: x) := by
  obtain ⟨b, s, rfl⟩ := List.exists_cons_of_ne_nil hne
  by_cases hret : Rule.ofByte b = .carriageReturn
  · obtain rfl := eq_of_ofByte_carriageReturn hret
    rcases s with _ | ⟨c, s⟩
    · exact absurd rfl hcr
    · show carriageReturn (c :: s ++ _) = (carriageReturn (c :: s)).before _
      unfold carriageReturn dropOne
      rw [List.cons_append, begins_cons, begins_cons]
      split <;> rfl
  by_cases hlf : Rule.ofByte b = .lineFeed
  · simp only [List.cons_append, first, hlf]
    rfl
  by_cases hslash : Rule.ofByte b = .slash ∧ begins (· == '*'.toUInt8) s = true
  · obtain ⟨hslash, hstar⟩ := hslash
    obtain ⟨c, t, rfl, hstar⟩ := exists_cons_of_begins hstar
    obtain rfl := eq_of_beq hstar
    simp only [List.cons_append, first, hslash] at hc ⊢
    refine blockComment_append_of_closed ?_ _
    exact (blockComment_cases t).resolve_right hc
  · refine local_first.extend (p := isInLine) ?_ rfl
    refine (inLine_ofRule hs hret hlf ?_).takes
    intro h
    rcases s with _ | ⟨c, s⟩
    · rfl
    · simpa [h] using hslash

/-! ## Before a space -/

theorem slash_append_space {s : List UInt8} (h : (slash s).terminal.isToken = true)
    (x : List UInt8) : slash (s ++ ' '.toUInt8 :: x) = (slash s).before (' '.toUInt8 :: x) := by
  rcases s with _ | ⟨c, s⟩
  · rfl
  · unfold slash at *
    rw [begins_cons, begins_cons, begins_cons] at h
    rw [List.cons_append, begins_cons, begins_cons, begins_cons, begins_cons, begins_cons,
      begins_cons]
    split at h
    · cases h
    · next hl =>
      rw [if_neg hl, if_neg hl]
      split at h
      · exact absurd h (Bool.eq_false_iff.mp (isToken_blockComment s))
      · next hb =>
        rw [if_neg hb, if_neg hb]
        split <;> rfl

theorem beyondAscii_append_space {s : List UInt8} (h : (beyondAscii s).terminal.isToken = true)
    (x : List UInt8) :
    beyondAscii (s ++ ' '.toUInt8 :: x) = (beyondAscii s).before (' '.toUInt8 :: x) := by
  unfold beyondAscii at h
  split at h
  · next halpha =>
    obtain ⟨c, hc, -⟩ := (Option.any_eq_true _ _).mp halpha
    have hsame := charAt?_append_of_some hc (' '.toUInt8 :: x)
    rw [beyondAscii, beyondAscii, hsame, ← hc, if_pos halpha, if_pos halpha,
      dropChar_append_of_some hc]
    exact local_word.extend (takes_dropWord _) rfl
  · cases h

/-- A token other than a literal in quotes does not take a space. -/
theorem first_append_space {s : List UInt8} (h : (first s).terminal.isToken = true)
    (x : List UInt8) : first (s ++ ' '.toUInt8 :: x) = (first s).before (' '.toUInt8 :: x) := by
  obtain ⟨b, s, rfl⟩ : ∃ b t, s = b :: t := by
    rcases s with _ | ⟨b, s⟩
    · cases h
    · exact ⟨b, s, rfl⟩
  have hmarks {f : List UInt8 → Cut} (hf : Local f) (ht : ∀ s, Takes isMark s (f s).rest) :
      f (s ++ ' '.toUInt8 :: x) = (f s).before (' '.toUInt8 :: x) :=
    hf.extend (ht _) rfl
  rw [List.cons_append]
  rw [first_cons] at h ⊢
  rw [first_cons]
  cases hr : Rule.ofByte b with
  | null | blanks | carriageReturn | lineFeed | stray =>
    rw [hr] at h
    cases h
  | word => exact local_word.extend (takes_dropWord _) rfl
  | number => exact (local_number b).extend (takes_number b _) rfl
  | string =>
    rw [hr] at h
    refine stringRest_append_of_closed ?_ _
    rcases stringRest_cases s with ⟨ht, -⟩ | ht
    · exact ht
    · rw [ofRule, ht] at h
      cases h
  | character =>
    rw [hr] at h
    refine character_append_of_closed ?_ _
    rcases character_cases s with ht | ht
    · exact ht
    · rw [ofRule, ht] at h
      cases h
  | slash =>
    rw [hr] at h
    exact slash_append_space h x
  | single sym => rfl
  | assignable bare assigned =>
    exact hmarks (local_assignable bare assigned) (takes_assignable bare assigned)
  | doubling twice bare assigned =>
    exact hmarks (local_doubling b twice bare assigned)
      (takes_doubling twice bare assigned (isMark_of_ofByte hr))
  | less => exact hmarks local_less takes_less
  | greater => exact hmarks local_greater takes_greater
  | dot =>
    rcases s with _ | ⟨c, s⟩
    · rfl
    · simp only [ofRule, List.cons_append, begins_cons, List.drop_succ_cons, List.drop_zero]
      split
      · exact local_fraction.extend (takes_fraction _) rfl
      · exact local_dots.extend (s := c :: s) (takes_dots _) rfl
  | beyondAscii =>
    rw [hr] at h
    exact beyondAscii_append_space h x

end JavaTokens.Cut
