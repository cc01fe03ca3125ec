import JavaTokens.Lexeme.Quoted
import JavaTokens.Proofs.Cut.Basic

/-!
# Cuts of string and character literals

The rules for literals in quotes, behind the opening quote.  The body of a string is given byte by
byte; that reading looks for the next byte of interest makes no difference.

    IsUtf8 s → no line end is taken of s                              (takes_stringRest)
    a literal that is closed stays the same with any text behind it   (stringRest_append_of_closed)
-/

namespace JavaTokens

open Text Ascii

/-- What is left behind an escaped character, which is none if the line ends there. -/
def dropEscaped (s : List UInt8) : List UInt8 := if begins isLineEnd s then s else dropChar s

theorem dropEscaped_suffix (s : List UInt8) : dropEscaped s <:+ s := by
  unfold dropEscaped
  split
  · exact List.suffix_refl s
  · exact dropChar_suffix s

namespace Cut

open Lexeme ReadM

/-! ## Rules -/

def stringRest : List UInt8 → Cut
  | [] => ⟨.defect .openString, []⟩
  | b :: s =>
    if b == '"'.toUInt8 then ⟨.string, s⟩
    else if b == '\\'.toUInt8 then stringRest (dropEscaped s)
    else if isLineEnd b then ⟨.defect .openString, b :: s⟩
    else stringRest s
termination_by s => s.length
decreasing_by
  · exact Nat.lt_succ_of_le (dropEscaped_suffix s).length_le
  · exact Nat.lt_succ_self _

/-- Behind the backslash of a character literal. -/
def characterEscape (s : List UInt8) : List UInt8 :=
  if begins (· == 'u'.toUInt8) s then
    dropUpTo isHexDigit 4 ((s.drop 1).dropWhile (· == 'u'.toUInt8))
  else if begins isOctalDigit s then dropUpTo isOctalDigit 2 (s.drop 1)
  else dropEscaped s

/-- The one character of a literal, where another quote does not make it empty. -/
def characterBody (s : List UInt8) : List UInt8 :=
  if begins (· == '\\'.toUInt8) s then characterEscape (s.drop 1) else dropEscaped s

def closeCharacter (s : List UInt8) : Cut :=
  if begins (· == '\''.toUInt8) s then ⟨.character, s.drop 1⟩ else ⟨.defect .openCharacter, s⟩

def character (s : List UInt8) : Cut :=
  if begins (· == '\''.toUInt8) s then ⟨.defect .openCharacter, s.drop 1⟩
  else closeCharacter (characterBody s)

theorem stringRest_quote (s : List UInt8) : stringRest ('"'.toUInt8 :: s) = ⟨.string, s⟩ := by
  rw [stringRest, if_pos (beq_self_eq_true _)]

theorem stringRest_backslash (s : List UInt8) :
    stringRest ('\\'.toUInt8 :: s) = stringRest (dropEscaped s) := by
  rw [stringRest, if_neg (by decide), if_pos (beq_self_eq_true _)]

theorem stringRest_of_begins {s : List UInt8} (h : begins isLineEnd s = true) :
    stringRest s = ⟨.defect .openString, s⟩ := by
  obtain ⟨b, s, rfl, hb⟩ := exists_cons_of_begins h
  rw [isLineEnd, Bool.or_eq_true, beq_iff_eq, beq_iff_eq] at hb
  rcases hb with rfl | rfl
  · rw [stringRest, if_neg (by decide), if_neg (by decide), if_pos (by decide)]
  · rw [stringRest, if_neg (by decide), if_neg (by decide), if_pos (by decide)]

theorem stringRest_of_not_isStringStop {b : UInt8} (h : isStringStop b = false) (s : List UInt8) :
    stringRest (b :: s) = stringRest s := by
  simp only [isStringStop, Bool.or_eq_false_iff] at h
  obtain ⟨⟨hq, hb⟩, hl⟩ := h
  rw [stringRest]
  simp only [hq, hb, hl, Bool.false_eq_true, if_false]

theorem stringRest_dropWhile (s : List UInt8) :
    stringRest (s.dropWhile fun b => !isStringStop b) = stringRest s := by
  induction s with
  | nil => rfl
  | cons b s ih =>
    rw [List.dropWhile_cons]
    split
    · next h =>
      rw [ih, stringRest_of_not_isStringStop (by simpa using h)]
    · rfl

/-! ## Reading -/

theorem yields_escaped (s : List UInt8) : Yields escaped s () (dropEscaped s) := by
  refine (yields_current s).bind ?_
  rcases s with _ | ⟨b, s⟩
  · exact (yields_atEnd []).bind (yields_pure () [])
  · rw [List.headD_cons, dropEscaped, begins_cons]
    split
    · exact yields_pure () _
    · exact (yields_atEnd _).bind (yields_skipChar (List.cons_ne_nil b s))

theorem cuts_stringRest {s : List UInt8} {fuel : Nat} (h : s.length < fuel) :
    Cuts (Lexeme.stringRest fuel) s (stringRest s) := by
  induction fuel generalizing s with
  | zero => omega
  | succ fuel ih =>
    have hl : (s.dropWhile fun b => !isStringStop b).length ≤ s.length :=
      (List.dropWhile_suffix _).length_le
    rw [← stringRest_dropWhile]
    refine Cuts.bind (yields_seekStringStop s) ?_
    cases ht : s.dropWhile fun b => !isStringStop b with
    | nil =>
      rw [stringRest]
      exact Cuts.pure _ []
    | cons b t =>
      rw [ht, List.length_cons] at hl
      rw [List.headD_cons, stringRest]
      refine Cuts.ite rfl (fun _ => Cuts.skip_one (Cuts.pure _ t)) ?_
      intro hq
      refine Cuts.ite rfl ?_ ?_
      · intro _
        have he := (dropEscaped_suffix t).length_le
        exact Cuts.skip_one (Cuts.bind (yields_escaped t) (ih (by omega)))
      · intro hb
        have hstop := begins_dropWhile (fun b => !isStringStop b) s
        rw [ht, begins_cons, Bool.not_eq_false', isStringStop, hq, hb, Bool.false_or,
          Bool.false_or] at hstop
        rw [if_pos hstop]
        exact Cuts.pure _ _

theorem cuts_string (b : UInt8) (s : List UInt8) : Cuts string (b :: s) (stringRest s) :=
  Cuts.skip_one (yields_left (f := fun n => Lexeme.stringRest (n + 1))
    (cuts_stringRest (Nat.lt_succ_self _)))

theorem yields_characterEscape (s : List UInt8) :
    Yields Lexeme.characterEscape s () (characterEscape s) := by
  refine (yields_current s).bind ?_
  rcases s with _ | ⟨b, s⟩
  · exact yields_escaped []
  · rw [List.headD_cons]
    unfold characterEscape
    rw [begins_cons, begins_cons]
    split
    · next hu =>
      have hskip := yields_skipWhile (p := (· == 'u'.toUInt8)) rfl (b :: s)
      rw [dropWhile_of_begins (by simpa using hu)] at hskip
      exact hskip.bind (yields_skipUpTo rfl 4 _)
    · split
      · next ho =>
        have hskip := yields_skipUpTo (p := isOctalDigit) rfl 3 (b :: s)
        rw [dropUpTo, begins_cons, if_pos ho] at hskip
        exact hskip
      · exact yields_escaped (b :: s)

theorem cuts_closeCharacter (s : List UInt8) :
    Cuts Lexeme.closeCharacter s (closeCharacter s) := by
  refine Cuts.current (Cuts.ite (headD_test rfl s) ?_ fun _ => Cuts.pure _ s)
  intro h
  obtain ⟨b, t, rfl, -⟩ := exists_cons_of_begins h
  exact Cuts.skip_one (Cuts.pure _ t)

theorem cuts_character (b : UInt8) (s : List UInt8) :
    Cuts Lexeme.character (b :: s) (character s) := by
  refine Cuts.skip_one (Cuts.current ?_)
  rcases s with _ | ⟨a, s⟩
  · exact Cuts.bind (yields_atEnd []) (Cuts.pure _ [])
  · rw [List.headD_cons]
    refine Cuts.ite rfl (fun _ => Cuts.skip_one (Cuts.pure _ s)) ?_
    intro hq
    unfold characterBody dropEscaped
    rw [begins_cons, begins_cons]
    by_cases hl : isLineEnd a = true
    · have hb : (a == '\\'.toUInt8) = false := by
        rw [Bool.eq_false_iff]
        intro hb
        obtain rfl := eq_of_beq hb
        cases hl
      rw [if_pos hl, hb, if_neg Bool.false_ne_true, if_pos hl, closeCharacter, begins_cons,
        if_neg (by simpa using hq)]
      exact Cuts.pure _ _
    · rw [if_neg hl, if_neg hl]
      split
      · exact Cuts.skip_one (Cuts.bind (yields_characterEscape s) (cuts_closeCharacter _))
      · exact Cuts.bind (yields_atEnd _)
          (Cuts.bind (yields_skipChar (List.cons_ne_nil a s)) (cuts_closeCharacter _))

/-! ## What is taken -/

theorem inLine_dropEscaped {s : List UInt8} (hs : IsUtf8 s) : InLine s (dropEscaped s) := by
  unfold dropEscaped
  split
  · exact .refl hs
  · next hl => exact inLine_dropChar hs (by simpa using hl)

/-- The body of a string stays in its line, when the bytes are those of a text from some offset
on. -/
theorem inLine_stringRest {u s : List UInt8} (h : IsUtf8 (u ++ s)) :
    InLine s (stringRest s).rest := by
  fun_induction stringRest s generalizing u with
  | case1 => exact .refl isUtf8_nil
  | case2 b s hq =>
    obtain rfl := eq_of_beq hq
    exact .cons rfl (.refl (h.of_append_ascii (by decide)))
  | case3 b s hq hb ih =>
    obtain rfl := eq_of_beq hb
    have hs : IsUtf8 s := h.of_append_ascii (by decide)
    have hstep := inLine_dropEscaped hs
    exact .cons rfl (hstep.trans (ih (u := []) hstep.isUtf8))
  | case4 b s hq hb hl =>
    have hlead := isContinuation_of_isLineEnd hl
    exact .refl (h.of_append (by simpa using hlead))
  | case5 b s hq hb hl ih =>
    exact .cons (by simpa [isInLine] using hl) (ih (u := u ++ [b]) (by simpa using h))

theorem inLine_characterEscape {s : List UInt8} (hs : IsUtf8 s) :
    InLine s (characterEscape s) := by
  unfold characterEscape
  split
  · next hu =>
    have hmark := takes_dropWhile (p := (· == 'u'.toUInt8)) (fun _ h => h) s
    rw [dropWhile_of_begins hu] at hmark
    have hstep := InLine.of_takes hmark (fun b hb => eq_of_beq hb ▸ ⟨by decide, rfl⟩) hs
    have hdigits := takes_dropUpTo (p := isHexDigit) (fun _ h => h) 4
      ((s.drop 1).dropWhile (· == 'u'.toUInt8))
    refine hstep.trans (.of_takes hdigits ?_ hstep.isUtf8)
    intro b hb
    rw [isHexDigit_iff] at hb
    rw [ascii_isInLine_iff]
    omega
  · split
    · next ho =>
      have hdigits := (takes_drop_one ho).trans (takes_dropUpTo (fun _ h => h) 2 _)
      refine .of_takes hdigits ?_ hs
      intro b hb
      rw [isOctalDigit_iff] at hb
      rw [ascii_isInLine_iff]
      omega
    · exact inLine_dropEscaped hs

theorem inLine_characterBody {s : List UInt8} (hs : IsUtf8 s) : InLine s (characterBody s) := by
  unfold characterBody
  split
  · next hb =>
    obtain ⟨b, t, rfl, hb⟩ := exists_cons_of_begins hb
    obtain rfl := eq_of_beq hb
    exact .cons rfl (inLine_characterEscape (hs.tail_of_ascii (by decide)))
  · exact inLine_dropEscaped hs

theorem inLine_closing {s : List UInt8} (hs : IsUtf8 s)
    (h : begins (· == '\''.toUInt8) s = true) : InLine s (s.drop 1) := by
  obtain ⟨b, t, rfl, hb⟩ := exists_cons_of_begins h
  obtain rfl := eq_of_beq hb
  exact .cons rfl (.refl (hs.tail_of_ascii (by decide)))

theorem inLine_character {s : List UInt8} (hs : IsUtf8 s) : InLine s (character s).rest := by
  unfold character
  split
  · next h => exact inLine_closing hs h
  · have hbody := inLine_characterBody hs
    refine hbody.trans ?_
    unfold closeCharacter
    split
    · next h => exact inLine_closing hbody.isUtf8 h
    · exact .refl hbody.isUtf8

theorem characterEscape_suffix (s : List UInt8) : characterEscape s <:+ s := by
  unfold characterEscape
  split
  · have hdigits := (takes_dropUpTo (p := isHexDigit) (fun _ h => h) 4
      ((s.drop 1).dropWhile (· == 'u'.toUInt8))).suffix
    exact (hdigits.trans (List.dropWhile_suffix _)).trans (List.drop_suffix 1 s)
  · split
    · have hdigits := (takes_dropUpTo (p := isOctalDigit) (fun _ h => h) 2 (s.drop 1)).suffix
      exact hdigits.trans (List.drop_suffix 1 s)
    · exact dropEscaped_suffix s

theorem characterBody_suffix (s : List UInt8) : characterBody s <:+ s := by
  unfold characterBody
  split
  · exact (characterEscape_suffix _).trans (List.drop_suffix 1 s)
  · exact dropEscaped_suffix s

/-! ## Closed literals -/

theorem localRest_dropEscaped : LocalRest dropEscaped := by
  refine .of_suffix dropEscaped_suffix ?_
  intro b u v
  unfold dropEscaped
  rw [List.cons_append, begins_cons, begins_cons]
  split
  · exact .inl rfl
  · exact localRest_dropChar.append (b :: u) v

theorem localRest_characterBody : LocalRest characterBody := by
  have hescape : LocalRest characterEscape :=
    ((localRest_dropUpTo isHexDigit 4).comp (localRest_dropWhile (· == 'u'.toUInt8))).branch
      ((localRest_dropUpTo isOctalDigit 2).branch localRest_dropEscaped)
  exact hescape.branch localRest_dropEscaped

/-- A closed string is the same with any text behind it. -/
theorem stringRest_append_of_closed {s : List UInt8} (h : (stringRest s).terminal = .string)
    (v : List UInt8) : stringRest (s ++ v) = (stringRest s).before v := by
  fun_induction stringRest s with
  | case1 => cases h
  | case2 b s hq =>
    rw [List.cons_append, stringRest, if_pos hq]
    rfl
  | case3 b s hq hb ih =>
    have hne : dropEscaped s ≠ [] := by
      intro hnil
      rw [hnil, stringRest] at h
      cases h
    rw [List.cons_append, stringRest, if_neg hq, if_pos hb,
      localRest_dropEscaped.append_of_ne_nil hne]
    exact ih h
  | case4 b s hq hb hl => cases h
  | case5 b s hq hb hl ih =>
    rw [List.cons_append, stringRest, if_neg hq, if_neg hb, if_neg hl]
    exact ih h

/-- A closed character literal is the same with any text behind it. -/
theorem character_append_of_closed {s : List UInt8} (h : (character s).terminal = .character)
    (v : List UInt8) : character (s ++ v) = (character s).before v := by
  have happend {p : UInt8 → Bool} {t : List UInt8} (ht : t ≠ []) :
      begins p (t ++ v) = begins p t := by
    obtain ⟨b, t, rfl⟩ := List.exists_cons_of_ne_nil ht
    rfl
  unfold character at h
  split at h
  · cases h
  · next hq =>
    unfold closeCharacter at h
    split at h
    · next hc =>
      obtain ⟨b, t, ht, hb⟩ := exists_cons_of_begins hc
      have hne : characterBody s ≠ [] := by simp [ht]
      have hs : s ≠ [] := by
        rintro rfl
        exact hne localRest_characterBody.nil
      rw [character, character, happend hs, if_neg hq, if_neg hq,
        localRest_characterBody.append_of_ne_nil hne, closeCharacter, happend hne, if_pos hc,
        closeCharacter, if_pos hc, ht]
      rfl
    · cases h

/-! ## Indifference to what is left -/

theorem stringRest_suffix (s : List UInt8) : (stringRest s).rest <:+ s := by
  fun_induction stringRest s with
  | case1 => exact List.suffix_refl []
  | case2 b s hq => exact List.suffix_cons b s
  | case3 b s hq hb ih =>
    exact (ih.trans (dropEscaped_suffix s)).trans (List.suffix_cons b s)
  | case4 b s hq hb hl => exact List.suffix_refl _
  | case5 b s hq hb hl ih => exact ih.trans (List.suffix_cons b s)

/-- A string is closed by its last byte, and otherwise it is open. -/
theorem stringRest_cases (s : List UInt8) :
    (stringRest s).terminal = .string ∧ (stringRest s).rest.length < s.length ∨
      (stringRest s).terminal = .defect .openString := by
  fun_induction stringRest s with
  | case1 => exact .inr rfl
  | case2 b s hq => exact .inl ⟨rfl, Nat.lt_succ_self _⟩
  | case3 b s hq hb ih =>
    have hl := (dropEscaped_suffix s).length_le
    exact ih.imp_left fun h => ⟨h.1, by rw [List.length_cons]; omega⟩
  | case4 b s hq hb hl => exact .inr rfl
  | case5 b s hq hb hl ih => exact ih.imp_left fun h => ⟨h.1, Nat.lt_succ_of_lt h.2⟩

theorem local_stringRest : Local stringRest where
  length_le s := (stringRest_suffix s).length_le
  append u v := by
    fun_induction stringRest u with
    | case1 =>
      rw [List.nil_append]
      rcases stringRest_cases v with ⟨-, hl⟩ | ht
      · exact .inr hl
      · rcases eq_or_length_lt_of_suffix (stringRest_suffix v) with heq | hlt
        · refine .inl ?_
          rw [← ht, before, List.nil_append]
          exact congrArg (Cut.mk _) heq
        · exact .inr hlt
    | case2 b s hq =>
      rw [List.cons_append, stringRest, if_pos hq]
      exact .inl rfl
    | case3 b s hq hb ih =>
      rw [List.cons_append, stringRest, if_neg hq, if_pos hb]
      rcases localRest_dropEscaped.append s v with h | ⟨-, h⟩
      · rw [h]
        exact ih
      · exact .inr (Nat.lt_of_le_of_lt (stringRest_suffix _).length_le h)
    | case4 b s hq hb hl =>
      rw [List.cons_append, stringRest, if_neg hq, if_neg hb, if_pos hl]
      exact .inl rfl
    | case5 b s hq hb hl ih =>
      rw [List.cons_append, stringRest, if_neg hq, if_neg hb, if_neg hl]
      exact ih

theorem character_cases (s : List UInt8) :
    (character s).terminal = .character ∨ (character s).terminal = .defect .openCharacter := by
  unfold character closeCharacter
  split
  · exact .inr rfl
  · split
    · exact .inl rfl
    · exact .inr rfl

theorem local_character : Local character := by
  have hclose : Local closeCharacter :=
    (Local.of_rest .character localRest_id).branch (.of_rest _ localRest_id)
  exact (Local.of_rest _ localRest_id).branch (hclose.comp localRest_characterBody)

end Cut

end JavaTokens
