import JavaTokens.Lexeme.Trivia
import JavaTokens.Proofs.Cut.Basic

/-!
# Cuts of blanks, line ends and comments

The rules for what lies between tokens, behind the first byte.  A comment of either form and a
division begin alike.
-/

namespace JavaTokens.Cut

open Lexeme ReadM

/-! ## Rules -/

def blanks (s : List UInt8) : Cut := ⟨.trivia .blanks, s.dropWhile Ascii.isBlank⟩

def carriageReturn (s : List UInt8) : Cut := ⟨.trivia .lineEnd, dropOne (· == '\n'.toUInt8) s⟩

/-- Behind `/*`. -/
def blockComment (s : List UInt8) : Cut :=
  match behindComment? s with
  | some t => ⟨.trivia .blockComment, t⟩
  | none => ⟨.defect .openComment, []⟩

/-- Behind `//`. -/
def lineComment (s : List UInt8) : Cut := ⟨.trivia .lineComment, s.dropWhile isInLine⟩

def slash (s : List UInt8) : Cut :=
  if begins (· == '/'.toUInt8) s then lineComment (s.drop 1)
  else if begins (· == '*'.toUInt8) s then blockComment (s.drop 1)
  else if begins (· == '='.toUInt8) s then ⟨.symbol .divideAssign, s.drop 1⟩
  else ⟨.symbol .divide, s⟩

/-! ## Reading -/

theorem cuts_blanks {b : UInt8} (hb : Ascii.isBlank b = true) (s : List UInt8) :
    Cuts Lexeme.blanks (b :: s) (blanks s) := by
  have hskip : Yields skipBlanks (b :: s) () ((b :: s).dropWhile Ascii.isBlank) :=
    yields_skipWhile rfl _
  rw [List.dropWhile_cons_of_pos hb] at hskip
  exact Cuts.bind hskip (Cuts.pure _ _)

theorem cuts_carriageReturn (b : UInt8) (s : List UInt8) :
    Cuts Lexeme.carriageReturn (b :: s) (carriageReturn s) :=
  Cuts.skip_one (Cuts.bind (yields_skipOptional rfl s) (Cuts.pure _ _))

theorem cuts_lineFeed (b : UInt8) (s : List UInt8) :
    Cuts Lexeme.lineFeed (b :: s) ⟨.trivia .lineEnd, s⟩ :=
  Cuts.skip_one (Cuts.pure _ s)

theorem cuts_slash (b : UInt8) (s : List UInt8) : Cuts Lexeme.slash (b :: s) (slash s) := by
  refine Cuts.skip_one (Cuts.current (Cuts.ite (headD_test rfl s) ?_ ?_))
  · intro h
    obtain ⟨c, t, rfl, -⟩ := exists_cons_of_begins h
    exact Cuts.skip_one (Cuts.bind (yields_seekLineEnd t) (Cuts.pure _ _))
  intro _
  refine Cuts.ite (headD_test rfl s) ?_ ?_
  · intro h
    obtain ⟨c, t, rfl, -⟩ := exists_cons_of_begins h
    refine Cuts.skip_one (Cuts.bind (yields_skipComment t) ?_)
    show Cuts _ _ (blockComment t)
    unfold blockComment
    cases behindComment? t with
    | some u => exact Cuts.pure _ u
    | none => exact Cuts.pure _ []
  intro _
  refine Cuts.ite (headD_test rfl s) ?_ ?_
  · intro h
    obtain ⟨c, t, rfl, -⟩ := exists_cons_of_begins h
    exact Cuts.skip_one (Cuts.pure _ t)
  · intro _
    exact Cuts.pure _ s

theorem cuts_null (b : UInt8) (s : List UInt8) :
    Cuts Lexeme.null (b :: s) ⟨.defect .nullByte, s⟩ :=
  Cuts.bind (yields_atEnd _) (Cuts.skip_one (Cuts.pure _ s))

/-- Where the text ends, its end is read without a move. -/
theorem cuts_null_nil : Cuts Lexeme.null [] ⟨.finish, []⟩ :=
  Cuts.bind (yields_atEnd []) (Cuts.pure _ [])

theorem cuts_stray (b : UInt8) (s : List UInt8) :
    Cuts Lexeme.stray (b :: s) ⟨.defect .strayCharacter, s⟩ :=
  Cuts.skip_one (Cuts.pure _ s)

/-! ## What is taken -/

theorem inLine_lineComment {u s : List UInt8} (h : Text.IsUtf8 (u ++ s)) :
    InLine s (lineComment s).rest := by
  have hlead (b : UInt8) (hb : isInLine b = false) : Text.isContinuation b = false :=
    isContinuation_of_isLineEnd (by simpa [isInLine] using hb)
  obtain ⟨v, hv⟩ := List.dropWhile_suffix isInLine (l := s)
  rw [← hv, ← List.append_assoc] at h
  refine ⟨takes_dropWhile (fun _ h => h) s, h.of_append fun b hb => hlead b ?_⟩
  have hend := begins_dropWhile isInLine s
  rwa [begins, hb] at hend

theorem isUtf8_blockComment {u s : List UInt8} (h : Text.IsUtf8 (u ++ s)) :
    Text.IsUtf8 (blockComment s).rest := by
  unfold blockComment
  cases ht : behindComment? s with
  | none => exact Text.isUtf8_nil
  | some t =>
    obtain ⟨v, rfl⟩ := eq_of_behindComment? ht
    rw [← List.append_assoc] at h
    exact (h.of_append_ascii (by decide)).tail_of_ascii (by decide)

theorem ascii_of_isBlank (b : UInt8) (h : Ascii.isBlank b = true) :
    b < 0x80 ∧ isInLine b = true := by
  rw [Ascii.isBlank_iff] at h
  rw [ascii_isInLine_iff]
  omega

/-- Only a block comment takes line ends. -/
theorem inLine_slash {s : List UInt8} (hs : Text.IsUtf8 s)
    (h : begins (· == '*'.toUInt8) s = false) : InLine s (slash s).rest := by
  have hmark {c : UInt8} (hc : c < 0x80 ∧ isInLine c = true) (hb : begins (· == c) s = true) :
      InLine s (s.drop 1) :=
    .of_takes (takes_drop_one hb) (fun b hb => eq_of_beq hb ▸ hc) hs
  unfold slash
  split
  · next hb =>
    have hmark := hmark (by decide) hb
    exact hmark.trans (inLine_lineComment (u := []) hmark.isUtf8)
  · rw [h, if_neg Bool.false_ne_true]
    split
    · next hb => exact hmark (by decide) hb
    · exact .refl hs

/-! ## Indifference to what is left -/

theorem behindComment?_append {s t : List UInt8} (h : behindComment? s = some t)
    (v : List UInt8) : behindComment? (s ++ v) = some (t ++ v) := by
  fun_induction behindComment? s with
  | case1 a b s hab =>
    cases h
    rw [List.cons_append, List.cons_append, behindComment?, if_pos hab]
  | case2 a b s hab ih =>
    rw [List.cons_append, List.cons_append, behindComment?, if_neg hab]
    exact ih h
  | case3 s hs => cases h

/-- A mark that is only found with more text behind takes some of it. -/
theorem length_lt_of_behindComment? {u v t : List UInt8} (hu : behindComment? u = none)
    (h : behindComment? (u ++ v) = some t) : t.length < v.length := by
  fun_induction behindComment? u with
  | case1 a b u hab => cases hu
  | case2 a b u hab ih =>
    rw [List.cons_append, List.cons_append, behindComment?, if_neg hab] at h
    exact ih hu h
  | case3 u hshort =>
    have hl := length_of_behindComment? h
    rcases u with _ | ⟨a, _ | ⟨b, u⟩⟩
    · rw [List.nil_append] at hl
      omega
    · rw [List.cons_append, List.length_cons, List.nil_append] at hl
      omega
    · exact absurd rfl (hshort a b u)

theorem blockComment_cases (s : List UInt8) :
    (blockComment s).terminal = .trivia .blockComment ∨
      (blockComment s).terminal = .defect .openComment := by
  unfold blockComment
  cases behindComment? s with
  | some t => exact .inl rfl
  | none => exact .inr rfl

theorem isToken_blockComment (s : List UInt8) : (blockComment s).terminal.isToken = false := by
  rcases blockComment_cases s with h | h
  · rw [h]
    rfl
  · rw [h]
    rfl

/-- A closed comment is the same with any text behind it. -/
theorem blockComment_append_of_closed {s : List UInt8}
    (h : (blockComment s).terminal = .trivia .blockComment) (v : List UInt8) :
    blockComment (s ++ v) = (blockComment s).before v := by
  unfold blockComment at *
  cases ht : behindComment? s with
  | none =>
    rw [ht] at h
    cases h
  | some t =>
    rw [behindComment?_append ht v]
    rfl

theorem local_blockComment : Local blockComment where
  length_le s := by
    unfold blockComment
    cases ht : behindComment? s with
    | none => exact Nat.zero_le _
    | some t => exact (behindComment?_suffix ht).length_le
  append u v := by
    cases hu : behindComment? u with
    | some t =>
      exact .inl (blockComment_append_of_closed (by rw [blockComment, hu]) v)
    | none =>
      unfold blockComment
      rw [hu]
      cases hv : behindComment? (u ++ v) with
      | some t => exact .inr (length_lt_of_behindComment? hu hv)
      | none =>
        rcases v with _ | ⟨b, v⟩
        · exact .inl rfl
        · exact .inr (Nat.succ_pos _)

theorem local_slash : Local slash :=
  (Local.of_rest _ (localRest_dropWhile isInLine)).branch
    (local_blockComment.branch (Local.branch (.of_rest _ localRest_id) (.of_rest _ localRest_id)))

end JavaTokens.Cut
