import Mathlib.Order.Bounds.Basic
import JavaTokens.Proofs.Context
import JavaTokens.Proofs.StringGrammar

/-!
# Where comments end

A block comment goes up to the first `*/` behind its own two bytes, whatever else stands in it.  If
there is none, it is open and takes the rest of the text, so no lexeme stands behind it.  A line
comment goes up to the first line end.

    the mark that is found is the first one                           (isLeast_of_behindComment?)
    an open comment leaves nothing                                    (rest_of_openComment)
    the comment that a text begins with, and the last lexeme          (ofText_comment)
-/

namespace JavaTokens

open Text Ascii Literal

/-! ## Marks -/

/-- Whether `*/` stands at an offset. -/
def ClosesAt (s : List UInt8) (i : Nat) : Prop :=
  s[i]? = some '*'.toUInt8 ∧ s[i + 1]? = some '/'.toUInt8

/-- The offsets at which a comment in front of a text can be closed. -/
def closings (s : List UInt8) : Set Nat := {i | 2 ≤ i ∧ ClosesAt s i}

namespace Cut

variable {s t : List UInt8} {a b : UInt8} {k : Terminal}

theorem closesAt_zero_iff : ClosesAt (a :: b :: s) 0 ↔ a = '*'.toUInt8 ∧ b = '/'.toUInt8 := by
  show some a = _ ∧ some b = _ ↔ _
  rw [Option.some.injEq, Option.some.injEq]

theorem length_of_closesAt {i : Nat} (h : ClosesAt s i) : i + 2 ≤ s.length :=
  (List.getElem?_eq_some_iff.mp h.2).1

theorem not_closesAt_of_behindComment? (h : behindComment? s = none) (i : Nat) :
    ¬ ClosesAt s i := by
  fun_induction behindComment? s generalizing i with
  | case1 a b s hab => cases h
  | case2 a b s hab ih =>
    rcases i with _ | i
    · intro hmark
      obtain ⟨rfl, rfl⟩ := closesAt_zero_iff.mp hmark
      exact hab rfl
    · exact ih h i
  | case3 s hs =>
    intro hmark
    have hlength := length_of_closesAt hmark
    rcases s with _ | ⟨a, _ | ⟨b, s⟩⟩
    · cases hlength
    · rw [List.length_singleton] at hlength
      omega
    · exact hs a b s rfl

/-- The mark that is found is the first one. -/
theorem isLeast_of_behindComment? (h : behindComment? s = some t) :
    ∃ i, IsLeast {i | ClosesAt s i} i ∧ t = s.drop (i + 2) := by
  fun_induction behindComment? s with
  | case1 a b s hab =>
    rw [Bool.and_eq_true, beq_iff_eq, beq_iff_eq] at hab
    cases h
    exact ⟨0, ⟨closesAt_zero_iff.mpr hab, fun j _ => Nat.zero_le j⟩, rfl⟩
  | case2 a b s hab ih =>
    obtain ⟨i, ⟨hmark, hfirst⟩, ht⟩ := ih h
    refine ⟨i + 1, ⟨hmark, ?_⟩, ht⟩
    intro j hj
    rcases j with _ | j
    · obtain ⟨rfl, rfl⟩ := closesAt_zero_iff.mp hj
      exact absurd rfl hab
    · exact Nat.succ_le_succ (hfirst hj)
  | case3 s hs => cases h

/-! ## Open comments -/

theorem rest_of_slash (h : slash s = ⟨.defect .openComment, t⟩) : t = [] := by
  unfold slash at h
  split at h
  · cases h
  · split at h
    · unfold blockComment at h
      split at h
      · cases h
      · exact (Cut.mk.inj h).2.symm
    · split at h
      · cases h
      · cases h

/-- An open comment leaves nothing. -/
theorem rest_of_openComment (h : first s = ⟨.defect .openComment, t⟩) : t = [] := by
  rcases s with _ | ⟨b, s⟩
  · cases h
  rw [first_cons] at h
  -- no other rule reads one
  have hanswers := answers_ofRule b s (Lexeme.Rule.ofByte b)
  rw [h] at hanswers
  cases hrule : Lexeme.Rule.ofByte b with
  | slash =>
    rw [hrule] at h
    exact rest_of_slash h
  | _ =>
    rw [hrule] at hanswers
    cases hanswers

end Cut

/-- No piece stands behind an open comment. -/
theorem terminal_ne_openComment_of_mem_dropLast (s : List UInt8) :
    ∀ p ∈ (pieces s).dropLast, p.terminal ≠ .defect .openComment := by
  induction s using pieces_induction with
  | nil => simp
  | cons k w t hw hk h ih =>
    rw [pieces_cons hw h]
    rcases ht : pieces t with _ | ⟨p, ps⟩
    · simp
    · rw [ht] at ih
      rw [List.dropLast_cons_cons, List.forall_mem_cons]
      refine ⟨?_, ih⟩
      rintro rfl
      rw [Cut.rest_of_openComment h, pieces_nil] at ht
      cases ht

/-! ## Texts -/

theorem isLeast_closings {a b : UInt8} {s : List UInt8} {i : Nat}
    (h : IsLeast {i | ClosesAt s i} i) : IsLeast (closings (a :: b :: s)) (i + 2) := by
  refine ⟨⟨Nat.le_add_left 2 i, h.1⟩, ?_⟩
  rintro j ⟨hj, hmark⟩
  obtain ⟨j, rfl⟩ := Nat.exists_eq_add_of_le' hj
  exact Nat.add_le_add_right (h.2 hmark) 2

theorem ofText_of_blockComment {v : String} (hsize : ("/*" ++ v).utf8ByteSize ≤ maxOffset) :
    (∃ (j : Nat) (lexemes : List Lexeme), IsLeast (closings (bytes ("/*" ++ v))) j ∧
      Lexeme.ofText (PaddedText.ofString ("/*" ++ v)) =
        .ok (⟨.trivia .blockComment, j + 2⟩ :: lexemes)) ∨
    closings (bytes ("/*" ++ v)) = ∅ ∧
      Lexeme.ofText (PaddedText.ofString ("/*" ++ v)) =
        .ok [⟨.defect .openComment, ("/*" ++ v).utf8ByteSize⟩] := by
  have hbytes : bytes ("/*" ++ v) = '/'.toUInt8 :: '*'.toUInt8 :: bytes v := bytes_append "/*" v
  have hfirst : Cut.first (bytes ("/*" ++ v)) = Cut.blockComment (bytes v) := by
    rw [hbytes]
    rfl
  cases hmark : behindComment? (bytes v) with
  | some t =>
    left
    obtain ⟨i, hleast, rfl⟩ := Cut.isLeast_of_behindComment? hmark
    have hlength : i + 2 ≤ (bytes v).length := Cut.length_of_closesAt hleast.1
    have hsplit : bytes ("/*" ++ v) =
        ('/'.toUInt8 :: '*'.toUInt8 :: (bytes v).take (i + 2)) ++ (bytes v).drop (i + 2) := by
      rw [List.cons_append, List.cons_append, List.take_append_drop, hbytes]
    rw [Cut.blockComment, hmark] at hfirst
    obtain ⟨lexemes, hread⟩ := exists_ofText_cons hsize (List.cons_ne_nil _ _) hsplit hfirst
    rw [List.length_cons, List.length_cons, List.length_take_of_le hlength] at hread
    refine ⟨i + 2, lexemes, ?_, hread⟩
    rw [hbytes]
    exact isLeast_closings hleast
  | none =>
    right
    rw [Cut.blockComment, hmark] at hfirst
    have hk : Terminal.defect .openComment ≠ .finish := by decide
    refine ⟨?_, (ofText_eq_singleton_iff hk).mpr ⟨hsize, hfirst⟩⟩
    rw [Set.eq_empty_iff_forall_notMem, hbytes]
    rintro j ⟨hj, hj'⟩
    obtain ⟨j, rfl⟩ := Nat.exists_eq_add_of_le' hj
    exact Cut.not_closesAt_of_behindComment? hmark j hj'

theorem ofText_of_lineComment {v : String} (hsize : ("//" ++ v).utf8ByteSize ≤ maxOffset) :
    ∃ lexemes, Lexeme.ofText (PaddedText.ofString ("//" ++ v)) =
      .ok (⟨.trivia .lineComment, (firstLine ("//" ++ v)).utf8ByteSize⟩ :: lexemes) := by
  have hchars : ("//" ++ v).toList = '/' :: '/' :: v.toList := String.toList_append
  have hfirst : Cut.first (bytes ("//" ++ v)) = ⟨.trivia .lineComment,
      (("//" ++ v).toList.dropWhile fun c => !endsLine c).flatMap String.utf8EncodeChar⟩ := by
    rw [hchars, List.dropWhile_cons_of_pos rfl, List.dropWhile_cons_of_pos rfl,
      ← asciiClass_endsLine.dropWhile_not_flatMap, bytes_append]
    rfl
  have hne : bytes (firstLine ("//" ++ v)) ≠ [] := by
    rw [bytes, firstLine, String.toList_ofList, hchars, List.takeWhile_cons_of_pos rfl,
      List.flatMap_cons]
    exact List.append_ne_nil_of_left_ne_nil (utf8EncodeChar_ne_nil _) _
  have hread := exists_ofText_cons hsize hne (bytes_firstLine_append _) hfirst
  rwa [length_bytes] at hread

/-- A text with `/*` in front has a block comment as its first lexeme, which ends behind the first
`*/` from the third byte on; if there is none, the text is an open comment and nothing else.  With
`//` in front, the first lexeme is a line comment, which ends before the first line end, or with the
text.  In any text, also one that is cut, only the last lexeme can be an open comment. -/
theorem ofText_comment (text : String) :
    (text.utf8ByteSize ≤ maxOffset → ∃ lexemes,
      Lexeme.ofText (PaddedText.ofString text) = .ok lexemes ∧
        (∀ v, text = "/*" ++ v →
          ((closings (bytes text)).Nonempty → ∃ j, IsLeast (closings (bytes text)) j ∧
            lexemes.head? = some ⟨.trivia .blockComment, j + 2⟩) ∧
          (closings (bytes text) = ∅ →
            lexemes = [⟨.defect .openComment, text.utf8ByteSize⟩])) ∧
        ∀ v, text = "//" ++ v →
          lexemes.head? = some ⟨.trivia .lineComment, (firstLine text).utf8ByteSize⟩) ∧
      ∀ lexemes, Lexeme.ofText (PaddedText.ofString text) = .ok lexemes →
        ∀ l ∈ lexemes.dropLast, l.terminal ≠ .defect .openComment := by
  constructor
  · intro hsize
    obtain ⟨lexemes, hread⟩ : ∃ lexemes, Lexeme.ofText (PaddedText.ofString text) = .ok lexemes :=
      ⟨_, ofText_ofString hsize⟩
    refine ⟨lexemes, hread, ?_, ?_⟩
    · rintro v rfl
      rcases ofText_of_blockComment hsize with ⟨j, rest, hleast, hclosed⟩ | ⟨hnone, hopen⟩
      · obtain rfl := Except.ok.inj (hread.symm.trans hclosed)
        exact ⟨fun _ => ⟨j, hleast, rfl⟩, fun h => absurd h hleast.nonempty.ne_empty⟩
      · obtain rfl := Except.ok.inj (hread.symm.trans hopen)
        exact ⟨fun h => absurd hnone h.ne_empty, fun _ => rfl⟩
    · rintro v rfl
      obtain ⟨rest, hline⟩ := ofText_of_lineComment hsize
      obtain rfl := Except.ok.inj (hread.symm.trans hline)
      rfl
  · rintro lexemes hread l hl
    rw [eq_of_ofText hread, ← List.map_dropLast] at hl
    obtain ⟨p, hp, rfl⟩ := List.mem_map.mp hl
    exact terminal_ne_openComment_of_mem_dropLast _ p hp

/-- The slash of `/*` closes nothing, and quotes, slashes and a star more make no difference; with
that slash alone the comment stays open. -/
theorem ofText_comment_slash :
    (∃ lexemes, Lexeme.ofText (PaddedText.ofString "/*/\"//é**/x") = .ok lexemes ∧
      IsLeast (closings (bytes "/*/\"//é**/x")) 9 ∧
      lexemes.head? = some ⟨.trivia .blockComment, 11⟩) ∧
    (closings (bytes "/*/") = ∅ ∧
      Lexeme.ofText (PaddedText.ofString "/*/") = .ok [⟨.defect .openComment, 3⟩]) ∧
    ∃ lexemes, Lexeme.ofText (PaddedText.ofString "//*\r*/") = .ok lexemes ∧
      lexemes.head? = some ⟨.trivia .lineComment, 3⟩ := by
  refine ⟨?_, ?_, ?_⟩
  · obtain ⟨lexemes, hread, hblock, -⟩ := (ofText_comment "/*/\"//é**/x").1 (by decide)
    obtain ⟨j, hleast, hhead⟩ := (hblock "/\"//é**/x" rfl).1 ⟨9, by decide, rfl, rfl⟩
    have hlexemes : (Lexeme.ofText (PaddedText.ofString "/*/\"//é**/x")).toOption =
        some [⟨.trivia .blockComment, 11⟩, ⟨.word, 1⟩] := by
      decide +kernel
    rw [hread] at hlexemes
    obtain rfl := Option.some.inj hlexemes
    have hlength : 11 = j + 2 := (Lexeme.mk.inj (Option.some.inj hhead)).2
    obtain rfl : 9 = j := by omega
    exact ⟨_, hread, hleast, rfl⟩
  · have hnone : closings (bytes "/*/") = ∅ := by
      rw [Set.eq_empty_iff_forall_notMem]
      rintro j ⟨hj, hmark⟩
      have hlength : j + 2 ≤ 3 := Cut.length_of_closesAt hmark
      omega
    obtain ⟨lexemes, hread, hblock, -⟩ := (ofText_comment "/*/").1 (by decide)
    rw [(hblock "/" rfl).2 hnone] at hread
    exact ⟨hnone, hread⟩
  · obtain ⟨lexemes, hread, -, hline⟩ := (ofText_comment "//*\r*/").1 (by decide)
    exact ⟨lexemes, hread, hline "*\r*/" rfl⟩

end JavaTokens
