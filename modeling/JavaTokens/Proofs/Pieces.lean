import JavaTokens.Proofs.Cut.First

/-!
# Pieces

A text cut into its lexemes, each with its bytes.  The pieces of a text are what repeated reading
makes of it, and they are told by the first lexeme and what it leaves:

    first (w ++ t) = ⟨k, t⟩ → pieces (w ++ t) = ⟨k, w⟩ :: pieces t    (pieces_cons)
    the bytes of the pieces make up the text                          (flatMap_pieces)
    Lexeme.rest yields the lexemes of the pieces                      (yields_rest)
-/

namespace JavaTokens

open Cut ReadM Text

/-- A lexeme with its bytes. -/
structure Piece where
  terminal : Terminal
  bytes : List UInt8
deriving DecidableEq, Repr

def Piece.lexeme (p : Piece) : Lexeme := ⟨p.terminal, p.bytes.length⟩

/-- The pieces of what is left of a text. -/
def pieces (s : List UInt8) : List Piece :=
  if _h : s = [] then []
  else
    ⟨(first s).terminal, s.take (s.length - (first s).rest.length)⟩ :: pieces (first s).rest
termination_by s.length
decreasing_by exact length_first_lt _h

/-! ## The first piece -/

theorem first_suffix (s : List UInt8) : (first s).rest <:+ s := (cuts_first s).suffix

/-- A text that is not at its end is a lexeme of at least one byte and what it leaves. -/
theorem exists_first {s : List UInt8} (h : s ≠ []) :
    ∃ k w t, s = w ++ t ∧ w ≠ [] ∧ k ≠ .finish ∧ first s = ⟨k, t⟩ := by
  obtain ⟨w, hw⟩ := first_suffix s
  refine ⟨_, w, _, hw.symm, ?_, fun hk => h (first_finish_iff.mp hk), rfl⟩
  rintro rfl
  have hl := length_first_lt h
  rw [List.nil_append] at hw
  rw [hw] at hl
  exact absurd hl (Nat.lt_irrefl _)

@[simp] theorem pieces_nil : pieces [] = [] := by
  rw [pieces, dif_pos rfl]

theorem pieces_cons {w t : List UInt8} {k : Terminal} (hw : w ≠ [])
    (h : first (w ++ t) = ⟨k, t⟩) : pieces (w ++ t) = ⟨k, w⟩ :: pieces t := by
  rw [pieces, dif_neg (by simp [hw]), h]
  simp

/-- Going through a text lexeme by lexeme. -/
@[elab_as_elim]
theorem pieces_induction {motive : List UInt8 → Prop} (nil : motive [])
    (cons : ∀ (k : Terminal) (w t : List UInt8), w ≠ [] → k ≠ .finish → first (w ++ t) = ⟨k, t⟩ →
      motive t → motive (w ++ t)) (s : List UInt8) : motive s := by
  induction hn : s.length using Nat.strongRecOn generalizing s with
  | ind n ih =>
    by_cases hs : s = []
    · rw [hs]
      exact nil
    · obtain ⟨k, w, t, rfl, hw, hk, h⟩ := exists_first hs
      have hl : t.length < (w ++ t).length := by
        have hlt := length_first_lt hs
        rwa [h] at hlt
      exact cons k w t hw hk h (ih t.length (by omega) t rfl)

/-! ## The pieces of a text -/

theorem flatMap_pieces (s : List UInt8) : (pieces s).flatMap Piece.bytes = s := by
  induction s using pieces_induction with
  | nil => simp
  | cons k w t hw hk h ih => rw [pieces_cons hw h, List.flatMap_cons, ih]

/-- The bytes of a piece stand between those of the pieces before it and those behind it. -/
theorem exists_of_getElem? {s : List UInt8} {i : Nat} {p : Piece} (h : (pieces s)[i]? = some p) :
    ∃ t, s = ((pieces s).take i).flatMap Piece.bytes ++ (p.bytes ++ t) := by
  obtain ⟨hi, hp⟩ := List.getElem?_eq_some_iff.mp h
  refine ⟨((pieces s).drop (i + 1)).flatMap Piece.bytes, ?_⟩
  rw [← hp, ← List.flatMap_cons, ← List.drop_eq_getElem_cons hi, ← List.flatMap_append,
    List.take_append_drop, flatMap_pieces]

theorem terminal_ne_finish_of_mem {s : List UInt8} : ∀ p ∈ pieces s, p.terminal ≠ .finish := by
  induction s using pieces_induction with
  | nil => simp
  | cons k w t hw hk h ih =>
    rw [pieces_cons hw h, List.forall_mem_cons]
    exact ⟨hk, ih⟩

theorem bytes_ne_nil_of_mem {s : List UInt8} : ∀ p ∈ pieces s, p.bytes ≠ [] := by
  induction s using pieces_induction with
  | nil => simp
  | cons k w t hw hk h ih =>
    rw [pieces_cons hw h, List.forall_mem_cons]
    exact ⟨hw, ih⟩

/-- In a text the pieces are texts. -/
theorem isUtf8_of_mem {s : List UInt8} (hs : IsUtf8 s) : ∀ p ∈ pieces s, IsUtf8 p.bytes := by
  induction s using pieces_induction with
  | nil => simp
  | cons k w t hw hk h ih =>
    have ht : IsUtf8 t := isUtf8_of_first hs h
    rw [pieces_cons hw h, List.forall_mem_cons]
    exact ⟨hs.left_of_append ht, ih ht⟩

/-- A piece alone is the lexeme that it was with text behind it. -/
theorem first_of_mem {s : List UInt8} : ∀ p ∈ pieces s, first p.bytes = ⟨p.terminal, []⟩ := by
  induction s using pieces_induction with
  | nil => simp
  | cons k w t hw hk h ih =>
    rw [pieces_cons hw h, List.forall_mem_cons]
    exact ⟨local_first.truncate h, ih⟩

/-! ## Reading -/

/-- A lexeme is as long as its rule has moved. -/
theorem run_next (r : Reader) :
    Lexeme.next.run r = (current >>= fun b => (Lexeme.Rule.ofByte b).read).run r >>=
      fun p => .ok (⟨p.1, p.2.pos - r.pos⟩, p.2) := by
  have hnext : Lexeme.next = position >>= fun start =>
      (current >>= fun b => (Lexeme.Rule.ofByte b).read) >>= fun terminal =>
        position >>= fun stop => pure ⟨terminal, stop - start⟩ := by
    unfold Lexeme.next
    simp only [bind_assoc]
  rw [hnext]
  rfl

theorem yields_next (s : List UInt8) :
    Yields Lexeme.next s ⟨(first s).terminal, s.length - (first s).rest.length⟩ (first s).rest := by
  refine ⟨first_suffix s, ?_⟩
  intro r hr
  have hp := hr.pos_add
  rw [run_next]
  rcases (cuts_first s).run r hr with ⟨r', hok, hr', hs⟩ | ⟨hfault, hw⟩
  · have hp' := hr'.pos_add
    refine .inl ⟨r', ?_, hr', hs⟩
    rw [hok, show s.length - (first s).rest.length = r'.pos - r.pos by omega]
    rfl
  · refine .inr ⟨?_, hw⟩
    rw [hfault]
    rfl

/-- The reading of the piece in front. -/
theorem yields_next_cons {w t : List UInt8} {k : Terminal} (h : first (w ++ t) = ⟨k, t⟩) :
    Yields Lexeme.next (w ++ t) (Piece.mk k w).lexeme t := by
  have hnext := yields_next (w ++ t)
  rw [h] at hnext
  simpa [Piece.lexeme] using hnext

theorem yields_next_nil : Yields Lexeme.next [] ⟨.finish, 0⟩ [] := yields_next []

theorem yields_collect {s : List UInt8} {fuel : Nat} (h : s.length < fuel) (done : List Lexeme) :
    Yields (Lexeme.collect fuel done) s (done.reverse ++ (pieces s).map Piece.lexeme) [] := by
  induction s using pieces_induction generalizing fuel done with
  | nil =>
    obtain ⟨fuel, rfl⟩ : ∃ n, fuel = n + 1 := ⟨fuel - 1, by omega⟩
    refine yields_next_nil.bind ?_
    simpa using yields_pure done.reverse []
  | cons k w t hw hk hf ih =>
    obtain ⟨fuel, rfl⟩ : ∃ n, fuel = n + 1 := ⟨fuel - 1, by omega⟩
    have hl := List.length_pos_iff.mpr hw
    rw [List.length_append] at h
    refine (yields_next_cons hf).bind ?_
    show Yields (if k = .finish then pure done.reverse else Lexeme.collect fuel _) _ _ _
    rw [if_neg hk, pieces_cons hw hf, List.map_cons]
    have hfuel : t.length < fuel := by omega
    simpa using ih hfuel ((Piece.mk k w).lexeme :: done)

theorem yields_rest (s : List UInt8) : Yields Lexeme.rest s ((pieces s).map Piece.lexeme) [] :=
  yields_left (f := fun n => Lexeme.collect (n + 1) [])
    (yields_collect (Nat.lt_succ_self s.length) [])

theorem yields_nextMany_succ {n : Nat} {s t u : List UInt8} {l : Lexeme} {ls : List Lexeme}
    (h : Yields Lexeme.next s l t) (hn : Yields (Lexeme.nextMany n) t ls u) :
    Yields (Lexeme.nextMany (n + 1)) s (l :: ls) u := by
  refine h.bind ?_
  refine hn.bind ?_
  exact yields_pure _ u

/-- Behind the last piece, the end of the text is read every time. -/
theorem yields_nextMany (n : Nat) (s : List UInt8) :
    Yields (Lexeme.nextMany n) s
      (((pieces s).map Piece.lexeme).take n ++
        List.replicate (n - (pieces s).length) ⟨.finish, 0⟩)
      (((pieces s).drop n).flatMap Piece.bytes) := by
  induction n generalizing s with
  | zero =>
    rw [List.drop_zero, flatMap_pieces, List.take_zero, Nat.zero_sub]
    exact yields_pure [] s
  | succ n ih =>
    induction s using pieces_induction with
    | nil =>
      have hread := yields_nextMany_succ yields_next_nil (ih [])
      simpa [List.replicate_succ] using hread
    | cons k w t hw hk h _ =>
      have hread := yields_nextMany_succ (yields_next_cons h) (ih t)
      simpa [pieces_cons hw h] using hread

theorem ofText_eq (text : PaddedText) :
    Lexeme.ofText text = (Lexeme.rest.run text.reader).map Prod.fst := rfl

/-- A whole text is cut into its pieces. -/
theorem ofText_of_whole {text : PaddedText} (h : Whole text.bytes) :
    Lexeme.ofText text = .ok ((pieces text.bytes).map Piece.lexeme) := by
  obtain ⟨r, hr, -⟩ := (yields_rest text.bytes).run_of_whole h text.reader_before
  rw [ofText_eq, hr]
  rfl

/-- What is read of a text are its pieces. -/
theorem eq_of_ofText {text : PaddedText} {lexemes : List Lexeme}
    (h : Lexeme.ofText text = .ok lexemes) : lexemes = (pieces text.bytes).map Piece.lexeme := by
  rw [ofText_eq] at h
  cases hrun : Lexeme.rest.run text.reader with
  | error fault =>
    rw [hrun] at h
    cases h
  | ok p =>
    rw [hrun] at h
    cases h
    exact ((yields_rest text.bytes).eq_of_run text.reader_before hrun).1

end JavaTokens
