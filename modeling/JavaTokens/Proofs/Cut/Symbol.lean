import JavaTokens.Lexeme.Symbol
import JavaTokens.Proofs.Cut.Basic

/-!
# Cuts of symbols

The rules for operators and separators, behind their first byte.  Whatever they take are marks:
printable ASCII bytes that are no part of a word.
-/

namespace JavaTokens.Cut

open Lexeme ReadM

/-! ## Rules -/

def assignable (bare assigned : Symbol) (s : List UInt8) : Cut :=
  if begins (· == '='.toUInt8) s then ⟨.symbol assigned, s.drop 1⟩ else ⟨.symbol bare, s⟩

def doubling (b : UInt8) (twice bare assigned : Symbol) (s : List UInt8) : Cut :=
  if begins (· == b) s then ⟨.symbol twice, s.drop 1⟩ else assignable bare assigned s

def less (s : List UInt8) : Cut :=
  if begins (· == '<'.toUInt8) s then assignable .shiftLeft .shiftLeftAssign (s.drop 1)
  else assignable .less .lessEqual s

/-- The symbols that begin with two `>`, behind those two. -/
def greaterTwice (s : List UInt8) : Cut :=
  if begins (· == '>'.toUInt8) s then assignable .shiftRightZero .shiftRightZeroAssign (s.drop 1)
  else assignable .shiftRight .shiftRightAssign s

def greater (s : List UInt8) : Cut :=
  if begins (· == '>'.toUInt8) s then greaterTwice (s.drop 1)
  else assignable .greater .greaterEqual s

def dots (s : List UInt8) : Cut :=
  if begins (· == '.'.toUInt8) s then
    if begins (· == '.'.toUInt8) (s.drop 1) then ⟨.symbol .ellipsis, s.drop 2⟩
    else ⟨.symbol .dot, s⟩
  else ⟨.symbol .dot, s⟩

/-! ## Reading -/

theorem cuts_single (sym : Symbol) (b : UInt8) (s : List UInt8) :
    Cuts (single sym) (b :: s) ⟨.symbol sym, s⟩ :=
  Cuts.skip_one (Cuts.pure _ s)

theorem cuts_assignable (bare assigned : Symbol) (b : UInt8) (s : List UInt8) :
    Cuts (Lexeme.assignable bare assigned) (b :: s) (assignable bare assigned s) := by
  refine Cuts.skip_one (Cuts.current (Cuts.ite (headD_test rfl s) ?_ ?_))
  · intro h
    obtain ⟨c, t, rfl, -⟩ := exists_cons_of_begins h
    exact cuts_single assigned c t
  · intro _
    exact Cuts.pure _ s

theorem cuts_doubling (twice bare assigned : Symbol) {b : UInt8} (hb : b ≠ 0) (s : List UInt8) :
    Cuts (Lexeme.doubling twice bare assigned) (b :: s) (doubling b twice bare assigned s) := by
  have h0 : ((0 : UInt8) == b) = false := by simpa using Ne.symm hb
  refine Cuts.look_one (Cuts.current (Cuts.ite (headD_test h0 s) ?_ ?_))
  · intro h
    obtain ⟨c, t, rfl, -⟩ := exists_cons_of_begins h
    exact Cuts.bind (yields_skip (by simp)) (Cuts.pure _ t)
  · intro _
    exact cuts_assignable bare assigned b s

theorem cuts_less (b : UInt8) (s : List UInt8) : Cuts Lexeme.less (b :: s) (less s) := by
  refine Cuts.look_one (Cuts.ite (headD_test rfl s) ?_ ?_)
  · intro h
    obtain ⟨c, t, rfl, -⟩ := exists_cons_of_begins h
    exact Cuts.skip_one (cuts_assignable .shiftLeft .shiftLeftAssign c t)
  · intro _
    exact cuts_assignable .less .lessEqual b s

theorem cuts_greater (b : UInt8) (s : List UInt8) : Cuts Lexeme.greater (b :: s) (greater s) := by
  refine Cuts.look_one (Cuts.ite (headD_test rfl s) ?_ ?_)
  · intro h
    obtain ⟨c, t, rfl, -⟩ := exists_cons_of_begins h
    refine Cuts.skip_one (Cuts.look_one (Cuts.ite (headD_test rfl t) ?_ ?_))
    · intro h
      obtain ⟨d, t, rfl, -⟩ := exists_cons_of_begins h
      exact Cuts.skip_one (cuts_assignable .shiftRightZero .shiftRightZeroAssign d t)
    · intro _
      exact cuts_assignable .shiftRight .shiftRightAssign c t
  · intro _
    exact cuts_assignable .greater .greaterEqual b s

theorem cuts_dots (b : UInt8) (s : List UInt8) : Cuts Lexeme.dots (b :: s) (dots s) := by
  refine Cuts.look_one (Cuts.ite (headD_test rfl s) ?_ ?_)
  · intro h
    obtain ⟨c, t, rfl, -⟩ := exists_cons_of_begins h
    refine Cuts.look_two (Cuts.ite (headD_test rfl t) ?_ ?_)
    · intro h
      obtain ⟨d, t, rfl, -⟩ := exists_cons_of_begins h
      exact Cuts.bind (yields_skip (by simp)) (Cuts.pure _ t)
    · intro _
      exact cuts_single .dot b (c :: t)
  · intro _
    exact cuts_single .dot b s

/-! ## What is taken -/

/-- The bytes of symbols behind their first. -/
def isMark (b : UInt8) : Bool :=
  b == '='.toUInt8 || b == '<'.toUInt8 || b == '>'.toUInt8 || b == '.'.toUInt8 ||
    b == '+'.toUInt8 || b == '-'.toUInt8 || b == '&'.toUInt8 || b == '|'.toUInt8

theorem isMark_of_beq {c : UInt8} (hc : isMark c = true) (b : UInt8) (hb : (b == c) = true) :
    isMark b = true :=
  eq_of_beq hb ▸ hc

/-- Symbols are ASCII and stay in their line. -/
theorem ascii_of_isMark (b : UInt8) (h : isMark b = true) : b < 0x80 ∧ isInLine b = true := by
  simp only [isMark, Bool.or_eq_true, beq_iff_eq] at h
  rcases h with ((((((rfl | rfl) | rfl) | rfl) | rfl) | rfl) | rfl) | rfl
  all_goals exact ⟨by decide, rfl⟩

theorem takes_assignable (bare assigned : Symbol) (s : List UInt8) :
    Takes isMark s (assignable bare assigned s).rest :=
  takes_branch (f := Cut.mk (.symbol assigned)) (g := Cut.mk (.symbol bare)) (isMark_of_beq rfl)
    (Takes.refl _) (Takes.refl _) s

theorem takes_doubling (twice bare assigned : Symbol) {b : UInt8} (hb : isMark b = true)
    (s : List UInt8) : Takes isMark s (doubling b twice bare assigned s).rest :=
  takes_branch (f := Cut.mk (.symbol twice)) (isMark_of_beq hb) (Takes.refl _)
    (takes_assignable bare assigned) s

theorem takes_less (s : List UInt8) : Takes isMark s (less s).rest :=
  takes_branch (isMark_of_beq rfl) (takes_assignable .shiftLeft .shiftLeftAssign)
    (takes_assignable .less .lessEqual) s

theorem takes_greaterTwice (s : List UInt8) : Takes isMark s (greaterTwice s).rest :=
  takes_branch (isMark_of_beq rfl) (takes_assignable .shiftRightZero .shiftRightZeroAssign)
    (takes_assignable .shiftRight .shiftRightAssign) s

theorem takes_greater (s : List UInt8) : Takes isMark s (greater s).rest :=
  takes_branch (isMark_of_beq rfl) takes_greaterTwice (takes_assignable .greater .greaterEqual) s

theorem takes_dots (s : List UInt8) : Takes isMark s (dots s).rest :=
  takes_branch_two (f := Cut.mk (.symbol .ellipsis)) (g := Cut.mk (.symbol .dot))
    (isMark_of_beq rfl) (isMark_of_beq rfl) (Takes.refl _) (Takes.refl _) s

/-! ## Indifference to what is left -/

theorem local_assignable (bare assigned : Symbol) : Local (assignable bare assigned) :=
  (Local.of_rest (.symbol assigned) localRest_id).branch (.of_rest (.symbol bare) localRest_id)

theorem local_doubling (b : UInt8) (twice bare assigned : Symbol) :
    Local (doubling b twice bare assigned) :=
  (Local.of_rest (.symbol twice) localRest_id).branch (local_assignable bare assigned)

theorem local_less : Local less := (local_assignable _ _).branch (local_assignable _ _)

theorem local_greaterTwice : Local greaterTwice :=
  (local_assignable _ _).branch (local_assignable _ _)

theorem local_greater : Local greater := local_greaterTwice.branch (local_assignable _ _)

theorem local_dots : Local dots :=
  (Local.of_rest (.symbol .ellipsis) localRest_id).branch_two (.of_rest (.symbol .dot) localRest_id)

end JavaTokens.Cut
