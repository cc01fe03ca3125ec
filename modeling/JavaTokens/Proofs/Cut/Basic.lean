import JavaTokens.Terminal
import JavaTokens.Proofs.Reading

/-!
# Cuts

What a rule makes of a text: the terminal, and the rest behind the lexeme.  The rules are given again
in this form, each as a function of the bytes behind the first one, and three facts carry all that is
said about them:

* the rule yields that cut, whatever the reader (`Cuts`);
* the bytes it takes are of a class (`Takes`);
* it makes nothing of the text behind unless it takes some of it (`Local`).

The last one has two uses.  A lexeme is the same with nothing behind it (`Local.truncate`), and it is
the same before a byte that the rule never takes (`Local.extend`).
-/

namespace JavaTokens

/-- Whether the stretch is a token, and not trivia, a defect or the end. -/
def Terminal.isToken : Terminal → Bool
  | trivia _ | defect _ | finish => false
  | _ => true

structure Cut where
  terminal : Terminal
  rest : List UInt8
deriving DecidableEq, Repr

/-- The cut with more text behind. -/
def Cut.before (c : Cut) (v : List UInt8) : Cut := ⟨c.terminal, c.rest ++ v⟩

/-! ## Readings that yield a cut -/

/-- A reading that yields the cut from before `s`. -/
def Cuts (act : ReadM Terminal) (s : List UInt8) (c : Cut) : Prop :=
  ReadM.Yields act s c.terminal c.rest

theorem headD_test {p : UInt8 → Bool} (hp : p 0 = false) (s : List UInt8) :
    begins p s = p (s.headD 0) := by
  rcases s with _ | ⟨b, s⟩
  · exact hp.symm
  · rfl

theorem getD_one (b : UInt8) (s : List UInt8) : (b :: s).getD 1 0 = s.headD 0 := by
  rcases s with _ | ⟨c, s⟩ <;> rfl

theorem getD_two (b : UInt8) (s : List UInt8) : (b :: s).getD 2 0 = (s.drop 1).headD 0 := by
  rcases s with _ | ⟨c, _ | ⟨d, s⟩⟩ <;> rfl

namespace Cuts

variable {s t : List UInt8} {c x y : Cut}

theorem pure (term : Terminal) (s : List UInt8) : Cuts (pure term) s ⟨term, s⟩ :=
  ReadM.yields_pure term s

theorem bind {α : Type} {act : ReadM α} {f : α → ReadM Terminal} {a : α}
    (h : ReadM.Yields act s a t) (hf : Cuts (f a) t c) : Cuts (act >>= f) s c :=
  ReadM.Yields.bind h hf

theorem current {f : UInt8 → ReadM Terminal} (h : Cuts (f (s.headD 0)) s c) :
    Cuts (ReadM.current >>= f) s c :=
  bind (ReadM.yields_current s) h

/-- Looking at the byte behind the current one. -/
theorem look_one {f : UInt8 → ReadM Terminal} {b : UInt8} (h : Cuts (f (s.headD 0)) (b :: s) c) :
    Cuts (ReadM.look 1 >>= f) (b :: s) c :=
  bind (ReadM.yields_look (by simp)) (by rwa [getD_one])

theorem look_two {f : UInt8 → ReadM Terminal} {b : UInt8}
    (h : Cuts (f ((s.drop 1).headD 0)) (b :: s) c) : Cuts (ReadM.look 2 >>= f) (b :: s) c :=
  bind (ReadM.yields_look (by simp)) (by rwa [getD_two])

theorem skip_one {f : Unit → ReadM Terminal} {b : UInt8} (h : Cuts (f ()) s c) :
    Cuts (ReadM.skip 1 >>= f) (b :: s) c :=
  bind (ReadM.yields_skip_one b s) h

theorem ite {a b : Bool} {yes no : ReadM Terminal} (hab : b = a) (hyes : b = true → Cuts yes s x)
    (hno : b = false → Cuts no s y) :
    Cuts (if a then yes else no) s (if b then x else y) := by
  subst hab
  cases b
  · exact hno rfl
  · exact hyes rfl

end Cuts

/-! ## What is taken -/

section

variable {p q : UInt8 → Bool} {f g : List UInt8 → Cut}

/-- A choice by the first byte, where that byte is taken if it is in the class. -/
theorem takes_branch (hq : ∀ b, q b = true → p b = true) (hf : ∀ s, Takes p s (f s).rest)
    (hg : ∀ s, Takes p s (g s).rest) (s : List UInt8) :
    Takes p s (if begins q s then f (s.drop 1) else g s).rest := by
  split
  · next h => exact ((takes_drop_one h).mono hq).trans (hf _)
  · exact hg s

/-- A choice by the first two bytes, of which both are taken or none. -/
theorem takes_branch_two {q' : UInt8 → Bool} (hq : ∀ b, q b = true → p b = true)
    (hq' : ∀ b, q' b = true → p b = true) (hf : ∀ s, Takes p s (f s).rest)
    (hg : ∀ s, Takes p s (g s).rest) (s : List UInt8) :
    Takes p s (if begins q s then if begins q' (s.drop 1) then f (s.drop 2) else g s
      else g s).rest := by
  split
  · next h =>
    split
    · next h' =>
      have hboth := ((takes_drop_one h).mono hq).trans ((takes_drop_one h').mono hq')
      rw [List.drop_drop] at hboth
      exact hboth.trans (hf _)
    · exact hg s
  · exact hg s

end

/-! ## Indifference to what is left -/

namespace Cut

/-- What stands behind is left as it is, unless some of it is taken. -/
structure Local (f : List UInt8 → Cut) : Prop where
  length_le : ∀ s, (f s).rest.length ≤ s.length
  append : ∀ u v, f (u ++ v) = (f u).before v ∨ (f (u ++ v)).rest.length < v.length

namespace Local

theorem comp {f : List UInt8 → Cut} {g : List UInt8 → List UInt8} (hf : Local f)
    (hg : LocalRest g) : Local fun s => f (g s) where
  length_le s := Nat.le_trans (hf.length_le _) (hg.length_le s)
  append u v := by
    rcases hg.append u v with h | ⟨-, h⟩
    · rw [h]
      exact hf.append (g u) v
    · exact .inr (Nat.lt_of_le_of_lt (hf.length_le _) h)

/-- A terminal that nothing decides. -/
theorem of_rest (t : Terminal) {g : List UInt8 → List UInt8} (hg : LocalRest g) :
    Local fun s => ⟨t, g s⟩ where
  length_le := hg.length_le
  append u v := by
    rcases hg.append u v with h | ⟨-, h⟩
    · rw [h]
      exact .inl rfl
    · exact .inr h

/-- A choice by the first byte, where that byte is taken if it is in the class. -/
theorem branch {p : UInt8 → Bool} {f g : List UInt8 → Cut} (hf : Local f) (hg : Local g) :
    Local fun s => if begins p s then f (s.drop 1) else g s where
  length_le s := by
    split
    · exact Nat.le_trans (hf.length_le _) (by simp)
    · exact hg.length_le s
  append u v := by
    rcases u with _ | ⟨b, u⟩
    · simp only [List.nil_append, begins_nil, Bool.false_eq_true, if_false]
      split
      · next h =>
        obtain ⟨b, t, rfl, -⟩ := exists_cons_of_begins h
        exact .inr (Nat.lt_of_le_of_lt (hf.length_le t) (by simp))
      · exact hg.append [] v
    · simp only [List.cons_append, begins_cons, List.drop_succ_cons, List.drop_zero]
      split
      · exact hf.append u v
      · exact hg.append (b :: u) v

/-- A choice by the first two bytes, of which both are taken or none. -/
theorem branch_two {p q : UInt8 → Bool} {f g : List UInt8 → Cut} (hf : Local f) (hg : Local g) :
    Local fun s =>
      if begins p s then if begins q (s.drop 1) then f (s.drop 2) else g s else g s where
  length_le s := by
    split
    · split
      · exact Nat.le_trans (hf.length_le _) (by simp)
      · exact hg.length_le s
    · exact hg.length_le s
  append u v := by
    have htaken (s : List UInt8) (h : begins q (s.drop 1) = true) :
        (f (s.drop 2)).rest.length + 2 ≤ s.length := by
      obtain ⟨b, t, ht, -⟩ := exists_cons_of_begins h
      have hl := congrArg List.length ht
      have hr := hf.length_le (s.drop 2)
      simp only [List.length_drop, List.length_cons] at hl hr
      omega
    rcases u with _ | ⟨a, _ | ⟨b, u⟩⟩
    · simp only [List.nil_append, begins_nil, Bool.false_eq_true, if_false]
      split
      · split
        · next h =>
          have hlen := htaken v h
          right
          omega
        · exact hg.append [] v
      · exact hg.append [] v
    · simp only [begins_cons, List.drop_succ_cons, List.drop_zero, begins_nil, Bool.false_eq_true,
        if_false, ite_self]
      split
      · split
        · next h =>
          have hlen := htaken ([a] ++ v) h
          simp only [List.length_append, List.length_cons, List.length_nil] at hlen
          right
          omega
        · exact hg.append [a] v
      · exact hg.append [a] v
    · simp only [List.cons_append, begins_cons, List.drop_succ_cons, List.drop_zero]
      split
      · split
        · exact hf.append u v
        · exact hg.append (a :: b :: u) v
      · exact hg.append (a :: b :: u) v

/-- The lexeme alone is cut as it was with text behind it. -/
theorem truncate {f : List UInt8 → Cut} (hf : Local f) {u v : List UInt8} {t : Terminal}
    (h : f (u ++ v) = ⟨t, v⟩) : f u = ⟨t, []⟩ := by
  rcases hf.append u v with h' | h'
  · rw [h, before, Cut.mk.injEq] at h'
    have hr : (f u).rest = [] := List.append_left_eq_self.mp h'.2.symm
    rw [h'.1, ← hr]
  · rw [h] at h'
    exact absurd h' (Nat.lt_irrefl _)

/-- A text behind makes no difference if its first byte is none of those that are taken. -/
theorem extend {f : List UInt8 → Cut} (hf : Local f) {p : UInt8 → Bool} {c : UInt8}
    {s x : List UInt8} (hp : Takes p (s ++ c :: x) (f (s ++ c :: x)).rest) (hc : p c = false) :
    f (s ++ c :: x) = (f s).before (c :: x) := by
  rcases hf.append s (c :: x) with h | h
  · exact h
  · obtain ⟨u, hu, ht⟩ := hp
    -- more is taken than `s`, so `c` is among it
    have hl := congrArg List.length hu
    simp only [List.length_append, List.length_cons] at hl h
    rcases List.append_eq_append_iff.mp hu with ⟨w, rfl, hw⟩ | ⟨w, rfl, hw⟩
    · rcases w with _ | ⟨a, w⟩
      · simp only [List.append_nil] at hl
        omega
      · rw [List.cons_append, List.cons.injEq] at hw
        have hpc := ht c (by rw [hw.1]; simp)
        rw [hc] at hpc
        cases hpc
    · rw [List.length_append] at hl
      omega

end Local

end Cut

end JavaTokens
