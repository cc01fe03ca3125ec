/-!
# Bisection

A predicate on indices that holds up to some point and fails from there on is searched for that
point by halving the interval.  Line lookup and character tables share this search: in an array with
increasing keys, it counts the entries up to some key.

    the search finds where a predicate fails                          (bisect_spec)
    over increasing keys, the search counts the entries up to a key   (bisect_eq_countP)
-/

namespace JavaTokens

/-- The first index of `[lo, hi)` at which `p` fails, or `hi`, for a `p` that never comes true
again once it has failed. -/
def bisect (p : Nat → Bool) (lo hi : Nat) : Nat :=
  if lo < hi then
    let mid := lo + (hi - lo) / 2
    if p mid then bisect p (mid + 1) hi else bisect p lo mid
  else lo
termination_by hi - lo
decreasing_by all_goals omega

theorem bisect_le (p : Nat → Bool) (lo hi : Nat) (h : lo ≤ hi) : bisect p lo hi ≤ hi := by
  fun_induction bisect p lo hi with
  | case1 lo hi hlt mid hp ih => exact ih (by omega)
  | case2 lo hi hlt mid hp ih => exact Nat.le_trans (ih (by omega)) (by omega)
  | case3 lo hi hge => exact h

/-- Where a predicate never comes true again, bisection finds the point at which it fails. -/
theorem bisect_spec {p : Nat → Bool} (hp : ∀ i j, i ≤ j → p j = true → p i = true) (lo hi : Nat) :
    (∀ i, lo ≤ i → i < bisect p lo hi → p i = true) ∧
      ∀ i, bisect p lo hi ≤ i → i < hi → p i = false := by
  fun_induction bisect p lo hi with
  | case1 lo hi hlt mid hmid ih =>
    refine ⟨?_, ih.2⟩
    intro i hlo hi'
    by_cases h : i ≤ mid
    · exact hp i mid h hmid
    · exact ih.1 i (by omega) hi'
  | case2 lo hi hlt mid hmid ih =>
    refine ⟨ih.1, ?_⟩
    intro i hge hi'
    by_cases h : i < mid
    · exact ih.2 i hge h
    · cases hpi : p i with
      | false => rfl
      | true => exact absurd (hp mid i (by omega) hpi) hmid
  | case3 lo hi hge =>
    constructor
    · intro i hlo hi'
      omega
    · intro i hge' hi'
      omega

theorem bisect_eq {p : Nat → Bool} {n k : Nat} (hk : k ≤ n) (hbelow : ∀ i, i < k → p i = true)
    (habove : ∀ i, k ≤ i → p i = false) : bisect p 0 n = k := by
  have hp : ∀ i j, i ≤ j → p j = true → p i = true := by
    intro i j hij hj
    apply hbelow
    rw [← Nat.not_le]
    intro hki
    rw [habove j (by omega)] at hj
    cases hj
  obtain ⟨h1, h2⟩ := bisect_spec hp 0 n
  have hle := bisect_le p 0 n (Nat.zero_le n)
  rcases Nat.lt_trichotomy (bisect p 0 n) k with h | h | h
  · have hfalse := h2 _ (Nat.le_refl _) (by omega)
    rw [hbelow _ h] at hfalse
    cases hfalse
  · exact h
  · have htrue := h1 k (Nat.zero_le k) h
    rw [habove k (Nat.le_refl k)] at htrue
    cases htrue

/-! ## Increasing keys -/

section

variable {α : Type} {f : α → Nat}

/-- Of entries with increasing keys, the ones up to a key come first. -/
theorem any_getElem?_eq {entries : List α} (h : entries.Pairwise (f · < f ·)) (key i : Nat) :
    (entries[i]?.any fun entry => f entry ≤ key) =
      decide (i < entries.countP fun entry => f entry ≤ key) := by
  induction entries generalizing i with
  | nil => rfl
  | cons entry entries ih =>
    rw [List.pairwise_cons] at h
    by_cases hle : f entry ≤ key
    · rw [List.countP_cons_of_pos (by simpa using hle)]
      cases i with
      | zero => simpa using hle
      | succ i =>
        rw [List.getElem?_cons_succ, ih h.2]
        simp
    · have hnone : ∀ x ∈ entry :: entries, ¬ (decide (f x ≤ key) = true) := by
        intro x hx
        rw [decide_eq_true_eq]
        rcases List.mem_cons.mp hx with rfl | hx
        · exact hle
        · have hlt := h.1 x hx
          omega
      rw [List.countP_eq_zero.mpr hnone, decide_eq_false (Nat.not_lt_zero i)]
      cases hx : (entry :: entries)[i]? with
      | none => rfl
      | some x => exact Bool.eq_false_iff.mpr (hnone x (List.mem_of_getElem? hx))

theorem bisect_eq_countP {entries : Array α} (h : entries.toList.Pairwise (f · < f ·))
    (key : Nat) :
    bisect (fun i => entries[i]?.any fun entry => f entry ≤ key) 0 entries.size =
      entries.toList.countP fun entry => f entry ≤ key := by
  have hany (i : Nat) := any_getElem?_eq h key i
  simp only [Array.getElem?_toList] at hany
  apply bisect_eq
  · rw [← Array.length_toList]
    exact List.countP_le_length
  · intro i hi
    rw [hany, decide_eq_true hi]
  · intro i hi
    rw [hany, decide_eq_false (Nat.not_lt.mpr hi)]

end

end JavaTokens
