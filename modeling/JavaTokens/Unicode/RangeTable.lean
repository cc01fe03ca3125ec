import JavaTokens.Bisect

/-!
# Character range tables

A Unicode property is held as its maximal runs of code points, in increasing order, each run given
by its first and last member; a lookup halves its way to the one run that can hold a code point.

    a code point is found if some run holds it, and only then         (contains_iff)
-/

namespace JavaTokens.Unicode

/-- No run is empty, and there is a gap before each next one. -/
def RangeTable.isOrdered (runs : Array (Nat × Nat)) : Bool :=
  let runs := runs.toList
  runs.all (fun run => run.1 ≤ run.2) &&
    (runs.zip runs.tail).all fun (run, next) => run.2 + 1 < next.1

/-- Runs of code points, both ends included, in increasing order. -/
structure RangeTable where
  runs : Array (Nat × Nat)
  ordered : RangeTable.isOrdered runs = true

namespace RangeTable

/-- The number of runs that begin at or before `code`. -/
def runsFrom (table : RangeTable) (code : Nat) : Nat :=
  bisect (fun i => table.runs[i]?.any fun run => run.1 ≤ code) 0 table.runs.size

/-- A code point is in the table when the last run that begins at or before it reaches it. -/
def contains (table : RangeTable) (code : Nat) : Bool :=
  match table.runsFrom code with
  | 0 => false
  | i + 1 => table.runs[i]?.any fun run => code ≤ run.2

/-! ## Lookup -/

/-- Gaps between neighbours are gaps between any two runs. -/
theorem pairwise_of_gaps {runs : List (Nat × Nat)} (hruns : ∀ run ∈ runs, run.1 ≤ run.2)
    (hgaps : ∀ pair ∈ runs.zip runs.tail, pair.1.2 + 1 < pair.2.1) :
    runs.Pairwise fun run next => run.1 < next.1 ∧ run.2 < next.1 := by
  induction runs with
  | nil => exact .nil
  | cons run runs ih =>
    rw [List.forall_mem_cons] at hruns
    rcases runs with _ | ⟨next, runs⟩
    · exact List.pairwise_singleton _ run
    · have hzip : (run :: next :: runs).zip (next :: runs) =
          (run, next) :: (next :: runs).zip runs := rfl
      rw [List.tail_cons, hzip, List.forall_mem_cons] at hgaps
      obtain ⟨hgap, hgaps⟩ := hgaps
      have hrest := ih hruns.2 hgaps
      refine .cons ?_ hrest
      intro other hother
      have hle : next.1 ≤ other.1 := by
        rcases List.mem_cons.mp hother with rfl | hother
        · exact Nat.le_refl _
        · exact Nat.le_of_lt ((List.pairwise_cons.mp hrest).1 other hother).1
      have hlt : run.2 < other.1 := Nat.lt_of_lt_of_le (Nat.lt_of_succ_lt hgap) hle
      exact ⟨Nat.lt_of_le_of_lt hruns.1 hlt, hlt⟩

variable (table : RangeTable) (code : Nat)

theorem pairwise_runs :
    table.runs.toList.Pairwise fun run next => run.1 < next.1 ∧ run.2 < next.1 := by
  have hordered := table.ordered
  simp only [isOrdered, Bool.and_eq_true, List.all_eq_true, decide_eq_true_eq] at hordered
  exact pairwise_of_gaps hordered.1 hordered.2

theorem getElem?_lt {i j : Nat} {run next : Nat × Nat} (hij : i < j)
    (hrun : table.runs[i]? = some run) (hnext : table.runs[j]? = some next) :
    run.1 < next.1 ∧ run.2 < next.1 := by
  obtain ⟨hi, rfl⟩ := Array.getElem?_eq_some_iff.mp hrun
  obtain ⟨hj, rfl⟩ := Array.getElem?_eq_some_iff.mp hnext
  exact List.pairwise_iff_getElem.mp table.pairwise_runs i j hi hj hij

/-- The runs that begin at or before a code point come first. -/
theorem lt_runsFrom_iff {i : Nat} {run : Nat × Nat} (hrun : table.runs[i]? = some run) :
    i < table.runsFrom code ↔ run.1 ≤ code := by
  have hbegins := table.pairwise_runs.imp And.left
  have hany := any_getElem?_eq hbegins code i
  rw [Array.getElem?_toList, hrun, Option.any_some, ← bisect_eq_countP hbegins,
    decide_eq_decide] at hany
  exact hany.symm

/-- A code point is found if some run holds it, and only then. -/
theorem contains_iff :
    table.contains code = true ↔ ∃ run ∈ table.runs, run.1 ≤ code ∧ code ≤ run.2 := by
  unfold contains
  constructor
  · intro hreach
    split at hreach
    · cases hreach
    · next i hfrom =>
      rw [Option.any_eq_true] at hreach
      obtain ⟨run, hrun, hle⟩ := hreach
      have hbegins := (table.lt_runsFrom_iff code hrun).mp (by omega)
      exact ⟨run, Array.mem_of_getElem? hrun, hbegins, of_decide_eq_true hle⟩
  · rintro ⟨run, hmem, hbegins, hreach⟩
    obtain ⟨j, hrun⟩ := Array.getElem?_of_mem hmem
    have hj := (table.lt_runsFrom_iff code hrun).mpr hbegins
    have hsize : table.runsFrom code ≤ table.runs.size := bisect_le _ _ _ (Nat.zero_le _)
    split
    · next hfrom => omega
    · next i hfrom =>
      obtain ⟨last, hlast⟩ : ∃ last, table.runs[i]? = some last :=
        ⟨_, Array.getElem?_eq_getElem (by omega)⟩
      have hle := (table.lt_runsFrom_iff code hlast).mp (by omega)
      rw [hlast, Option.any_some, decide_eq_true_eq]
      -- a run before the last one ends before the last one begins
      obtain rfl | hlt : j = i ∨ j < i := by omega
      · rw [hlast] at hrun
        cases hrun
        exact hreach
      · have hends := (table.getElem?_lt hlt hrun hlast).2
        omega

/-- Up to the end of the first run, no other run holds a code point. -/
theorem contains_iff_of_le {first : Nat × Nat} (hfirst : table.runs[0]? = some first)
    (h : code ≤ first.2) : table.contains code = true ↔ first.1 ≤ code := by
  rw [contains_iff]
  constructor
  · rintro ⟨run, hmem, hle, -⟩
    obtain ⟨j, hrun⟩ := Array.getElem?_of_mem hmem
    rcases j with _ | j
    · rw [hfirst] at hrun
      cases hrun
      exact hle
    · have hlt := (table.getElem?_lt (Nat.succ_pos j) hfirst hrun).1
      omega
  · intro hle
    exact ⟨first, Array.mem_of_getElem? hfirst, hle, h⟩

end RangeTable

end JavaTokens.Unicode
