import Mathlib.Computability.RegularExpressions
import Mathlib.Data.List.TakeWhile
import JavaTokens.Proofs.Kind.Numeral

/-!
# Languages of bytes

What a step over bytes does, said of the words of a regular language.  A step that takes as much as
it can finds the words of a language if nothing behind the run could be a part of it.

    a run of a class, and what is left of it                          (mem_run_mul)
    at most one byte of a class, and what is left of it               (mem_optional_mul)
    digits in groups and a suffix                                     (mem_groups_mul)
-/

namespace JavaTokens.Cut

open Computability Numeral

variable {p q : UInt8 → Bool} {L : Language UInt8} {b : UInt8} {s g : List UInt8}

/-! ## Classes and runs -/

/-- One byte of the class. -/
def oneByte (p : UInt8 → Bool) : Language UInt8 := {w | ∃ b, p b = true ∧ w = [b]}

/-- One byte of the class or more. -/
def run (p : UInt8 → Bool) : Language UInt8 := oneByte p * (oneByte p)∗

theorem cons_mem_oneByte_mul : b :: s ∈ oneByte p * L ↔ p b = true ∧ s ∈ L := by
  rw [Language.mem_mul]
  constructor
  · rintro ⟨_, ⟨a, ha, rfl⟩, t, ht, hsplit⟩
    obtain ⟨rfl, rfl⟩ := List.cons.inj hsplit
    exact ⟨ha, ht⟩
  · rintro ⟨hb, hs⟩
    exact ⟨[b], ⟨b, hb, rfl⟩, s, hs, rfl⟩

theorem mem_oneByte_mul : s ∈ oneByte p * L ↔ ∃ b t, s = b :: t ∧ p b = true ∧ t ∈ L := by
  constructor
  · rintro ⟨_, ⟨b, hb, rfl⟩, t, ht, rfl⟩
    exact ⟨b, t, rfl, hb, ht⟩
  · rintro ⟨b, t, rfl, hb, ht⟩
    exact cons_mem_oneByte_mul.mpr ⟨hb, ht⟩

theorem nil_notMem_oneByte_mul : [] ∉ oneByte p * L := by
  rw [mem_oneByte_mul]
  rintro ⟨b, t, h, -⟩
  cases h

theorem mem_optional : s ∈ 1 + oneByte q ↔ isSuffix q s = true := by
  rcases s with _ | ⟨b, _ | ⟨c, s⟩⟩
  · exact ⟨fun _ => rfl, fun _ => .inl rfl⟩
  · constructor
    · rintro (h | ⟨c, hc, h⟩)
      · cases h
      · rwa [List.singleton_inj.mp h]
    · intro hb
      exact .inr ⟨b, hb, rfl⟩
  · constructor
    · rintro (h | ⟨d, -, h⟩)
      · cases h
      · cases h
    · intro h
      cases h

theorem cons_notMem (hL : ∀ w ∈ L, begins p w = false) (hb : p b = true) : b :: s ∉ L := by
  intro hmem
  have hbegins := hL _ hmem
  rw [begins_cons, hb] at hbegins
  cases hbegins

/-- The byte that may stand first is the one that is left out. -/
theorem mem_optional_mul (hL : ∀ w ∈ L, begins p w = false) :
    s ∈ (1 + oneByte p) * L ↔ dropOne p s ∈ L := by
  rw [add_mul, one_mul, Language.mem_add]
  rcases s with _ | ⟨b, s⟩
  · exact or_iff_left nil_notMem_oneByte_mul
  · rw [cons_mem_oneByte_mul, dropOne, begins_cons]
    split
    · next hb =>
      rw [or_iff_right (cons_notMem hL hb), and_iff_right hb]
      exact Iff.rfl
    · next hb => exact or_iff_left fun h => hb h.1

theorem mem_kstar_mul (hL : ∀ w ∈ L, begins p w = false) :
    s ∈ (oneByte p)∗ * L ↔ s.dropWhile p ∈ L := by
  induction s with
  | nil =>
    rw [← Language.one_add_self_mul_kstar_eq_kstar, add_mul, one_mul, mul_assoc, Language.mem_add]
    exact or_iff_left nil_notMem_oneByte_mul
  | cons b s ih =>
    rw [← Language.one_add_self_mul_kstar_eq_kstar, add_mul, one_mul, mul_assoc, Language.mem_add,
      cons_mem_oneByte_mul, ih, List.dropWhile_cons]
    split
    · next hb =>
      rw [or_iff_right (cons_notMem hL hb), and_iff_right hb]
    · next hb => exact or_iff_left fun h => hb h.1

/-- The run is as long as it can be if no word behind it goes on with its class. -/
theorem mem_run_mul (hL : ∀ w ∈ L, begins p w = false) :
    s ∈ run p * L ↔ begins p s = true ∧ s.dropWhile p ∈ L := by
  rw [run, mul_assoc]
  rcases s with _ | ⟨b, s⟩
  · constructor
    · intro h
      exact absurd h nil_notMem_oneByte_mul
    · rintro ⟨h, -⟩
      cases h
  · rw [cons_mem_oneByte_mul, mem_kstar_mul hL, begins_cons]
    refine and_congr_right fun hb => ?_
    rw [List.dropWhile_cons_of_pos hb]

theorem mem_run : s ∈ run p ↔ begins p s = true ∧ ∀ b ∈ s, p b = true := by
  have hone : ∀ w ∈ (1 : Language UInt8), begins p w = false := by
    rintro w rfl
    rfl
  rw [← mul_one (run p), mem_run_mul hone, Language.mem_one, List.dropWhile_eq_nil_iff]

/-! ## First bytes of words -/

theorem not_begins_optional (hqp : ∀ b, q b = true → p b = false) :
    ∀ w ∈ 1 + oneByte q, begins p w = false := by
  rintro w (rfl | ⟨b, hb, rfl⟩)
  · rfl
  · exact hqp b hb

theorem not_begins_oneByte_mul (hqp : ∀ b, q b = true → p b = false) :
    ∀ w ∈ oneByte q * L, begins p w = false := by
  intro w hw
  obtain ⟨b, t, rfl, hb, -⟩ := mem_oneByte_mul.mp hw
  exact hqp b hb

theorem not_begins_run_mul (hqp : ∀ b, q b = true → p b = false) :
    ∀ w ∈ run q * L, begins p w = false := by
  rw [run, mul_assoc]
  exact not_begins_oneByte_mul hqp

/-! ## Digits in groups -/

/-- Runs of a class that are joined by single separators. -/
def groups (p : UInt8 → Bool) : Language UInt8 :=
  (run p * oneByte (· == '_'.toUInt8))∗ * run p

theorem groups_eq (p : UInt8 → Bool) :
    groups p = run p + run p * (oneByte (· == '_'.toUInt8) * groups p) := by
  conv_lhs => rw [groups, ← Language.one_add_self_mul_kstar_eq_kstar, add_mul, one_mul]
  rw [groups, mul_assoc, mul_assoc]

theorem singleton_mem_run (hb : p b = true) : [b] ∈ run p :=
  mem_run.mpr ⟨hb, List.forall_mem_singleton.mpr hb⟩

theorem singleton_mem_groups (hb : p b = true) : [b] ∈ groups p := by
  rw [groups_eq]
  exact .inl (singleton_mem_run hb)

/-- A digit in front belongs to the first group. -/
theorem cons_mem_groups (hb : p b = true) (hg : g ∈ groups p) : b :: g ∈ groups p := by
  have hrun {w : List UInt8} (hw : w ∈ run p) : b :: w ∈ run p :=
    mem_run.mpr ⟨hb, List.forall_mem_cons.mpr ⟨hb, (mem_run.mp hw).2⟩⟩
  rw [groups_eq] at hg ⊢
  rcases hg with hg | ⟨w, hw, t, ht, rfl⟩
  · exact .inl (hrun hg)
  · exact .inr (Language.append_mem_mul (hrun hw) ht)

/-- A digit and a separator in front are a group of their own. -/
theorem separator_mem_groups (hb : p b = true) (hg : g ∈ groups p) :
    b :: '_'.toUInt8 :: g ∈ groups p := by
  rw [groups_eq]
  exact .inr (Language.append_mem_mul (singleton_mem_run hb) (cons_mem_oneByte_mul.mpr ⟨rfl, hg⟩))

/-- What the groups take are digits in groups, also with one more digit in front. -/
theorem exists_groups (p : UInt8 → Bool) (s : List UInt8) :
    ∃ g, s = g ++ groupsRest p s ∧ (begins p s = true → g ∈ groups p) ∧
      ∀ b, p b = true → b :: g ∈ groups p := by
  fun_induction groupsRest p s with
  | case1 => exact ⟨[], rfl, nofun, fun b hb => singleton_mem_groups hb⟩
  | case2 b rest hb ih =>
    obtain ⟨g, hrest, -, hcons⟩ := ih
    have hg := hcons b hb
    refine ⟨b :: g, ?_, fun _ => hg, fun c hc => cons_mem_groups hc hg⟩
    rw [List.cons_append, ← hrest]
  | case3 b rest hb hseparator ih =>
    obtain ⟨g, hrest, hbegins, -⟩ := ih
    rw [Bool.and_eq_true, beq_iff_eq] at hseparator
    obtain ⟨rfl, hdigit⟩ := hseparator
    refine ⟨'_'.toUInt8 :: g, ?_, fun h => absurd h hb, fun c hc => ?_⟩
    · rw [List.cons_append, ← hrest]
    · exact separator_mem_groups hc (hbegins hdigit)
  | case4 b rest hb hseparator =>
    exact ⟨[], rfl, fun h => absurd h hb, fun c hc => singleton_mem_groups hc⟩

theorem groupsRest_append_of_all (hg : ∀ b ∈ g, p b = true) (s : List UInt8) :
    groupsRest p (g ++ s) = groupsRest p s := by
  induction g with
  | nil => rfl
  | cons b g ih =>
    rw [List.forall_mem_cons] at hg
    rw [List.cons_append, groupsRest, if_pos hg.1, ih hg.2]

/-- Between digits one separator is passed. -/
theorem groupsRest_separator (hs : begins p s = true) :
    groupsRest p ('_'.toUInt8 :: s) = groupsRest p s := by
  have hpasses : ('_'.toUInt8 == '_'.toUInt8 && s.head?.any p) = true := by
    rw [beq_self_eq_true, Bool.true_and]
    exact hs
  rw [groupsRest, if_pos hpasses, ite_self]

/-- The words that begin with a digit and are passed as a whole. -/
def passed (p : UInt8 → Bool) : Language UInt8 :=
  {w | begins p w = true ∧ ∀ s, groupsRest p (w ++ s) = groupsRest p s}

theorem mem_passed_of_mem_groups {w : List UInt8} (h : w ∈ groups p) : w ∈ passed p := by
  suffices hle : groups p ≤ passed p from hle h
  refine kstar_mul_le ?_ ?_
  · intro w hw
    obtain ⟨hbegins, hall⟩ := mem_run.mp hw
    exact ⟨hbegins, groupsRest_append_of_all hall⟩
  · rintro _ ⟨_, ⟨g, hg, _, ⟨b, hb, rfl⟩, rfl⟩, w, ⟨hbegins, hpassed⟩, rfl⟩
    obtain rfl := eq_of_beq hb
    obtain ⟨hdigit, hall⟩ := mem_run.mp hg
    refine ⟨begins_append (begins_append hdigit _) w, fun s => ?_⟩
    rw [List.append_assoc, List.append_assoc, groupsRest_append_of_all hall, List.singleton_append,
      groupsRest_separator (begins_append hbegins s), hpassed]

theorem isSuffix_groupsRest (h : isSuffix q s = true) : isSuffix q (groupsRest p s) = true := by
  rcases s with _ | ⟨b, _ | ⟨c, s⟩⟩
  · rfl
  · have hnone : (b == '_'.toUInt8 && ([] : List UInt8).head?.any p) = false := Bool.and_false _
    rw [groupsRest, hnone, groupsRest]
    split
    · rfl
    · exact h
  · cases h

/-- A suffix may be a digit of the class as well, which the groups take then. -/
theorem mem_groups_mul : s ∈ groups p * (1 + oneByte q) ↔ isGrouped p q s = true := by
  unfold isGrouped afterGroups?
  constructor
  · rintro ⟨g, hg, e, he, rfl⟩
    obtain ⟨hbegins, hpassed⟩ := mem_passed_of_mem_groups hg
    have hdigit : (g ++ e).head?.any p = true := begins_append hbegins e
    rw [if_pos hdigit, hpassed]
    exact isSuffix_groupsRest (mem_optional.mp he)
  · split
    · next hs =>
      intro h
      obtain ⟨g, hsplit, hg, -⟩ := exists_groups p s
      rw [hsplit]
      exact Language.append_mem_mul (hg hs) (mem_optional.mpr h)
    · intro h
      cases h

end JavaTokens.Cut
