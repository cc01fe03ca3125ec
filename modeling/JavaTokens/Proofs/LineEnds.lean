import JavaTokens.Proofs.Lines

/-!
# Line ends on the way to an offset

The line of an offset is told without a table: it is one more than the number of line ends on the
way to it.  Counted so, lines go on over the parts of a text, unless two of them part a pair of a
carriage return and a line feed.

    lineOf offset = endsBefore offset + 1                             (lineOf_eq_endsBefore)
    the count goes on behind a part of the text                       (endsBefore_append)
-/

namespace JavaTokens.LineTable

variable {w t s : List UInt8}

/-- The number of lines that end on the way from the beginning of a text to an offset. -/
def endsBefore : List UInt8 → (offset : Nat) → Nat
  | _, 0 => 0
  | [], _ + 1 => 0
  | b :: rest, offset + 1 =>
    if endsLine b rest then endsBefore rest offset + 1 else endsBefore rest offset

@[simp] theorem endsBefore_zero (s : List UInt8) : endsBefore s 0 = 0 := by
  rw [endsBefore]

@[simp] theorem endsBefore_nil (offset : Nat) : endsBefore [] offset = 0 := by
  cases offset <;> rfl

/-! ## Lines by their ends -/

theorem countP_laterStarts (s : List UInt8) (offset n : Nat) :
    (laterStarts s offset).countP (fun start => start ≤ offset + n) = endsBefore s n := by
  induction s generalizing offset n with
  | nil => exact (endsBefore_nil n).symm
  | cons b rest ih =>
    cases n with
    | zero =>
      rw [endsBefore_zero, List.countP_eq_zero]
      intro start hstart
      have hlt := (mem_laterStarts hstart).1
      rw [decide_eq_true_eq]
      omega
    | succ n =>
      have hnext := ih (offset + 1) n
      rw [show offset + 1 + n = offset + (n + 1) by omega] at hnext
      rw [laterStarts, endsBefore]
      split
      · rw [List.countP_cons_of_pos (by simp), hnext]
      · exact hnext

/-- The line of an offset is told by the line ends before it. -/
theorem lineOf_eq_endsBefore (h : s.length ≤ maxOffset) (offset : Nat) :
    (ofBytes s).lineOf offset = endsBefore s offset + 1 := by
  have hcount := countP_laterStarts s 0 offset
  rw [Nat.zero_add] at hcount
  rw [lineOf_eq h, starts_ofBytes h, List.countP_cons_of_pos (by simp), hcount]

/-- Bytes at the offset and behind it do not matter, but for the first of them. -/
theorem endsBefore_take (s : List UInt8) {offset n : Nat} (h : offset < n) :
    endsBefore (s.take n) offset = endsBefore s offset := by
  induction s generalizing offset n with
  | nil => rw [List.take_nil]
  | cons b rest ih =>
    obtain ⟨n, rfl⟩ : ∃ m, n = m + 1 := ⟨n - 1, by omega⟩
    cases offset with
    | zero => rw [endsBefore_zero, endsBefore_zero]
    | succ offset =>
      obtain ⟨n, rfl⟩ : ∃ m, n = m + 1 := ⟨n - 1, by omega⟩
      have hends : endsLine b (rest.take (n + 1)) = endsLine b rest := by
        rcases rest with _ | ⟨c, rest⟩ <;> rfl
      rw [List.take_succ_cons, endsBefore, endsBefore, hends, ih (by omega)]

/-! ## Parts of a text -/

/-- Between two parts of a text stands a pair of a carriage return and a line feed. -/
def PartsPair (w t : List UInt8) : Prop :=
  w.getLast? = some '\r'.toUInt8 ∧ t.head? = some '\n'.toUInt8

theorem not_partsPair_tail {b : UInt8} (h : ¬ PartsPair (b :: w) t) : ¬ PartsPair w t := by
  rintro ⟨hlast, hhead⟩
  rcases w with _ | ⟨c, w⟩
  · cases hlast
  · exact h ⟨by rwa [List.getLast?_cons_cons], hhead⟩

theorem endsLine_append {b : UInt8} (h : ¬ PartsPair (b :: w) t) :
    endsLine b (w ++ t) = endsLine b w := by
  rcases w with _ | ⟨c, w⟩
  · rw [List.nil_append, endsLine, endsLine]
    by_cases hb : b = '\r'.toUInt8
    · have hhead : t.head? ≠ some '\n'.toUInt8 := fun hhead => h ⟨congrArg some hb, hhead⟩
      rw [bne_iff_ne.mpr hhead]
      rfl
    · rw [beq_eq_false_iff_ne.mpr hb, Bool.false_and, Bool.false_and]
  · rfl

/-- Behind a part of the text, the count goes on from the number of lines that end in it. -/
theorem endsBefore_append (h : ¬ PartsPair w t) (offset : Nat) :
    endsBefore (w ++ t) (w.length + offset) = lineEnds w + endsBefore t offset := by
  induction w with
  | nil =>
    rw [List.nil_append, List.length_nil, Nat.zero_add]
    exact (Nat.zero_add _).symm
  | cons b w ih =>
    rw [List.cons_append, List.length_cons, Nat.add_right_comm, endsBefore, lineEnds,
      endsLine_append h, ih (not_partsPair_tail h)]
    split
    · omega
    · rfl

end JavaTokens.LineTable
