import JavaTokens.Reader

/-!
# Equations of reading

What each primitive reading answers, or which fault it raises, in terms of the reader it starts from.

    (look k).run r   answers the byte at distance k, or is out of bounds          (run_look)
    (skip n).run r   moves by n, or overflows                                     (run_skip)
    (seek p).run r   moves by what lies before the first byte in p or is left     (run_seek)
-/

namespace JavaTokens.ReadM

/-! ## Looking -/

theorem run_look (k : Nat) (r : Reader) :
    (look k).run r =
      match r.ahead[k]? with
      | some b => .ok (b, r)
      | none => .error .outOfBounds := by
  show StateT.run (match r.ahead[k]? with
    | some b => pure b
    | none => throw .outOfBounds : ReadM UInt8) r = _
  cases r.ahead[k]? <;> rfl

theorem run_look_of_getElem? {k : Nat} {r : Reader} {b : UInt8} (h : r.ahead[k]? = some b) :
    (look k).run r = .ok (b, r) := by
  rw [run_look, h]

theorem run_atEnd_of_lt {r : Reader} (h : r.pos < r.stop) : atEnd.run r = .ok (false, r) := by
  show StateT.run (if r.pos < r.stop then pure false else (return (← current) == 0) : ReadM Bool) r
    = _
  rw [if_pos h]
  rfl

theorem run_atEnd_of_le {r : Reader} {b : UInt8} (h : r.stop ≤ r.pos) (hb : r.ahead[0]? = some b) :
    atEnd.run r = .ok (b == 0, r) := by
  show StateT.run (if r.pos < r.stop then pure false else (return (← current) == 0) : ReadM Bool) r
    = _
  rw [if_neg (Nat.not_lt.mpr h), StateT.run_bind]
  show (look 0).run r >>= _ = _
  rw [run_look_of_getElem? hb]
  rfl

/-! ## Moving -/

theorem run_skip (n : Nat) (r : Reader) :
    (skip n).run r = if r.pos + n ≤ maxOffset then .ok ((), r.moved n) else .error .overflow := by
  show StateT.run (if r.pos + n ≤ maxOffset then set (r.moved n) else throw .overflow : ReadM Unit) r
    = _
  split <;> rfl

theorem run_skipChar {r : Reader} {b : UInt8} (h : r.ahead[0]? = some b) :
    skipChar.run r =
      if r.pos + Text.leadWidth b ≤ maxOffset then
        (skip (if r.pos < r.stop then min (Text.leadWidth b) r.left else 1)).run r
      else .error .overflow := by
  unfold skipChar
  rw [StateT.run_bind]
  show (look 0).run r >>= _ = _
  rw [run_look_of_getElem? h]
  show StateT.run (if r.pos + Text.leadWidth b ≤ maxOffset then
      skip (if r.pos < r.stop then min (Text.leadWidth b) r.left else 1)
    else throw .overflow : ReadM Unit) r = _
  split <;> rfl

theorem run_skipWhile (p : UInt8 → Bool) (r : Reader) :
    (skipWhile p).run r =
      match r.ahead.findIdx? (fun b => !p b) with
      | some n => (skip n).run r
      | none => .error .outOfBounds := by
  show StateT.run (match r.ahead.findIdx? (fun b => !p b) with
    | some n => skip n
    | none => throw .outOfBounds : ReadM Unit) r = _
  cases r.ahead.findIdx? (fun b => !p b) <;> rfl

/-! ## Searching -/

theorem run_textLeft (r : Reader) :
    textLeft.run r = if r.pos ≤ r.stop then .ok (r.left, r) else .error .pastEnd := by
  show StateT.run (if r.pos ≤ r.stop then pure r.left else throw .pastEnd : ReadM Nat) r = _
  split <;> rfl

theorem run_seek (p : UInt8 → Bool) (r : Reader) :
    (seek p).run r =
      if r.pos ≤ r.stop then (skip (min (r.ahead.findIdx p) r.left)).run r
      else .error .pastEnd := by
  unfold seek
  rw [StateT.run_bind, run_textLeft]
  split <;> rfl

theorem run_skipComment {r : Reader} (h : r.pos ≤ r.stop) :
    skipComment.run r =
      match commentLength? r.ahead 0 with
      | some n =>
        if n ≤ r.left then (skip n >>= fun _ => (pure true : ReadM Bool)).run r
        else (skip r.left >>= fun _ => (pure false : ReadM Bool)).run r
      | none => (skip r.left >>= fun _ => (pure false : ReadM Bool)).run r := by
  unfold skipComment
  rw [StateT.run_bind, run_textLeft, if_pos h]
  show StateT.run (match commentLength? r.ahead 0 with
    | some n => if n ≤ r.left then _ else _
    | none => _ : ReadM Bool) r = _
  cases commentLength? r.ahead 0 with
  | none => rfl
  | some n =>
    show StateT.run (if n ≤ r.left then _ else _ : ReadM Bool) r = if n ≤ r.left then _ else _
    split <;> rfl

end JavaTokens.ReadM
