import JavaTokens.Reader.Lemmas
import JavaTokens.Proofs.Rest

/-!
# Reading as a function of the rest

A reader before `s` holds the bytes `s`, the padding behind them, and a position that agrees.  What
a reading does from there depends on `s` alone:

    Yields act s a t : before s, act answers a and stops before t

The one way out is a position that is no offset of 32 bits, which takes a lead byte too close to the
end.  In whole texts, and so in all texts that are not cut, no reading faults.
-/

namespace JavaTokens

/-! ## Readers before a rest -/

/-- The bytes from the position on are `s` and at least three zero bytes, and the end of `s` is the
end of the text. -/
structure Reader.Before (r : Reader) (s : List UInt8) : Prop where
  ahead : ∃ n, 3 ≤ n ∧ r.ahead = s ++ List.replicate n 0
  pos_add : r.pos + s.length = r.stop
  stop_le : r.stop ≤ maxOffset

namespace Reader.Before

variable {r : Reader} {s : List UInt8}

theorem left (h : r.Before s) : r.left = s.length := by
  have hp := h.pos_add
  unfold Reader.left
  omega

/-- Within the text and for three bytes behind it there is something to look at. -/
theorem getElem? (h : r.Before s) {k : Nat} (hk : k < s.length + 3) :
    r.ahead[k]? = some (s.getD k 0) := by
  obtain ⟨n, hn, ha⟩ := h.ahead
  rw [ha, List.getD_eq_getElem?_getD]
  by_cases hs : k < s.length
  · rw [List.getElem?_append_left hs, List.getElem?_eq_getElem hs, Option.getD_some]
  · rw [List.getElem?_append_right (by omega), List.getElem?_replicate_of_lt (by omega),
      List.getElem?_eq_none (by omega), Option.getD_none]

theorem moved (h : r.Before s) {n : Nat} (hn : n ≤ s.length) : (r.moved n).Before (s.drop n) where
  ahead := by
    obtain ⟨k, hk, ha⟩ := h.ahead
    exact ⟨k, hk, by rw [Reader.moved, ha, List.drop_append_of_le_length hn]⟩
  pos_add := by
    have hp := h.pos_add
    simp only [Reader.moved, List.length_drop]
    omega
  stop_le := h.stop_le

end Reader.Before

theorem PaddedText.reader_before (t : PaddedText) : t.reader.Before t.bytes where
  ahead := by
    have hle := t.size_add_le_paddedSize
    exact ⟨t.paddedSize - t.size, by omega, rfl⟩
  pos_add := by simp [PaddedText.reader, PaddedText.size]
  stop_le := t.length_le

namespace ReadM

/-! ## What a reading yields -/

structure Yields {α : Type} (act : ReadM α) (s : List UInt8) (a : α) (t : List UInt8) : Prop where
  suffix : t <:+ s
  run : ∀ r : Reader, r.Before s →
    (∃ r' : Reader, act.run r = .ok (a, r') ∧ r'.Before t ∧ r'.stop = r.stop) ∨
      act.run r = .error .overflow ∧ ¬ Text.Whole s

variable {α β : Type} {s t u : List UInt8}

theorem yields_pure (a : α) (s : List UInt8) : Yields (pure a) s a s :=
  ⟨List.suffix_refl s, fun r hr => .inl ⟨r, rfl, hr, rfl⟩⟩

theorem Yields.bind {act : ReadM α} {f : α → ReadM β} {a : α} {b : β} (h : Yields act s a t)
    (hf : Yields (f a) t b u) : Yields (act >>= f) s b u := by
  refine ⟨hf.suffix.trans h.suffix, ?_⟩
  intro r hr
  rw [StateT.run_bind]
  rcases h.run r hr with ⟨r', h₁, hr', hs⟩ | ⟨h₁, hw⟩
  · rw [h₁]
    rcases hf.run r' hr' with ⟨r'', h₂, hr'', hs'⟩ | ⟨h₂, hw⟩
    · exact .inl ⟨r'', h₂, hr'', hs'.trans hs⟩
    · exact .inr ⟨h₂, fun hws => hw (hws.of_suffix h.suffix)⟩
  · rw [h₁]
    exact .inr ⟨rfl, hw⟩

/-- In a whole text a reading has its answer. -/
theorem Yields.run_of_whole {act : ReadM α} {a : α} (h : Yields act s a t) (hs : Text.Whole s)
    {r : Reader} (hr : r.Before s) :
    ∃ r', act.run r = .ok (a, r') ∧ r'.Before t ∧ r'.stop = r.stop := by
  rcases h.run r hr with h' | ⟨-, hw⟩
  · exact h'
  · exact absurd hs hw

/-- A reading without a fault has its answer. -/
theorem Yields.eq_of_run {act : ReadM α} {a b : α} {r r' : Reader} (h : Yields act s a t)
    (hr : r.Before s) (hrun : act.run r = .ok (b, r')) : b = a ∧ r'.Before t ∧ r'.stop = r.stop := by
  rcases h.run r hr with ⟨r'', h', hb⟩ | ⟨h', -⟩
  · rw [h', Except.ok.injEq, Prod.mk.injEq] at hrun
    obtain ⟨rfl, rfl⟩ := hrun
    exact ⟨rfl, hb⟩
  · rw [h'] at hrun
    cases hrun

/-! ## Looking -/

theorem yields_look {k : Nat} (hk : k < s.length + 3) : Yields (look k) s (s.getD k 0) s :=
  ⟨List.suffix_refl s, fun r hr => .inl ⟨r, run_look_of_getElem? (hr.getElem? hk), hr, rfl⟩⟩

theorem yields_current (s : List UInt8) : Yields current s (s.headD 0) s := by
  have h : Yields (look 0) s (s.getD 0 0) s := yields_look (by omega)
  rcases s with _ | ⟨b, s⟩ <;> exact h

/-- The padding begins with a zero byte, so the end of the text is told by the position alone. -/
theorem run_atEnd_of_before {r : Reader} (hr : r.Before s) :
    atEnd.run r = .ok (s.isEmpty, r) := by
  have hp := hr.pos_add
  rcases s with _ | ⟨b, s⟩
  · exact run_atEnd_of_le (by simp at hp; omega) (hr.getElem? (by omega))
  · exact run_atEnd_of_lt (by simp at hp; omega)

theorem yields_atEnd (s : List UInt8) : Yields atEnd s s.isEmpty s :=
  ⟨List.suffix_refl s, fun r hr => .inl ⟨r, run_atEnd_of_before hr, hr, rfl⟩⟩

/-- A reading that is given the number of bytes left is given the length of the rest. -/
theorem yields_left {f : Nat → ReadM β} {b : β} (h : Yields (f s.length) s b t) :
    Yields (get >>= fun r => f r.left) s b t := by
  refine ⟨h.suffix, ?_⟩
  intro r hr
  rw [← hr.left] at h
  exact h.run r hr

theorem yields_char (s : List UInt8) : Yields char? s (Text.charAt? s) s := by
  unfold char?
  refine (yields_atEnd s).bind ?_
  rcases s with _ | ⟨b, s⟩
  · exact yields_pure _ _
  · refine (yields_current _).bind ⟨List.suffix_refl _, fun r hr => .inl ⟨r, ?_, hr, rfl⟩⟩
    obtain ⟨n, -, ha⟩ := hr.ahead
    have hl := hr.left
    show Except.ok (Text.firstChar? (r.ahead.take (min (Text.leadWidth b) r.left)), r) = _
    rw [hl, ha, List.take_append_of_le_length (Nat.min_le_right _ _), ← List.take_eq_take_min]
    rfl

/-! ## Moving -/

theorem yields_skip {n : Nat} (hn : n ≤ s.length) : Yields (skip n) s () (s.drop n) := by
  refine ⟨List.drop_suffix n s, fun r hr => .inl ⟨r.moved n, ?_, hr.moved hn, rfl⟩⟩
  have hp := hr.pos_add
  have hm := hr.stop_le
  rw [run_skip, if_pos (by omega)]

theorem yields_skip_one (b : UInt8) (s : List UInt8) : Yields (skip 1) (b :: s) () s :=
  yields_skip (by simp)

theorem yields_skipChar (h : s ≠ []) : Yields skipChar s () (dropChar s) := by
  refine ⟨dropChar_suffix s, ?_⟩
  intro r hr
  have hp := hr.pos_add
  have hm := hr.stop_le
  obtain ⟨b, s, rfl⟩ := List.exists_cons_of_ne_nil h
  rw [List.length_cons] at hp
  rw [run_skipChar (hr.getElem? (by omega)), hr.left]
  show _ ∨ (if r.pos + Text.leadWidth b ≤ maxOffset then _ else _) = _ ∧ _
  by_cases hw : r.pos + Text.leadWidth b ≤ maxOffset
  · left
    have hlt : r.pos < r.stop := by omega
    simp only [List.getD_cons_zero, if_pos hw, if_pos hlt, run_skip]
    have hn := Nat.min_le_right (Text.leadWidth b) (b :: s).length
    rw [List.length_cons] at hn ⊢
    refine ⟨r.moved (min (Text.leadWidth b) (s.length + 1)), if_pos (by omega), ?_, rfl⟩
    have hdrop : dropChar (b :: s) = (b :: s).drop (min (Text.leadWidth b) (s.length + 1)) :=
      List.drop_eq_drop_min
    rw [hdrop]
    exact hr.moved hn
  · right
    refine ⟨if_neg hw, ?_⟩
    intro hws
    have hwidth := hws.1
    omega

/-- No class of bytes that leaves out zero holds in the padding. -/
theorem yields_skipWhile {p : UInt8 → Bool} (hp : p 0 = false) (s : List UInt8) :
    Yields (skipWhile p) s () (s.dropWhile p) := by
  refine ⟨List.dropWhile_suffix p, ?_⟩
  intro r hr
  obtain ⟨n, hn, ha⟩ := hr.ahead
  have hz : (List.replicate n (0 : UInt8)).findIdx (fun b => !p b) = 0 := by
    obtain ⟨m, rfl⟩ : ∃ m, n = m + 1 := ⟨n - 1, by omega⟩
    rw [List.replicate_succ, List.findIdx_cons, hp]
    rfl
  have hi : r.ahead.findIdx? (fun b => !p b) = some (s.findIdx fun b => !p b) := by
    have hle : s.findIdx (fun b => !p b) ≤ s.length := List.findIdx_le_length
    rw [List.findIdx?_eq_some_iff_findIdx_eq, ha, List.findIdx_append, List.length_append,
      List.length_replicate, hz]
    refine ⟨by omega, ?_⟩
    split <;> omega
  have hy : Yields (skip (s.findIdx fun b => !p b)) s () (s.drop (s.findIdx fun b => !p b)) :=
    yields_skip List.findIdx_le_length
  rw [← List.dropWhile_eq_drop_findIdx_not] at hy
  rw [run_skipWhile, hi]
  exact hy.run r hr

theorem yields_skipOptional {p : UInt8 → Bool} (hp : p 0 = false) (s : List UInt8) :
    Yields (skipOptional p) s () (dropOne p s) := by
  refine (yields_current s).bind ?_
  rcases s with _ | ⟨b, s⟩
  · rw [List.headD_nil, hp]
    exact yields_pure () []
  · show Yields (if p b then skip 1 else pure ()) _ _ (if p b then s else b :: s)
    split
    · exact yields_skip_one b s
    · exact yields_pure () _

theorem yields_skipSome {p : UInt8 → Bool} (hp : p 0 = false) (s : List UInt8) :
    Yields (skipSome p) s (begins p s) (s.dropWhile p) := by
  refine (yields_current s).bind ?_
  rcases s with _ | ⟨b, s⟩
  · rw [List.headD_nil, hp]
    exact yields_pure false []
  · show Yields (if p b then _ else _) _ (p b) _
    split
    · next hb =>
      rw [hb]
      exact (yields_skipWhile hp _).bind (yields_pure _ _)
    · next hb =>
      rw [List.dropWhile_cons_of_neg hb, Bool.eq_false_iff.mpr hb]
      exact yields_pure _ _

theorem yields_skipUpTo {p : UInt8 → Bool} (hp : p 0 = false) (n : Nat) (s : List UInt8) :
    Yields (skipUpTo p n) s () (dropUpTo p n s) := by
  induction n generalizing s with
  | zero => exact yields_pure () s
  | succ n ih =>
    refine (yields_current s).bind ?_
    rcases s with _ | ⟨b, s⟩
    · rw [List.headD_nil, hp]
      exact yields_pure () []
    · show Yields (if p b then _ else _) _ _ (if p b then dropUpTo p n s else b :: s)
      split
      · exact (yields_skip_one b s).bind (ih s)
      · exact yields_pure () _

/-! ## Searching -/

theorem yields_seek (p : UInt8 → Bool) (s : List UInt8) :
    Yields (seek p) s () (s.dropWhile fun b => !p b) := by
  refine ⟨List.dropWhile_suffix _, ?_⟩
  intro r hr
  have hp := hr.pos_add
  obtain ⟨n, -, ha⟩ := hr.ahead
  have hle : s.findIdx p ≤ s.length := List.findIdx_le_length
  have hi : min (r.ahead.findIdx p) r.left = s.findIdx p := by
    rw [hr.left, ha, List.findIdx_append]
    split <;> omega
  have hy : Yields (skip (s.findIdx p)) s () (s.drop (s.findIdx p)) := yields_skip hle
  rw [show s.drop (s.findIdx p) = s.dropWhile fun b => !p b by
    simp [List.dropWhile_eq_drop_findIdx_not]] at hy
  rw [run_seek, if_pos (by omega), hi]
  exact hy.run r hr

theorem yields_seekLineEnd (s : List UInt8) :
    Yields seekLineEnd s () (s.dropWhile fun b => !Ascii.isLineEnd b) :=
  yields_seek _ s

theorem yields_seekStringStop (s : List UInt8) :
    Yields seekStringStop s ((s.dropWhile fun b => !Ascii.isStringStop b).headD 0)
      (s.dropWhile fun b => !Ascii.isStringStop b) :=
  (yields_seek _ s).bind (yields_current _)

theorem commentLength?_replicate (n k : Nat) :
    commentLength? (List.replicate n (0 : UInt8)) k = none := by
  induction n generalizing k with
  | zero => rfl
  | succ n ih =>
    rcases n with _ | n
    · rfl
    · exact ih (k + 1)

/-- The end of a comment is found in the text or not at all. -/
theorem commentLength?_append_replicate (s : List UInt8) (n k : Nat) :
    commentLength? (s ++ List.replicate n 0) k =
      (behindComment? s).map fun t => k + (s.length - t.length) := by
  fun_induction behindComment? s generalizing k with
  | case1 a b s h =>
    rw [List.cons_append, List.cons_append, commentLength?, if_pos h, Option.map_some]
    simp only [List.length_cons]
    congr 2
    omega
  | case2 a b s h ih =>
    rw [List.cons_append, List.cons_append, commentLength?, if_neg h, ← List.cons_append, ih]
    cases ht : behindComment? (b :: s) with
    | none => rfl
    | some t =>
      have hl := (behindComment?_suffix ht).length_le
      simp only [Option.map_some, List.length_cons] at hl ⊢
      congr 1
      omega
  | case3 s h =>
    rcases s with _ | ⟨a, _ | ⟨b, s⟩⟩
    · exact commentLength?_replicate n k
    · rcases n with _ | n
      · rfl
      · -- no slash is found in the padding
        have h0 : (a == '*'.toUInt8 && (0 : UInt8) == '/'.toUInt8) = false :=
          Bool.and_false _
        rw [List.replicate_succ, List.cons_append, List.nil_append, commentLength?, h0]
        exact commentLength?_replicate (n + 1) (k + 1)
    · exact absurd rfl (h a b s)

theorem yields_skipComment (s : List UInt8) :
    Yields skipComment s (behindComment? s).isSome ((behindComment? s).getD []) := by
  have hfound (r : Reader) (hr : r.Before s) : commentLength? r.ahead 0 =
      (behindComment? s).map fun t => s.length - t.length := by
    obtain ⟨n, -, ha⟩ := hr.ahead
    rw [ha, commentLength?_append_replicate]
    simp only [Nat.zero_add]
  cases ht : behindComment? s with
  | none =>
    have hy : Yields (skip s.length >>= fun _ => (pure false : ReadM Bool)) s false [] := by
      refine (yields_skip (Nat.le_refl _)).bind ?_
      rw [List.drop_length]
      exact yields_pure false []
    refine ⟨List.nil_suffix, ?_⟩
    intro r hr
    have hp := hr.pos_add
    rw [run_skipComment (by omega), hfound r hr, ht, hr.left]
    exact hy.run r hr
  | some t =>
    have hs := behindComment?_suffix ht
    have hy : Yields (skip (s.length - t.length) >>= fun _ => (pure true : ReadM Bool)) s true t := by
      refine (yields_skip (Nat.sub_le _ _)).bind ?_
      rw [← List.suffix_iff_eq_drop.mp hs]
      exact yields_pure true t
    refine ⟨hs, ?_⟩
    intro r hr
    have hp := hr.pos_add
    rw [run_skipComment (by omega), hfound r hr, ht, hr.left]
    simp only [Option.map_some, if_pos (Nat.sub_le s.length t.length)]
    exact hy.run r hr

end ReadM

end JavaTokens
