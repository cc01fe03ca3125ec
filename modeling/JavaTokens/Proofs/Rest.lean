import JavaTokens.Text.Ascii
import JavaTokens.Reader
import JavaTokens.Proofs.Encoding

/-!
# Rests of texts

What reading does, said of the bytes that are left and without positions or padding.  A step takes
some bytes from the front and leaves the rest:

    Takes p s t : t is left of s behind bytes of the class p
    LocalRest g : g either makes nothing of what stands behind or takes some of it

The second one is what lets a rest be exchanged: where `g` takes nothing of `v`, it does the same
with another text in its place.
-/

namespace JavaTokens

/-! ## Steps -/

/-- Whether the first byte, if there is one, is in the class. -/
def begins (p : UInt8 → Bool) (s : List UInt8) : Bool := s.head?.any p

@[simp] theorem begins_nil (p : UInt8 → Bool) : begins p [] = false := rfl

@[simp] theorem begins_cons (p : UInt8 → Bool) (b : UInt8) (s : List UInt8) :
    begins p (b :: s) = p b := rfl

theorem exists_cons_of_begins {p : UInt8 → Bool} {s : List UInt8} (h : begins p s = true) :
    ∃ b t, s = b :: t ∧ p b = true := by
  rcases s with _ | ⟨b, t⟩
  · cases h
  · exact ⟨b, t, rfl, h⟩

theorem begins_of_all {p : UInt8 → Bool} {s : List UInt8} (h : ∀ b ∈ s, p b = true)
    (hs : s ≠ []) : begins p s = true := by
  obtain ⟨b, s, rfl⟩ := List.exists_cons_of_ne_nil hs
  exact h b List.mem_cons_self

theorem begins_append {p : UInt8 → Bool} {s : List UInt8} (h : begins p s = true)
    (t : List UInt8) : begins p (s ++ t) = true := by
  obtain ⟨b, s, rfl, hb⟩ := exists_cons_of_begins h
  exact hb

theorem dropWhile_of_begins {p : UInt8 → Bool} {s : List UInt8} (h : begins p s = true) :
    s.dropWhile p = (s.drop 1).dropWhile p := by
  obtain ⟨b, t, rfl, hb⟩ := exists_cons_of_begins h
  rw [List.dropWhile_cons_of_pos hb]
  rfl

theorem dropWhile_of_not_begins {p : UInt8 → Bool} {s : List UInt8} (h : begins p s = false) :
    s.dropWhile p = s := by
  rcases s with _ | ⟨b, s⟩
  · rfl
  · exact List.dropWhile_cons_of_neg (by simpa using h)

theorem dropWhile_append_of_all {p : UInt8 → Bool} {u t : List UInt8} (hu : ∀ b ∈ u, p b = true)
    (ht : begins p t = false) : (u ++ t).dropWhile p = t := by
  rw [List.dropWhile_append_of_pos hu, dropWhile_of_not_begins ht]

theorem begins_dropWhile (p : UInt8 → Bool) (s : List UInt8) :
    begins p (s.dropWhile p) = false := by
  induction s with
  | nil => rfl
  | cons b s ih =>
    rw [List.dropWhile_cons]
    split
    · exact ih
    · next hb => exact Bool.eq_false_iff.mpr hb

/-- What is left behind one byte of the class, if it stands there. -/
def dropOne (p : UInt8 → Bool) (s : List UInt8) : List UInt8 :=
  if begins p s then s.drop 1 else s

/-- What is left behind at most `n` bytes of the class. -/
def dropUpTo (p : UInt8 → Bool) : Nat → List UInt8 → List UInt8
  | 0, s => s
  | n + 1, s => if begins p s then dropUpTo p n (s.drop 1) else s

/-- What is left behind the width that the first byte announces. -/
def dropChar (s : List UInt8) : List UInt8 := s.drop (Text.leadWidth (s.headD 0))

/-- What is left behind the first `*/`, if there is one. -/
def behindComment? : List UInt8 → Option (List UInt8)
  | a :: b :: s =>
    if a == '*'.toUInt8 && b == '/'.toUInt8 then some s else behindComment? (b :: s)
  | _ => none

theorem length_dropChar_lt {s : List UInt8} (h : s ≠ []) : (dropChar s).length < s.length := by
  have hw := Text.leadWidth_pos (s.headD 0)
  have hs := List.length_pos_iff.mpr h
  rw [dropChar, List.length_drop]
  omega

/-- The mark that is found is `*/`. -/
theorem eq_of_behindComment? {s t : List UInt8} (h : behindComment? s = some t) :
    ∃ u, s = u ++ '*'.toUInt8 :: '/'.toUInt8 :: t := by
  fun_induction behindComment? s with
  | case1 a b s hab =>
    cases h
    rw [Bool.and_eq_true] at hab
    rw [eq_of_beq hab.1, eq_of_beq hab.2]
    exact ⟨[], rfl⟩
  | case2 a b s hab ih =>
    obtain ⟨u, hu⟩ := ih h
    exact ⟨a :: u, by rw [hu, List.cons_append]⟩
  | case3 s hs => cases h

theorem behindComment?_suffix {s t : List UInt8} (h : behindComment? s = some t) :
    t <:+ s := by
  obtain ⟨u, rfl⟩ := eq_of_behindComment? h
  exact (List.suffix_append_of_suffix ((List.suffix_cons _ t).trans (List.suffix_cons _ _)))

theorem length_of_behindComment? {s t : List UInt8} (h : behindComment? s = some t) :
    t.length + 2 ≤ s.length := by
  obtain ⟨u, rfl⟩ := eq_of_behindComment? h
  rw [List.length_append, List.length_cons, List.length_cons]
  omega

theorem dropChar_suffix (s : List UInt8) : dropChar s <:+ s := List.drop_suffix _ _

theorem isUtf8_dropChar {s : List UInt8} (h : Text.IsUtf8 s) : Text.IsUtf8 (dropChar s) :=
  h.drop_leadWidth

theorem dropChar_append (c : Char) (t : List UInt8) :
    dropChar (String.utf8EncodeChar c ++ t) = t := by
  obtain ⟨b, r, hc, -, hw, -⟩ := Text.utf8EncodeChar_shape c
  rw [dropChar, hc, List.cons_append, List.headD_cons, hw, List.drop_succ_cons, List.drop_left]

/-! ## What a step takes -/

/-- Some bytes of the class, and what is left behind them. -/
def Takes (p : UInt8 → Bool) (s t : List UInt8) : Prop := ∃ u, s = u ++ t ∧ ∀ b ∈ u, p b = true

namespace Takes

variable {p q : UInt8 → Bool} {s t r : List UInt8}

theorem refl (p : UInt8 → Bool) (s : List UInt8) : Takes p s s := ⟨[], rfl, by simp⟩

theorem cons {b : UInt8} (hb : p b = true) (h : Takes p s t) : Takes p (b :: s) t := by
  obtain ⟨u, rfl, hu⟩ := h
  exact ⟨b :: u, rfl, List.forall_mem_cons.mpr ⟨hb, hu⟩⟩

theorem trans (h₁ : Takes p s t) (h₂ : Takes p t r) : Takes p s r := by
  obtain ⟨u, rfl, hu⟩ := h₁
  obtain ⟨v, rfl, hv⟩ := h₂
  exact ⟨u ++ v, by simp, fun b hb => (List.mem_append.mp hb).elim (hu b) (hv b)⟩

theorem mono (h : Takes p s t) (hpq : ∀ b, p b = true → q b = true) : Takes q s t := by
  obtain ⟨u, hs, hu⟩ := h
  exact ⟨u, hs, fun b hb => hpq b (hu b hb)⟩

theorem suffix (h : Takes p s t) : t <:+ s := by
  obtain ⟨u, hs, -⟩ := h
  exact ⟨u, hs.symm⟩

theorem length_le (h : Takes p s t) : t.length ≤ s.length := h.suffix.length_le

/-- Taking ASCII bytes leads from one boundary of characters to another. -/
theorem isUtf8 (h : Takes p s t) (hp : ∀ b, p b = true → b < 0x80) (hs : Text.IsUtf8 s) :
    Text.IsUtf8 t := by
  obtain ⟨u, rfl, hu⟩ := h
  induction u with
  | nil => exact hs
  | cons b u ih =>
    rw [List.forall_mem_cons] at hu
    exact ih hu.2 (hs.tail_of_ascii (hp b hu.1))

end Takes

theorem takes_dropWhile {p q : UInt8 → Bool} (h : ∀ b, q b = true → p b = true) (s : List UInt8) :
    Takes p s (s.dropWhile q) := by
  induction s with
  | nil => exact .refl p []
  | cons b s ih =>
    rw [List.dropWhile_cons]
    split
    · next hb => exact .cons (h b hb) ih
    · exact .refl p _

theorem takes_drop_one {p : UInt8 → Bool} {s : List UInt8} (h : begins p s = true) :
    Takes p s (s.drop 1) := by
  obtain ⟨b, t, rfl, hb⟩ := exists_cons_of_begins h
  exact .cons hb (.refl p t)

theorem takes_dropOne {p q : UInt8 → Bool} (h : ∀ b, q b = true → p b = true) (s : List UInt8) :
    Takes p s (dropOne q s) := by
  unfold dropOne
  split
  · next hs => exact (takes_drop_one hs).mono h
  · exact .refl p s

theorem takes_dropUpTo {p q : UInt8 → Bool} (h : ∀ b, q b = true → p b = true) (n : Nat)
    (s : List UInt8) : Takes p s (dropUpTo q n s) := by
  induction n generalizing s with
  | zero => exact .refl p s
  | succ n ih =>
    unfold dropUpTo
    split
    · next hs => exact ((takes_drop_one hs).mono h).trans (ih _)
    · exact .refl p s

/-- The bytes that stand in characters beyond ASCII. -/
def isBeyondAscii (b : UInt8) : Bool := 0x80 ≤ b

theorem isBeyondAscii_iff {b : UInt8} : isBeyondAscii b = true ↔ 0x80 ≤ b.toNat := by
  rw [isBeyondAscii, decide_eq_true_eq]
  exact Iff.rfl

/-- The bytes of a character beyond ASCII are all beyond ASCII. -/
theorem takes_dropChar {s : List UInt8} {c : Char} (h : Text.charAt? s = some c)
    (hs : begins isBeyondAscii s = true) : Takes isBeyondAscii s (dropChar s) := by
  obtain ⟨t, rfl⟩ := Text.charAt?_eq_some_iff.mp h
  rw [dropChar_append]
  refine ⟨_, rfl, ?_⟩
  intro b hb
  obtain ⟨a, r, hc, -, -, hr⟩ := Text.utf8EncodeChar_shape c
  rw [hc] at hs hb
  rcases List.mem_cons.mp hb with rfl | hb
  · exact hs
  · have hcont := hr b hb
    rw [Text.isContinuation, Bool.and_eq_true] at hcont
    exact hcont.1

/-! ## Within a line -/

/-- The bytes that do not end a line. -/
def isInLine (b : UInt8) : Bool := !Ascii.isLineEnd b

theorem isInLine_iff {b : UInt8} : isInLine b = true ↔ b.toNat ≠ 10 ∧ b.toNat ≠ 13 := by
  rw [isInLine, Bool.not_eq_true', Bool.eq_false_iff, Ne, Ascii.isLineEnd_iff]
  omega

theorem ascii_isInLine_iff {b : UInt8} :
    (b < 0x80 ∧ isInLine b = true) ↔ b.toNat < 0x80 ∧ b.toNat ≠ 10 ∧ b.toNat ≠ 13 := by
  rw [isInLine_iff]
  exact Iff.rfl

/-- No line end is taken, and what is left begins at a boundary of characters. -/
structure InLine (s t : List UInt8) : Prop where
  takes : Takes isInLine s t
  isUtf8 : Text.IsUtf8 t

namespace InLine

variable {s t r : List UInt8}

theorem refl (hs : Text.IsUtf8 s) : InLine s s := ⟨.refl _ s, hs⟩

theorem trans (h₁ : InLine s t) (h₂ : InLine t r) : InLine s r :=
  ⟨h₁.takes.trans h₂.takes, h₂.isUtf8⟩

theorem cons {b : UInt8} (hb : isInLine b = true) (h : InLine s t) : InLine (b :: s) t :=
  ⟨.cons hb h.takes, h.isUtf8⟩

theorem of_takes {p : UInt8 → Bool} (h : Takes p s t)
    (hp : ∀ b, p b = true → b < 0x80 ∧ isInLine b = true) (hs : Text.IsUtf8 s) : InLine s t :=
  ⟨h.mono fun b hb => (hp b hb).2, h.isUtf8 (fun b hb => (hp b hb).1) hs⟩

end InLine

theorem isContinuation_of_isLineEnd {b : UInt8} (h : Ascii.isLineEnd b = true) :
    Text.isContinuation b = false := by
  rw [Ascii.isLineEnd_iff] at h
  rw [Bool.eq_false_iff, Ne, Text.isContinuation_iff]
  omega

theorem isInLine_of_isBeyondAscii (b : UInt8) (h : isBeyondAscii b = true) :
    isInLine b = true := by
  rw [isBeyondAscii_iff] at h
  rw [isInLine_iff]
  omega

/-- A line end is one character. -/
theorem inLine_dropChar {s : List UInt8} (hs : Text.IsUtf8 s)
    (h : begins Ascii.isLineEnd s = false) : InLine s (dropChar s) := by
  refine ⟨?_, isUtf8_dropChar hs⟩
  obtain ⟨cs, rfl⟩ := hs
  rcases cs with _ | ⟨c, cs⟩
  · exact .refl _ []
  · obtain ⟨b, r, hc, -⟩ := Text.utf8EncodeChar_shape c
    rw [List.flatMap_cons] at h ⊢
    by_cases hb : b < 0x80
    · obtain rfl := Text.utf8EncodeChar_of_ascii hc hb
      rw [hc] at h
      rw [dropChar_append, hc]
      exact .cons (by simpa [isInLine] using h) (.refl _ _)
    · refine (takes_dropChar (Text.charAt?_append c _) ?_).mono isInLine_of_isBeyondAscii
      simpa [hc, isBeyondAscii] using hb

/-! ## Indifference to what is left -/

/-- Of a text some is taken or nothing. -/
theorem eq_or_length_lt_of_suffix {s t : List UInt8} (h : t <:+ s) :
    t = s ∨ t.length < s.length := by
  rcases Nat.lt_or_ge t.length s.length with hlt | hge
  · exact .inr hlt
  · exact .inl (h.eq_of_length_le hge)

/-- What stands behind is left as it is, unless everything before it is taken and some of it too. -/
structure LocalRest (g : List UInt8 → List UInt8) : Prop where
  length_le : ∀ s, (g s).length ≤ s.length
  append : ∀ u v, g (u ++ v) = g u ++ v ∨ g u = [] ∧ (g (u ++ v)).length < v.length

namespace LocalRest

theorem nil {g : List UInt8 → List UInt8} (hg : LocalRest g) : g [] = [] :=
  List.eq_nil_of_length_eq_zero (Nat.le_zero.mp (hg.length_le []))

/-- Where something is left, nothing behind it makes a difference. -/
theorem append_of_ne_nil {g : List UInt8 → List UInt8} (hg : LocalRest g) {u : List UInt8}
    (h : g u ≠ []) (v : List UInt8) : g (u ++ v) = g u ++ v := by
  rcases hg.append u v with h' | ⟨h', -⟩
  · exact h'
  · exact absurd h' h

theorem comp {f g : List UInt8 → List UInt8} (hf : LocalRest f) (hg : LocalRest g) :
    LocalRest fun s => f (g s) where
  length_le s := Nat.le_trans (hf.length_le _) (hg.length_le s)
  append u v := by
    rcases hg.append u v with h | ⟨hu, h⟩
    · rw [h]
      exact hf.append (g u) v
    · rw [hu]
      exact .inr ⟨hf.nil, Nat.lt_of_le_of_lt (hf.length_le _) h⟩

/-- A step that leaves a rest of its text is tested on texts that do not begin behind the cut. -/
theorem of_suffix {g : List UInt8 → List UInt8} (hs : ∀ s, g s <:+ s)
    (h : ∀ b u v, g (b :: u ++ v) = g (b :: u) ++ v ∨
      g (b :: u) = [] ∧ (g (b :: u ++ v)).length < v.length) : LocalRest g where
  length_le s := (hs s).length_le
  append u v := by
    rcases u with _ | ⟨b, u⟩
    · have h0 : g [] = [] := List.suffix_nil.mp (hs [])
      rw [h0]
      rcases eq_or_length_lt_of_suffix (hs v) with heq | hlt
      · exact .inl heq
      · exact .inr ⟨rfl, hlt⟩
    · exact h b u v

/-- A choice by the first byte, where that byte is taken if it is in the class. -/
theorem branch {p : UInt8 → Bool} {f g : List UInt8 → List UInt8} (hf : LocalRest f)
    (hg : LocalRest g) : LocalRest fun s => if begins p s then f (s.drop 1) else g s where
  length_le s := by
    split
    · exact Nat.le_trans (hf.length_le _) (by simp)
    · exact hg.length_le s
  append u v := by
    rcases u with _ | ⟨b, u⟩
    · simp only [List.nil_append, begins_nil, Bool.false_eq_true, if_false]
      split
      · next h =>
        obtain ⟨b, t, rfl, -⟩ := exists_cons_of_begins h
        exact .inr ⟨hg.nil, Nat.lt_of_le_of_lt (hf.length_le t) (by simp)⟩
      · exact hg.append [] v
    · simp only [List.cons_append, begins_cons, List.drop_succ_cons, List.drop_zero]
      split
      · exact hf.append u v
      · exact hg.append (b :: u) v

end LocalRest

theorem localRest_id : LocalRest fun s => s := ⟨fun _ => Nat.le_refl _, fun _ _ => .inl rfl⟩

theorem localRest_drop (n : Nat) : LocalRest fun s => s.drop n := by
  refine .of_suffix (fun s => List.drop_suffix n s) ?_
  intro b u v
  by_cases h : n ≤ (b :: u).length
  · exact .inl (List.drop_append_of_le_length h)
  · have hu : (b :: u).drop n = [] := List.drop_eq_nil_of_le (by omega)
    rcases v with _ | ⟨c, v⟩
    · exact .inl (by simp)
    · refine .inr ⟨hu, ?_⟩
      rw [List.length_drop, List.length_append, List.length_cons (a := c)]
      omega

theorem localRest_dropWhile (p : UInt8 → Bool) : LocalRest fun s => s.dropWhile p where
  length_le s := (List.dropWhile_suffix p).length_le
  append u v := by
    rw [List.dropWhile_append]
    split
    · next h =>
      rw [List.isEmpty_iff] at h
      rw [h, List.nil_append]
      rcases v with _ | ⟨b, v⟩
      · exact .inl rfl
      · rw [List.dropWhile_cons]
        split
        · exact .inr ⟨rfl, Nat.lt_succ_of_le (List.dropWhile_suffix p).length_le⟩
        · exact .inl rfl
    · exact .inl rfl

theorem localRest_dropOne (p : UInt8 → Bool) : LocalRest (dropOne p) :=
  localRest_id.branch localRest_id

theorem localRest_dropUpTo (p : UInt8 → Bool) (n : Nat) : LocalRest (dropUpTo p n) := by
  induction n with
  | zero => exact localRest_id
  | succ n ih => exact ih.branch localRest_id

theorem localRest_dropChar : LocalRest dropChar :=
  .of_suffix dropChar_suffix fun b u v => (localRest_drop (Text.leadWidth b)).append (b :: u) v

end JavaTokens
