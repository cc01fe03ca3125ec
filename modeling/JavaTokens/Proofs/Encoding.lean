import JavaTokens.Text.Utf8

/-!
# Characters in byte lists

What the bytes of a text look like from any place inside it.  A character begins with a lead byte
that announces its width, and the bytes behind it continue it; a place is a boundary of characters
exactly if no continuing byte stands there.

    charAt? s = some c ↔ s begins with the bytes of c                 (charAt?_eq_some_iff)
    IsUtf8 (u ++ t) → no continuing byte begins t → IsUtf8 t          (IsUtf8.of_append)
    IsUtf8 s → Whole s                                                (IsUtf8.whole)
-/

namespace JavaTokens.Text

/-! ## Bytes of one character -/

/-- The bytes that stand in a character after its first. -/
def isContinuation (b : UInt8) : Bool := 0x80 ≤ b && b ≤ 0xBF

theorem isContinuation_iff {b : UInt8} :
    isContinuation b = true ↔ 0x80 ≤ b.toNat ∧ b.toNat ≤ 0xBF := by
  rw [isContinuation, Bool.and_eq_true, decide_eq_true_eq, decide_eq_true_eq]
  exact Iff.rfl

theorem isContinuation_ofNat {v : Nat} (h : v < 256) :
    isContinuation (UInt8.ofNat v) = decide (0x80 ≤ v ∧ v ≤ 0xBF) := by
  rw [Bool.eq_iff_iff, isContinuation_iff, UInt8.toNat_ofNat_of_lt' h, decide_eq_true_eq]

theorem isContinuation_low (v : Nat) : isContinuation (UInt8.ofNat (v % 0x40 + 0x80)) = true := by
  rw [isContinuation_ofNat (by omega), decide_eq_true_eq]
  omega

theorem leadWidth_ofNat {v : Nat} (h : v < 256) :
    leadWidth (UInt8.ofNat v) =
      if 0xF0 ≤ v ∧ v ≤ 0xF7 then 4
      else if 0xE0 ≤ v ∧ v ≤ 0xEF then 3
      else if 0xC0 ≤ v ∧ v ≤ 0xDF then 2
      else 1 := by
  simp only [leadWidth, UInt8.le_iff_toNat_le, UInt8.toNat_ofNat', UInt8.reduceToNat,
    Nat.reducePow, Nat.mod_eq_of_lt h, Bool.and_eq_true, decide_eq_true_eq]

theorem isContinuation_of_ascii {b : UInt8} (h : b < 0x80) : isContinuation b = false := by
  have hlt : b.toNat < 0x80 := h
  rw [Bool.eq_false_iff]
  intro hcont
  rw [isContinuation_iff] at hcont
  omega

theorem leadWidth_of_ascii {b : UInt8} (h : b < 0x80) : leadWidth b = 1 := by
  rw [← UInt8.ofNat_toNat (x := b), leadWidth_ofNat b.toNat_lt]
  simp only [UInt8.lt_iff_toNat_lt, UInt8.reduceToNat] at h
  repeat' split
  all_goals omega

theorem leadWidth_of_isContinuation {b : UInt8} (h : isContinuation b = true) :
    leadWidth b = 1 := by
  rw [isContinuation_iff] at h
  rw [← UInt8.ofNat_toNat (x := b), leadWidth_ofNat b.toNat_lt]
  repeat' split
  all_goals omega

theorem val_le (c : Char) : c.val.toNat ≤ 0x10FFFF := by
  have hvalid := c.valid
  simp only [UInt32.isValidChar, Nat.isValidChar] at hvalid
  omega

/-- A lead byte, and as many continuing bytes as it announces. -/
theorem utf8EncodeChar_shape (c : Char) : ∃ b t, String.utf8EncodeChar c = b :: t ∧
    isContinuation b = false ∧ leadWidth b = t.length + 1 ∧ ∀ x ∈ t, isContinuation x = true := by
  have hv := val_le c
  -- one case for each width, in which the lead byte lies in the range of that width
  fun_cases String.utf8EncodeChar c with
  | case1 v h =>
    refine ⟨_, _, rfl, ?_, ?_, by simp⟩
    · rw [isContinuation_ofNat (by omega), decide_eq_false_iff_not]
      omega
    · rw [leadWidth_ofNat (by omega), if_neg (by omega), if_neg (by omega), if_neg (by omega)]
      rfl
  | case2 v h₁ h₂ =>
    refine ⟨_, _, rfl, ?_, ?_, ?_⟩
    · rw [isContinuation_ofNat (by omega), decide_eq_false_iff_not]
      omega
    · rw [leadWidth_ofNat (by omega), if_neg (by omega), if_neg (by omega), if_pos (by omega)]
      rfl
    · simp only [List.forall_mem_cons, isContinuation_low, true_and]
      exact nofun
  | case3 v h₁ h₂ h₃ =>
    refine ⟨_, _, rfl, ?_, ?_, ?_⟩
    · rw [isContinuation_ofNat (by omega), decide_eq_false_iff_not]
      omega
    · rw [leadWidth_ofNat (by omega), if_neg (by omega), if_pos (by omega)]
      rfl
    · simp only [List.forall_mem_cons, isContinuation_low, true_and]
      exact nofun
  | case4 v h₁ h₂ h₃ =>
    refine ⟨_, _, rfl, ?_, ?_, ?_⟩
    · rw [isContinuation_ofNat (by omega), decide_eq_false_iff_not]
      omega
    · rw [leadWidth_ofNat (by omega), if_pos (by omega)]
      rfl
    · simp only [List.forall_mem_cons, isContinuation_low, true_and]
      exact nofun

theorem utf8EncodeChar_ne_nil (c : Char) : String.utf8EncodeChar c ≠ [] := by
  obtain ⟨b, t, h, -⟩ := utf8EncodeChar_shape c
  simp [h]

theorem eq_of_utf8EncodeChar_eq {c d : Char}
    (h : String.utf8EncodeChar c = String.utf8EncodeChar d) : c = d := by
  have hc := firstChar?_utf8EncodeChar c
  rw [h, firstChar?_utf8EncodeChar, Option.some.injEq] at hc
  exact hc.symm

/-- A character that begins with an ASCII byte is that byte. -/
theorem utf8EncodeChar_of_ascii {c : Char} {b : UInt8} {t : List UInt8}
    (h : String.utf8EncodeChar c = b :: t) (hb : b < 0x80) : t = [] := by
  obtain ⟨b', t', h', -, hw, -⟩ := utf8EncodeChar_shape c
  rw [h, List.cons.injEq] at h'
  obtain ⟨rfl, rfl⟩ := h'
  rw [leadWidth_of_ascii hb] at hw
  exact List.eq_nil_of_length_eq_zero (by omega)

/-- Behind a first part of the bytes of a character stands a continuing byte. -/
theorem isContinuation_of_split {c : Char} {u w : List UInt8} {b : UInt8}
    (h : String.utf8EncodeChar c = u ++ b :: w) (hu : u ≠ []) : isContinuation b = true := by
  obtain ⟨b', t, hc, -, -, ht⟩ := utf8EncodeChar_shape c
  obtain ⟨a, u, rfl⟩ := List.exists_cons_of_ne_nil hu
  rw [hc, List.cons_append, List.cons.injEq] at h
  exact ht b (by rw [h.2]; simp)

/-! ## The character at a place -/

/-- The character at the beginning of some bytes, if it is there to its end. -/
def charAt? (s : List UInt8) : Option Char := firstChar? (s.take (leadWidth (s.headD 0)))

theorem eq_of_firstChar? {s : List UInt8} {c : Char} (h : firstChar? s = some c) :
    ∃ t, s = String.utf8EncodeChar c ++ t := by
  obtain ⟨t, ht⟩ := ByteArray.exists_of_utf8DecodeChar?_eq_some h
  refine ⟨t.data.toList, ?_⟩
  have hlist := congrArg (fun b : ByteArray => b.data.toList) ht
  simpa using hlist

theorem charAt?_append (c : Char) (t : List UInt8) :
    charAt? (String.utf8EncodeChar c ++ t) = some c := by
  obtain ⟨b, s, h, -, hw, -⟩ := utf8EncodeChar_shape c
  have hl : leadWidth ((String.utf8EncodeChar c ++ t).headD 0) =
      (String.utf8EncodeChar c).length := by
    simp [h, hw]
  rw [charAt?, hl, List.take_left, firstChar?_utf8EncodeChar]

theorem charAt?_eq_some_iff {s : List UInt8} {c : Char} :
    charAt? s = some c ↔ ∃ t, s = String.utf8EncodeChar c ++ t := by
  constructor
  · intro h
    obtain ⟨t, ht⟩ := eq_of_firstChar? h
    refine ⟨t ++ s.drop (leadWidth (s.headD 0)), ?_⟩
    rw [← List.append_assoc, ← ht, List.take_append_drop]
  · rintro ⟨t, rfl⟩
    exact charAt?_append c t

/-! ## Whole characters -/

/-- Every lead byte has the bytes that it announces before the end.  So have the bytes of a text from
any offset on, one inside a character included. -/
def Whole : List UInt8 → Prop
  | [] => True
  | b :: s => leadWidth b ≤ s.length + 1 ∧ Whole s

theorem Whole.of_append {u t : List UInt8} (h : Whole (u ++ t)) : Whole t := by
  induction u with
  | nil => exact h
  | cons b u ih => exact ih h.2

theorem Whole.of_suffix {s t : List UInt8} (hs : t <:+ s) (h : Whole s) : Whole t := by
  obtain ⟨u, rfl⟩ := hs
  exact h.of_append

theorem whole_append_of_isContinuation {t s : List UInt8}
    (ht : ∀ x ∈ t, isContinuation x = true) (hs : Whole s) : Whole (t ++ s) := by
  induction t with
  | nil => exact hs
  | cons b t ih =>
    refine ⟨?_, ih fun x hx => ht x (List.mem_cons_of_mem b hx)⟩
    rw [leadWidth_of_isContinuation (ht b List.mem_cons_self)]
    omega

/-- The bytes are those of a text. -/
def IsUtf8 (s : List UInt8) : Prop := ∃ cs : List Char, s = cs.flatMap String.utf8EncodeChar

theorem isUtf8_bytes (text : String) : IsUtf8 (bytes text) := ⟨text.toList, rfl⟩

theorem isUtf8_nil : IsUtf8 [] := ⟨[], rfl⟩

theorem IsUtf8.exists_bytes {s : List UInt8} (h : IsUtf8 s) : ∃ text, s = bytes text := by
  obtain ⟨cs, rfl⟩ := h
  exact ⟨String.ofList cs, by simp [bytes]⟩

theorem IsUtf8.whole {s : List UInt8} (h : IsUtf8 s) : Whole s := by
  obtain ⟨cs, rfl⟩ := h
  induction cs with
  | nil => trivial
  | cons c cs ih =>
    obtain ⟨b, t, hc, -, hw, ht⟩ := utf8EncodeChar_shape c
    rw [List.flatMap_cons, hc, List.cons_append]
    refine ⟨?_, whole_append_of_isContinuation ht ih⟩
    rw [hw, List.length_append]
    omega

theorem IsUtf8.head? {s : List UInt8} (h : IsUtf8 s) : ∀ b ∈ s.head?, isContinuation b = false := by
  obtain ⟨cs, rfl⟩ := h
  rcases cs with _ | ⟨c, cs⟩
  · simp
  · obtain ⟨b, t, hc, hb, -⟩ := utf8EncodeChar_shape c
    simpa [hc] using hb

/-- What stands behind some bytes of a text is a text unless it begins inside a character. -/
theorem IsUtf8.of_append {u t : List UInt8} (h : IsUtf8 (u ++ t))
    (ht : ∀ b ∈ t.head?, isContinuation b = false) : IsUtf8 t := by
  obtain ⟨cs, h⟩ := h
  induction cs generalizing u with
  | nil =>
    rw [List.flatMap_nil, List.append_eq_nil_iff] at h
    rw [h.2]
    exact isUtf8_nil
  | cons c cs ih =>
    rw [List.flatMap_cons] at h
    rcases List.append_eq_append_iff.mp h with ⟨w, hw, hrest⟩ | ⟨w, -, hrest⟩
    · -- the cut lies in the bytes of `c`, so before its first or behind its last
      rcases u with _ | ⟨a, u⟩
      · exact ⟨c :: cs, by simpa using h⟩
      · rcases w with _ | ⟨x, w⟩
        · exact ⟨cs, by simpa using hrest⟩
        · have hx := isContinuation_of_split hw (List.cons_ne_nil a u)
          rw [ht x (by simp [hrest])] at hx
          cases hx
    · exact ih hrest.symm

theorem IsUtf8.tail_of_ascii {b : UInt8} {s : List UInt8} (h : IsUtf8 (b :: s)) (hb : b < 0x80) :
    IsUtf8 s := by
  obtain ⟨cs, h⟩ := h
  rcases cs with _ | ⟨c, cs⟩
  · cases h
  · obtain ⟨b', r, hc, -⟩ := utf8EncodeChar_shape c
    rw [List.flatMap_cons, hc, List.cons_append, List.cons.injEq] at h
    obtain ⟨rfl, rfl⟩ := h
    rw [utf8EncodeChar_of_ascii hc hb]
    exact ⟨cs, rfl⟩

/-- An ASCII byte is never part of another character. -/
theorem IsUtf8.of_append_ascii {u t : List UInt8} {b : UInt8} (h : IsUtf8 (u ++ b :: t))
    (hb : b < 0x80) : IsUtf8 t := by
  have hbt : IsUtf8 (b :: t) := h.of_append (by simpa using isContinuation_of_ascii hb)
  exact hbt.tail_of_ascii hb

/-- A step by the width of a character leads from one boundary to the next. -/
theorem IsUtf8.drop_leadWidth {s : List UInt8} (h : IsUtf8 s) :
    IsUtf8 (s.drop (leadWidth (s.headD 0))) := by
  obtain ⟨cs, rfl⟩ := h
  rcases cs with _ | ⟨c, cs⟩
  · simpa using isUtf8_nil
  · obtain ⟨b, r, hc, -, hw, -⟩ := utf8EncodeChar_shape c
    refine ⟨cs, ?_⟩
    rw [List.flatMap_cons, hc, List.cons_append, List.headD_cons, hw, List.drop_succ_cons,
      List.drop_left]

/-- What stands before a text within a text is a text. -/
theorem IsUtf8.left_of_append {u t : List UInt8} (h : IsUtf8 (u ++ t)) (ht : IsUtf8 t) :
    IsUtf8 u := by
  obtain ⟨cs, h⟩ := h
  induction cs generalizing u with
  | nil =>
    rw [List.flatMap_nil, List.append_eq_nil_iff] at h
    rw [h.1]
    exact isUtf8_nil
  | cons c cs ih =>
    rw [List.flatMap_cons] at h
    rcases List.append_eq_append_iff.mp h with ⟨w, hw, hrest⟩ | ⟨w, hw, hrest⟩
    · rcases u with _ | ⟨a, u⟩
      · exact isUtf8_nil
      · rcases w with _ | ⟨x, w⟩
        · exact ⟨[c], by simpa using hw.symm⟩
        · -- a text does not begin with a byte that continues `c`
          have hx := isContinuation_of_split hw (List.cons_ne_nil a u)
          rw [ht.head? x (by simp [hrest])] at hx
          cases hx
    · obtain ⟨ds, rfl⟩ := ih hrest.symm
      exact ⟨c :: ds, by rw [hw, List.flatMap_cons]⟩

theorem IsUtf8.append {s t : List UInt8} (hs : IsUtf8 s) (ht : IsUtf8 t) : IsUtf8 (s ++ t) := by
  obtain ⟨cs, rfl⟩ := hs
  obtain ⟨ds, rfl⟩ := ht
  exact ⟨cs ++ ds, by simp⟩

/-- An ASCII byte stands in the bytes of a text only where its character does. -/
theorem mem_bytes_iff {c : Char} {b : UInt8} (hc : String.utf8EncodeChar c = [b]) (hb : b < 0x80)
    {text : String} : b ∈ bytes text ↔ c ∈ text.toList := by
  constructor
  · intro h
    obtain ⟨d, hd, hmem⟩ := List.mem_flatMap.mp h
    obtain ⟨a, t, hshape, -, -, ht⟩ := utf8EncodeChar_shape d
    rw [hshape] at hmem
    rcases List.mem_cons.mp hmem with rfl | hmem
    · obtain rfl := utf8EncodeChar_of_ascii hshape hb
      rwa [eq_of_utf8EncodeChar_eq (hc.trans hshape.symm)]
    · have hcont := ht b hmem
      rw [isContinuation_of_ascii hb] at hcont
      cases hcont
  · intro h
    exact List.mem_flatMap.mpr ⟨c, h, by simp [hc]⟩

/-- A text begins with an ASCII character if its bytes do. -/
theorem head?_of_head?_bytes {c : Char} {b : UInt8} (hc : String.utf8EncodeChar c = [b])
    (hb : b < 0x80) {text : String} (h : (bytes text).head? = some b) :
    text.toList.head? = some c := by
  unfold bytes at h
  cases hd : text.toList with
  | nil =>
    rw [hd] at h
    cases h
  | cons d ds =>
    obtain ⟨a, t, hshape, -⟩ := utf8EncodeChar_shape d
    rw [hd, List.flatMap_cons, hshape, List.cons_append, List.head?_cons, Option.some.injEq] at h
    obtain rfl := h
    obtain rfl := utf8EncodeChar_of_ascii hshape hb
    rw [List.head?_cons, eq_of_utf8EncodeChar_eq (hc.trans hshape.symm)]

/-- A text ends in an ASCII character if its bytes do. -/
theorem getLast?_of_getLast?_bytes {c : Char} {b : UInt8} (hc : String.utf8EncodeChar c = [b])
    (hb : b < 0x80) {text : String} (h : (bytes text).getLast? = some b) :
    text.toList.getLast? = some c := by
  rcases List.eq_nil_or_concat text.toList with hnil | ⟨cs, d, hconcat⟩
  · rw [bytes, hnil] at h
    cases h
  · rw [bytes, hconcat, List.concat_eq_append, List.flatMap_append, List.flatMap_singleton,
      List.getLast?_append] at h
    cases hlast : (String.utf8EncodeChar d).getLast? with
    | none => exact absurd (List.getLast?_eq_none_iff.mp hlast) (utf8EncodeChar_ne_nil d)
    | some x =>
      rw [hlast, Option.some_or, Option.some.injEq] at h
      have hmem : b ∈ bytes (String.ofList [d]) := by
        simpa [bytes, h] using List.mem_of_getLast? hlast
      rw [mem_bytes_iff hc hb, String.toList_ofList, List.mem_singleton] at hmem
      rw [hconcat, hmem]
      simp

/-- An offset is a boundary of characters if a text stands behind it. -/
theorem isValid_iff {text : String} {k : Nat} :
    (⟨k⟩ : String.Pos.Raw).IsValid text ↔
      ∃ u v, bytes text = u ++ v ∧ u.length = k ∧ IsUtf8 v := by
  rw [String.Pos.Raw.isValid_iff_exists_append]
  constructor
  · rintro ⟨s, t, rfl, hk⟩
    refine ⟨bytes s, bytes t, bytes_append s t, ?_, isUtf8_bytes t⟩
    rw [length_bytes]
    exact (congrArg String.Pos.Raw.byteIdx hk).symm
  · rintro ⟨u, v, h, hk, hv⟩
    have hu : IsUtf8 u := by
      have htext := isUtf8_bytes text
      rw [h] at htext
      exact htext.left_of_append hv
    obtain ⟨s, rfl⟩ := hu.exists_bytes
    obtain ⟨t, rfl⟩ := hv.exists_bytes
    refine ⟨s, t, bytes_inj (by rw [h, bytes_append]), ?_⟩
    rw [← hk, length_bytes]
    rfl

end JavaTokens.Text
