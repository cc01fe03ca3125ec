import JavaTokens.Text.LineTable
import JavaTokens.Proofs.PlainBytes

/-!
# Lines of joined texts

The lines of two texts with a line feed between them are those of the first, and behind them those of
the second.  That needs the first one not to end in a carriage return, which would make a pair with
the line feed.

    lineOf of the first text is kept                                  (lineOf_append_left)
    lineOf of the second one goes on behind it                        (lineOf_append_right)

Making numerals plain leaves the number of lines as it is.
-/

namespace JavaTokens

namespace LineTable

/-! ## Starts of lines -/

/-- The starts of the lines behind the first one, in a text at some offset. -/
def laterStarts : List UInt8 → (offset : Nat) → List Nat
  | [], _ => []
  | b :: rest, offset =>
    if endsLine b rest then (offset + 1) :: laterStarts rest (offset + 1)
    else laterStarts rest (offset + 1)

theorem collect_eq {bytes : List UInt8} {offset : Nat} (h : offset + bytes.length ≤ maxOffset)
    (starts : Array Nat) :
    (collect bytes offset starts).toList = starts.toList ++ laterStarts bytes offset := by
  induction bytes generalizing offset starts with
  | nil => exact (List.append_nil _).symm
  | cons b rest ih =>
    rw [List.length_cons] at h
    have hlt : (decide (offset < maxOffset)) = true := decide_eq_true (by omega)
    rw [collect, ih (by omega), laterStarts, hlt, Bool.and_true]
    split
    · simp
    · rfl

/-- The starts of all lines of a text. -/
theorem starts_ofBytes {bytes : List UInt8} (h : bytes.length ≤ maxOffset) :
    (ofBytes bytes).starts.toList = 0 :: laterStarts bytes 0 := by
  rw [ofBytes, collect_eq (by omega)]
  rfl

theorem mem_laterStarts {bytes : List UInt8} {offset k : Nat} (h : k ∈ laterStarts bytes offset) :
    offset < k ∧ k ≤ offset + bytes.length := by
  induction bytes generalizing offset with
  | nil => cases h
  | cons b rest ih =>
    rw [List.length_cons]
    unfold laterStarts at h
    split at h
    · rcases List.mem_cons.mp h with rfl | h
      · omega
      · have hbounds := ih h
        omega
    · have hbounds := ih h
      omega

theorem pairwise_laterStarts (bytes : List UInt8) (offset : Nat) :
    (laterStarts bytes offset).Pairwise (· < ·) := by
  induction bytes generalizing offset with
  | nil => exact .nil
  | cons b rest ih =>
    unfold laterStarts
    split
    · refine .cons ?_ (ih _)
      intro k hk
      have hbounds := mem_laterStarts hk
      omega
    · exact ih _

theorem laterStarts_add (bytes : List UInt8) (offset n : Nat) :
    laterStarts bytes (offset + n) = (laterStarts bytes offset).map (· + n) := by
  induction bytes generalizing offset with
  | nil => rfl
  | cons b rest ih =>
    have hstep : offset + n + 1 = offset + 1 + n := by omega
    unfold laterStarts
    rw [hstep, ih]
    split <;> simp

/-- A line feed behind a text ends its last line and changes no other. -/
theorem laterStarts_append {s : List UInt8} (hs : s.getLast? ≠ some '\r'.toUInt8)
    (t : List UInt8) (offset : Nat) :
    laterStarts (s ++ '\n'.toUInt8 :: t) offset =
      laterStarts s offset ++ (offset + s.length + 1) ::
        laterStarts t (offset + s.length + 1) := by
  induction s generalizing offset with
  | nil => rfl
  | cons b s ih =>
    have hends : endsLine b (s ++ '\n'.toUInt8 :: t) = endsLine b s := by
      rcases s with _ | ⟨c, s⟩
      · have hb : b ≠ '\r'.toUInt8 := by simpa using hs
        simp [endsLine, hb]
      · rfl
    have hs' : s.getLast? ≠ some '\r'.toUInt8 := by
      rcases s with _ | ⟨c, s⟩
      · simp
      · rwa [List.getLast?_cons_cons] at hs
    have hoffset : offset + 1 + s.length = offset + (b :: s).length := by
      rw [List.length_cons]
      omega
    rw [List.cons_append, laterStarts, laterStarts, hends, ih hs', hoffset]
    split <;> rfl

theorem pairwise_starts {bytes : List UInt8} (h : bytes.length ≤ maxOffset) :
    (ofBytes bytes).starts.toList.Pairwise (· < ·) := by
  rw [starts_ofBytes h]
  exact .cons (fun k hk => (mem_laterStarts hk).1) (pairwise_laterStarts bytes 0)

/-! ## Lines of offsets -/

/-- The line of an offset is the number of the starts up to it. -/
theorem lineOf_eq {bytes : List UInt8} (h : bytes.length ≤ maxOffset) (offset : Nat) :
    (ofBytes bytes).lineOf offset =
      (ofBytes bytes).starts.toList.countP fun start => start ≤ offset :=
  bisect_eq_countP (pairwise_starts h) offset

theorem lineOf_mono {bytes : List UInt8} (h : bytes.length ≤ maxOffset) {i j : Nat} (hij : i ≤ j) :
    (ofBytes bytes).lineOf i ≤ (ofBytes bytes).lineOf j := by
  rw [lineOf_eq h, lineOf_eq h]
  apply List.countP_mono_left
  intro start _ hi
  rw [decide_eq_true_eq] at hi ⊢
  omega

theorem one_le_lineOf {bytes : List UInt8} (h : bytes.length ≤ maxOffset) (offset : Nat) :
    1 ≤ (ofBytes bytes).lineOf offset := by
  rw [lineOf_eq h, starts_ofBytes h, List.countP_cons_of_pos (by simp)]
  exact Nat.le_add_left 1 _

theorem lineOf_le_lineCount (table : LineTable) (offset : Nat) :
    table.lineOf offset ≤ table.lineCount :=
  bisect_le _ _ _ (Nat.zero_le _)

variable {s t : List UInt8}

/-- The starts of a joined text are those of both parts. -/
theorem starts_append (hs : s.getLast? ≠ some '\r'.toUInt8)
    (h : (s ++ '\n'.toUInt8 :: t).length ≤ maxOffset) :
    (ofBytes (s ++ '\n'.toUInt8 :: t)).starts.toList =
      (ofBytes s).starts.toList ++ (ofBytes t).starts.toList.map (· + (s.length + 1)) := by
  have hlen := h
  rw [List.length_append, List.length_cons] at hlen
  have hfirst : s.length ≤ maxOffset := by omega
  have hsecond : t.length ≤ maxOffset := by omega
  have hlater := laterStarts_add t 0 (s.length + 1)
  rw [starts_ofBytes h, starts_ofBytes hfirst, starts_ofBytes hsecond, laterStarts_append hs,
    List.map_cons, ← hlater]
  simp

theorem le_of_mem_starts (h : s.length ≤ maxOffset) :
    ∀ k ∈ (ofBytes s).starts.toList, k ≤ s.length := by
  intro k hk
  rw [starts_ofBytes h] at hk
  rcases List.mem_cons.mp hk with rfl | hk
  · exact Nat.zero_le _
  · have hbounds := mem_laterStarts hk
    omega

/-- Within the first text, lines are as in that text alone. -/
theorem lineOf_append_left (hs : s.getLast? ≠ some '\r'.toUInt8)
    (h : (s ++ '\n'.toUInt8 :: t).length ≤ maxOffset) {offset : Nat} (ho : offset ≤ s.length) :
    (ofBytes (s ++ '\n'.toUInt8 :: t)).lineOf offset = (ofBytes s).lineOf offset := by
  have hlen : s.length ≤ maxOffset := by
    rw [List.length_append] at h
    omega
  rw [lineOf_eq h, lineOf_eq hlen, starts_append hs h, List.countP_append]
  have hzero : ((ofBytes t).starts.toList.map (· + (s.length + 1))).countP
      (fun start => start ≤ offset) = 0 := by
    rw [List.countP_eq_zero]
    intro k hk
    obtain ⟨j, -, rfl⟩ := List.mem_map.mp hk
    rw [decide_eq_true_eq]
    omega
  omega

/-- Behind the line feed, lines go on from the number of lines before it. -/
theorem lineOf_append_right (hs : s.getLast? ≠ some '\r'.toUInt8)
    (h : (s ++ '\n'.toUInt8 :: t).length ≤ maxOffset) (offset : Nat) :
    (ofBytes (s ++ '\n'.toUInt8 :: t)).lineOf (offset + (s.length + 1)) =
      (ofBytes t).lineOf offset + (ofBytes s).lineCount := by
  have hlen := h
  rw [List.length_append, List.length_cons] at hlen
  have hall : (ofBytes s).starts.toList.countP
      (fun start => start ≤ offset + (s.length + 1)) = (ofBytes s).lineCount := by
    rw [lineCount, ← Array.length_toList, List.countP_eq_length]
    intro k hk
    have hle := le_of_mem_starts (by omega) k hk
    rw [decide_eq_true_eq]
    omega
  have hsecond : t.length ≤ maxOffset := by omega
  rw [lineOf_eq h, lineOf_eq hsecond, starts_append hs h, List.countP_append, hall,
    List.countP_map, Nat.add_comm]
  congr 1
  apply List.countP_congr
  intro k _
  simp

/-! ## Lines of plain texts -/

/-- The number of line ends. -/
def lineEnds : List UInt8 → Nat
  | [] => 0
  | b :: rest => if endsLine b rest then lineEnds rest + 1 else lineEnds rest

theorem lineCount_ofBytes (h : s.length ≤ maxOffset) :
    (ofBytes s).lineCount = lineEnds s + 1 := by
  have hlater (bytes : List UInt8) (offset : Nat) :
      (laterStarts bytes offset).length = lineEnds bytes := by
    induction bytes generalizing offset with
    | nil => rfl
    | cons b rest ih =>
      unfold laterStarts lineEnds
      split
      · rw [List.length_cons, ih]
      · exact ih _
  rw [lineCount, ← Array.length_toList, starts_ofBytes h, List.length_cons, hlater]

/-- Of the text behind a line end, only the first byte matters. -/
theorem lineEnds_append_congr (u : List UInt8) (hhead : s.head? = t.head?)
    (h : lineEnds s = lineEnds t) : lineEnds (u ++ s) = lineEnds (u ++ t) := by
  induction u with
  | nil => exact h
  | cons b u ih =>
    have hends : endsLine b (u ++ s) = endsLine b (u ++ t) := by
      rcases u with _ | ⟨c, u⟩
      · simp [endsLine, hhead]
      · rfl
    rw [List.cons_append, List.cons_append, lineEnds, lineEnds, hends, ih]

theorem endsLine_of_isInLine {b : UInt8} (hb : isInLine b = true) (rest : List UInt8) :
    endsLine b rest = false := by
  simp only [isInLine, Ascii.isLineEnd, Bool.not_eq_true', Bool.or_eq_false_iff] at hb
  rw [endsLine, hb.1, hb.2, Bool.false_and, Bool.or_false]

theorem lineEnds_append_of_isInLine {u : List UInt8} (hu : ∀ b ∈ u, isInLine b = true) :
    lineEnds (u ++ s) = lineEnds s := by
  induction u with
  | nil => rfl
  | cons b u ih =>
    rw [List.forall_mem_cons] at hu
    rw [List.cons_append, lineEnds, endsLine_of_isInLine hu.1, if_neg Bool.false_ne_true, ih hu.2]

theorem isInLine_of_dropsMiddleByte {a b c : UInt8} (h : Numeral.dropsMiddleByte a b c = true) :
    isInLine a = true ∧ isInLine b = true ∧ isInLine c = true := by
  have hdigit {d : UInt8} (hd : Ascii.isDigit d = true) : isInLine d = true := by
    rw [Ascii.isDigit_iff] at hd
    rw [isInLine_iff]
    omega
  obtain ⟨ha, hb, hc⟩ := Numeral.dropsMiddleByte_cases h
  refine ⟨hdigit ha, ?_, hdigit hc⟩
  rcases hb with rfl | rfl
  · rfl
  · rfl

/-- What is left out of a text is no line end and stands next to none. -/
theorem lineEnds_plainBytes (s : List UInt8) : lineEnds (Numeral.plainBytes s) = lineEnds s := by
  fun_induction Numeral.plainBytes s with
  | case1 a b c rest h ih =>
    obtain ⟨ha, hb, hc⟩ := isInLine_of_dropsMiddleByte h
    have hplain : lineEnds ([a, c] ++ Numeral.plainBytes rest) = _ :=
      lineEnds_append_of_isInLine (by simp [ha, hc])
    have hgiven : lineEnds ([a, b, c] ++ rest) = _ :=
      lineEnds_append_of_isInLine (by simp [ha, hb, hc])
    exact hplain.trans (ih.trans hgiven.symm)
  | case2 a b c rest h ih =>
    exact lineEnds_append_congr [a] (Numeral.head?_plainBytes (b :: c :: rest)) ih
  | case3 s h => rfl

/-- Making numerals plain leaves the number of lines as it is. -/
theorem lineCount_plain {text : String} (h : text.utf8ByteSize ≤ maxOffset) :
    (ofBytes (Text.bytes (Numeral.plain text))).lineCount =
      (ofBytes (Text.bytes text)).lineCount := by
  have hplain := Numeral.utf8ByteSize_plain_le text
  rw [lineCount_ofBytes (by rw [Text.length_bytes]; omega),
    lineCount_ofBytes (by rwa [Text.length_bytes]), Numeral.bytes_plain, lineEnds_plainBytes]

end LineTable

end JavaTokens
