import JavaTokens.Proofs.Emission
import JavaTokens.Proofs.LineEnds

/-!
# Lookup of lines

A lookup finds a line by bisection over the starts of lines.  It is the line that one counts to by
going through the text from left to right, where a carriage return and a line feed behind it end one
line together.  The count is given as a number of 32 bits: of a text of the greatest size whose every
byte ends a line, the last line has no number.

    the line of an offset, by the terminators up to it                (lineOf_eq_terminators)
    the line of a span has a number                                   (toNat_lineNumber_of_mem)
    the lookup counts terminators                                     (lineNumber_counts)
    a text whose last line has no number                              (lineNumber_lineFeeds)
-/

namespace JavaTokens.LineTable

open Ascii

variable {bytes : List UInt8}

/-! ## Terminators -/

/-- The offsets at which line terminators end, found from left to right in a text at some offset. -/
def terminators : List UInt8 → (offset : Nat) → List Nat
  | [], _ => []
  | [b], offset => if isLineEnd b then [offset + 1] else []
  | a :: b :: rest, offset =>
    if a == '\r'.toUInt8 && b == '\n'.toUInt8 then (offset + 2) :: terminators rest (offset + 2)
    else if isLineEnd a then (offset + 1) :: terminators (b :: rest) (offset + 1)
    else terminators (b :: rest) (offset + 1)

theorem endsLine_eq (b : UInt8) (rest : List UInt8) :
    endsLine b rest =
      (isLineEnd b && !(b == '\r'.toUInt8 && rest.head? == some '\n'.toUInt8)) := by
  rw [endsLine, isLineEnd, bne]
  by_cases hb : b = '\n'.toUInt8
  · subst hb
    rfl
  · rw [beq_eq_false_iff_ne.mpr hb, Bool.false_or, Bool.false_or]
    cases b == '\r'.toUInt8
    · rfl
    · rfl

/-- Lines begin behind terminators. -/
theorem laterStarts_eq_terminators (bytes : List UInt8) (offset : Nat) :
    laterStarts bytes offset = terminators bytes offset := by
  fun_induction terminators bytes offset with
  | case1 => rfl
  | case2 b offset hb =>
    have hends : endsLine b [] = true := by
      rw [endsLine_eq, hb]
      cases b == '\r'.toUInt8 <;> rfl
    rw [laterStarts, if_pos hends, laterStarts]
  | case3 b offset hb =>
    have hends : ¬ endsLine b [] = true := by
      rw [endsLine_eq, Bool.eq_false_iff.mpr hb]
      exact Bool.false_ne_true
    rw [laterStarts, if_neg hends, laterStarts]
  | case4 a b rest offset hpair ih =>
    rw [Bool.and_eq_true, beq_iff_eq, beq_iff_eq] at hpair
    obtain ⟨rfl, rfl⟩ := hpair
    have hfirst : endsLine '\r'.toUInt8 ('\n'.toUInt8 :: rest) = false := rfl
    have hsecond : endsLine '\n'.toUInt8 rest = true := rfl
    rw [laterStarts, hfirst, if_neg Bool.false_ne_true, laterStarts, if_pos hsecond, ih]
  | case5 a b rest offset hpair ha ih =>
    have hends : endsLine a (b :: rest) = true := by
      rw [endsLine_eq, ha, List.head?_cons, Option.some_beq_some, Bool.eq_false_iff.mpr hpair]
      rfl
    rw [laterStarts, if_pos hends, ih]
  | case6 a b rest offset hpair ha ih =>
    have hends : ¬ endsLine a (b :: rest) = true := by
      rw [endsLine_eq, Bool.eq_false_iff.mpr ha]
      exact Bool.false_ne_true
    rw [laterStarts, if_neg hends, ih]

/-! ## Counts -/

theorem lineOf_eq_terminators (h : bytes.length ≤ maxOffset) (offset : Nat) :
    (ofBytes bytes).lineOf offset =
      1 + (terminators bytes 0).countP fun stop => stop ≤ offset := by
  rw [lineOf_eq h, starts_ofBytes h, List.countP_cons_of_pos (by simp),
    laterStarts_eq_terminators, Nat.add_comm]

theorem lineCount_eq_terminators (h : bytes.length ≤ maxOffset) :
    (ofBytes bytes).lineCount = 1 + (terminators bytes 0).length := by
  rw [lineCount, ← Array.length_toList, starts_ofBytes h, List.length_cons,
    laterStarts_eq_terminators, Nat.add_comm]

/-- From the end of the text on, every offset is in the last line. -/
theorem lineOf_of_length_le (h : bytes.length ≤ maxOffset) {offset : Nat}
    (ho : bytes.length ≤ offset) : (ofBytes bytes).lineOf offset = (ofBytes bytes).lineCount := by
  rw [lineOf_eq_terminators h, lineCount_eq_terminators h, List.countP_eq_length.mpr]
  intro stop hstop
  rw [← laterStarts_eq_terminators] at hstop
  have hbounds := mem_laterStarts hstop
  rw [decide_eq_true_eq]
  omega

/-- A terminator has a byte of its own. -/
theorem endsBefore_le (s : List UInt8) (offset : Nat) : endsBefore s offset ≤ offset := by
  fun_induction endsBefore s offset with
  | case1 => exact Nat.le_refl 0
  | case2 => exact Nat.zero_le _
  | case3 b rest offset hb ih => omega
  | case4 b rest offset hb ih => omega

theorem lineOf_le (h : bytes.length ≤ maxOffset) (offset : Nat) :
    (ofBytes bytes).lineOf offset ≤ offset + 1 := by
  have hle := endsBefore_le bytes offset
  rw [lineOf_eq_endsBefore h]
  omega

theorem lineCount_le (h : bytes.length ≤ maxOffset) : (ofBytes bytes).lineCount ≤ UInt32.size := by
  have hle := lineOf_le h bytes.length
  have hmax : maxOffset = UInt32.size - 1 := rfl
  have hpos : 0 < UInt32.size := by decide
  rw [lineOf_of_length_le h (Nat.le_refl _)] at hle
  omega

/-! ## Numbers of 32 bits -/

/-- Only the last of `2 ^ 32` lines has no number, and only the greatest offset is in it. -/
theorem toNat_lineNumber (h : bytes.length ≤ maxOffset) {offset : UInt32}
    (ho : (ofBytes bytes).lineCount < UInt32.size ∨ offset.toNat < maxOffset) :
    ((ofBytes bytes).lineNumber offset).toNat = (ofBytes bytes).lineOf offset.toNat := by
  have hoffset := lineOf_le h offset.toNat
  have hcount := lineOf_le_lineCount (ofBytes bytes) offset.toNat
  have hmax : maxOffset = UInt32.size - 1 := rfl
  rw [lineNumber, UInt32.toNat_ofNat_of_lt']
  rcases ho with ho | ho
  · omega
  · omega

/-- Tokens and diagnostics stand on the lines of their spans.  A span begins at a byte, so never at
the greatest offset, and its line has a number. -/
theorem toNat_lineNumber_of_mem {text : PaddedText} {lexemes : List Lexeme}
    (h : Lexeme.ofText text = .ok lexemes) :
    ∀ span ∈ Span.ofLexemes text lexemes,
      ((ofBytes text.bytes).lineNumber (.ofNat span.offset)).toNat =
        (ofBytes text.bytes).lineOf span.offset := by
  intro span hspan
  rw [eq_of_ofText h, ofLexemes_pieces] at hspan
  have hlt := offset_lt_of_mem_pieces hspan
  have hle := text.length_le
  have hmax : maxOffset = UInt32.size - 1 := rfl
  have hoffset : (UInt32.ofNat span.offset).toNat = span.offset :=
    UInt32.toNat_ofNat_of_lt' (by omega)
  rw [toNat_lineNumber hle (.inr (by omega)), hoffset]

theorem lineNumber_of_lineCount (h : bytes.length ≤ maxOffset)
    (hcount : (ofBytes bytes).lineCount = UInt32.size) {offset : UInt32}
    (ho : offset.toNat = maxOffset) : (ofBytes bytes).lineNumber offset = 0 := by
  rw [lineNumber, ho, lineOf_of_length_le h h, hcount]
  rfl

/-- Starts of lines increase.  A lookup counts the terminators that end at or before the offset; it
grows with the offset, is the number of a line of the table, and from the end of the text on is that
of the last line.  The one exception is the greatest offset where `2 ^ 32` lines are counted: the
last line has no number there, and the lookup gives zero. -/
theorem lineNumber_counts (h : bytes.length ≤ maxOffset) :
    let table := ofBytes bytes
    table.starts.toList.Pairwise (· < ·) ∧
      ∀ offset : UInt32, if table.lineCount = UInt32.size ∧ offset.toNat = maxOffset then
          table.lineNumber offset = 0
        else
          (table.lineNumber offset).toNat =
              1 + ((terminators bytes 0).countP fun stop => stop ≤ offset.toNat) ∧
            (∀ i ≤ offset, table.lineNumber i ≤ table.lineNumber offset) ∧
            1 ≤ (table.lineNumber offset).toNat ∧
            (table.lineNumber offset).toNat ≤ table.lineCount ∧
            (bytes.length ≤ offset.toNat → (table.lineNumber offset).toNat = table.lineCount) := by
  refine ⟨pairwise_starts h, fun offset => ?_⟩
  split
  · next hlast => exact lineNumber_of_lineCount h hlast.1 hlast.2
  · next hlast =>
    have hmax : maxOffset = UInt32.size - 1 := rfl
    have hcount := lineCount_le h
    have hsize := offset.toNat_lt_size
    have hnumber {i : UInt32} (hi : i ≤ offset) : ((ofBytes bytes).lineNumber i).toNat =
        (ofBytes bytes).lineOf i.toNat := by
      refine toNat_lineNumber h ?_
      rw [UInt32.le_iff_toNat_le] at hi
      omega
    have hoffset := hnumber (UInt32.le_refl offset)
    rw [hoffset]
    refine ⟨lineOf_eq_terminators h _, fun i hi => ?_, one_le_lineOf h _,
      lineOf_le_lineCount _ _, lineOf_of_length_le h⟩
    rw [UInt32.le_iff_toNat_le, hnumber hi, hoffset]
    exact lineOf_mono h (UInt32.le_iff_toNat_le.mp hi)

/-- A carriage return, a pair, a line feed and a carriage return at the end. -/
theorem lineNumber_counts_pair :
    let bytes := Text.bytes "a\r\r\n\n\r"
    bytes.length ≤ maxOffset ∧ ∀ offset : UInt32,
      ((ofBytes bytes).lineNumber offset).toNat =
          1 + ([2, 4, 5, 6].countP fun stop => stop ≤ offset.toNat) ∧
        (6 ≤ offset.toNat → ((ofBytes bytes).lineNumber offset).toNat = 5) := by
  have h : (Text.bytes "a\r\r\n\n\r").length ≤ maxOffset := by decide +kernel
  have hcount : (ofBytes (Text.bytes "a\r\r\n\n\r")).lineCount = 5 := by decide +kernel
  have hstops : terminators (Text.bytes "a\r\r\n\n\r") 0 = [2, 4, 5, 6] := by decide +kernel
  refine ⟨h, fun offset => ?_⟩
  have hcounts := (lineNumber_counts h).2 offset
  rw [if_neg (by rw [hcount]; exact fun hlast => absurd hlast.1 (by decide)), hstops,
    hcount] at hcounts
  exact ⟨hcounts.1, hcounts.2.2.2.2⟩

theorem endsBefore_lineFeeds (n : Nat) :
    endsBefore (List.replicate n '\n'.toUInt8) n = n := by
  induction n with
  | zero => rfl
  | succ n ih =>
    have hends : endsLine '\n'.toUInt8 (List.replicate n '\n'.toUInt8) = true := rfl
    rw [List.replicate_succ, endsBefore, if_pos hends, ih]

/-- A text of line feeds only, whose last line has no number. -/
theorem lineNumber_lineFeeds :
    let bytes := List.replicate maxOffset '\n'.toUInt8
    let offset : UInt32 := 0xFFFFFFFF
    bytes.length ≤ maxOffset ∧ (ofBytes bytes).lineNumber offset = 0 ∧
      1 + ((terminators bytes 0).countP fun stop => stop ≤ offset.toNat) = UInt32.size ∧
      (ofBytes bytes).lineCount = UInt32.size := by
  intro bytes offset
  have hlength : bytes.length = maxOffset := List.length_replicate
  have hoffset : offset.toNat = maxOffset := rfl
  have hline : (ofBytes bytes).lineOf maxOffset = UInt32.size := by
    rw [lineOf_eq_endsBefore hlength.le, endsBefore_lineFeeds]
    rfl
  have hcount : (ofBytes bytes).lineCount = UInt32.size := by
    rw [← lineOf_of_length_le hlength.le hlength.le, hline]
  refine ⟨hlength.le, lineNumber_of_lineCount hlength.le hcount hoffset, ?_, hcount⟩
  rw [← lineOf_eq_terminators hlength.le, hoffset, hline]

end JavaTokens.LineTable
