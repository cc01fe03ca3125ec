import JavaTokens.Proofs.Partition

/-!
# Lexemes out of their context

A lexeme is told by its own bytes.  Cut out of its text and read alone, it is one lexeme, and the
same as it was with other text behind it; that goes for trivia and defects as it does for tokens.
Nor does it matter what stands before: from the end of any lexeme on, a text is read as its rest
alone is.

    Lexeme.ofText of the slice of a lexeme is that lexeme             (ofText_slice)
    Lexeme.ofText of what a lexeme leaves are the lexemes behind it   (ofText_suffix)
-/

namespace JavaTokens

open Text Cut

/-- A piece alone is its own only piece. -/
theorem pieces_of_mem {s : List UInt8} {p : Piece} (hp : p ∈ pieces s) :
    pieces p.bytes = [p] := by
  have hfirst : first (p.bytes ++ []) = ⟨p.terminal, []⟩ := by
    rw [List.append_nil]
    exact first_of_mem p hp
  have hpieces := pieces_cons (bytes_ne_nil_of_mem p hp) hfirst
  rwa [List.append_nil, pieces_nil] at hpieces

/-- Pieces of a text make up a text. -/
theorem exists_text_of_pieces (text : String) {ps : List Piece}
    (h : ∀ p ∈ ps, p ∈ pieces (bytes text)) : ∃ w : String, bytes w = ps.flatMap Piece.bytes := by
  have hutf8 := isUtf8_of_mem (isUtf8_bytes text)
  obtain ⟨w, hw⟩ := (isUtf8_flatMap fun p hp => hutf8 p (h p hp)).exists_bytes
  exact ⟨w, hw.symm⟩

/-- A text is a text of the pieces before one of them and a text of those from it on. -/
theorem exists_suffix (text : String) (k : Nat) :
    ∃ u v : String, text = u ++ v ∧
      bytes u = ((pieces (bytes text)).take k).flatMap Piece.bytes ∧
      bytes v = ((pieces (bytes text)).drop k).flatMap Piece.bytes := by
  obtain ⟨u, hu⟩ := exists_text_of_pieces text fun p => List.mem_of_mem_take (i := k)
  obtain ⟨v, hv⟩ := exists_text_of_pieces text fun p => List.mem_of_mem_drop (i := k)
  refine ⟨u, v, bytes_inj ?_, hu, hv⟩
  rw [bytes_append, hu, hv, flatMap_take_append_drop]

/-- A text is the text of any of its pieces with what stands before and behind it. -/
theorem exists_slice {text : String} {i : Nat} {p : Piece}
    (h : (pieces (bytes text))[i]? = some p) :
    ∃ u w v : String, text = u ++ w ++ v ∧
      bytes u = ((pieces (bytes text)).take i).flatMap Piece.bytes ∧ bytes w = p.bytes := by
  obtain ⟨u, r, htext, hu, hr⟩ := exists_suffix text i
  obtain ⟨hi, hp⟩ := List.getElem?_eq_some_iff.mp h
  obtain ⟨w, hw⟩ := (isUtf8_of_mem (isUtf8_bytes text) p (List.mem_of_getElem? h)).exists_bytes
  obtain ⟨v, hv⟩ := exists_text_of_pieces text fun p => List.mem_of_mem_drop (i := i + 1)
  refine ⟨u, w, v, bytes_inj ?_, hu, hw.symm⟩
  rw [List.drop_eq_getElem_cons hi, hp, List.flatMap_cons, hw, ← hv] at hr
  rw [htext, bytes_append, bytes_append, bytes_append, hr, List.append_assoc]

/-- Bytes that have no part of a character at either end, as both ends are ASCII. -/
def AsciiEnds (w : List UInt8) : Prop :=
  (∃ b, w.head? = some b ∧ b < 0x80) ∧ ∃ b, w.getLast? = some b ∧ b < 0x80

theorem AsciiEnds.of_all {w : List UInt8} (hw : w ≠ []) (h : ∀ b ∈ w, b < 0x80) : AsciiEnds w :=
  ⟨⟨w.head hw, List.head?_eq_some_head hw, h _ (List.head_mem hw)⟩,
    w.getLast hw, List.getLast?_eq_some_getLast hw, h _ (List.getLast_mem hw)⟩

/-- Such bytes of a text are a text, as is what stands around them. -/
theorem AsciiEnds.exists_texts {text : String} {s w t : List UInt8} (hw : AsciiEnds w)
    (htext : bytes text = s ++ (w ++ t)) :
    ∃ u m v : String, s = bytes u ∧ w = bytes m ∧ t = bytes v := by
  obtain ⟨⟨a, ha, hfirst⟩, b, hb, hlast⟩ := hw
  obtain ⟨w', hhead⟩ := List.head?_eq_some_iff.mp ha
  obtain ⟨w'', hend⟩ := List.getLast?_eq_some_iff.mp hb
  have hutf8 := isUtf8_bytes text
  rw [htext] at hutf8
  have hrest : IsUtf8 (w ++ t) := by
    refine hutf8.of_append ?_
    intro c hc
    obtain rfl : a = c := by simpa [hhead] using hc
    exact isContinuation_of_ascii hfirst
  have ht : IsUtf8 t := by
    have hbehind := hrest
    rw [hend, List.append_assoc] at hbehind
    exact hbehind.of_append_ascii hlast
  obtain ⟨u, hu⟩ := (hutf8.left_of_append hrest).exists_bytes
  obtain ⟨m, hm⟩ := (hrest.left_of_append ht).exists_bytes
  obtain ⟨v, hv⟩ := ht.exists_bytes
  exact ⟨u, m, v, hu, hm, hv⟩

/-- Every lexeme with ASCII at both ends is a stretch of its text, also of one that is cut. -/
theorem exists_slice_of_ofText {text : String} {lexemes : List Lexeme}
    (hread : Lexeme.ofText (PaddedText.ofString text) = .ok lexemes) {i : Nat} {l : Lexeme}
    (hl : lexemes[i]? = some l) (hends : ∀ w, first w = ⟨l.terminal, []⟩ → AsciiEnds w) :
    ∃ u w v : String, text = u ++ w ++ v ∧
      u.utf8ByteSize = ((lexemes.take i).map Lexeme.length).sum ∧ w.utf8ByteSize = l.length ∧
      first (bytes w) = ⟨l.terminal, []⟩ := by
  obtain rfl := eq_of_ofText hread
  rw [List.getElem?_map] at hl
  obtain ⟨p, hp, rfl⟩ := Option.map_eq_some_iff.mp hl
  have hfirst := first_of_mem p (List.mem_of_getElem? hp)
  obtain ⟨t, ht⟩ := exists_of_getElem? hp
  have htext : bytes text =
      ((pieces (PaddedText.ofString text).bytes).take i).flatMap Piece.bytes ++
        (p.bytes ++ (t ++ (bytes text).drop maxOffset)) := by
    rw [← List.append_assoc p.bytes, ← List.append_assoc, ← ht]
    exact (List.take_append_drop maxOffset (bytes text)).symm
  obtain ⟨u, w, v, hu, hw, hv⟩ := (hends _ hfirst).exists_texts htext
  refine ⟨u, w, v, bytes_inj ?_, ?_, ?_, ?_⟩
  · rw [htext, hu, hw, hv, bytes_append, bytes_append, List.append_assoc]
  · rw [← List.map_take, sum_lengths, hu, length_bytes]
  · rw [← length_bytes, ← hw]
    rfl
  · rw [← hw]
    exact hfirst

/-- A text is one lexeme if it is not cut and that lexeme leaves nothing of it. -/
theorem ofText_eq_singleton_iff {text : String} {k : Terminal} (hk : k ≠ .finish) :
    Lexeme.ofText (PaddedText.ofString text) = .ok [⟨k, text.utf8ByteSize⟩] ↔
      text.utf8ByteSize ≤ maxOffset ∧ first (bytes text) = ⟨k, []⟩ := by
  constructor
  · intro h
    have hlexemes := eq_of_ofText h
    obtain ⟨p, hp, hlexeme⟩ : ∃ p, pieces (PaddedText.ofString text).bytes = [p] ∧
        p.lexeme = ⟨k, text.utf8ByteSize⟩ := by
      obtain ⟨p, ps, hps, hlexeme, hnil⟩ := List.map_eq_cons_iff.mp hlexemes.symm
      rw [List.map_eq_nil_iff.mp hnil] at hps
      exact ⟨p, hps, hlexeme⟩
    obtain ⟨rfl, hlength⟩ := Lexeme.mk.inj hlexeme
    have hbytes : p.bytes = (bytes text).take maxOffset := by
      have hjoined := flatMap_pieces (PaddedText.ofString text).bytes
      rwa [hp, List.flatMap_singleton] at hjoined
    have hsize : text.utf8ByteSize ≤ maxOffset := by
      rw [← hlength, hbytes]
      exact List.length_take_le _ _
    have hfirst := first_of_mem p (hp ▸ List.mem_singleton_self p)
    rw [hbytes, List.take_of_length_le (by rwa [length_bytes])] at hfirst
    exact ⟨hsize, hfirst⟩
  · rintro ⟨hsize, hfirst⟩
    have hne : bytes text ≠ [] := by
      intro hnil
      rw [hnil] at hfirst
      exact hk (congrArg Cut.terminal hfirst).symm
    rw [← List.append_nil (bytes text)] at hfirst
    have hpieces := pieces_cons hne hfirst
    rw [List.append_nil, pieces_nil] at hpieces
    rw [ofText_ofString hsize, hpieces, ← length_bytes]
    rfl

/-- Every lexeme of a text is read again, and nothing else, from the slice of the text that it
takes. -/
theorem ofText_slice (text : String) (hsize : text.utf8ByteSize ≤ maxOffset) :
    ∃ lexemes : List Lexeme, Lexeme.ofText (PaddedText.ofString text) = .ok lexemes ∧
      ∀ (i : Nat) (l : Lexeme), lexemes[i]? = some l →
        ∃ u w v : String, text = u ++ w ++ v ∧
          u.utf8ByteSize = ((lexemes.take i).map Lexeme.length).sum ∧
          w.utf8ByteSize = l.length ∧ Lexeme.ofText (PaddedText.ofString w) = .ok [l] := by
  refine ⟨_, ofText_ofString hsize, ?_⟩
  intro i l hl
  rw [List.getElem?_map] at hl
  obtain ⟨p, hp, rfl⟩ := Option.map_eq_some_iff.mp hl
  obtain ⟨u, w, v, htext, hu, hw⟩ := exists_slice hp
  have hle : w.utf8ByteSize ≤ maxOffset := by
    rw [htext, String.utf8ByteSize_append, String.utf8ByteSize_append] at hsize
    omega
  refine ⟨u, w, v, htext, ?_, ?_, ?_⟩
  · rw [← List.map_take, sum_lengths, ← length_bytes, hu]
  · rw [← length_bytes, hw]
    rfl
  · rw [ofText_ofString hle, hw, pieces_of_mem (List.mem_of_getElem? hp)]
    rfl

/-- A numeral that is cut before its word, one without digits, an empty literal and a string that
ends in a backslash: the last one, alone, is left open as well. -/
theorem ofText_slice_openString : ∃ u w v : String, "0b2 1e+''\"\\" = u ++ w ++ v ∧
    u.utf8ByteSize = 9 ∧ w.utf8ByteSize = 2 ∧
    Lexeme.ofText (PaddedText.ofString w) = .ok [⟨.defect .openString, 2⟩] := by
  obtain ⟨lexemes, hok, h⟩ := ofText_slice "0b2 1e+''\"\\" (by decide)
  have hlexemes : (Lexeme.ofText (PaddedText.ofString "0b2 1e+''\"\\")).toOption =
      some [⟨.numeral .decimal, 1⟩, ⟨.word, 2⟩, ⟨.trivia .blanks, 1⟩,
        ⟨.defect .digitlessNumeral, 3⟩, ⟨.defect .openCharacter, 2⟩, ⟨.defect .openString, 2⟩] := by
    decide +kernel
  rw [hok] at hlexemes
  obtain rfl := Option.some.inj hlexemes
  exact h 5 _ rfl

/-! ## Behind a lexeme -/

/-- What stands from a piece on has the pieces from there on. -/
theorem pieces_drop (k : Nat) (s : List UInt8) :
    pieces (((pieces s).drop k).flatMap Piece.bytes) = (pieces s).drop k := by
  induction k generalizing s with
  | zero => rw [List.drop_zero, flatMap_pieces]
  | succ k ih =>
    induction s using pieces_induction with
    | nil => simp
    | cons terminal w t hw hk h _ => rw [pieces_cons hw h, List.drop_succ_cons, ih]

/-- A reader that moves to the end of some lexemes goes on with the lexemes behind them, and then
reads the end of the text every time. -/
theorem run_nextMany_behind {text : String} (hsize : text.utf8ByteSize ≤ maxOffset) (k n : Nat) :
    let lexemes := (pieces (bytes text)).map Piece.lexeme
    StateT.run' (do ReadM.skip ((lexemes.take k).map Lexeme.length).sum; Lexeme.nextMany n)
        (PaddedText.ofString text).reader =
      .ok ((lexemes.drop k).take n ++ List.replicate (n - (lexemes.length - k)) ⟨.finish, 0⟩) := by
  intro lexemes
  let before := ((pieces (bytes text)).take k).flatMap Piece.bytes
  let behind := ((pieces (bytes text)).drop k).flatMap Piece.bytes
  have hparts : before ++ behind = bytes text := flatMap_take_append_drop k (bytes text)
  have hoffset : ((lexemes.take k).map Lexeme.length).sum = before.length := by
    rw [← List.map_take, sum_lengths]
  have hskip : ReadM.Yields (ReadM.skip before.length) (before ++ behind) ()
      ((before ++ behind).drop before.length) := ReadM.yields_skip (by simp)
  rw [List.drop_left, hparts] at hskip
  have hread := hskip.bind (f := fun _ => Lexeme.nextMany n) (yields_nextMany n behind)
  have hbefore := (PaddedText.ofString text).reader_before
  rw [PaddedText.bytes_ofString hsize] at hbefore
  obtain ⟨r, hrun, -⟩ := hread.run_of_whole (isUtf8_bytes text).whole hbefore
  rw [hoffset, StateT.run'_eq, hrun, pieces_drop, List.map_drop, List.length_drop]
  show Except.ok _ = Except.ok _
  rw [show lexemes.length = (pieces (bytes text)).length from List.length_map ..]

/-- From the end of any lexeme on, the rest of the text alone is cut into the lexemes that are left,
and so is the rest of the whole text by a reader that has moved there. -/
theorem ofText_suffix (text : String) (hsize : text.utf8ByteSize ≤ maxOffset) :
    ∃ lexemes : List Lexeme, Lexeme.ofText (PaddedText.ofString text) = .ok lexemes ∧
      ∀ k : Nat,
        let offset := ((lexemes.take k).map Lexeme.length).sum
        (∃ u v : String, text = u ++ v ∧ u.utf8ByteSize = offset ∧
          Lexeme.ofText (PaddedText.ofString v) = .ok (lexemes.drop k)) ∧
        ∀ n, StateT.run' (do ReadM.skip offset; Lexeme.nextMany n)
            (PaddedText.ofString text).reader =
          .ok ((lexemes.drop k).take n ++
            List.replicate (n - (lexemes.length - k)) ⟨.finish, 0⟩) := by
  refine ⟨_, ofText_ofString hsize, ?_⟩
  intro k offset
  obtain ⟨u, v, htext, hu, hv⟩ := exists_suffix text k
  have hle : v.utf8ByteSize ≤ maxOffset := by
    rw [htext, String.utf8ByteSize_append] at hsize
    omega
  constructor
  · refine ⟨u, v, htext, ?_, ?_⟩
    · show _ = ((((pieces (bytes text)).map Piece.lexeme).take k).map Lexeme.length).sum
      rw [← List.map_take, sum_lengths, ← length_bytes, hu]
    · rw [ofText_ofString hle, hv, pieces_drop, List.map_drop]
  · intro n
    exact run_nextMany_behind hsize k n

/-- Behind a comment with quotes in it, a zero byte inside the text and a string that is left open
are the same as alone, and then the text ends. -/
theorem ofText_suffix_nullByte : ∃ u v : String, "/*\"é*/\x00\"ab" = u ++ v ∧ u.utf8ByteSize = 7 ∧
    Lexeme.ofText (PaddedText.ofString v) = .ok [⟨.defect .nullByte, 1⟩, ⟨.defect .openString, 3⟩] ∧
    StateT.run' (do ReadM.skip 7; Lexeme.nextMany 4)
        (PaddedText.ofString "/*\"é*/\x00\"ab").reader =
      .ok [⟨.defect .nullByte, 1⟩, ⟨.defect .openString, 3⟩, ⟨.finish, 0⟩, ⟨.finish, 0⟩] := by
  obtain ⟨lexemes, hok, h⟩ := ofText_suffix "/*\"é*/\x00\"ab" (by decide)
  have hlexemes : (Lexeme.ofText (PaddedText.ofString "/*\"é*/\x00\"ab")).toOption =
      some [⟨.trivia .blockComment, 7⟩, ⟨.defect .nullByte, 1⟩, ⟨.defect .openString, 3⟩] := by
    decide +kernel
  rw [hok] at hlexemes
  obtain rfl := Option.some.inj hlexemes
  obtain ⟨⟨u, v, htext, hu, hv⟩, hrun⟩ := h 1
  exact ⟨u, v, htext, hu, hv, hrun 4⟩

end JavaTokens
