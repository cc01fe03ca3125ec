import Mathlib.Algebra.GroupWithZero.Nat
import JavaTokens.Proofs.Pieces

/-!
# Partition of a text

Lexemes read from any offset of a text, one inside a character included, partition what is left of
it.  Nothing is looked at beyond the padding, no search begins behind the end, and behind the last
lexeme the end is read forever.  From a boundary of characters, reading stops at boundaries only.
-/

namespace JavaTokens

open Text

/-! ## Texts as they are read -/

theorem PaddedText.bytes_ofString {text : String} (h : text.utf8ByteSize ≤ maxOffset) :
    (PaddedText.ofString text).bytes = Text.bytes text := by
  refine List.take_of_length_le ?_
  rwa [length_bytes]

/-- A text of at most `maxOffset` bytes is cut into its pieces. -/
theorem ofText_ofString {text : String} (h : text.utf8ByteSize ≤ maxOffset) :
    Lexeme.ofText (PaddedText.ofString text) =
      .ok ((pieces (Text.bytes text)).map Piece.lexeme) := by
  have hbytes := PaddedText.bytes_ofString h
  have hwhole : Whole (PaddedText.ofString text).bytes := by
    rw [hbytes]
    exact (isUtf8_bytes text).whole
  rw [ofText_of_whole hwhole, hbytes]

/-- The first lexeme of a text is the one that its bytes begin with. -/
theorem exists_ofText_cons {text : String} {w t : List UInt8} {k : Terminal}
    (hsize : text.utf8ByteSize ≤ maxOffset) (hw : w ≠ []) (htext : Text.bytes text = w ++ t)
    (h : Cut.first (Text.bytes text) = ⟨k, t⟩) :
    ∃ lexemes, Lexeme.ofText (PaddedText.ofString text) = .ok (⟨k, w.length⟩ :: lexemes) := by
  rw [htext] at h
  rw [ofText_ofString hsize, htext, pieces_cons hw h]
  exact ⟨_, rfl⟩

/-- A text that is not empty is its first lexeme, which is the same alone, and what that leaves. -/
theorem exists_ofText_first {text : String} (hsize : text.utf8ByteSize ≤ maxOffset)
    (hne : text.toList ≠ []) :
    ∃ (w v : String) (k : Terminal) (lexemes : List Lexeme), text = w ++ v ∧ w.toList ≠ [] ∧
      Cut.first (Text.bytes text) = ⟨k, Text.bytes v⟩ ∧ Cut.first (Text.bytes w) = ⟨k, []⟩ ∧
      Lexeme.ofText (PaddedText.ofString text) = .ok (⟨k, w.utf8ByteSize⟩ :: lexemes) := by
  have hbytes : Text.bytes text ≠ [] := by
    obtain ⟨c, cs, htext⟩ := List.exists_cons_of_ne_nil hne
    rw [Text.bytes, htext, List.flatMap_cons]
    exact List.append_ne_nil_of_left_ne_nil (utf8EncodeChar_ne_nil c) _
  obtain ⟨k, w, t, htext, hw, -, hfirst⟩ := exists_first hbytes
  have hutf8 := isUtf8_bytes text
  have ht : IsUtf8 t := Cut.isUtf8_of_first hutf8 hfirst
  obtain ⟨v, rfl⟩ := ht.exists_bytes
  rw [htext] at hutf8
  obtain ⟨w, rfl⟩ := (hutf8.left_of_append ht).exists_bytes
  obtain ⟨lexemes, hread⟩ := exists_ofText_cons hsize hw htext hfirst
  rw [length_bytes] at hread
  rw [htext] at hfirst
  refine ⟨w, v, k, lexemes, bytes_inj ?_, ?_, ?_, Cut.local_first.truncate hfirst, hread⟩
  · rw [htext, bytes_append]
  · intro hnil
    exact hw (congrArg (List.flatMap String.utf8EncodeChar) hnil)
  · rw [htext, hfirst]

/-- What the first lexeme of a text leaves tells what it takes. -/
theorem eq_of_first {u x w v : String} {j k : Terminal} (htext : w ++ v = u ++ x)
    (hu : Cut.first (Text.bytes (u ++ x)) = ⟨j, Text.bytes x⟩)
    (hw : Cut.first (Text.bytes (w ++ v)) = ⟨k, Text.bytes v⟩) : j = k ∧ u = w := by
  have hbytes := congrArg Text.bytes htext
  rw [← htext, hw, Cut.mk.injEq] at hu
  rw [bytes_append, bytes_append, hu.2] at hbytes
  exact ⟨hu.1.symm, (bytes_inj (List.append_cancel_right hbytes)).symm⟩

/-- Of two texts in front of one text, each a lexeme when it stands alone, the one that is read is
the longer, or they are the same. -/
theorem eq_or_size_lt_of_first {u x w v : String} {j k : Terminal}
    (hu : Cut.first (Text.bytes u) = ⟨j, []⟩)
    (h : Cut.first (Text.bytes (w ++ v)) = ⟨k, Text.bytes v⟩) (htext : w ++ v = u ++ x) :
    (j = k ∧ u = w) ∨ u.utf8ByteSize < w.utf8ByteSize := by
  have hsizes := congrArg String.utf8ByteSize htext
  have hcases := Cut.first_append_cases hu (Text.bytes x)
  rw [← bytes_append] at hcases
  rcases hcases with hfirst | hlt
  · exact .inl (eq_of_first htext hfirst h)
  · right
    rw [← htext, h, length_bytes, length_bytes] at hlt
    rw [String.utf8ByteSize_append, String.utf8ByteSize_append] at hsizes
    omega

/-- The longest of the texts with a property with which a text begins. -/
structure IsLongestPrefix (P : String → Prop) (w text : String) : Prop where
  holds : P w
  begins : ∃ v, text = w ++ v
  size_le : ∀ u v : String, text = u ++ v → P u → u.utf8ByteSize ≤ w.utf8ByteSize

/-- Reading finds the longest text of a property, if all that have it are lexemes alone. -/
theorem isLongestPrefix_of_first {P : String → Prop} {w v : String} {k : Terminal}
    (hP : ∀ u, P u → ∃ j, Cut.first (Text.bytes u) = ⟨j, []⟩) (hw : P w)
    (h : Cut.first (Text.bytes (w ++ v)) = ⟨k, Text.bytes v⟩) : IsLongestPrefix P w (w ++ v) := by
  refine ⟨hw, ⟨v, rfl⟩, ?_⟩
  intro u x htext hu
  obtain ⟨j, hfirst⟩ := hP u hu
  rcases eq_or_size_lt_of_first hfirst h htext with ⟨-, rfl⟩ | hlt
  · exact Nat.le_refl _
  · exact Nat.le_of_lt hlt

/-- The reader at an offset of a text. -/
theorem reader_moved_before {text : String} {start : Nat} (h : text.utf8ByteSize ≤ maxOffset)
    (hstart : start ≤ text.utf8ByteSize) :
    ((PaddedText.ofString text).reader.moved start).Before ((Text.bytes text).drop start) := by
  have hr := (PaddedText.ofString text).reader_before
  rw [PaddedText.bytes_ofString h] at hr
  exact hr.moved (by rwa [length_bytes])

/-! ## Lengths and boundaries -/

theorem sum_lengths (ps : List Piece) :
    ((ps.map Piece.lexeme).map Lexeme.length).sum = (ps.flatMap Piece.bytes).length := by
  rw [List.length_flatMap, List.map_map]
  rfl

theorem isUtf8_flatMap {ps : List Piece} (h : ∀ p ∈ ps, IsUtf8 p.bytes) :
    IsUtf8 (ps.flatMap Piece.bytes) := by
  induction ps with
  | nil => exact isUtf8_nil
  | cons p ps ih =>
    rw [List.forall_mem_cons] at h
    rw [List.flatMap_cons]
    exact h.1.append (ih h.2)

/-- The pieces read and those that are left make up the text. -/
theorem flatMap_take_append_drop (n : Nat) (s : List UInt8) :
    ((pieces s).take n).flatMap Piece.bytes ++ ((pieces s).drop n).flatMap Piece.bytes = s := by
  rw [← List.flatMap_append, List.take_append_drop, flatMap_pieces]

/-- Every lexeme ends at a boundary of characters, if the first one begins at one. -/
theorem isValid_of_take {text : String} {start : Nat}
    (h : (⟨start⟩ : String.Pos.Raw).IsValid text) (n : Nat) :
    (⟨start + (((pieces ((bytes text).drop start)).take n).flatMap Piece.bytes).length⟩ :
      String.Pos.Raw).IsValid text := by
  obtain ⟨u, v, htext, rfl, hv⟩ := isValid_iff.mp h
  rw [htext, List.drop_left]
  refine isValid_iff.mpr ⟨u ++ ((pieces v).take n).flatMap Piece.bytes,
    ((pieces v).drop n).flatMap Piece.bytes, ?_, by simp, ?_⟩
  · rw [htext, List.append_assoc, flatMap_take_append_drop]
  · exact isUtf8_flatMap fun p hp => isUtf8_of_mem hv p (List.mem_of_mem_drop hp)

/-! ## Partition -/

/-- Read `n` times from an offset, the text gives its next lexemes, and its end as often as there
are fewer than `n`.  The lexemes are not empty and sum up to what is left. -/
theorem nextMany_partition (text : String) (start : Nat) (hsize : text.utf8ByteSize ≤ maxOffset)
    (hstart : start ≤ text.utf8ByteSize) :
    ∃ lexemes : List Lexeme,
      (∀ l ∈ lexemes, l.terminal ≠ .finish ∧ 1 ≤ l.length) ∧
      (lexemes.map Lexeme.length).sum = text.utf8ByteSize - start ∧
      (∀ n, ∃ r : Reader,
        (Lexeme.nextMany n).run ((PaddedText.ofString text).reader.moved start) =
          .ok (lexemes.take n ++ List.replicate (n - lexemes.length) ⟨.finish, 0⟩, r) ∧
        r.pos = start + ((lexemes.take n).map Lexeme.length).sum ∧ r.pos ≤ text.utf8ByteSize) ∧
      ((⟨start⟩ : String.Pos.Raw).IsValid text → ∀ n,
        (⟨start + ((lexemes.take n).map Lexeme.length).sum⟩ : String.Pos.Raw).IsValid text) := by
  have hlen : ((bytes text).drop start).length = text.utf8ByteSize - start := by
    rw [List.length_drop, length_bytes]
  have hwhole : Whole ((bytes text).drop start) :=
    (isUtf8_bytes text).whole.of_suffix (List.drop_suffix start _)
  have hbefore := reader_moved_before hsize hstart
  refine ⟨(pieces ((bytes text).drop start)).map Piece.lexeme, ?_, ?_, ?_, ?_⟩
  · rintro l hl
    obtain ⟨p, hp, rfl⟩ := List.mem_map.mp hl
    exact ⟨terminal_ne_finish_of_mem p hp, List.length_pos_iff.mpr (bytes_ne_nil_of_mem p hp)⟩
  · rw [sum_lengths, flatMap_pieces, hlen]
  · intro n
    obtain ⟨r, hrun, hr, hstop⟩ := (yields_nextMany n _).run_of_whole hwhole hbefore
    have hparts := congrArg List.length (flatMap_take_append_drop n ((bytes text).drop start))
    have hstart' := hbefore.pos_add
    have hpos := hr.pos_add
    have hpos0 : ((PaddedText.ofString text).reader.moved start).pos = start := Nat.zero_add start
    rw [List.length_append] at hparts
    refine ⟨r, ?_, ?_, ?_⟩
    · rw [hrun, List.length_map]
    · rw [← List.map_take, sum_lengths]
      omega
    · omega
  · intro h n
    rw [← List.map_take, sum_lengths]
    exact isValid_of_take h n

/-- From inside the first character, its last byte is a lexeme of its own. -/
theorem nextMany_partition_inside : ∃ lexemes : List Lexeme,
    (lexemes.map Lexeme.length).sum = 2 ∧
      ∀ n, ∃ r : Reader, (Lexeme.nextMany n).run ((PaddedText.ofString "é+").reader.moved 1) =
        .ok (lexemes.take n ++ List.replicate (n - lexemes.length) ⟨.finish, 0⟩, r) := by
  obtain ⟨lexemes, -, hsum, hrun, -⟩ := nextMany_partition "é+" 1 (by decide) (by decide)
  refine ⟨lexemes, hsum, ?_⟩
  intro n
  obtain ⟨r, hr, -⟩ := hrun n
  exact ⟨r, hr⟩

end JavaTokens
