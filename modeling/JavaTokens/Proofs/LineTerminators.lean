import JavaTokens.Proofs.Emission
import JavaTokens.Proofs.LineEnds
import JavaTokens.Proofs.Spelling

/-!
# Line ends among lexemes

Reading and the table of lines find line ends each on their own, and find the same.  A lexeme is one
line end, or it stays in its line, or it is a comment over several lines; and none ends between a
carriage return and the line feed behind it.  So lines can be counted lexeme by lexeme.

    what a lexeme has to do with line ends                            (ends_of_first)
    lines counted by lexemes are those of the table                   (ofText_lineEnds)
-/

namespace JavaTokens

open Text Cut LineTable

/-! ## Trivia of rules -/

namespace Cut

open Lexeme

variable {b : UInt8} {s : List UInt8} {r : Rule}

/-- Whether a rule reads trivia of the kind. -/
def readsTrivia : Rule → Trivia → Bool
  | .blanks, t => t == .blanks
  | .carriageReturn, t | .lineFeed, t => t == .lineEnd
  | .slash, t => t == .lineComment || t == .blockComment
  | _, _ => false

theorem answers_trivia (r : Rule) (t : Trivia) : answers r (.trivia t) = readsTrivia r t := by
  cases r <;> cases t <;> rfl

theorem readsTrivia_ofRule {t : Trivia} (h : (ofRule b s r).terminal = .trivia t) :
    readsTrivia r t = true := by
  rw [← answers_trivia, ← h]
  exact answers_ofRule b s r

theorem rule_of_readsTrivia_lineEnd (h : readsTrivia r .lineEnd = true) :
    r = .carriageReturn ∨ r = .lineFeed := by
  cases r with
  | carriageReturn => exact .inl rfl
  | lineFeed => exact .inr rfl
  | _ => cases h

end Cut

/-! ## Line ends of a lexeme -/

/-- What the bytes `w` of a lexeme before `t` have to do with line ends. -/
inductive Ends : (k : Terminal) → (w t : List UInt8) → Prop
  | lineFeed (t : List UInt8) : Ends (.trivia .lineEnd) ['\n'.toUInt8] t
  | pair (t : List UInt8) : Ends (.trivia .lineEnd) ['\r'.toUInt8, '\n'.toUInt8] t
  | carriageReturn {t : List UInt8} : t.head? ≠ some '\n'.toUInt8 →
      Ends (.trivia .lineEnd) ['\r'.toUInt8] t
  | blockComment {w : List UInt8} (t : List UInt8) : w.getLast? = some '/'.toUInt8 →
      Ends (.trivia .blockComment) w t
  | openComment (w : List UInt8) : Ends (.defect .openComment) w []
  | inLine {k : Terminal} {w : List UInt8} (t : List UInt8) : k ≠ .trivia .lineEnd →
      (∀ b ∈ w, isInLine b = true) → Ends k w t

variable {w t s : List UInt8} {k : Terminal}

theorem ends_of_carriageReturn (h : carriageReturn (w ++ t) = ⟨k, t⟩) :
    Ends k ('\r'.toUInt8 :: w) t := by
  obtain ⟨rfl, hrest⟩ := Cut.mk.inj h
  unfold dropOne at hrest
  split at hrest
  · next hfeed =>
    obtain ⟨c, u, hu, hc⟩ := exists_cons_of_begins hfeed
    rw [hu] at hrest
    obtain rfl : u = t := hrest
    have hw : w = [c] := List.append_cancel_right hu
    rw [hw, eq_of_beq hc]
    exact .pair u
  · next hfeed =>
    have hw : w = [] := List.append_left_eq_self.mp hrest
    rw [hw, List.nil_append] at hfeed
    rw [hw]
    refine .carriageReturn ?_
    intro hhead
    rw [begins, hhead] at hfeed
    exact hfeed rfl

theorem ends_of_blockComment (h : blockComment (w ++ t) = ⟨k, t⟩) (lead : List UInt8) :
    Ends k (lead ++ w) t := by
  unfold blockComment at h
  cases hmark : behindComment? (w ++ t) with
  | none =>
    rw [hmark] at h
    cases h
    exact .openComment _
  | some u =>
    rw [hmark] at h
    obtain ⟨rfl, rfl⟩ := Cut.mk.inj h
    obtain ⟨v, hv⟩ := eq_of_behindComment? hmark
    have hw : w = v ++ ['*'.toUInt8, '/'.toUInt8] :=
      List.append_cancel_right (hv.trans (by rw [List.append_assoc]; rfl))
    refine .blockComment u ?_
    rw [hw, ← List.append_assoc, List.getLast?_append]
    rfl

/-- Every lexeme of a text is a line end, a comment or within its line. -/
theorem ends_of_first (hs : IsUtf8 (w ++ t)) (hw : w ≠ []) (h : first (w ++ t) = ⟨k, t⟩) :
    Ends k w t := by
  obtain ⟨b, w, rfl⟩ := List.exists_cons_of_ne_nil hw
  rw [List.cons_append] at hs h
  rw [first_cons] at h
  by_cases hcr : Lexeme.Rule.ofByte b = .carriageReturn
  · obtain rfl := eq_of_ofByte_carriageReturn hcr
    exact ends_of_carriageReturn h
  by_cases hlf : Lexeme.Rule.ofByte b = .lineFeed
  · have hb : b = '\n'.toUInt8 := eq_of_ofByte_lineFeed hlf
    rw [hlf] at h
    obtain ⟨rfl, hrest⟩ := Cut.mk.inj h
    have hw : w = [] := List.append_left_eq_self.mp hrest
    rw [hb, hw]
    exact .lineFeed t
  by_cases hslash : Lexeme.Rule.ofByte b = .slash ∧ begins (· == '*'.toUInt8) (w ++ t) = true
  · obtain ⟨hslash, hstar⟩ := hslash
    rw [hslash] at h
    change slash (w ++ t) = _ at h
    rcases w with _ | ⟨c, w⟩
    · obtain ⟨c, u, rfl, hc⟩ := exists_cons_of_begins hstar
      obtain rfl := eq_of_beq hc
      have hle := local_blockComment.length_le u
      have hrest : (blockComment u).rest = '*'.toUInt8 :: u := congrArg Cut.rest h
      rw [hrest, List.length_cons] at hle
      omega
    · obtain rfl := eq_of_beq hstar
      exact ends_of_blockComment h [b, '*'.toUInt8]
  · have hin : InLine (b :: (w ++ t)) (ofRule b (w ++ t) (Lexeme.Rule.ofByte b)).rest :=
      inLine_ofRule hs hcr hlf fun hr => by simpa [hr] using hslash
    obtain ⟨u, hu, hline⟩ := hin.takes
    have hk : k ≠ .trivia .lineEnd := by
      rintro rfl
      have hreads := readsTrivia_ofRule (t := .lineEnd) (congrArg Cut.terminal h)
      rcases rule_of_readsTrivia_lineEnd hreads with hr | hr
      · exact hcr hr
      · exact hlf hr
    rw [h] at hu
    have hbytes : b :: w = u := List.append_cancel_right hu
    exact .inLine t hk (hbytes ▸ hline)

theorem Ends.bytes_of_lineEnd (h : Ends k w t) (hk : k = .trivia .lineEnd) :
    w = ['\n'.toUInt8] ∨ w = ['\r'.toUInt8, '\n'.toUInt8] ∨
      w = ['\r'.toUInt8] ∧ t.head? ≠ some '\n'.toUInt8 := by
  cases h with
  | lineFeed => exact .inl rfl
  | pair => exact .inr (.inl rfl)
  | carriageReturn hhead => exact .inr (.inr ⟨rfl, hhead⟩)
  | blockComment | openComment => cases hk
  | inLine _ hne => exact absurd hk hne

theorem Ends.isInLine (h : Ends k w t) (hend : k ≠ .trivia .lineEnd)
    (hcomment : k ≠ .trivia .blockComment) (hopen : k ≠ .defect .openComment) :
    ∀ b ∈ w, isInLine b = true := by
  cases h with
  | lineFeed | pair | carriageReturn => exact absurd rfl hend
  | blockComment => exact absurd rfl hcomment
  | openComment => exact absurd rfl hopen
  | inLine _ _ hline => exact hline

/-- No lexeme ends between a carriage return and a line feed. -/
theorem Ends.not_partsPair (h : Ends k w t) : ¬ PartsPair w t := by
  rintro ⟨hlast, hhead⟩
  cases h with
  | lineFeed => cases hlast
  | pair => cases hlast
  | carriageReturn hne => exact hne hhead
  | blockComment _ hslash =>
    rw [hslash] at hlast
    cases hlast
  | openComment => cases hhead
  | inLine _ _ hline =>
    have hcr := hline _ (List.mem_of_getLast? hlast)
    cases hcr

/-! ## Lines counted by lexemes -/

/-- A piece of a text stands behind the pieces before it and before some rest. -/
theorem exists_first_of_getElem? (hs : IsUtf8 s) {i : Nat} {p : Piece}
    (h : (pieces s)[i]? = some p) :
    ∃ t, s = ((pieces s).take i).flatMap Piece.bytes ++ (p.bytes ++ t) ∧
      Ends p.terminal p.bytes t := by
  induction s using pieces_induction generalizing i with
  | nil =>
    rw [pieces_nil] at h
    cases h
  | cons k w t hw hk hfirst ih =>
    have hpieces := pieces_cons hw hfirst
    rw [hpieces] at h ⊢
    cases i with
    | zero =>
      cases h
      exact ⟨t, rfl, ends_of_first hs hw hfirst⟩
    | succ i =>
      obtain ⟨u, hu, hends⟩ := ih (isUtf8_of_first hs hfirst) h
      refine ⟨u, ?_, hends⟩
      rw [List.take_succ_cons, List.flatMap_cons, List.append_assoc, ← hu]

/-- The lines that end before a lexeme end in the lexemes before it. -/
theorem endsBefore_pieces (hs : IsUtf8 s) (i : Nat) :
    endsBefore s (((pieces s).take i).flatMap Piece.bytes).length =
      (((pieces s).take i).map fun p => lineEnds p.bytes).sum := by
  induction s using pieces_induction generalizing i with
  | nil => simp
  | cons k w t hw hk hfirst ih =>
    have hends := ends_of_first hs hw hfirst
    rw [pieces_cons hw hfirst]
    cases i with
    | zero => simp
    | succ i =>
      rw [List.take_succ_cons, List.flatMap_cons, List.length_append,
        endsBefore_append hends.not_partsPair, ih (isUtf8_of_first hs hfirst), List.map_cons,
        List.sum_cons]

theorem length_bytes_le {p : Piece} (hp : p ∈ pieces s) : p.bytes.length ≤ s.length := by
  have hsub := List.sublist_flatten_of_mem (List.mem_map_of_mem (f := Piece.bytes) hp)
  rw [← List.flatMap_def, flatMap_pieces] at hsub
  exact hsub.length_le

theorem map_bytes_spansFrom (offset : Nat) (ps : List Piece) :
    (spansFrom offset ps).map Span.bytes = ps.map Piece.bytes := by
  induction ps generalizing offset with
  | nil => rfl
  | cons p ps ih => rw [spansFrom, List.map_cons, List.map_cons, ih]

/-- The table of the bytes of a lexeme counts the line ends in it. -/
theorem map_lineCount_spansFrom (h : s.length ≤ maxOffset) (i : Nat) :
    (((spansFrom 0 (pieces s)).take i).map fun t => (ofBytes t.bytes).lineCount - 1) =
      ((pieces s).take i).map fun p => lineEnds p.bytes := by
  have hcount (p : Piece) (hp : p ∈ (pieces s).take i) :
      (ofBytes p.bytes).lineCount - 1 = lineEnds p.bytes := by
    have hle := length_bytes_le (List.mem_of_mem_take hp)
    rw [lineCount_ofBytes (by omega), Nat.add_sub_cancel]
  have hbytes := congrArg (List.take i) (map_bytes_spansFrom 0 (pieces s))
  rw [← List.map_take, ← List.map_take] at hbytes
  have hlines := congrArg (List.map fun w => (ofBytes w).lineCount - 1) hbytes
  rw [List.map_map, List.map_map] at hlines
  exact hlines.trans (List.map_congr_left hcount)

/-- Of the lexemes of a text, the line ends among trivia are a line feed, a carriage return before
one, or a carriage return alone; no other lexeme holds a line end, unless it is a block comment.  A
lexeme begins on the same line by the table of lines and by the lexemes before it. -/
theorem ofText_lineEnds (text : String) (hsize : text.utf8ByteSize ≤ maxOffset) :
    ∃ lexemes : List Lexeme, Lexeme.ofText (PaddedText.ofString text) = .ok lexemes ∧
      let s := bytes text
      let spans := Span.ofLexemes (PaddedText.ofString text) lexemes
      ∀ (k : Nat) (span : Span), spans[k]? = some span →
        span.bytes = (s.drop span.offset).take span.bytes.length ∧
        (span.terminal = .trivia .lineEnd →
          span.bytes = ['\n'.toUInt8] ∨ span.bytes = ['\r'.toUInt8, '\n'.toUInt8] ∨
            span.bytes = ['\r'.toUInt8] ∧ s[span.offset + 1]? ≠ some '\n'.toUInt8) ∧
        (span.terminal ≠ .trivia .lineEnd → span.terminal ≠ .trivia .blockComment →
          span.terminal ≠ .defect .openComment →
          '\n'.toUInt8 ∉ span.bytes ∧ '\r'.toUInt8 ∉ span.bytes) ∧
        (ofBytes s).lineOf span.offset =
          1 + ((spans.take k).map fun t => (ofBytes t.bytes).lineCount - 1).sum := by
  have hbytes := PaddedText.bytes_ofString hsize
  have hspans := ofLexemes_pieces (PaddedText.ofString text)
  rw [hbytes] at hspans
  refine ⟨_, ofText_ofString hsize, ?_⟩
  intro s spans k span hspan
  have hs : IsUtf8 s := isUtf8_bytes text
  have hlen : s.length ≤ maxOffset := by rwa [length_bytes]
  have hk := hspan
  rw [show spans = spansFrom 0 (pieces s) from hspans, getElem?_spansFrom] at hk
  obtain ⟨p, hp, rfl⟩ := Option.map_eq_some_iff.mp hk
  obtain ⟨t, ht, hends⟩ := exists_first_of_getElem? hs hp
  have hslice := take_drop_of_getElem? hp
  rw [flatMap_pieces] at hslice
  refine ⟨?_, ?_, ?_, ?_⟩
  · simpa using hslice.symm
  · intro hend
    refine (hends.bytes_of_lineEnd hend).imp_right (Or.imp_right ?_)
    rintro ⟨hcr, hhead⟩
    refine ⟨hcr, ?_⟩
    have hnext (u : List UInt8) : (u ++ (p.bytes ++ t))[0 + u.length + 1]? = t.head? := by
      have hcr' : p.bytes = ['\r'.toUInt8] := hcr
      rw [hcr', Nat.zero_add, List.getElem?_append_right (Nat.le_add_right _ _),
        Nat.add_sub_cancel_left, List.head?_eq_getElem?]
      rfl
    have hbehind := hnext (((pieces s).take k).flatMap Piece.bytes)
    rw [← ht] at hbehind
    rwa [hbehind]
  · intro hend hcomment hopen
    have hline := hends.isInLine hend hcomment hopen
    refine ⟨fun hmem => ?_, fun hmem => ?_⟩
    · cases hline _ hmem
    · cases hline _ hmem
  · have hbefore := endsBefore_pieces hs k
    rw [show spans = spansFrom 0 (pieces s) from hspans, map_lineCount_spansFrom hlen, ← hbefore,
      lineOf_eq_endsBefore hlen, Nat.zero_add, Nat.add_comm]

/-- A pair of bytes that end one line, a comment with a line end that is not closed, and a carriage
return behind a string that is left open. -/
theorem ofText_lineEnds_pair : ∃ lexemes : List Lexeme,
    Lexeme.ofText (PaddedText.ofString "\r\n\"a\\\r/*\n") = .ok lexemes ∧
      lexemes.map Lexeme.terminal =
        [.trivia .lineEnd, .defect .openString, .trivia .lineEnd, .defect .openComment] ∧
      (ofBytes (bytes "\r\n\"a\\\r/*\n")).lineOf 6 = 3 := by
  obtain ⟨lexemes, hok, h⟩ := ofText_lineEnds "\r\n\"a\\\r/*\n" (by decide)
  have hlexemes : (Lexeme.ofText (PaddedText.ofString "\r\n\"a\\\r/*\n")).toOption =
      some [⟨.trivia .lineEnd, 2⟩, ⟨.defect .openString, 3⟩, ⟨.trivia .lineEnd, 1⟩,
        ⟨.defect .openComment, 3⟩] := by
    decide +kernel
  rw [hok] at hlexemes
  obtain rfl := Option.some.inj hlexemes
  refine ⟨_, hok, rfl, ?_⟩
  obtain ⟨-, -, -, hline⟩ := h 3 ⟨.defect .openComment, 6, bytes "/*\n"⟩ (by decide +kernel)
  rw [hline]
  decide +kernel

end JavaTokens
