import JavaTokens.Proofs.Groups
import JavaTokens.Proofs.Listing
import JavaTokens.Proofs.LineEnds

/-!
# Lines of the text as it was given

A text is read with its numerals made plain, and its tokens and diagnostics stand on the lines of
the text as it was given.  Whatever is left out ends no line and parts no pair of line ends, so every
byte that stays has as many line ends before it as it had.

    the lines of bytes that stay                                      (endsBefore_plainBytes)
    the lines of tokens and diagnostics                               (lex_originLines)
-/

namespace JavaTokens

open Text Numeral LineTable

/-! ## Bytes that stay -/

namespace LineTable

variable {b : UInt8} {s : List UInt8}

theorem endsBefore_cons_of_isInLine (hb : isInLine b = true) (s : List UInt8) (offset : Nat) :
    endsBefore (b :: s) (offset + 1) = endsBefore s offset := by
  rw [endsBefore, endsLine_of_isInLine hb, if_neg Bool.false_ne_true]

/-- A byte that stays has the same number of line ends before it. -/
theorem endsBefore_plainBytes {offset i j : Nat} (h : (keptOffsets s offset)[j]? = some i) :
    ∃ k, i = offset + k ∧ endsBefore (plainBytes s) j = endsBefore s k := by
  fun_induction plainBytes s generalizing offset j with
  | case1 a b c rest hdrops ih =>
    obtain ⟨ha, hb, hc⟩ := isInLine_of_dropsMiddleByte hdrops
    rw [keptOffsets, if_pos hdrops] at h
    rcases j with _ | _ | j
    · cases h
      exact ⟨0, rfl, by rw [endsBefore_zero, endsBefore_zero]⟩
    · cases h
      refine ⟨2, rfl, ?_⟩
      rw [endsBefore_cons_of_isInLine ha, endsBefore_cons_of_isInLine ha,
        endsBefore_cons_of_isInLine hb, endsBefore_zero, endsBefore_zero]
    · obtain ⟨k, rfl, hk⟩ := ih h
      refine ⟨k + 3, by omega, ?_⟩
      rw [endsBefore_cons_of_isInLine ha, endsBefore_cons_of_isInLine hc,
        endsBefore_cons_of_isInLine ha, endsBefore_cons_of_isInLine hb,
        endsBefore_cons_of_isInLine hc, hk]
  | case2 a b c rest hdrops ih =>
    rw [keptOffsets, if_neg hdrops] at h
    rcases j with _ | j
    · cases h
      exact ⟨0, rfl, by rw [endsBefore_zero, endsBefore_zero]⟩
    · obtain ⟨k, rfl, hk⟩ := ih h
      refine ⟨k + 1, by omega, ?_⟩
      -- whether a line ends depends on the next byte only, which always stays
      have hends : endsLine a (plainBytes (b :: c :: rest)) = endsLine a (b :: c :: rest) := by
        rw [endsLine, endsLine, head?_plainBytes]
      rw [endsBefore, endsBefore, hends, hk]
  | case3 s hs =>
    have hkept : keptOffsets s offset = List.range' offset s.length := by
      rcases s with _ | ⟨a, _ | ⟨b, _ | ⟨c, rest⟩⟩⟩
      · rfl
      · rfl
      · rfl
      · exact absurd rfl (hs a b c rest)
    rw [hkept] at h
    obtain ⟨hj, hi⟩ := List.getElem?_eq_some_iff.mp h
    rw [List.getElem_range', Nat.one_mul] at hi
    exact ⟨j, hi.symm, rfl⟩

end LineTable

/-! ## Offsets in the given text -/

/-- Of each byte of the text that is read, the offset at which it stands in the given one. -/
def Settings.origin (settings : Settings) (text : String) : List Nat :=
  if settings.plainNumerals then keptOffsets (bytes text) 0 else List.range (bytes text).length

variable (settings : Settings) (text : String)

theorem pairwise_origin : (settings.origin text).Pairwise (· < ·) := by
  unfold Settings.origin
  split
  · exact pairwise_keptOffsets _ 0
  · exact List.pairwise_lt_range

/-- The bytes that are read are those of the given text at their offsets there. -/
theorem map_getElem?_origin :
    (settings.origin text).map ((bytes text)[·]?) = (bytes (settings.source text)).map some := by
  unfold Settings.origin Settings.source
  split
  · rw [bytes_plain]
    exact map_getElem?_keptOffsets [] (bytes text)
  · apply List.ext_getElem?
    intro i
    rcases Nat.lt_or_ge i (bytes text).length with hi | hi
    · simp [hi]
    · simp [hi]

theorem endsBefore_source {i j : Nat} (h : (settings.origin text)[j]? = some i) :
    endsBefore (bytes (settings.source text)) j = endsBefore (bytes text) i := by
  unfold Settings.origin at h
  unfold Settings.source
  split at h
  · next hplain =>
    obtain ⟨k, rfl, hk⟩ := endsBefore_plainBytes h
    rw [if_pos hplain, bytes_plain, hk, Nat.zero_add]
  · next hplain =>
    obtain ⟨hj, hi⟩ := List.getElem?_eq_some_iff.mp h
    rw [List.getElem_range] at hi
    rw [if_neg hplain, hi]

/-- What begins at an offset of the text that is read is on the line of its byte in the given
one. -/
theorem lineOf_source {j : Nat}
    (h : j < (PaddedText.ofString (settings.source text)).bytes.length) :
    ∃ i, (settings.origin text)[j]? = some i ∧
      (ofBytes (PaddedText.ofString (settings.source text)).bytes).lineOf j =
        endsBefore (bytes text) i + 1 := by
  have hlen := congrArg List.length (map_getElem?_origin settings text)
  rw [List.length_map, List.length_map] at hlen
  have htake : (PaddedText.ofString (settings.source text)).bytes =
      (bytes (settings.source text)).take maxOffset := rfl
  have hj : j < (settings.origin text).length ∧ j < maxOffset := by
    rw [htake, List.length_take] at h
    omega
  refine ⟨_, List.getElem?_eq_getElem hj.1, ?_⟩
  rw [lineOf_eq_endsBefore (PaddedText.ofString (settings.source text)).length_le, htake,
    endsBefore_take _ hj.2, endsBefore_source settings text (List.getElem?_eq_getElem hj.1)]

/-! ## Tokens and diagnostics -/

theorem lineOf_span {span : Span}
    (h : span ∈ spansFrom 0 (pieces (PaddedText.ofString (settings.source text)).bytes)) :
    ∃ i, (settings.origin text)[span.offset]? = some i ∧
      (ofBytes (PaddedText.ofString (settings.source text)).bytes).lineOf span.offset =
        endsBefore (bytes text) i + 1 :=
  lineOf_source settings text (offset_lt_of_mem_pieces h)

/-- The tokens that a span puts are on the line of its first byte. -/
theorem exists_group_origin :
    ∀ span ∈ spansFrom 0 (pieces (PaddedText.ofString (settings.source text)).bytes),
      ∀ before, ∃ group : List Token,
        settings.emitSpan (ofBytes (PaddedText.ofString (settings.source text)).bytes) before span =
          group.reverse ++ before ∧
        ∃ i, (settings.origin text)[span.offset]? = some i ∧
          ∀ t ∈ group, t.line = endsBefore (bytes text) i + 1 := by
  intro span hspan before
  obtain ⟨i, hi, hline⟩ := lineOf_span settings text hspan
  obtain ⟨group, hgroup, hgroupLine⟩ := exists_emitSpan settings
    (ofBytes (PaddedText.ofString (settings.source text)).bytes) before span
  refine ⟨group.reverse, by rw [hgroup, List.reverse_reverse], i, hi, ?_⟩
  intro t ht
  rw [hgroupLine t (List.mem_reverse.mp ht), hline]

variable {settings text}

/-- A text that is listed is cut into its pieces. -/
theorem ofText_of_lex {listing : Listing} (h : lex settings text = .ok listing) :
    Lexeme.ofText (PaddedText.ofString (settings.source text)) =
      .ok ((pieces (PaddedText.ofString (settings.source text)).bytes).map Piece.lexeme) := by
  rw [lex_eq_map] at h
  cases hread : Lexeme.ofText (PaddedText.ofString (settings.source text)) with
  | error fault =>
    rw [hread] at h
    cases h
  | ok lexemes => rw [eq_of_ofText hread]

/-- Making numerals plain keeps the lines: a byte that stays is on the line on which it was, and the
number of lines is the same.  The tokens of a span and a diagnostic stand on the line of the given
text on which their first byte is: one more than the number of line ends before it. -/
theorem lex_originLines (settings : Settings) (text : String) :
    let s := bytes text
    (text.utf8ByteSize ≤ maxOffset →
      (ofBytes (bytes (plain text))).lineCount = (ofBytes s).lineCount ∧
      (∀ i j : Nat, (keptOffsets s 0)[j]? = some i →
        (bytes (plain text))[j]? = s[i]? ∧
          (ofBytes (bytes (plain text))).lineOf j = (ofBytes s).lineOf i) ∧
      ∃ listing, lex settings text = .ok listing) ∧
    (settings.origin text).Pairwise (· < ·) ∧
    (settings.origin text).map (s[·]?) = (bytes (settings.source text)).map some ∧
    ∀ listing, lex settings text = .ok listing →
      ∃ (lexemes : List Lexeme) (groups : List (List Token)),
        let source := PaddedText.ofString (settings.source text)
        let spans := Span.ofLexemes source lexemes
        Lexeme.ofText source = .ok lexemes ∧
        Groups settings (ofBytes source.bytes) spans groups ∧
        listing.tokens.toList = groups.flatten ∧
        List.Forall₂ (fun span group => ∃ i, (settings.origin text)[span.offset]? = some i ∧
          ∀ t ∈ group, t.line = endsBefore s i + 1) spans groups ∧
        ∀ d ∈ listing.diagnostics, ∃ i, (settings.origin text)[d.offset]? = some i ∧
          d.line = endsBefore s i + 1 := by
  intro s
  refine ⟨?_, pairwise_origin settings text, map_getElem?_origin settings text, ?_⟩
  · intro hsize
    have hplain := utf8ByteSize_plain_le text
    refine ⟨lineCount_plain hsize, ?_, _, lex_eq (settings.utf8ByteSize_source_le hsize)⟩
    intro i j hkept
    obtain ⟨k, hk, hends⟩ := endsBefore_plainBytes hkept
    rw [Nat.zero_add] at hk
    rw [lineOf_eq_endsBefore (by rw [length_bytes]; omega),
      lineOf_eq_endsBefore (by rwa [length_bytes]), bytes_plain, hk, hends]
    exact ⟨hk ▸ getElem?_plainBytes hkept, rfl⟩
  · intro listing hlex
    have hlexemes := ofText_of_lex hlex
    obtain rfl := eq_of_lex hlex
    have hspans := ofLexemes_pieces (PaddedText.ofString (settings.source text))
    obtain ⟨groups, hgroups, hall⟩ := exists_groups settings _ (exists_group_origin settings text)
    refine ⟨_, groups, hlexemes, ?_, ?_, ?_, ?_⟩
    · rw [hspans]
      exact hgroups
    · exact hgroups.tokensOf_eq
    · rw [hspans]
      exact hall
    · intro d hd
      obtain ⟨span, hspan, hdefect⟩ := List.mem_filterMap.mp hd
      obtain ⟨_, -, rfl⟩ := Option.map_eq_some_iff.mp hdefect
      exact lineOf_span settings text hspan

/-- A separator that is left out, a line that ends in two bytes, and a binary numeral without its
mark; the defect behind it is found two bytes earlier, and on its line. -/
theorem lex_originLines_separators : ∃ listing : Listing,
    lex {} "1_0\r\n0b1_1 #" = .ok listing ∧
      listing.diagnostics = [⟨9, 1, 2, .strayCharacter⟩] ∧
      (∀ d ∈ listing.diagnostics, ∃ i,
        (Settings.origin {} "1_0\r\n0b1_1 #")[d.offset]? = some i ∧
          d.line = endsBefore (bytes "1_0\r\n0b1_1 #") i + 1) ∧
      (ofBytes (bytes (plain "1_0\r\n0b1_1 #"))).lineOf 5 =
        (ofBytes (bytes "1_0\r\n0b1_1 #")).lineOf 7 := by
  obtain ⟨hplain, -, -, hlines⟩ := lex_originLines {} "1_0\r\n0b1_1 #"
  obtain ⟨-, hkept, listing, hlex⟩ := hplain (by decide)
  obtain ⟨-, -, -, -, -, -, hdiagnostics⟩ := hlines listing hlex
  have hdefects : (lex {} "1_0\r\n0b1_1 #").toOption.map (fun l => l.diagnostics) =
      some [⟨9, 1, 2, .strayCharacter⟩] := by
    decide +kernel
  rw [hlex] at hdefects
  exact ⟨listing, hlex, Option.some.inj hdefects, hdiagnostics,
    (hkept 7 5 (by decide +kernel)).2⟩

end JavaTokens
