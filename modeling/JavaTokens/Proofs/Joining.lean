import Mathlib.Data.List.Basic
import JavaTokens.Proofs.Emission
import JavaTokens.Proofs.Lines

/-!
# Texts joined at a line feed

The listing of two texts with a line feed between them is the listing of the first, and behind it
that of the second, further down and further behind.  No lexeme goes on over the line feed, no
numeral is made plain across it, lines add up, and closers in the second text look back no further
than the last token of the first.
-/

namespace JavaTokens

open Text Cut

/-! ## Pieces -/

def lineFeedPiece : Piece := ⟨.trivia .lineEnd, ['\n'.toUInt8]⟩

/-- The pieces of two texts are not changed by joining them, if no comment is left open. -/
theorem pieces_append_lineFeed {s t : List UInt8} (hs : IsUtf8 s) (ht : IsUtf8 t)
    (hret : s.getLast? ≠ some '\r'.toUInt8)
    (hopen : ∀ p ∈ pieces s, p.terminal ≠ .defect .openComment) :
    pieces (s ++ '\n'.toUInt8 :: t) = pieces s ++ lineFeedPiece :: pieces t := by
  have hfeed : IsUtf8 ('\n'.toUInt8 :: t) := IsUtf8.append ⟨['\n'], rfl⟩ ht
  induction s using pieces_induction with
  | nil =>
    have hfirst : first (['\n'.toUInt8] ++ t) = ⟨.trivia .lineEnd, t⟩ := rfl
    rw [pieces_nil]
    exact pieces_cons (List.cons_ne_nil _ _) hfirst
  | cons k w s hw hk h ih =>
    have hs' : IsUtf8 s := isUtf8_of_first hs h
    have hret' : s.getLast? ≠ some '\r'.toUInt8 := by
      intro hlast
      rw [List.getLast?_append, hlast] at hret
      exact hret rfl
    have hne : w ++ s ≠ ['\r'.toUInt8] := by
      intro heq
      rw [heq] at hret
      exact hret rfl
    rw [pieces_cons hw h, List.forall_mem_cons] at hopen
    have hjoined : first (w ++ (s ++ '\n'.toUInt8 :: t)) = ⟨k, s ++ '\n'.toUInt8 :: t⟩ := by
      have hkeep := first_append_lineFeed (hs.append hfeed) (by simp [hw]) hne
        (by rw [h]; exact hopen.1)
      rw [h, List.append_assoc] at hkeep
      exact hkeep
    rw [pieces_cons hw h, List.append_assoc, pieces_cons hw hjoined, ih hs' hret' hopen.2]
    rfl

/-! ## Tokens -/

/-- The token a number of lines further down. -/
def Token.below (lines : Nat) (t : Token) : Token := { t with line := t.line + lines }

/-- The diagnostic a number of bytes further behind and a number of lines further down. -/
def Diagnostic.behind (bytes lines : Nat) (d : Diagnostic) : Diagnostic :=
  { d with offset := d.offset + bytes, line := d.line + lines }

/-- Looking back for an opening goes no further than a text that is no part of type arguments. -/
theorem closes_append {before after : List String}
    (h : ∀ t ∈ after.head?, t ≠ "<" ∧ TypeArguments.isPart t = false) :
    TypeArguments.closes (before ++ after) = TypeArguments.closes before := by
  unfold TypeArguments.closes TypeArguments.openIn
  rw [List.find?_append]
  cases hbefore : before.find? fun a => !TypeArguments.isPart (id a) with
  | some t => rfl
  | none =>
    rcases after with _ | ⟨t, after⟩
    · rfl
    · obtain ⟨hne, hpart⟩ := h t rfl
      simp [hpart, hne]

theorem texts_append (settings : Settings) {before after : List String}
    (h : settings.splitClosers = false ∨
      ∀ t ∈ after.head?, t ≠ "<" ∧ TypeArguments.isPart t = false)
    (k : Terminal) (text : String) :
    settings.texts (before ++ after) k text = settings.texts before k text := by
  unfold Settings.texts
  rcases h with h | h
  · simp only [h, Bool.and_false, Bool.false_and]
  · rw [closes_append h]

theorem foldl_emitSpan_congr (settings : Settings) {table table' : LineTable} {spans : List Span}
    (h : ∀ span ∈ spans, table.lineOf span.offset = table'.lineOf span.offset)
    (before : List Token) :
    spans.foldl (settings.emitSpan table) before = spans.foldl (settings.emitSpan table') before := by
  apply List.foldl_ext
  intro before span hspan
  rw [Settings.emitSpan_eq, Settings.emitSpan_eq, h span hspan]

/-- Further behind, the same tokens are put further down, on others that no closer looks past. -/
theorem foldl_emitSpan_behind (settings : Settings) {table table' : LineTable} {bytes lines : Nat}
    (hline : ∀ offset, table.lineOf (offset + bytes) = table'.lineOf offset + lines)
    {after : List Token}
    (hafter : settings.splitClosers = false ∨
      ∀ t ∈ (after.map Token.text).head?, t ≠ "<" ∧ TypeArguments.isPart t = false)
    (ps : List Piece) (offset : Nat) (before : List Token) :
    (spansFrom (offset + bytes) ps).foldl (settings.emitSpan table)
        (before.map (Token.below lines) ++ after) =
      ((spansFrom offset ps).foldl (settings.emitSpan table') before).map (Token.below lines) ++
        after := by
  induction ps generalizing offset before with
  | nil => rfl
  | cons p ps ih =>
    have hoffset : offset + bytes + p.bytes.length = offset + p.bytes.length + bytes := by omega
    have htexts : (before.map (Token.below lines) ++ after).map Token.text =
        before.map Token.text ++ after.map Token.text := by
      simp [Token.below, Function.comp_def]
    rw [spansFrom, spansFrom, List.foldl_cons, List.foldl_cons, Settings.emitSpan_eq,
      Settings.emitSpan_eq, tokenText?_eq, tokenText?_eq, hline, htexts, hoffset]
    cases (if p.terminal.isToken then decode? p.bytes else none) with
    | none => exact ih _ before
    | some text =>
      have hgroup := ih (offset + p.bytes.length)
        ((settings.texts (before.map Token.text) p.terminal text).map
          (Token.mk · (table'.lineOf offset)) ++ before)
      rw [List.map_append, List.map_map, List.append_assoc] at hgroup
      simp only [texts_append settings hafter]
      exact hgroup

/-! ## Diagnostics -/

theorem filterMap_diagnostic?_congr {table table' : LineTable} {spans : List Span}
    (h : ∀ span ∈ spans, table.lineOf span.offset = table'.lineOf span.offset) :
    spans.filterMap (Span.diagnostic? table) = spans.filterMap (Span.diagnostic? table') := by
  apply List.filterMap_congr
  intro span hspan
  rw [Span.diagnostic?, Span.diagnostic?, h span hspan]

theorem filterMap_diagnostic?_behind {table table' : LineTable} {bytes lines : Nat}
    (hline : ∀ offset, table.lineOf (offset + bytes) = table'.lineOf offset + lines)
    (ps : List Piece) (offset : Nat) :
    (spansFrom (offset + bytes) ps).filterMap (Span.diagnostic? table) =
      ((spansFrom offset ps).filterMap (Span.diagnostic? table')).map
        (Diagnostic.behind bytes lines) := by
  induction ps generalizing offset with
  | nil => rfl
  | cons p ps ih =>
    have hoffset : offset + bytes + p.bytes.length = offset + p.bytes.length + bytes := by omega
    rw [spansFrom, spansFrom, List.filterMap_cons, List.filterMap_cons, hoffset, ih,
      Span.diagnostic?, Span.diagnostic?, hline]
    cases p.terminal.defect? <;> rfl

/-- A comment that is left open is reported. -/
theorem terminal_ne_openComment {bytes : List UInt8}
    (h : ∀ d ∈ diagnosticsOf bytes, d.defect ≠ .openComment) :
    ∀ p ∈ pieces bytes, p.terminal ≠ .defect .openComment := by
  intro p hp hterminal
  obtain ⟨span, hspan, hsame⟩ := exists_span_of_mem hp 0
  have hreport : Span.diagnostic? (LineTable.ofBytes bytes) span =
      some ⟨span.offset, span.bytes.length, (LineTable.ofBytes bytes).lineOf span.offset,
        .openComment⟩ := by
    rw [Span.diagnostic?, hsame, hterminal]
    rfl
  exact h _ (List.mem_filterMap.mpr ⟨span, hspan, hreport⟩) rfl

/-! ## Joined listings -/

section

variable {s t : List UInt8}

theorem spansFrom_append_lineFeed (hs : IsUtf8 s) (ht : IsUtf8 t)
    (hret : s.getLast? ≠ some '\r'.toUInt8)
    (hopen : ∀ p ∈ pieces s, p.terminal ≠ .defect .openComment) :
    spansFrom 0 (pieces (s ++ '\n'.toUInt8 :: t)) =
      spansFrom 0 (pieces s) ++ ⟨.trivia .lineEnd, s.length, ['\n'.toUInt8]⟩ ::
        spansFrom (0 + (s.length + 1)) (pieces t) := by
  rw [pieces_append_lineFeed hs ht hret hopen, spansFrom_append, flatMap_pieces, Nat.zero_add,
    Nat.zero_add]
  rfl

/-- The spans of the first text stand on the lines that they have in it alone. -/
theorem lineOf_of_mem_spansFrom (hret : s.getLast? ≠ some '\r'.toUInt8)
    (hsize : (s ++ '\n'.toUInt8 :: t).length ≤ maxOffset) :
    ∀ span ∈ spansFrom 0 (pieces s),
      (LineTable.ofBytes (s ++ '\n'.toUInt8 :: t)).lineOf span.offset =
        (LineTable.ofBytes s).lineOf span.offset := by
  intro span hspan
  exact LineTable.lineOf_append_left hret hsize (offset_lt_of_mem_pieces hspan).le

theorem tokensOf_append_lineFeed (settings : Settings) (hs : IsUtf8 s) (ht : IsUtf8 t)
    (hret : s.getLast? ≠ some '\r'.toUInt8)
    (hsize : (s ++ '\n'.toUInt8 :: t).length ≤ maxOffset)
    (hopen : ∀ p ∈ pieces s, p.terminal ≠ .defect .openComment)
    (hlast : settings.splitClosers = false ∨ ∀ token ∈ (tokensOf settings s).getLast?,
      token.text ≠ "<" ∧ TypeArguments.isPart token.text = false) :
    tokensOf settings (s ++ '\n'.toUInt8 :: t) =
      tokensOf settings s ++
        (tokensOf settings t).map (Token.below (LineTable.ofBytes s).lineCount) := by
  let after := (spansFrom 0 (pieces s)).foldl (settings.emitSpan (LineTable.ofBytes s)) []
  have hafter : settings.splitClosers = false ∨ ∀ text ∈ (after.map Token.text).head?,
      text ≠ "<" ∧ TypeArguments.isPart text = false := by
    apply hlast.imp_right
    intro h text htext
    rw [List.head?_map] at htext
    obtain ⟨token, htoken, rfl⟩ := Option.map_eq_some_iff.mp htext
    apply h
    rw [tokensOf, List.getLast?_reverse]
    exact htoken
  have hbehind := foldl_emitSpan_behind settings (LineTable.lineOf_append_right hret hsize) hafter
    (pieces t) 0 []
  rw [tokensOf, spansFrom_append_lineFeed hs ht hret hopen, List.foldl_append, List.foldl_cons,
    foldl_emitSpan_congr settings (lineOf_of_mem_spansFrom hret hsize)]
  show ((spansFrom (0 + (s.length + 1)) (pieces t)).foldl _ after).reverse = _
  rw [List.map_nil, List.nil_append] at hbehind
  rw [hbehind, List.reverse_append, ← List.map_reverse]
  rfl

theorem diagnosticsOf_append_lineFeed (hs : IsUtf8 s) (ht : IsUtf8 t)
    (hret : s.getLast? ≠ some '\r'.toUInt8)
    (hsize : (s ++ '\n'.toUInt8 :: t).length ≤ maxOffset)
    (hopen : ∀ p ∈ pieces s, p.terminal ≠ .defect .openComment) :
    diagnosticsOf (s ++ '\n'.toUInt8 :: t) =
      diagnosticsOf s ++ (diagnosticsOf t).map
        (Diagnostic.behind (s.length + 1) (LineTable.ofBytes s).lineCount) := by
  rw [diagnosticsOf, spansFrom_append_lineFeed hs ht hret hopen, List.filterMap_append,
    List.filterMap_cons, filterMap_diagnostic?_congr (lineOf_of_mem_spansFrom hret hsize),
    filterMap_diagnostic?_behind (LineTable.lineOf_append_right hret hsize)]
  rfl

end

namespace Settings

/-- A text is made plain line by line, or not at all. -/
theorem bytes_source_append (settings : Settings) (a b : String) :
    bytes (settings.source (a ++ "\n" ++ b)) =
      bytes (settings.source a) ++ '\n'.toUInt8 :: bytes (settings.source b) := by
  have hjoin (s t : String) : bytes (s ++ "\n" ++ t) = bytes s ++ '\n'.toUInt8 :: bytes t := by
    rw [bytes_append, bytes_append, List.append_assoc]
    rfl
  unfold source
  split
  · rw [Numeral.plain_append_lineFeed, hjoin]
  · exact hjoin a b

theorem getLast?_bytes_source (settings : Settings) {text : String}
    (h : text.toList.getLast? ≠ some '\r') :
    (bytes (settings.source text)).getLast? ≠ some '\r'.toUInt8 := by
  intro hlast
  have hchar := getLast?_of_getLast?_bytes (c := '\r') rfl (by decide) hlast
  unfold source at hchar
  split at hchar
  · rw [Numeral.plain_eq, String.toList_ofList, Numeral.getLast?_plainChars] at hchar
    exact h hchar
  · exact h hchar

theorem lineCount_source (settings : Settings) {text : String} (h : text.utf8ByteSize ≤ maxOffset) :
    (LineTable.ofBytes (bytes (settings.source text))).lineCount =
      (LineTable.ofBytes (bytes text)).lineCount := by
  unfold source
  split
  · exact LineTable.lineCount_plain h
  · rfl

end Settings

/-- Two texts joined at a line feed are listed one behind the other.  The first one must not end in a
carriage return or leave a comment open, and where closers are split, its last token must be no
opening and no part of type arguments. -/
theorem lex_append_lineFeed (settings : Settings) (a b : String)
    (hsize : (a ++ "\n" ++ b).utf8ByteSize ≤ maxOffset) (hret : a.toList.getLast? ≠ some '\r') :
    ∃ first second joined : Listing, lex settings a = .ok first ∧ lex settings b = .ok second ∧
      lex settings (a ++ "\n" ++ b) = .ok joined ∧
      ((∀ d ∈ first.diagnostics, d.defect ≠ .openComment) →
        (settings.splitClosers = false ∨ first.tokens = #[] ∨ ∃ last,
          first.tokens.back? = some last ∧ last.text ≠ "<" ∧
            TypeArguments.isPart last.text = false) →
        let lines := (LineTable.ofBytes (bytes a)).lineCount
        let size := (settings.source a).utf8ByteSize
        joined.tokens.toList =
            first.tokens.toList ++ second.tokens.toList.map (Token.below lines) ∧
          joined.diagnostics =
            first.diagnostics ++ second.diagnostics.map (Diagnostic.behind (size + 1) lines)) := by
  have hsizes : a.utf8ByteSize + 1 + b.utf8ByteSize ≤ maxOffset := by
    rwa [String.utf8ByteSize_append, String.utf8ByteSize_append] at hsize
  have ha := settings.utf8ByteSize_source_le (by omega : a.utf8ByteSize ≤ maxOffset)
  have hb := settings.utf8ByteSize_source_le (by omega : b.utf8ByteSize ≤ maxOffset)
  have hab := settings.utf8ByteSize_source_le hsize
  have hbytes := settings.bytes_source_append a b
  refine ⟨_, _, _, lex_eq ha, lex_eq hb, lex_eq hab, ?_⟩
  intro hopen hlast
  have hret' := settings.getLast?_bytes_source hret
  have hsize' : (bytes (settings.source a) ++ '\n'.toUInt8 ::
      bytes (settings.source b)).length ≤ maxOffset := by
    rwa [← hbytes, length_bytes]
  have hopen' := terminal_ne_openComment hopen
  have hlines := settings.lineCount_source (by omega : a.utf8ByteSize ≤ maxOffset)
  have hcut : settings.splitClosers = false ∨
      ∀ token ∈ (tokensOf settings (bytes (settings.source a))).getLast?,
        token.text ≠ "<" ∧ TypeArguments.isPart token.text = false := by
    rcases hlast with hsplit | hempty | ⟨last, hback, hlast⟩
    · exact .inl hsplit
    · have hnil : tokensOf settings (bytes (settings.source a)) = [] :=
        congrArg Array.toList hempty
      rw [hnil]
      exact .inr nofun
    · have hback' : (tokensOf settings (bytes (settings.source a))).getLast? = some last := by
        rw [← List.back?_toArray]
        exact hback
      right
      intro token htoken
      rw [hback', Option.mem_some_iff] at htoken
      rwa [← htoken]
  have htokens := tokensOf_append_lineFeed settings (isUtf8_bytes _) (isUtf8_bytes _) hret' hsize'
    hopen' hcut
  have hdiagnostics := diagnosticsOf_append_lineFeed (isUtf8_bytes _) (isUtf8_bytes _) hret' hsize'
    hopen'
  rw [← hbytes, hlines] at htokens hdiagnostics
  rw [length_bytes] at hdiagnostics
  exact ⟨htokens, hdiagnostics⟩

/-- A string that is left open ends at the line feed, and its diagnostic stays where it is. -/
theorem lex_append_lineFeed_openString : ∃ first second joined : Listing,
    lex {} "n = 1_0; \"é" = .ok first ∧ lex {} "A<B>> #" = .ok second ∧
      lex {} ("n = 1_0; \"é" ++ "\n" ++ "A<B>> #") = .ok joined ∧
      joined.tokens.toList = first.tokens.toList ++ second.tokens.toList.map (Token.below 1) ∧
      joined.diagnostics = first.diagnostics ++ second.diagnostics.map (Diagnostic.behind 12 1) := by
  obtain ⟨first, second, joined, hfirst, hsecond, hjoined, h⟩ :=
    lex_append_lineFeed {} "n = 1_0; \"é" "A<B>> #" (by decide) (by decide)
  have hfacts : (lex {} "n = 1_0; \"é").toOption.map (fun l =>
      (l.diagnostics.map Diagnostic.defect, l.tokens.back?)) =
        some ([.openString], some ⟨";", 1⟩) := by
    decide +kernel
  rw [hfirst] at hfacts
  obtain ⟨hdefects, hback⟩ := Prod.mk.inj (Option.some.inj hfacts)
  have hopen : ∀ d ∈ first.diagnostics, d.defect ≠ .openComment := by
    intro d hd hopen
    have hmem := List.mem_map_of_mem (f := Diagnostic.defect) hd
    rw [hdefects, hopen, List.mem_singleton] at hmem
    cases hmem
  obtain ⟨htokens, hdiagnostics⟩ :=
    h hopen (.inr (.inr ⟨_, hback, by decide, by decide +kernel⟩))
  exact ⟨first, second, joined, hfirst, hsecond, hjoined, htokens, hdiagnostics⟩

end JavaTokens
