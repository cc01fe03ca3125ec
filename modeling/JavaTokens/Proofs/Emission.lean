import JavaTokens.Lexer
import JavaTokens.Proofs.Partition
import JavaTokens.Proofs.Plain

/-!
# From pieces to tokens

What becomes of the pieces of a text.  Trivia are left out, every defect is reported once, and every
other span becomes the token or the tokens of its text, all in the order of the text.

    lex settings text = .ok (listingOf settings (bytes of the source))  (lex_eq)
    the listing accounts for every span but trivia                      (lex_accounts)
-/

namespace JavaTokens

open Text

/-! ## Spans -/

/-- The pieces laid out from an offset on. -/
def spansFrom : (offset : Nat) → List Piece → List Span
  | _, [] => []
  | offset, p :: ps => ⟨p.terminal, offset, p.bytes⟩ :: spansFrom (offset + p.bytes.length) ps

theorem layOnto_eq (ps : List Piece) (offset : Nat) (done : List Span) :
    Span.layOnto (ps.map Piece.lexeme) offset (ps.flatMap Piece.bytes) done =
      done.reverse ++ spansFrom offset ps := by
  induction ps generalizing offset done with
  | nil => simp [Span.layOnto, spansFrom]
  | cons p ps ih => simp [Span.layOnto, spansFrom, Piece.lexeme, ih]

theorem ofLexemes_pieces (text : PaddedText) :
    Span.ofLexemes text ((pieces text.bytes).map Piece.lexeme) =
      spansFrom 0 (pieces text.bytes) := by
  have h := layOnto_eq (pieces text.bytes) 0 []
  rwa [flatMap_pieces] at h

theorem spansFrom_append (offset : Nat) (ps qs : List Piece) :
    spansFrom offset (ps ++ qs) =
      spansFrom offset ps ++ spansFrom (offset + (ps.flatMap Piece.bytes).length) qs := by
  induction ps generalizing offset with
  | nil => rfl
  | cons p ps ih => simp [spansFrom, ih, Nat.add_assoc]

/-- A span is told by the lengths before it. -/
theorem getElem?_spansFrom (ps : List Piece) (offset i : Nat) :
    (spansFrom offset ps)[i]? = ps[i]?.map fun p =>
      ⟨p.terminal, offset + ((ps.take i).flatMap Piece.bytes).length, p.bytes⟩ := by
  induction ps generalizing offset i with
  | nil => rfl
  | cons p ps ih =>
    cases i with
    | zero => simp [spansFrom]
    | succ i => simp [spansFrom, ih, Nat.add_assoc]

theorem exists_of_mem_spansFrom {ps : List Piece} {offset : Nat} {span : Span}
    (h : span ∈ spansFrom offset ps) :
    ∃ p ∈ ps, span.terminal = p.terminal ∧ span.bytes = p.bytes := by
  induction ps generalizing offset with
  | nil => cases h
  | cons p ps ih =>
    rcases List.mem_cons.mp h with rfl | h
    · exact ⟨p, List.mem_cons_self, rfl, rfl⟩
    · obtain ⟨q, hq, hspan⟩ := ih h
      exact ⟨q, List.mem_cons_of_mem p hq, hspan⟩

/-- A span of a text alone is the lexeme that it was with text behind it. -/
theorem first_of_mem_spansFrom {s : List UInt8} {offset : Nat} {span : Span}
    (h : span ∈ spansFrom offset (pieces s)) : Cut.first span.bytes = ⟨span.terminal, []⟩ := by
  obtain ⟨p, hp, hterminal, hbytes⟩ := exists_of_mem_spansFrom h
  rw [hterminal, hbytes]
  exact first_of_mem p hp

theorem exists_span_of_mem {ps : List Piece} {p : Piece} (h : p ∈ ps) (offset : Nat) :
    ∃ span ∈ spansFrom offset ps, span.terminal = p.terminal := by
  induction ps generalizing offset with
  | nil => cases h
  | cons q ps ih =>
    rcases List.mem_cons.mp h with rfl | h
    · exact ⟨_, List.mem_cons_self, rfl⟩
    · obtain ⟨span, hspan, hsame⟩ := ih h (offset + q.bytes.length)
      exact ⟨span, List.mem_cons_of_mem _ hspan, hsame⟩

theorem offset_lt_of_mem_spansFrom {ps : List Piece} (hps : ∀ p ∈ ps, p.bytes ≠ []) {offset : Nat} :
    ∀ span ∈ spansFrom offset ps, span.offset < offset + (ps.flatMap Piece.bytes).length := by
  induction ps generalizing offset with
  | nil => exact nofun
  | cons p ps ih =>
    rw [List.forall_mem_cons] at hps
    have hpos := List.length_pos_iff.mpr hps.1
    intro span hspan
    rw [List.flatMap_cons, List.length_append]
    rcases List.mem_cons.mp hspan with rfl | hspan
    · show offset < _
      omega
    · have hlt := ih hps.2 span hspan
      omega

/-- A span begins at a byte of its text. -/
theorem offset_lt_of_mem_pieces {s : List UInt8} {span : Span}
    (h : span ∈ spansFrom 0 (pieces s)) : span.offset < s.length := by
  have hlt := offset_lt_of_mem_spansFrom bytes_ne_nil_of_mem span h
  rwa [flatMap_pieces, Nat.zero_add] at hlt

theorem tokenText?_eq (span : Span) :
    span.tokenText? = if span.terminal.isToken then decode? span.bytes else none := by
  cases h : span.terminal <;> simp [Span.tokenText?, Terminal.isToken, h]

/-! ## Listings -/

/-- The tokens of a text that is given by its bytes. -/
def tokensOf (settings : Settings) (bytes : List UInt8) : List Token :=
  ((spansFrom 0 (pieces bytes)).foldl (settings.emitSpan (LineTable.ofBytes bytes)) []).reverse

def diagnosticsOf (bytes : List UInt8) : List Diagnostic :=
  (spansFrom 0 (pieces bytes)).filterMap (Span.diagnostic? (LineTable.ofBytes bytes))

def listingOf (settings : Settings) (bytes : List UInt8) : Listing :=
  Listing.ofTokens (tokensOf settings bytes) (diagnosticsOf bytes)

theorem lex_eq_map (settings : Settings) (text : String) :
    lex settings text =
      (Lexeme.ofText (PaddedText.ofString (settings.source text))).map fun _ =>
        listingOf settings (PaddedText.ofString (settings.source text)).bytes := by
  let padded := PaddedText.ofString (settings.source text)
  have hlex : lex settings text = Lexeme.ofText padded >>= fun lexemes =>
      .ok (Listing.ofTokens ((Span.ofLexemes padded lexemes).foldl
          (settings.emitSpan (LineTable.ofBytes padded.bytes)) []).reverse
        ((Span.ofLexemes padded lexemes).filterMap
          (Span.diagnostic? (LineTable.ofBytes padded.bytes)))) := rfl
  rw [hlex]
  cases h : Lexeme.ofText padded with
  | error fault => rfl
  | ok lexemes =>
    have hspans := ofLexemes_pieces padded
    rw [← eq_of_ofText h] at hspans
    show Except.ok _ = Except.ok _
    rw [hspans]
    rfl

/-- Making numerals plain keeps a text within the offsets. -/
theorem Settings.utf8ByteSize_source_le (settings : Settings) {text : String}
    (h : text.utf8ByteSize ≤ maxOffset) : (settings.source text).utf8ByteSize ≤ maxOffset := by
  have hle := Numeral.utf8ByteSize_plain_le text
  unfold source
  split <;> omega

/-- What is read of a text has its listing, if it is a text: a text is cut at `maxOffset` bytes, also
inside a character. -/
theorem lex_of_take {settings : Settings} {text w : String}
    (hw : bytes w = (bytes (settings.source text)).take maxOffset) :
    lex settings text = .ok (listingOf settings (bytes w)) := by
  have hbytes : (PaddedText.ofString (settings.source text)).bytes = bytes w := hw.symm
  have hwhole : Whole (PaddedText.ofString (settings.source text)).bytes := by
    rw [hbytes]
    exact (isUtf8_bytes w).whole
  rw [lex_eq_map, ofText_of_whole hwhole, hbytes]
  rfl

/-- A text of at most `maxOffset` bytes has its listing. -/
theorem lex_eq {settings : Settings} {text : String}
    (h : (settings.source text).utf8ByteSize ≤ maxOffset) :
    lex settings text = .ok (listingOf settings (bytes (settings.source text))) :=
  lex_of_take (PaddedText.bytes_ofString h).symm

/-- What is listed of any text is the listing of the bytes that are read of it. -/
theorem eq_of_lex {settings : Settings} {text : String} {listing : Listing}
    (h : lex settings text = .ok listing) :
    listing = listingOf settings (PaddedText.ofString (settings.source text)).bytes := by
  rw [lex_eq_map] at h
  cases ht : Lexeme.ofText (PaddedText.ofString (settings.source text)) with
  | error fault =>
    rw [ht] at h
    cases h
  | ok lexemes =>
    rw [ht] at h
    cases h
    rfl

/-! ## Texts of tokens -/

namespace Settings

/-- The texts of the tokens that are put for a span behind those of `before`, newest first. -/
def texts (settings : Settings) (before : List String) (terminal : Terminal) (text : String) :
    List String :=
  if terminal.isLiteralText then [Literal.normalText settings.collapseLimit text]
  else if 1 < text.utf8ByteSize && settings.splitClosers && TypeArguments.isCloserRun text
      && TypeArguments.closes before then
    List.replicate text.utf8ByteSize ">"
  else [text]

theorem openIn_map (before : List Token) :
    TypeArguments.openIn Token.text before = TypeArguments.closes (before.map Token.text) := by
  unfold TypeArguments.closes TypeArguments.openIn
  rw [List.find?_map, Option.any_map]
  rfl

theorem emit_eq (settings : Settings) (before : List Token) (terminal : Terminal) (text : String)
    (line : Nat) :
    settings.emit before terminal text line =
      (settings.texts (before.map Token.text) terminal text).map (Token.mk · line) ++ before := by
  unfold emit texts
  rw [openIn_map]
  split
  · rfl
  · split
    · rw [List.map_replicate]
    · rfl

/-- The tokens of one span are alike, or there is only one. -/
theorem texts_reverse (settings : Settings) (before : List String) (terminal : Terminal)
    (text : String) :
    (settings.texts before terminal text).reverse = settings.texts before terminal text := by
  unfold texts
  split
  · rfl
  · split
    · exact List.reverse_replicate
    · rfl

/-- A span puts its texts in front of what is there, or nothing. -/
theorem emitSpan_eq (settings : Settings) (table : LineTable) (before : List Token) (span : Span) :
    settings.emitSpan table before span =
      match span.tokenText? with
      | some text => (settings.texts (before.map Token.text) span.terminal text).map
          (Token.mk · (table.lineOf span.offset)) ++ before
      | none => before := by
  unfold emitSpan
  cases span.tokenText? with
  | none => rfl
  | some text => exact settings.emit_eq before span.terminal text _

end Settings

/-- The text of a piece that is a token. -/
def Piece.text? (p : Piece) : Option String :=
  if p.terminal.isToken then decode? p.bytes else none

/-- The texts of the tokens that are put for some pieces, on those of `before`, newest first. -/
def Settings.textsOnto (settings : Settings) : (before : List String) → List Piece → List String
  | before, [] => before
  | before, p :: ps =>
    match p.text? with
    | some text => settings.textsOnto (settings.texts before p.terminal text ++ before) ps
    | none => settings.textsOnto before ps

/-- What the texts of tokens are depends on no lines and no offsets. -/
theorem map_text_foldl (settings : Settings) (table : LineTable) (ps : List Piece) (offset : Nat)
    (before : List Token) :
    ((spansFrom offset ps).foldl (settings.emitSpan table) before).map Token.text =
      settings.textsOnto (before.map Token.text) ps := by
  induction ps generalizing offset before with
  | nil => rfl
  | cons p ps ih =>
    rw [spansFrom, List.foldl_cons, ih, Settings.emitSpan_eq, tokenText?_eq, Settings.textsOnto,
      Piece.text?]
    cases (if p.terminal.isToken then decode? p.bytes else none) with
    | none => rfl
    | some text => simp [Function.comp_def]

theorem map_text_tokensOf (settings : Settings) (bytes : List UInt8) :
    (tokensOf settings bytes).map Token.text = (settings.textsOnto [] (pieces bytes)).reverse := by
  rw [tokensOf, List.map_reverse, map_text_foldl]
  rfl

/-! ## Runs of closers -/

/-- A text of closers is as long as it says. -/
theorem eq_replicate_of_isCloserRun {text : String} (h : TypeArguments.isCloserRun text = true) :
    text = String.ofList (List.replicate text.toList.length '>') := by
  simp only [TypeArguments.isCloserRun, Bool.and_eq_true, List.all_eq_true] at h
  apply String.toList_injective
  rw [String.toList_ofList]
  exact List.eq_replicate_of_mem fun c hc => eq_of_beq (h.2 c hc)

/-- No lexeme holds more than three closers. -/
theorem eq_of_isCloserRun {text : String} {k : Terminal}
    (hfirst : Cut.first (bytes text) = ⟨k, []⟩) (hrun : TypeArguments.isCloserRun text = true)
    (hlen : 1 < text.utf8ByteSize) : text = ">>" ∨ text = ">>>" := by
  have htext := eq_replicate_of_isCloserRun hrun
  generalize text.toList.length = n at htext
  have hbytes : bytes text = List.replicate n '>'.toUInt8 := by
    rw [htext, bytes_replicate (b := '>'.toUInt8) rfl]
  have hsize : text.utf8ByteSize = n := by
    rw [← length_bytes, hbytes, List.length_replicate]
  obtain rfl | rfl | hn : n = 2 ∨ n = 3 ∨ 4 ≤ n := by omega
  · exact .inl htext
  · exact .inr htext
  · obtain ⟨m, rfl⟩ : ∃ m, n = m + 4 := ⟨n - 4, by omega⟩
    have hgreater (s : List UInt8) : (Cut.first ('>'.toUInt8 :: '>'.toUInt8 :: '>'.toUInt8 ::
        '>'.toUInt8 :: s)).rest = '>'.toUInt8 :: s := rfl
    have hrest := congrArg Cut.rest hfirst
    rw [hbytes] at hrest
    exact absurd ((hgreater _).symm.trans hrest) (List.cons_ne_nil _ _)

/-! ## Accounts -/

/-- What the text of a span becomes: a normal text, itself, or its closers one by one. -/
inductive Emits (settings : Settings) : Terminal → String → List String → Prop
  | literal {t : Terminal} {text : String} : t.isLiteralText = true →
      Emits settings t text [Literal.normalText settings.collapseLimit text]
  | whole {t : Terminal} {text : String} : t.isLiteralText = false → Emits settings t text [text]
  | closers {t : Terminal} {text : String} : t.isLiteralText = false →
      settings.splitClosers = true → text = ">>" ∨ text = ">>>" →
      Emits settings t text (List.replicate text.utf8ByteSize ">")

/-- The tokens and diagnostics that account for some spans, with the lines given by offset.  Each
span is one diagnostic, or its bytes are a text and what that emits are the next tokens. -/
inductive Accounts (settings : Settings) (line : Nat → Nat) :
    List Span → List Token → List Diagnostic → Prop
  | nil : Accounts settings line [] [] []
  | defect {span : Span} {d : Defect} {spans : List Span} {tokens : List Token}
      {diagnostics : List Diagnostic} :
      span.terminal = .defect d → Accounts settings line spans tokens diagnostics →
      Accounts settings line (span :: spans) tokens
        (⟨span.offset, span.bytes.length, line span.offset, d⟩ :: diagnostics)
  | token {span : Span} {text : String} {texts : List String} {spans : List Span}
      {tokens : List Token} {diagnostics : List Diagnostic} :
      span.terminal.isToken = true → decode? span.bytes = some text →
      Emits settings span.terminal text texts → Accounts settings line spans tokens diagnostics →
      Accounts settings line (span :: spans)
        (texts.map (Token.mk · (line span.offset)) ++ tokens) diagnostics

theorem emits_texts {settings : Settings} {before : List String} {k : Terminal} {text : String}
    (hfirst : Cut.first (bytes text) = ⟨k, []⟩) :
    Emits settings k text (settings.texts before k text) := by
  unfold Settings.texts
  cases hk : k.isLiteralText with
  | true => exact .literal hk
  | false =>
    rw [if_neg Bool.false_ne_true]
    split
    · next h =>
      simp only [Bool.and_eq_true, decide_eq_true_eq] at h
      obtain ⟨⟨⟨hlen, hsplit⟩, hrun⟩, -⟩ := h
      exact .closers hk hsplit (eq_of_isCloserRun hfirst hrun hlen)
    · exact .whole hk

theorem escape?_ne_empty {text escaped : String} (h : text ≠ "")
    (he : Literal.escape? text = some escaped) : escaped ≠ "" := by
  unfold Literal.escape? at he
  split at he
  · cases he
    intro hempty
    have hchar : ∀ c, Literal.escapeChar c ≠ [] := by
      intro c
      unfold Literal.escapeChar
      repeat' split
      all_goals exact List.cons_ne_nil _ _
    have hchars := congrArg String.toList hempty
    rw [String.toList_ofList, String.toList_empty, List.flatMap_eq_nil_iff] at hchars
    obtain ⟨c, cs, hcs⟩ := List.exists_cons_of_ne_nil fun h0 => h (String.toList_eq_nil_iff.mp h0)
    exact hchar c (hchars c (by rw [hcs]; exact List.mem_cons_self))
  · cases he

/-- No text of a token is empty. -/
theorem Emits.ne_empty {settings : Settings} {k : Terminal} {text : String} {texts : List String}
    (h : Emits settings k text texts) (htext : text ≠ "") : ∀ t ∈ texts, t ≠ "" := by
  intro t ht
  cases h with
  | literal hk =>
    rw [List.mem_singleton.mp ht, Literal.normalText, Literal.normalize]
    split
    · show Literal.collapsedText ≠ ""
      decide
    · cases he : Literal.escape? text with
      | some escaped => exact escape?_ne_empty htext he
      | none => exact htext
  | whole hk => rwa [List.mem_singleton.mp ht]
  | closers hk hsplit hrun =>
    rw [List.eq_of_mem_replicate ht]
    exact nofun

/-- A stretch is trivia, a defect, the end or a token, and only one of these. -/
theorem Terminal.cases_kind (t : Terminal) :
    t.isTrivia = true ∧ t.isToken = false ∧ t.defect? = none ∨ (∃ d, t = .defect d) ∨
      t = .finish ∨ t.isToken = true ∧ t.isTrivia = false ∧ t.defect? = none := by
  cases t <;> simp [isTrivia, isToken, defect?]

theorem Terminal.defect?_of_isToken {t : Terminal} (h : t.isToken = true) : t.defect? = none := by
  cases t with
  | defect d => cases h
  | _ => rfl

/-- A text without defects leads to no diagnostics. -/
theorem diagnosticsOf_eq_nil {s : List UInt8} (h : ∀ p ∈ pieces s, p.terminal.defect? = none) :
    diagnosticsOf s = [] := by
  rw [diagnosticsOf, List.filterMap_eq_nil_iff]
  intro span hspan
  obtain ⟨p, hp, hterminal, -⟩ := exists_of_mem_spansFrom hspan
  rw [Span.diagnostic?, hterminal, h p hp]
  rfl

/-- Going through the pieces from any offset, with any tokens before. -/
theorem accounts_spansFrom (settings : Settings) (table : LineTable) {ps : List Piece}
    (hps : ∀ p ∈ ps, IsUtf8 p.bytes ∧ Cut.first p.bytes = ⟨p.terminal, []⟩ ∧ p.terminal ≠ .finish)
    (offset : Nat) (before : List Token) :
    ∃ tokens, ((spansFrom offset ps).foldl (settings.emitSpan table) before).reverse =
        before.reverse ++ tokens ∧
      Accounts settings table.lineOf ((spansFrom offset ps).filter fun s => !s.terminal.isTrivia)
        tokens ((spansFrom offset ps).filterMap (Span.diagnostic? table)) := by
  induction ps generalizing offset before with
  | nil => exact ⟨[], (List.append_nil _).symm, .nil⟩
  | cons p ps ih =>
    rw [List.forall_mem_cons] at hps
    obtain ⟨⟨hutf8, hfirst, hfinish⟩, hps⟩ := hps
    rw [spansFrom, List.foldl_cons, List.filter_cons, List.filterMap_cons, Settings.emitSpan_eq,
      tokenText?_eq, Span.diagnostic?]
    rcases p.terminal.cases_kind with ⟨htrivia, htoken, hdefect⟩ | ⟨d, hk⟩ | hk |
      ⟨htoken, htrivia, hdefect⟩
    · obtain ⟨tokens, hfold, haccounts⟩ := ih hps (offset + p.bytes.length) before
      refine ⟨tokens, ?_, ?_⟩
      · simpa [htoken] using hfold
      · simpa [htrivia, hdefect] using haccounts
    · obtain ⟨tokens, hfold, haccounts⟩ := ih hps (offset + p.bytes.length) before
      have hspan : (Span.mk p.terminal offset p.bytes).terminal = .defect d := hk
      refine ⟨tokens, ?_, ?_⟩
      · simpa [hk, Terminal.isToken] using hfold
      · simpa [hk, Terminal.isTrivia, Terminal.defect?] using haccounts.defect hspan
    · exact absurd hk hfinish
    · obtain ⟨text, htext⟩ := hutf8.exists_bytes
      have hdecode : decode? p.bytes = some text := by rw [htext, decode?_bytes]
      rw [htext] at hfirst
      have hemits : Emits settings p.terminal text
        (settings.texts (before.map Token.text) p.terminal text) := emits_texts hfirst
      let group := (settings.texts (before.map Token.text) p.terminal text).map
        (Token.mk · (table.lineOf offset))
      obtain ⟨tokens, hfold, haccounts⟩ := ih hps (offset + p.bytes.length) (group ++ before)
      refine ⟨group ++ tokens, ?_, ?_⟩
      · simp only [htoken, if_true, hdecode]
        rw [hfold, List.reverse_append, ← List.map_reverse, Settings.texts_reverse,
          List.append_assoc]
      · have hspan : (Span.mk p.terminal offset p.bytes).terminal.isToken = true := htoken
        simpa [htrivia, hdefect] using haccounts.token hspan hdecode hemits

/-- Spans do not overlap, and each one is behind those before it. -/
theorem pairwise_spansFrom {ps : List Piece} (hps : ∀ p ∈ ps, p.bytes ≠ []) (offset : Nat) :
    (∀ span ∈ spansFrom offset ps, offset ≤ span.offset) ∧
      (spansFrom offset ps).Pairwise fun a b =>
        a.offset < b.offset ∧ a.offset + a.bytes.length ≤ b.offset := by
  induction ps generalizing offset with
  | nil => exact ⟨nofun, .nil⟩
  | cons p ps ih =>
    rw [List.forall_mem_cons] at hps
    have hlen := List.length_pos_iff.mpr hps.1
    obtain ⟨hle, hpairs⟩ := ih hps.2 (offset + p.bytes.length)
    rw [spansFrom, List.pairwise_cons, List.forall_mem_cons]
    refine ⟨⟨Nat.le_refl _, ?_⟩, ?_, hpairs⟩
    · intro span hspan
      have hbehind := hle span hspan
      omega
    · intro span hspan
      have hbehind := hle span hspan
      have hlt : offset < span.offset := by omega
      exact ⟨hlt, hbehind⟩

theorem Accounts.ne_empty {settings : Settings} {line : Nat → Nat} {spans : List Span}
    {tokens : List Token} {diagnostics : List Diagnostic}
    (h : Accounts settings line spans tokens diagnostics) (hspans : ∀ s ∈ spans, s.bytes ≠ []) :
    ∀ t ∈ tokens, t.text ≠ "" := by
  induction h with
  | nil => exact nofun
  | defect _ _ ih => exact ih (List.forall_mem_cons.mp hspans).2
  | token _ hdecode hemits _ ih =>
    rw [List.forall_mem_cons] at hspans
    have htext := eq_bytes_of_decode? hdecode
    intro t ht
    rcases List.mem_append.mp ht with ht | ht
    · obtain ⟨text, hmem, rfl⟩ := List.mem_map.mp ht
      refine hemits.ne_empty ?_ text hmem
      rintro rfl
      exact hspans.1 htext
    · exact ih hspans.2 t ht

/-- The bytes of a piece stand behind those of the pieces before it. -/
theorem take_drop_of_getElem? {ps : List Piece} {i : Nat} {p : Piece} (h : ps[i]? = some p) :
    ((ps.flatMap Piece.bytes).drop ((ps.take i).flatMap Piece.bytes).length).take p.bytes.length =
      p.bytes := by
  induction ps generalizing i with
  | nil => cases h
  | cons q ps ih =>
    cases i with
    | zero =>
      cases h
      simp
    | succ i =>
      rw [List.getElem?_cons_succ] at h
      have hdrop := ih h
      rw [List.take_succ_cons, List.flatMap_cons, List.flatMap_cons, List.length_append,
        ← List.drop_drop, List.drop_left]
      exact hdrop

/-- The tokens and diagnostics of a text account for all of its spans but trivia, one after the
other.  A span is told by the lengths of the lexemes before it.  Diagnostics do not overlap, and no
token is empty. -/
theorem lex_accounts (settings : Settings) (text : String) (hsize : text.utf8ByteSize ≤ maxOffset) :
    ∃ (lexemes : List Lexeme) (listing : Listing),
      Lexeme.ofText (PaddedText.ofString (settings.source text)) = .ok lexemes ∧
      lex settings text = .ok listing ∧
      let s := bytes (settings.source text)
      let spans := Span.ofLexemes (PaddedText.ofString (settings.source text)) lexemes
      let offset (i : Nat) := ((lexemes.take i).map Lexeme.length).sum
      (∀ i : Nat, spans[i]? = lexemes[i]?.map fun l =>
        ⟨l.terminal, offset i, (s.drop (offset i)).take l.length⟩) ∧
      Accounts settings (LineTable.ofBytes s).lineOf (spans.filter fun s => !s.terminal.isTrivia)
        listing.tokens.toList listing.diagnostics ∧
      (listing.diagnostics.Pairwise fun d e =>
        d.offset < e.offset ∧ d.offset + d.length ≤ e.offset) ∧
      ∀ t ∈ listing.tokens, t.text ≠ "" := by
  have hsource := settings.utf8ByteSize_source_le hsize
  have hbytes := PaddedText.bytes_ofString hsource
  have hutf8 := isUtf8_bytes (settings.source text)
  have hspans := ofLexemes_pieces (PaddedText.ofString (settings.source text))
  have htext := ofText_of_whole (hbytes ▸ hutf8.whole)
  rw [hbytes] at hspans htext
  obtain ⟨tokens, hfold, haccounts⟩ := accounts_spansFrom settings
    (LineTable.ofBytes (bytes (settings.source text)))
    (fun p hp => ⟨isUtf8_of_mem hutf8 p hp, first_of_mem p hp, terminal_ne_finish_of_mem p hp⟩) 0 []
  have htokens : tokensOf settings (bytes (settings.source text)) = tokens := hfold
  refine ⟨_, _, htext, lex_eq hsource, ?_, ?_, ?_, ?_⟩
  · intro i
    have hoffset := sum_lengths ((pieces (bytes (settings.source text))).take i)
    rw [List.map_take] at hoffset
    rw [hspans, getElem?_spansFrom, List.getElem?_map, Option.map_map]
    cases hp : (pieces (bytes (settings.source text)))[i]? with
    | none => rfl
    | some p =>
      have hbytes := take_drop_of_getElem? hp
      rw [flatMap_pieces] at hbytes
      simp only [Option.map_some, Function.comp_apply, hoffset, Piece.lexeme, hbytes, Nat.zero_add]
  · rw [hspans]
    show Accounts _ _ _ (tokensOf _ _).toArray.toList _
    rw [htokens]
    exact haccounts
  · refine (pairwise_spansFrom bytes_ne_nil_of_mem 0).2.filterMap _ ?_
    rintro a a' h d hd d' hd'
    obtain ⟨_, -, rfl⟩ := Option.map_eq_some_iff.mp hd
    obtain ⟨_, -, rfl⟩ := Option.map_eq_some_iff.mp hd'
    exact h
  · intro t ht
    have ht' : t ∈ tokens := by
      rw [← htokens]
      exact Array.mem_def.mp ht
    refine haccounts.ne_empty ?_ t ht'
    intro span hspan
    obtain ⟨p, hp, -, hpbytes⟩ := exists_of_mem_spansFrom (List.mem_filter.mp hspan).1
    rw [hpbytes]
    exact bytes_ne_nil_of_mem p hp

/-- Two closers, a literal and a defect, on two lines. -/
theorem lex_accounts_closers : ∃ (lexemes : List Lexeme) (listing : Listing),
    Lexeme.ofText (PaddedText.ofString "List<Set<A>> s = \"é\";\n1e") = .ok lexemes ∧
      lex ⟨15, false, true⟩ "List<Set<A>> s = \"é\";\n1e" = .ok listing ∧
      ∀ t ∈ listing.tokens, t.text ≠ "" := by
  obtain ⟨lexemes, listing, htext, hlex, -, -, -, hne⟩ :=
    lex_accounts ⟨15, false, true⟩ "List<Set<A>> s = \"é\";\n1e" (by decide)
  exact ⟨lexemes, listing, htext, hlex, hne⟩

end JavaTokens
