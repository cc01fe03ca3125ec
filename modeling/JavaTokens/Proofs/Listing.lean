import JavaTokens.Proofs.Joining

/-!
# Lines of listings

Tokens that come in the order of their lines are listed line by line: every start is the number of
tokens on the lines before it, each token that is added keeps that so, and the stretch between two
starts holds the tokens of one line.

    Starts done starts → Starts (done ++ [t]) (starts with the lines up to that of t)
    line? k of a listing are its tokens on line k + 1                 (line?_ofTokens)
    the tokens of a text come in the order of their lines             (ordered_tokensOf)
-/

namespace JavaTokens

open Text

/-! ## Stretches of ordered lists -/

section

variable {α : Type} {p : α → Bool} {l : List α}

/-- Where a class never begins again once it has ended, its members come first. -/
theorem take_countP (h : l.Pairwise fun a b => p b = true → p a = true) :
    l.take (l.countP p) = l.filter p := by
  induction l with
  | nil => rfl
  | cons a l ih =>
    rw [List.pairwise_cons] at h
    cases ha : p a with
    | true => rw [List.countP_cons_of_pos ha, List.take_succ_cons, List.filter_cons_of_pos ha, ih h.2]
    | false =>
      have hnone : ∀ b ∈ a :: l, ¬ p b = true := by
        intro b hb hpb
        rcases List.mem_cons.mp hb with rfl | hb
        · rw [ha] at hpb
          cases hpb
        · rw [h.1 b hb hpb] at ha
          cases ha
      rw [List.countP_eq_zero.mpr hnone, List.filter_eq_nil_iff.mpr hnone, List.take_zero]

end

/-! ## Starts -/

/-- Tokens in the order of their lines. -/
def Ordered (tokens : List Token) : Prop := tokens.Pairwise fun s t => s.line ≤ t.line

/-- The line of the last token, or zero. -/
def lastLine (tokens : List Token) : Nat := (tokens.getLast?.map Token.line).getD 0

theorem lastLine_concat (tokens : List Token) (t : Token) : lastLine (tokens ++ [t]) = t.line := by
  simp [lastLine]

theorem lastLine_le {tokens : List Token} {n : Nat} (h : ∀ t ∈ tokens, t.line ≤ n) :
    lastLine tokens ≤ n := by
  unfold lastLine
  cases hlast : tokens.getLast? with
  | none => exact Nat.zero_le n
  | some last => exact h last (List.mem_of_getLast? hlast)

theorem Ordered.line_le_lastLine {tokens : List Token} (h : Ordered tokens) :
    ∀ t ∈ tokens, t.line ≤ lastLine tokens := by
  rcases List.eq_nil_or_concat tokens with rfl | ⟨before, last, rfl⟩
  · exact nofun
  · rw [List.concat_eq_append] at h ⊢
    intro t ht
    rw [lastLine_concat]
    rcases List.mem_append.mp ht with ht | ht
    · exact (List.pairwise_append.mp h).2.2 t ht last List.mem_cons_self
    · exact Nat.le_of_eq (congrArg Token.line (List.mem_singleton.mp ht))

/-- Every start is the number of the tokens on the lines before it, up to the last line that holds a
token. -/
structure Starts (done : List Token) (starts : Array Nat) : Prop where
  size : starts.size = lastLine done
  getElem? : ∀ k, k < starts.size → starts[k]? = some (done.countP fun t => t.line ≤ k)

theorem starts_nil : Starts [] #[] := ⟨rfl, nofun⟩

/-- A token opens the lines up to its own, and all of them start at it. -/
theorem Starts.push {done : List Token} {starts : Array Nat} {t : Token} (h : Starts done starts)
    (hord : Ordered (done ++ [t])) :
    Starts (done ++ [t]) (starts ++ Array.replicate (t.line - starts.size) done.length) := by
  obtain ⟨hdone, -, hlast⟩ := List.pairwise_append.mp hord
  have hle : starts.size ≤ t.line := by
    rw [h.size]
    exact lastLine_le fun s hs => hlast s hs t List.mem_cons_self
  have hsize : (starts ++ Array.replicate (t.line - starts.size) done.length).size = t.line := by
    rw [Array.size_append, Array.size_replicate]
    omega
  refine ⟨by rw [hsize, lastLine_concat], ?_⟩
  intro k hk
  rw [hsize] at hk
  rw [List.countP_append, List.countP_singleton, if_neg (by simpa using hk), Nat.add_zero,
    Array.getElem?_append]
  split
  · next hlt => exact h.getElem? k hlt
  · next hge =>
    -- all tokens before stand on lines that had begun
    have hall : done.countP (fun t => t.line ≤ k) = done.length := by
      rw [List.countP_eq_length]
      intro s hs
      have hline := Ordered.line_le_lastLine hdone s hs
      rw [← h.size] at hline
      rw [decide_eq_true_eq]
      omega
    rw [Array.getElem?_replicate, if_pos (by omega), hall]

theorem starts_startsFrom (rest : List Token) {done : List Token} {starts : Array Nat}
    (h : Starts done starts) (hord : Ordered (done ++ rest)) :
    Starts (done ++ rest) (Listing.startsFrom rest done.length starts) := by
  induction rest generalizing done starts with
  | nil => simpa [Listing.startsFrom] using h
  | cons t rest ih =>
    have hcons : done ++ t :: rest = done ++ [t] ++ rest := by simp
    rw [hcons] at hord ⊢
    have hpush := h.push (List.pairwise_append.mp hord).1
    have hrest := ih hpush hord
    rwa [List.length_append] at hrest

/-! ## Lines -/

namespace Listing

variable {tokens : List Token} {diagnostics : List Diagnostic}

theorem starts_ofTokens (h : Ordered tokens) :
    Starts tokens (ofTokens tokens diagnostics).lineStarts :=
  starts_startsFrom tokens starts_nil h

theorem lineCount_ofTokens (h : Ordered tokens) :
    (ofTokens tokens diagnostics).lineCount = lastLine tokens :=
  (starts_ofTokens h).size

theorem line?_of_start {l : Listing} {k start : Nat} (h : l.lineStarts[k]? = some start) :
    l.line? k =
      if start ≤ l.lineStarts[k + 1]?.getD l.tokens.size ∧
          l.lineStarts[k + 1]?.getD l.tokens.size ≤ l.tokens.size then
        some (l.tokens.extract start (l.lineStarts[k + 1]?.getD l.tokens.size)).toList
      else none := by
  unfold line?
  rw [h]
  rfl

/-- Where a line stops is the number of tokens up to it, also for the last line. -/
theorem stop_ofTokens (h : Ordered tokens) {k : Nat} (hk : k < lastLine tokens) :
    (ofTokens tokens diagnostics).lineStarts[k + 1]?.getD
        (ofTokens tokens diagnostics).tokens.size =
      tokens.countP fun t => t.line ≤ k + 1 := by
  have hstarts : Starts tokens (ofTokens tokens diagnostics).lineStarts := starts_ofTokens h
  have hsize := hstarts.size
  by_cases hlast : k + 1 < lastLine tokens
  · rw [hstarts.getElem? (k + 1) (by omega), Option.getD_some]
  · rw [Array.getElem?_eq_none (by omega), Option.getD_none, eq_comm]
    refine List.countP_eq_length.mpr ?_
    intro t ht
    have hline := h.line_le_lastLine t ht
    rw [decide_eq_true_eq]
    omega

/-- Behind the tokens of the lines before it come those of a line. -/
theorem filter_le_succ (h : Ordered tokens) (k : Nat) :
    tokens.filter (fun t => t.line ≤ k + 1) =
      tokens.filter (fun t => t.line ≤ k) ++ tokens.filter (fun t => t.line == k + 1) := by
  induction tokens with
  | nil => rfl
  | cons t tokens ih =>
    have htail := List.pairwise_cons.mp h
    by_cases hline : t.line ≤ k
    · have hlt : t.line ≤ k + 1 := by omega
      have hne : t.line ≠ k + 1 := by omega
      simp [hline, hlt, hne, ih htail.2]
    · -- from `t` on, no token stands before line `k + 1`
      have hfrom : ∀ s ∈ t :: tokens, k + 1 ≤ s.line := by
        intro s hs
        rcases List.mem_cons.mp hs with rfl | hs
        · omega
        · have hle := htail.1 s hs
          omega
      have hnone : (t :: tokens).filter (fun t => t.line ≤ k) = [] := by
        rw [List.filter_eq_nil_iff]
        intro s hs
        have hge := hfrom s hs
        rw [decide_eq_true_eq]
        omega
      rw [hnone, List.nil_append]
      apply List.filter_congr
      intro s hs
      have hge := hfrom s hs
      rw [Bool.eq_iff_iff, decide_eq_true_eq, beq_iff_eq]
      omega

/-- The tokens between the ends of two lines next to each other. -/
theorem drop_take_countP (h : Ordered tokens) (k : Nat) :
    (tokens.take (tokens.countP fun t => t.line ≤ k + 1)).drop
        (tokens.countP fun t => t.line ≤ k) =
      tokens.filter fun t => t.line == k + 1 := by
  have hprefix : tokens.Pairwise fun s t =>
      decide (t.line ≤ k + 1) = true → decide (s.line ≤ k + 1) = true := by
    refine h.imp ?_
    intro s t hst
    simp only [decide_eq_true_eq]
    omega
  rw [take_countP hprefix, filter_le_succ h, List.countP_eq_length_filter, List.drop_left]

/-- A line up to the last one that holds a token are the tokens that stand on it. -/
theorem line?_ofTokens (h : Ordered tokens) {k : Nat} (hk : k < lastLine tokens) :
    (ofTokens tokens diagnostics).line? k =
      some (tokens.filter fun t => t.line == k + 1) := by
  have hstarts : Starts tokens (ofTokens tokens diagnostics).lineStarts := starts_ofTokens h
  have hstart := hstarts.getElem? k (by rw [hstarts.size]; exact hk)
  have hle : (tokens.countP fun t => t.line ≤ k) ≤ tokens.countP fun t => t.line ≤ k + 1 := by
    apply List.countP_mono_left
    intro t _ ht
    rw [decide_eq_true_eq] at ht ⊢
    omega
  have hstop : (tokens.countP fun t => t.line ≤ k + 1) ≤
      (ofTokens tokens diagnostics).tokens.size :=
    List.countP_le_length
  rw [line?_of_start hstart, stop_ofTokens h hk, if_pos ⟨hle, hstop⟩, Array.toList_extract,
    ← drop_take_countP h k, List.drop_take, ← List.extract_eq_take_drop]
  rfl

theorem line?_of_le {l : Listing} {k : Nat} (h : l.lineCount ≤ k) : l.line? k = none := by
  unfold line?
  rw [Array.getElem?_eq_none h]
  rfl

/-- Line by line, no token is left out and none comes twice. -/
theorem flatten_lines (h : Ordered tokens) (hpos : ∀ t ∈ tokens, 1 ≤ t.line) :
    (ofTokens tokens diagnostics).lines.flatten = tokens := by
  have hupto : ∀ n ≤ lastLine tokens, ((List.range n).map fun k =>
      ((ofTokens tokens diagnostics).line? k).getD []).flatten =
        tokens.filter fun t => t.line ≤ n := by
    intro n hn
    induction n with
    | zero =>
      rw [eq_comm]
      refine List.filter_eq_nil_iff.mpr ?_
      intro t ht
      have hline := hpos t ht
      rw [decide_eq_true_eq]
      omega
    | succ n ih =>
      rw [List.range_succ, List.map_append, List.flatten_append, ih (by omega), filter_le_succ h n]
      simp [line?_ofTokens h (show n < lastLine tokens by omega)]
  unfold lines
  rw [lineCount_ofTokens h, hupto _ (Nat.le_refl _), List.filter_eq_self]
  intro t ht
  exact decide_eq_true (h.line_le_lastLine t ht)

end Listing

/-! ## Tokens in order -/

/-- A span puts its tokens on its line. -/
theorem exists_emitSpan (settings : Settings) (table : LineTable) (before : List Token)
    (span : Span) :
    ∃ group, settings.emitSpan table before span = group ++ before ∧
      ∀ t ∈ group, t.line = table.lineOf span.offset := by
  rw [Settings.emitSpan_eq]
  cases span.tokenText? with
  | none => exact ⟨[], rfl, nofun⟩
  | some text =>
    refine ⟨_, rfl, ?_⟩
    intro t ht
    obtain ⟨_, -, rfl⟩ := List.mem_map.mp ht
    rfl

/-- Spans put their tokens on lines that never go back. -/
theorem ordered_foldl (settings : Settings) {table : LineTable}
    (hmono : ∀ i j, i ≤ j → table.lineOf i ≤ table.lineOf j) (ps : List Piece) (offset : Nat)
    (before : List Token) (hord : Ordered before.reverse)
    (hbefore : ∀ t ∈ before, t.line ≤ table.lineOf offset) :
    Ordered ((spansFrom offset ps).foldl (settings.emitSpan table) before).reverse := by
  induction ps generalizing offset before with
  | nil => exact hord
  | cons p ps ih =>
    obtain ⟨group, hgroup, hline⟩ :=
      exists_emitSpan settings table before ⟨p.terminal, offset, p.bytes⟩
    have hnext := hmono offset (offset + p.bytes.length) (Nat.le_add_right _ _)
    rw [spansFrom, List.foldl_cons, hgroup]
    apply ih
    · rw [List.reverse_append]
      refine List.pairwise_append.mpr ⟨hord, List.pairwise_of_forall_mem_list ?_, ?_⟩
      · intro s hs t ht
        exact Nat.le_of_eq
          ((hline s (List.mem_reverse.mp hs)).trans (hline t (List.mem_reverse.mp ht)).symm)
      · intro s hs t ht
        rw [hline t (List.mem_reverse.mp ht)]
        exact hbefore s (List.mem_reverse.mp hs)
    · intro t ht
      rcases List.mem_append.mp ht with ht | ht
      · rw [hline t ht]
        exact hnext
      · exact Nat.le_trans (hbefore t ht) hnext

/-- Every token stands on the line of some offset. -/
theorem exists_line_of_mem_foldl (settings : Settings) (table : LineTable) (spans : List Span)
    (before : List Token) (t : Token) (ht : t ∈ spans.foldl (settings.emitSpan table) before) :
    t ∈ before ∨ ∃ offset, t.line = table.lineOf offset := by
  induction spans generalizing before with
  | nil => exact .inl ht
  | cons span spans ih =>
    obtain ⟨group, hgroup, hline⟩ := exists_emitSpan settings table before span
    rw [List.foldl_cons, hgroup] at ht
    rcases ih _ ht with h | h
    · rcases List.mem_append.mp h with h | h
      · exact .inr ⟨_, hline t h⟩
      · exact .inl h
    · exact .inr h

/-- A text leads to no more tokens than it has bytes. -/
theorem length_texts_le (settings : Settings) (before : List String) (k : Terminal) {text : String}
    (h : text ≠ "") : (settings.texts before k text).length ≤ text.utf8ByteSize := by
  have hpos : 0 < text.utf8ByteSize := by
    rw [← length_bytes, List.length_pos_iff]
    intro hnil
    exact h (bytes_inj hnil)
  unfold Settings.texts
  split
  · exact hpos
  · split
    · exact Nat.le_of_eq List.length_replicate
    · exact hpos

theorem length_foldl_le (settings : Settings) (table : LineTable) {ps : List Piece}
    (hps : ∀ p ∈ ps, p.bytes ≠ []) (offset : Nat) (before : List Token) :
    ((spansFrom offset ps).foldl (settings.emitSpan table) before).length ≤
      before.length + (ps.flatMap Piece.bytes).length := by
  induction ps generalizing offset before with
  | nil => exact Nat.le_refl _
  | cons p ps ih =>
    rw [List.forall_mem_cons] at hps
    have hstep : (settings.emitSpan table before ⟨p.terminal, offset, p.bytes⟩).length ≤
        before.length + p.bytes.length := by
      rw [Settings.emitSpan_eq]
      cases htext : (Span.mk p.terminal offset p.bytes).tokenText? with
      | none => exact Nat.le_add_right _ _
      | some text =>
        rw [tokenText?_eq] at htext
        split at htext
        · have hbytes : p.bytes = bytes text := eq_bytes_of_decode? htext
          have hne : text ≠ "" := by
            rintro rfl
            exact hps.1 hbytes
          have hle := length_texts_le settings (before.map Token.text) p.terminal hne
          simp only [List.length_append, List.length_map, hbytes, length_bytes]
          omega
        · cases htext
    have hrest := ih hps.2 (offset + p.bytes.length)
      (settings.emitSpan table before ⟨p.terminal, offset, p.bytes⟩)
    rw [spansFrom, List.foldl_cons, List.flatMap_cons, List.length_append]
    omega

section

variable (settings : Settings) {bytes : List UInt8}

theorem length_tokensOf_le : (tokensOf settings bytes).length ≤ bytes.length := by
  have hle := length_foldl_le settings (LineTable.ofBytes bytes)
    (bytes_ne_nil_of_mem (s := bytes)) 0 []
  rw [flatMap_pieces, List.length_nil, Nat.zero_add] at hle
  rwa [tokensOf, List.length_reverse]

variable (h : bytes.length ≤ maxOffset)
include h

theorem ordered_tokensOf : Ordered (tokensOf settings bytes) :=
  ordered_foldl settings (fun _ _ hij => LineTable.lineOf_mono h hij) _ 0 [] .nil nofun

theorem line_of_mem_tokensOf : ∀ t ∈ tokensOf settings bytes,
    1 ≤ t.line ∧ t.line ≤ (LineTable.ofBytes bytes).lineCount := by
  intro t ht
  rcases exists_line_of_mem_foldl _ _ _ _ t (List.mem_reverse.mp ht) with h' | ⟨offset, hline⟩
  · cases h'
  · rw [hline]
    exact ⟨LineTable.one_le_lineOf h offset, LineTable.lineOf_le_lineCount _ offset⟩

end

/-- The last line is the greatest one. -/
theorem max?_line {tokens : List Token} (h : Ordered tokens) :
    (tokens.map Token.line).max?.getD 0 = lastLine tokens := by
  rcases List.eq_nil_or_concat tokens with rfl | ⟨before, last, rfl⟩
  · rfl
  · rw [List.concat_eq_append] at h ⊢
    rw [lastLine_concat]
    have hmax : ((before ++ [last]).map Token.line).max? = some last.line := by
      rw [List.max?_eq_some_iff]
      refine ⟨by simp, ?_⟩
      intro line hline
      obtain ⟨t, ht, rfl⟩ := List.mem_map.mp hline
      have hle := h.line_le_lastLine t ht
      rwa [lastLine_concat] at hle
    rw [hmax, Option.getD_some]

/-- The lines of a listing hold the tokens of a text in their order.  They go up to the last line
with a token, which is a line of the text, and behind it there is none.  The indices at which they
start are numbers of 32 bits, as there are no more tokens than bytes. -/
theorem lex_lines (settings : Settings) (text : String) (hsize : text.utf8ByteSize ≤ maxOffset) :
    ∃ listing : Listing, lex settings text = .ok listing ∧
      (listing.tokens.toList.Pairwise fun s t => s.line ≤ t.line) ∧
      (∀ t ∈ listing.tokens, 1 ≤ t.line) ∧
      listing.tokens.size ≤ maxOffset ∧
      listing.lineCount = (listing.tokens.toList.map Token.line).max?.getD 0 ∧
      listing.lineCount ≤ (LineTable.ofBytes (bytes text)).lineCount ∧
      (∀ k, k < listing.lineCount →
        listing.line? k = some (listing.tokens.toList.filter fun t => t.line == k + 1)) ∧
      (∀ k, listing.lineCount ≤ k → listing.line? k = none) ∧
      listing.lines.flatten = listing.tokens.toList ∧
      listing.numberedLines = [] :: listing.lines := by
  have hbytes : (bytes (settings.source text)).length ≤ maxOffset := by
    rw [length_bytes]
    exact settings.utf8ByteSize_source_le hsize
  have hord := ordered_tokensOf settings hbytes
  have hlines := line_of_mem_tokensOf settings hbytes
  have hcount : (listingOf settings (bytes (settings.source text))).lineCount =
      lastLine (tokensOf settings (bytes (settings.source text))) :=
    Listing.lineCount_ofTokens hord
  refine ⟨_, lex_eq (settings.utf8ByteSize_source_le hsize), hord, ?_, ?_, ?_, ?_, ?_, ?_, ?_, rfl⟩
  · intro t ht
    exact (hlines t (Array.mem_def.mp ht)).1
  · exact Nat.le_trans (length_tokensOf_le settings) hbytes
  · exact hcount.trans (max?_line hord).symm
  · rw [← settings.lineCount_source hsize]
    exact Nat.le_trans (Nat.le_of_eq hcount) (lastLine_le fun t ht => (hlines t ht).2)
  · intro k hk
    exact Listing.line?_ofTokens hord (Nat.lt_of_lt_of_eq hk hcount)
  · intro k hk
    exact Listing.line?_of_le hk
  · exact Listing.flatten_lines hord fun t ht => (hlines t ht).1

/-- A line without tokens between others, closers that were split, and a last line that only holds a
defect. -/
theorem lex_lines_blank : ∃ listing : Listing, lex {} "A<\n\nB<C>>/*\n*/d\n#" = .ok listing ∧
    listing.lineCount = 4 ∧ listing.line? 1 = some [] ∧
    listing.line? 2 = some [⟨"B", 3⟩, ⟨"<", 3⟩, ⟨"C", 3⟩, ⟨">", 3⟩, ⟨">", 3⟩] ∧
    listing.line? 4 = none := by
  obtain ⟨listing, hlex, -, -, -, hcount, -, hline, hbehind, -⟩ :=
    lex_lines {} "A<\n\nB<C>>/*\n*/d\n#" (by decide)
  have htokens : (lex {} "A<\n\nB<C>>/*\n*/d\n#").toOption.map (fun l => l.tokens.toList) =
      some [⟨"A", 1⟩, ⟨"<", 1⟩, ⟨"B", 3⟩, ⟨"<", 3⟩, ⟨"C", 3⟩, ⟨">", 3⟩, ⟨">", 3⟩, ⟨"d", 4⟩] := by
    decide +kernel
  rw [hlex] at htokens
  have htokens' := Option.some.inj htokens
  simp only [htokens'] at hcount hline
  have hfour : listing.lineCount = 4 := hcount
  rw [hfour] at hline hbehind
  exact ⟨listing, hlex, hfour, hline 1 (by decide), hline 2 (by decide),
    hbehind 4 (Nat.le_refl 4)⟩

end JavaTokens
