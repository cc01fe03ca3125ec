import JavaTokens.Proofs.Kind
import JavaTokens.Proofs.Listing

/-!
# Splitting closers afterwards

Whether a run of closers is split is decided while tokens are put one after the other, behind runs that
are split already.  The same comes out of a listing in which none is split: of each of its tokens it is
told from the ones before it whether it is a run that closes type arguments.

    a closer ends the search for an opening, split or not             (openIn_splitRuns)
    split as they are put or afterwards, the tokens are the same      (tokensOf_splitClosers)
-/

namespace JavaTokens

open Text

/-! ## Openings -/

namespace TypeArguments

/-- Behind the first `k` texts type arguments are open: there is a `<` among these, and behind it only
parts of type arguments. -/
def IsOpenAt (texts : List String) (k : Nat) : Prop :=
  ∃ j < k, texts[j]? = some "<" ∧ ∀ i < k, j < i → texts[i]?.any isPart = true

instance (texts : List String) (k : Nat) : Decidable (IsOpenAt texts k) :=
  inferInstanceAs (Decidable (∃ j < k, texts[j]? = some "<" ∧
    ∀ i < k, j < i → texts[i]?.any isPart = true))

theorem openIn_cons {α : Type} (text : α → String) (a : α) (before : List α) :
    openIn text (a :: before) = if isPart (text a) then openIn text before else text a == "<" := by
  unfold openIn
  rw [List.find?_cons]
  cases isPart (text a) <;> rfl

/-- A text is told to be no part of type arguments by a first character below the capital letters. -/
theorem not_isPart_of_head {text : String} {c : Char} (h : text.toList.head? = some c)
    (hc : c.toNat < 0x41)
    (hwords : ∀ w ∈ [",", ".", "?", "[", "]", "extends", "super"], w.toList.head? ≠ some c) :
    isPart text = false := by
  have hmem : [",", ".", "?", "[", "]", "extends", "super"].contains text = false := by
    rw [Bool.eq_false_iff, Ne, List.contains_iff_mem]
    intro hmem
    exact hwords text hmem h
  have hcapital : Unicode.isUppercase c = false := by
    rw [Bool.eq_false_iff, Ne, Unicode.isUppercase_iff_of_le (by omega), Nat.not_le]
    exact hc
  rw [isPart, hmem, h, Option.any_some, hcapital]
  rfl

theorem not_isPart_opening : isPart "<" = false :=
  not_isPart_of_head (c := '<') rfl (by decide) (by decide)

/-- A run of closers is neither a part of type arguments nor an opening. -/
theorem not_isPart_of_isCloserRun {text : String} (h : isCloserRun text = true) :
    isPart text = false ∧ (text == "<") = false := by
  have hhead : text.toList.head? = some '>' := by
    have hclosers := eq_replicate_of_isCloserRun h
    cases hn : text.toList.length with
    | zero =>
      rw [hn] at hclosers
      rw [hclosers] at h
      cases h
    | succ n => rw [hclosers, String.toList_ofList, hn, List.replicate_succ, List.head?_cons]
  constructor
  · exact not_isPart_of_head hhead (by decide) (by decide)
  · rw [beq_eq_false_iff_ne]
    rintro rfl
    cases hhead

/-- The search for an opening ends at a run of closers. -/
theorem openIn_closerRun {α : Type} {text : α → String} {a : α}
    (h : isCloserRun (text a) = true) (before : List α) : openIn text (a :: before) = false := by
  obtain ⟨hpart, hopening⟩ := not_isPart_of_isCloserRun h
  rw [openIn_cons, hpart, hopening, if_neg Bool.false_ne_true]

/-- Texts behind do not matter. -/
theorem isOpenAt_append {texts : List String} {k : Nat} (hk : k ≤ texts.length)
    (behind : List String) : IsOpenAt (texts ++ behind) k ↔ IsOpenAt texts k := by
  have hsame {i : Nat} (hi : i < k) : (texts ++ behind)[i]? = texts[i]? :=
    List.getElem?_append_left (by omega)
  unfold IsOpenAt
  constructor
  · rintro ⟨j, hj, hopen, hparts⟩
    refine ⟨j, hj, by rwa [hsame hj] at hopen, ?_⟩
    intro i hi hji
    rw [← hsame hi]
    exact hparts i hi hji
  · rintro ⟨j, hj, hopen, hparts⟩
    refine ⟨j, hj, by rwa [hsame hj], ?_⟩
    intro i hi hji
    rw [hsame hi]
    exact hparts i hi hji

theorem isOpenAt_concat (texts : List String) (t : String) :
    IsOpenAt (texts ++ [t]) (texts.length + 1) ↔
      if isPart t then IsOpenAt texts texts.length else t = "<" := by
  have hlast : (texts ++ [t])[texts.length]? = some t := by simp
  have hbefore := isOpenAt_append (Nat.le_refl texts.length) [t]
  split
  · next hpart =>
    rw [← hbefore]
    constructor
    · rintro ⟨j, hj, hopen, hparts⟩
      rcases Nat.lt_succ_iff_lt_or_eq.mp hj with hj | rfl
      · exact ⟨j, hj, hopen, fun i hi hji => hparts i (by omega) hji⟩
      · rw [hlast, Option.some.injEq] at hopen
        rw [hopen, not_isPart_opening] at hpart
        cases hpart
    · rintro ⟨j, hj, hopen, hparts⟩
      refine ⟨j, by omega, hopen, ?_⟩
      intro i hi hji
      rcases Nat.lt_succ_iff_lt_or_eq.mp hi with hi | rfl
      · exact hparts i hi hji
      · rw [hlast]
        exact hpart
  · next hpart =>
    constructor
    · rintro ⟨j, hj, hopen, hparts⟩
      rcases Nat.lt_succ_iff_lt_or_eq.mp hj with hj | rfl
      · have hlastPart := hparts texts.length (by omega) hj
        rw [hlast] at hlastPart
        exact absurd hlastPart hpart
      · rwa [hlast, Option.some.injEq] at hopen
    · rintro rfl
      refine ⟨texts.length, by omega, hlast, ?_⟩
      intro i hi hji
      omega

/-- Looking back from the end finds an opening if type arguments are open there. -/
theorem openIn_reverse_iff (tokens : List Token) :
    openIn Token.text tokens.reverse = true ↔
      IsOpenAt (tokens.map Token.text) tokens.length := by
  induction tokens using List.reverseRecOn with
  | nil => exact ⟨nofun, fun ⟨j, hj, _⟩ => absurd hj (Nat.not_lt_zero j)⟩
  | append_singleton tokens t ih =>
    have hconcat := isOpenAt_concat (tokens.map Token.text) t.text
    rw [List.length_map] at hconcat
    rw [List.reverse_append, List.reverse_singleton, List.singleton_append, openIn_cons,
      List.map_append, List.map_singleton, List.length_append, List.length_singleton, hconcat]
    split
    · exact ih
    · exact beq_iff_eq

end TypeArguments

/-! ## Splitting one by one -/

/-- The closers of a token that is a run of them, one by one, if it is to be split. -/
def Token.parts (t : Token) (isSplit : Bool) : List Token :=
  if isSplit && (t.text == ">>" || t.text == ">>>") then
    List.replicate t.text.length ⟨">", t.line⟩
  else [t]

/-- The tokens with the runs that close type arguments split, newest first. -/
def splitRuns : (before : List Token) → List Token
  | [] => []
  | t :: before => t.parts (TypeArguments.openIn Token.text before) ++ splitRuns before

/-- The tokens with the runs that close type arguments split. -/
def splitTokens (tokens : List Token) : List Token :=
  tokens.zipIdx.flatMap fun (t, k) =>
    t.parts (TypeArguments.IsOpenAt (tokens.map Token.text) k)

variable {t : Token} {isSplit : Bool}

theorem Token.parts_cases (t : Token) (isSplit : Bool) :
    t.parts isSplit = [t] ∨
      (t.text = ">>" ∨ t.text = ">>>") ∧
        t.parts isSplit = List.replicate t.text.length ⟨">", t.line⟩ := by
  unfold parts
  split
  · next h =>
    simp only [Bool.and_eq_true, Bool.or_eq_true, beq_iff_eq] at h
    exact .inr ⟨h.2, rfl⟩
  · exact .inl rfl

theorem Token.parts_of_ne (h : ¬ (t.text = ">>" ∨ t.text = ">>>")) (isSplit : Bool) :
    t.parts isSplit = [t] :=
  (t.parts_cases isSplit).resolve_right fun hrun => h hrun.1

theorem Token.reverse_parts (t : Token) (isSplit : Bool) :
    (t.parts isSplit).reverse = t.parts isSplit := by
  rcases t.parts_cases isSplit with h | ⟨-, h⟩
  · rw [h, List.reverse_singleton]
  · rw [h, List.reverse_replicate]

theorem Token.line_of_mem_parts {s : Token} (h : s ∈ t.parts isSplit) : s.line = t.line := by
  rcases t.parts_cases isSplit with hparts | ⟨-, hparts⟩
  · rw [hparts] at h
    rw [List.mem_singleton.mp h]
  · rw [hparts] at h
    rw [(List.mem_replicate.mp h).2]

theorem Token.parts_ne_nil (t : Token) (isSplit : Bool) : t.parts isSplit ≠ [] := by
  rcases t.parts_cases isSplit with h | ⟨htext, h⟩
  · rw [h]
    exact List.cons_ne_nil _ _
  · rw [h]
    rcases htext with htext | htext
    all_goals
      rw [htext]
      exact List.cons_ne_nil _ _

theorem Token.join_parts (t : Token) (isSplit : Bool) :
    String.join ((t.parts isSplit).map Token.text) = t.text := by
  rcases t.parts_cases isSplit with h | ⟨htext, h⟩
  · rw [h]
    simp
  · rw [h, List.map_replicate]
    rcases htext with htext | htext
    all_goals
      rw [htext]
      rfl

/-- The search for an opening ends at a run of closers and at the first of its closers. -/
theorem openIn_splitRuns (before : List Token) :
    TypeArguments.openIn Token.text (splitRuns before) =
      TypeArguments.openIn Token.text before := by
  induction before with
  | nil => rfl
  | cons t before ih =>
    rw [splitRuns, TypeArguments.openIn_cons]
    rcases t.parts_cases (TypeArguments.openIn Token.text before) with h | ⟨htext, h⟩
    · rw [h, List.singleton_append, TypeArguments.openIn_cons, ih]
    · have hrun : TypeArguments.isCloserRun t.text = true := by
        rcases htext with htext | htext
        all_goals
          rw [htext]
          rfl
      obtain ⟨n, hn⟩ : ∃ n, t.text.length = n + 1 := by
        rcases htext with htext | htext
        all_goals
          rw [htext]
          exact ⟨_, rfl⟩
      have hcloser : TypeArguments.isCloserRun ">" = true := rfl
      have hbehind : TypeArguments.openIn Token.text (t :: before) = false :=
        TypeArguments.openIn_closerRun hrun before
      rw [TypeArguments.openIn_cons] at hbehind
      rw [h, hn, List.replicate_succ, List.cons_append, hbehind]
      exact TypeArguments.openIn_closerRun hcloser _

theorem splitTokens_concat (tokens : List Token) (t : Token) :
    splitTokens (tokens ++ [t]) =
      splitTokens tokens ++ t.parts (TypeArguments.openIn Token.text tokens.reverse) := by
  have hbehind {k : Nat} (hk : k ≤ tokens.length) :
      TypeArguments.IsOpenAt ((tokens ++ [t]).map Token.text) k ↔
        TypeArguments.IsOpenAt (tokens.map Token.text) k := by
    rw [List.map_append]
    exact TypeArguments.isOpenAt_append (by rwa [List.length_map]) _
  unfold splitTokens
  rw [List.zipIdx_append, List.flatMap_append, Nat.zero_add, List.zipIdx_singleton,
    List.flatMap_singleton]
  congr 1
  · refine List.flatMap_congr ?_
    rintro ⟨s, k⟩ hmem
    have hk := List.snd_lt_of_mem_zipIdx hmem
    show s.parts _ = s.parts _
    rw [decide_eq_decide.mpr (hbehind (by simpa using Nat.le_of_lt hk))]
  · have hopen : decide (TypeArguments.IsOpenAt (tokens.map Token.text) tokens.length) =
        TypeArguments.openIn Token.text tokens.reverse := by
      rw [Bool.eq_iff_iff, decide_eq_true_eq]
      exact (TypeArguments.openIn_reverse_iff tokens).symm
    show t.parts _ = t.parts _
    rw [decide_eq_decide.mpr (hbehind (Nat.le_refl _)), hopen]

/-- Split one by one from the newest on, or each by those before it. -/
theorem reverse_splitRuns (tokens : List Token) :
    (splitRuns tokens.reverse).reverse = splitTokens tokens := by
  induction tokens using List.reverseRecOn with
  | nil => rfl
  | append_singleton tokens t ih =>
    rw [List.reverse_append, List.reverse_singleton, List.singleton_append, splitRuns,
      List.reverse_append, ih, Token.reverse_parts, splitTokens_concat]

/-! ## Two listings of one text -/

/-- No literal is a run of closers. -/
theorem normalText_ne_closers {text : String} {k : Terminal} (limit : Nat)
    (h : Cut.first (bytes text) = ⟨k, []⟩) (hk : k.isLiteralText = true) :
    ¬ (Literal.normalText limit text = ">>" ∨ Literal.normalText limit text = ">>>") := by
  have hkind : Kind.ofText (Literal.normalText limit text) ≠ .operator := by
    cases k with
    | string =>
      rw [Kind.ofText_of_isString (Literal.isString_normalText limit (isString_of_first h))]
      decide
    | character =>
      rw [Kind.ofText_of_isCharacter (Literal.isCharacter_normalText limit (isCharacter_of_first h))]
      decide
    | _ => cases hk
  rintro (htext | htext)
  · rw [htext] at hkind
    exact hkind (Kind.ofText_spelling .shiftRight)
  · rw [htext] at hkind
    exact hkind (Kind.ofText_spelling .shiftRightZero)

/-- The runs of closers among lexemes are the ones of two and of three. -/
theorem isRun_eq {text : String} {k : Terminal} (h : Cut.first (bytes text) = ⟨k, []⟩) :
    (decide (1 < text.utf8ByteSize) && TypeArguments.isCloserRun text) =
      (text == ">>" || text == ">>>") := by
  rw [Bool.eq_iff_iff, Bool.and_eq_true, decide_eq_true_eq, Bool.or_eq_true, beq_iff_eq, beq_iff_eq]
  constructor
  · rintro ⟨hlen, hrun⟩
    exact eq_of_isCloserRun h hrun hlen
  · rintro (rfl | rfl)
    all_goals decide +kernel

/-- A token is put behind split runs as it is put behind whole ones, and split then. -/
theorem emit_splitRuns (settings : Settings) {text : String} {k : Terminal}
    (h : Cut.first (bytes text) = ⟨k, []⟩) (before : List Token) (line : Nat) :
    { settings with splitClosers := true }.emit (splitRuns before) k text line =
      splitRuns ({ settings with splitClosers := false }.emit before k text line) := by
  unfold Settings.emit
  cases hk : k.isLiteralText with
  | true =>
    have hne := normalText_ne_closers settings.collapseLimit h hk
    rw [if_pos rfl, if_pos rfl, splitRuns, Token.parts_of_ne hne, List.singleton_append]
  | false =>
    simp only [Bool.and_false, Bool.false_and, Bool.false_eq_true, if_false, Bool.and_true,
      splitRuns, Token.parts, openIn_splitRuns, isRun_eq h, Bool.and_comm (text == ">>" || _)]
    split
    · next hrun =>
      simp only [Bool.and_eq_true, Bool.or_eq_true, beq_iff_eq] at hrun
      have hlength : text.utf8ByteSize = text.length := by
        rcases hrun.2 with rfl | rfl
        all_goals rfl
      rw [hlength]
    · rfl

theorem foldl_splitRuns (settings : Settings) (table : LineTable) {spans : List Span}
    (h : ∀ span ∈ spans, Cut.first span.bytes = ⟨span.terminal, []⟩) (before : List Token) :
    spans.foldl ({ settings with splitClosers := true }.emitSpan table) (splitRuns before) =
      splitRuns (spans.foldl ({ settings with splitClosers := false }.emitSpan table) before) := by
  induction spans generalizing before with
  | nil => rfl
  | cons span spans ih =>
    rw [List.forall_mem_cons] at h
    rw [List.foldl_cons, List.foldl_cons, ← ih h.2]
    congr 1
    unfold Settings.emitSpan
    cases htext : span.tokenText? with
    | none => rfl
    | some text =>
      refine emit_splitRuns settings ?_ before _
      rw [tokenText?_eq] at htext
      split at htext
      · rw [← eq_bytes_of_decode? htext]
        exact h.1
      · cases htext

/-- Split as they are put or afterwards, the tokens of a text are the same. -/
theorem tokensOf_splitClosers (settings : Settings) (s : List UInt8) :
    tokensOf { settings with splitClosers := true } s =
      splitTokens (tokensOf { settings with splitClosers := false } s) := by
  have hfold := foldl_splitRuns settings (LineTable.ofBytes s)
    (fun span (hspan : span ∈ spansFrom 0 (pieces s)) => first_of_mem_spansFrom hspan) []
  rw [tokensOf, tokensOf, ← reverse_splitRuns, List.reverse_reverse, ← hfold]
  rfl

/-! ## Lines -/

theorem lastLine_splitTokens (tokens : List Token) :
    lastLine (splitTokens tokens) = lastLine tokens := by
  rcases List.eq_nil_or_concat tokens with rfl | ⟨before, t, rfl⟩
  · rfl
  · rw [List.concat_eq_append, splitTokens_concat, lastLine_concat]
    generalize TypeArguments.openIn Token.text before.reverse = isSplit
    rcases List.eq_nil_or_concat (t.parts isSplit) with hparts | ⟨parts, s, hparts⟩
    · exact absurd hparts (t.parts_ne_nil isSplit)
    · have hs : s ∈ t.parts isSplit := by simp [hparts]
      rw [hparts, List.concat_eq_append, ← List.append_assoc, lastLine_concat]
      exact Token.line_of_mem_parts hs

/-- The texts of a line read the same. -/
theorem join_filter_splitTokens (tokens : List Token) (line : Nat) :
    String.join (((splitTokens tokens).filter fun t => t.line == line).map Token.text) =
      String.join ((tokens.filter fun t => t.line == line).map Token.text) := by
  induction tokens using List.reverseRecOn with
  | nil => rfl
  | append_singleton tokens t ih =>
    have hparts (isSplit : Bool) :
        String.join (((t.parts isSplit).filter fun s => s.line == line).map Token.text) =
          String.join (([t].filter fun s => s.line == line).map Token.text) := by
      cases hline : t.line == line with
      | true =>
        have hall : ∀ s ∈ t.parts isSplit, (s.line == line) = true := by
          intro s hs
          rw [Token.line_of_mem_parts hs, hline]
        rw [List.filter_eq_self.mpr hall, t.join_parts]
        simp [hline]
      | false =>
        have hnone : ∀ s ∈ t.parts isSplit, ¬ (s.line == line) = true := by
          intro s hs
          rw [Token.line_of_mem_parts hs, hline]
          exact Bool.false_ne_true
        rw [List.filter_eq_nil_iff.mpr hnone]
        simp [hline]
    rw [splitTokens_concat, List.filter_append, List.filter_append, List.map_append,
      List.map_append, String.join_append, String.join_append, ih, hparts]

/-- Listings with closers split and whole have as many lines, and these read the same. -/
theorem lines_splitTokens {tokens : List Token} (diagnostics : List Diagnostic)
    (h : Ordered tokens) (hsplit : Ordered (splitTokens tokens)) :
    let u := Listing.ofTokens tokens diagnostics
    let v := Listing.ofTokens (splitTokens tokens) diagnostics
    v.lineCount = u.lineCount ∧
      ∀ k, (v.line? k).map (fun line => String.join (line.map Token.text)) =
        (u.line? k).map (fun line => String.join (line.map Token.text)) := by
  intro u v
  have hu : u.lineCount = lastLine tokens := Listing.lineCount_ofTokens h
  have hv : v.lineCount = lastLine (splitTokens tokens) := Listing.lineCount_ofTokens hsplit
  have hlast := lastLine_splitTokens tokens
  refine ⟨by rw [hu, hv, hlast], ?_⟩
  intro k
  rcases Nat.lt_or_ge k (lastLine tokens) with hk | hk
  · rw [Listing.line?_ofTokens h hk, Listing.line?_ofTokens hsplit (by omega), Option.map_some,
      Option.map_some, join_filter_splitTokens]
  · rw [Listing.line?_of_le (l := u) (by omega), Listing.line?_of_le (l := v) (by omega)]

/-- With closers split or whole, a text has the same diagnostics and the same lines, and these read
the same.  The tokens differ in the runs of two or three closers behind an opening `<` and nothing but
parts of type arguments: each of these is one token, or two or three. -/
theorem lex_splitClosers (settings : Settings) (text : String) :
    let split : Settings := { settings with splitClosers := true }
    let whole : Settings := { settings with splitClosers := false }
    lex split text = (lex whole text).map (fun u =>
      Listing.ofTokens (splitTokens u.tokens.toList) u.diagnostics) ∧
    (text.utf8ByteSize ≤ maxOffset → ∃ u, lex whole text = .ok u) ∧
    ∀ u v : Listing, lex whole text = .ok u → lex split text = .ok v →
      v.tokens.toList = splitTokens u.tokens.toList ∧
      v.diagnostics = u.diagnostics ∧ v.lineCount = u.lineCount ∧
      ∀ k, (v.line? k).map (fun line => String.join (line.map Token.text)) =
        (u.line? k).map (fun line => String.join (line.map Token.text)) := by
  intro split whole
  have hlex : lex split text = (lex whole text).map (fun u =>
      Listing.ofTokens (splitTokens u.tokens.toList) u.diagnostics) := by
    have hsource : split.source text = whole.source text := rfl
    rw [lex_eq_map, lex_eq_map, hsource]
    cases Lexeme.ofText (PaddedText.ofString (whole.source text)) with
    | error fault => rfl
    | ok lexemes =>
      show Except.ok (listingOf split _) = Except.ok _
      rw [listingOf, tokensOf_splitClosers]
      rfl
  refine ⟨hlex, fun hsize => ⟨_, lex_eq (whole.utf8ByteSize_source_le hsize)⟩, ?_⟩
  intro u v hu hv
  rw [hlex, hu] at hv
  obtain rfl : _ = v := Except.ok.inj hv
  obtain rfl := eq_of_lex hu
  have hsize := (PaddedText.ofString (whole.source text)).length_le
  have hsplit := ordered_tokensOf split hsize
  rw [tokensOf_splitClosers] at hsplit
  obtain ⟨hcount, hline⟩ := lines_splitTokens (diagnosticsOf _) (ordered_tokensOf whole hsize) hsplit
  exact ⟨rfl, rfl, hcount, hline⟩

/-- The first run is split, and the second one is not, as looking back from it ends at the first; the
third one is split although it is a shift. -/
theorem lex_splitClosers_shift : ∃ u v : Listing,
    lex ⟨15, true, false⟩ "A<B<C>>,D>>e\nF<G>>>2" = .ok u ∧
      lex ⟨15, true, true⟩ "A<B<C>>,D>>e\nF<G>>>2" = .ok v ∧
      u.tokens.toList.map Token.text =
        ["A", "<", "B", "<", "C", ">>", ",", "D", ">>", "e", "F", "<", "G", ">>>", "2"] ∧
      v.tokens.toList.map Token.text =
        ["A", "<", "B", "<", "C", ">", ">", ",", "D", ">>", "e", "F", "<", "G", ">", ">", ">", "2"] ∧
      (v.line? 1).map (fun line => String.join (line.map Token.text)) =
        (u.line? 1).map (fun line => String.join (line.map Token.text)) := by
  obtain ⟨hsplit, hok, hboth⟩ := lex_splitClosers {} "A<B<C>>,D>>e\nF<G>>>2"
  obtain ⟨u, hu⟩ := hok (by decide)
  rw [hu] at hsplit
  obtain ⟨htokens, -, -, hline⟩ := hboth u _ hu hsplit
  change lex ⟨15, true, false⟩ _ = _ at hu
  have hwhole : (lex ⟨15, true, false⟩ "A<B<C>>,D>>e\nF<G>>>2").toOption.map
      (fun l => l.tokens.toList) =
      some [⟨"A", 1⟩, ⟨"<", 1⟩, ⟨"B", 1⟩, ⟨"<", 1⟩, ⟨"C", 1⟩, ⟨">>", 1⟩, ⟨",", 1⟩, ⟨"D", 1⟩,
        ⟨">>", 1⟩, ⟨"e", 1⟩, ⟨"F", 2⟩, ⟨"<", 2⟩, ⟨"G", 2⟩, ⟨">>>", 2⟩, ⟨"2", 2⟩] := by
    decide +kernel
  rw [hu] at hwhole
  have hwhole' : u.tokens.toList = _ := Option.some.inj hwhole
  refine ⟨u, _, hu, hsplit, ?_, ?_, hline 1⟩
  · rw [hwhole']
    rfl
  · rw [htokens, hwhole']
    decide +kernel

end JavaTokens
