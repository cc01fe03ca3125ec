import JavaTokens.Proofs.OriginLines
import JavaTokens.Proofs.Splitting

/-!
# Limits of string literals

How long a string literal may be before it collapses makes a difference to its own text only.  That
text is looked at once more, when closers behind it are split: the search for an opening ends at
the quote with which it begins, whether the literal has collapsed or not.  So two listings of one
text are alike, token by token, whatever the limits.

    histories that are alike have the same openings                   (openIn_congr)
    a span puts the same tokens, or one string, on both               (exists_recollapsed)
    two listings of a text under two limits                           (lex_collapseLimit)
-/

namespace JavaTokens

open Text

/-! ## Tokens that are alike -/

/-- Tokens on one line, with the same text or with two texts of string literals. -/
structure Token.Alike (t t' : Token) : Prop where
  line : t.line = t'.line
  text : t.text = t'.text ∨ Literal.isString t.text = true ∧ Literal.isString t'.text = true

theorem Token.Alike.refl (t : Token) : t.Alike t := ⟨rfl, .inl rfl⟩

theorem Token.Alike.kind {t t' : Token} (h : t.Alike t') : t.kind = t'.kind := by
  rcases h.text with htext | ⟨ht, ht'⟩
  · exact congrArg Kind.ofText htext
  · exact (Kind.ofText_of_isString ht).trans (Kind.ofText_of_isString ht').symm

theorem forall₂_alike_refl (group : List Token) : List.Forall₂ Token.Alike group group :=
  List.forall₂_same.mpr fun t _ => .refl t

theorem map_line_of_alike {tokens tokens' : List Token}
    (h : List.Forall₂ Token.Alike tokens tokens') :
    tokens.map Token.line = tokens'.map Token.line := by
  induction h with
  | nil => rfl
  | cons ht _ ih => rw [List.map_cons, List.map_cons, ht.line, ih]

theorem map_kind_of_alike {tokens tokens' : List Token}
    (h : List.Forall₂ Token.Alike tokens tokens') :
    tokens.map Token.kind = tokens'.map Token.kind := by
  induction h with
  | nil => rfl
  | cons ht _ ih => rw [List.map_cons, List.map_cons, ht.kind, ih]

/-- Where lines start depends on the lines of the tokens alone. -/
theorem startsFrom_congr {tokens tokens' : List Token}
    (h : tokens.map Token.line = tokens'.map Token.line) (index : Nat) (starts : Array Nat) :
    Listing.startsFrom tokens index starts = Listing.startsFrom tokens' index starts := by
  induction tokens generalizing tokens' index starts with
  | nil =>
    obtain rfl : tokens' = [] := List.map_eq_nil_iff.mp h.symm
    rfl
  | cons t tokens ih =>
    cases tokens' with
    | nil => cases h
    | cons t' tokens' =>
      rw [List.map_cons, List.map_cons, List.cons.injEq] at h
      rw [Listing.startsFrom, Listing.startsFrom, h.1]
      exact ih h.2 _ _

/-! ## Openings -/

namespace TypeArguments

/-- A string literal is neither a part of type arguments nor an opening. -/
theorem not_isPart_of_isString {text : String} (h : Literal.isString text = true) :
    isPart text = false ∧ (text == "<") = false := by
  have hhead := (Literal.isQuoted_iff.mp h).2.1
  constructor
  · exact not_isPart_of_head hhead (by decide) (by decide)
  · rw [beq_eq_false_iff_ne]
    rintro rfl
    cases hhead

/-- Histories that are alike have the same openings. -/
theorem openIn_congr {before before' : List Token}
    (h : List.Forall₂ Token.Alike before before') :
    openIn Token.text before = openIn Token.text before' := by
  induction h with
  | nil => rfl
  | cons ht _ ih =>
    rw [openIn_cons, openIn_cons]
    rcases ht.text with htext | ⟨ht, ht'⟩
    · rw [htext, ih]
    · obtain ⟨hpart, hopening⟩ := not_isPart_of_isString ht
      obtain ⟨hpart', hopening'⟩ := not_isPart_of_isString ht'
      simp only [hpart, hopening, hpart', hopening', Bool.false_eq_true, if_false]

end TypeArguments

/-! ## Texts under two limits -/

namespace Literal

/-- A text that begins with no quote of strings never collapses. -/
theorem normalText_of_head {text : String} (h : text.toList.head? ≠ some '"') (m n : Nat) :
    normalText m text = normalText n text := by
  have hquote : (text.toList.head? == some '"') = false := beq_eq_false_iff_ne.mpr h
  simp only [normalText, normalize, hquote, Bool.false_and, Bool.false_eq_true, if_false]

/-- Under the greater one of two limits a text is the same, or it is only collapsed under the
other. -/
theorem normalText_of_le {m n : Nat} (h : m ≤ n) (text : String) :
    normalText m text = normalText n text ∨
      normalText m text = collapsedText ∧ normalText n text ≠ collapsedText := by
  by_cases hquote : text.toList.head? = some '"'
  · by_cases hm : m ≤ text.length
    · have hcollapsed : normalText m text = collapsedText := by
        rw [normalText, normalize, hquote, beq_self_eq_true, decide_eq_true hm]
        rfl
      rw [hcollapsed]
      by_cases hn : normalText n text = collapsedText
      · exact .inl hn.symm
      · exact .inr ⟨rfl, hn⟩
    · have hn : ¬ n ≤ text.length := by omega
      left
      rw [normalText, normalText, normalize, normalize, decide_eq_false hm, decide_eq_false hn]
  · exact .inl (normalText_of_head hquote m n)

end Literal

/-- A token that is no string literal leads to the same texts, whatever the limits, behind histories
in which the same type arguments are open. -/
theorem texts_of_ne_string (settings : Settings) (m n : Nat) {before before' : List String}
    {k : Terminal} {text : String} (hfirst : Cut.first (bytes text) = ⟨k, []⟩) (hk : k ≠ .string)
    (hopen : TypeArguments.closes before = TypeArguments.closes before') :
    { settings with collapseLimit := m }.texts before k text =
      { settings with collapseLimit := n }.texts before' k text := by
  unfold Settings.texts
  cases hliteral : k.isLiteralText with
  | false => rw [hopen, if_neg Bool.false_ne_true, if_neg Bool.false_ne_true]
  | true =>
    have hcharacter : k = .character := by
      cases k with
      | string => exact absurd rfl hk
      | character => rfl
      | _ => cases hliteral
    subst hcharacter
    have hhead := (Literal.isQuoted_iff.mp (isCharacter_of_first hfirst)).2.1
    have hquote : text.toList.head? ≠ some '"' := by
      rw [hhead]
      decide
    rw [if_pos rfl, if_pos rfl]
    exact congrArg (fun normal => [normal]) (Literal.normalText_of_head hquote m n)

/-! ## Groups under two limits -/

/-- What a span of the terminal puts under the limits `m` and `n`: the same tokens, or the normal
texts of one string literal. -/
inductive Recollapsed (m n : Nat) (k : Terminal) : List Token → List Token → Prop
  | same (group : List Token) : Recollapsed m n k group group
  | literal (text : String) (line : Nat) : k = .string →
      Recollapsed m n k [⟨Literal.normalText m text, line⟩] [⟨Literal.normalText n text, line⟩]

/-- Behind histories that are alike a span puts tokens that are alike. -/
theorem exists_recollapsed (settings : Settings) (table : LineTable) (m n : Nat) {span : Span}
    (hfirst : Cut.first span.bytes = ⟨span.terminal, []⟩) {before before' : List Token}
    (h : List.Forall₂ Token.Alike before before') :
    ∃ group group' : List Token,
      { settings with collapseLimit := m }.emitSpan table before span = group.reverse ++ before ∧
      { settings with collapseLimit := n }.emitSpan table before' span = group'.reverse ++ before' ∧
      List.Forall₂ Token.Alike group group' ∧ Recollapsed m n span.terminal group group' := by
  rw [Settings.emitSpan_eq, Settings.emitSpan_eq]
  cases htext : span.tokenText? with
  | none => exact ⟨[], [], rfl, rfl, .nil, .same []⟩
  | some text =>
    rw [tokenText?_eq] at htext
    split at htext
    · rw [eq_bytes_of_decode? htext] at hfirst
      let line := table.lineOf span.offset
      -- the text of a string depends on the limit, and every other one on the openings before it
      by_cases hk : span.terminal = .string
      · rw [hk] at hfirst ⊢
        have hstring := isString_of_first hfirst
        refine ⟨[⟨Literal.normalText m text, line⟩], [⟨Literal.normalText n text, line⟩], rfl, rfl,
          .cons ⟨rfl, .inr ⟨?_, ?_⟩⟩ .nil, .literal text line rfl⟩
        · exact Literal.isString_normalText m hstring
        · exact Literal.isString_normalText n hstring
      · have hopen := TypeArguments.openIn_congr h
        rw [Settings.openIn_map, Settings.openIn_map] at hopen
        have hsame := texts_of_ne_string settings m n hfirst hk hopen
        let group := (({ settings with collapseLimit := n }.texts (before'.map Token.text)
          span.terminal text).map (Token.mk · line)).reverse
        refine ⟨group, group, ?_, ?_, forall₂_alike_refl group, .same group⟩
        · rw [List.reverse_reverse, ← hsame]
        · rw [List.reverse_reverse]
    · cases htext

/-- All spans put tokens that are alike, one group for each of them. -/
theorem exists_groups_recollapsed (settings : Settings) (table : LineTable) (m n : Nat)
    {spans : List Span} (h : ∀ span ∈ spans, Cut.first span.bytes = ⟨span.terminal, []⟩) :
    ∃ groups : List (List Token × List Token),
      Groups { settings with collapseLimit := m } table spans (groups.map Prod.fst) ∧
      Groups { settings with collapseLimit := n } table spans (groups.map Prod.snd) ∧
      List.Forall₂ Token.Alike (groups.map Prod.fst).flatten (groups.map Prod.snd).flatten ∧
      List.Forall₂ (fun span pair => Recollapsed m n span.terminal pair.1 pair.2) spans groups := by
  induction spans using List.reverseRecOn with
  | nil => exact ⟨[], .nil, .nil, .nil, .nil⟩
  | append_singleton spans span ih =>
    obtain ⟨groups, hgroups, hgroups', halike, hall⟩ := ih fun s hs =>
      h s (List.mem_append_left _ hs)
    obtain ⟨group, group', hput, hput', hgroup, hspan⟩ := exists_recollapsed settings table m n
      (h span (by simp)) (List.forall₂_reverse_iff.mpr halike)
    refine ⟨groups ++ [(group, group')], ?_, ?_, ?_, List.rel_append hall (.cons hspan .nil)⟩
    · rw [List.map_append]
      refine hgroups.snoc ?_
      simp [hput]
    · rw [List.map_append]
      refine hgroups'.snoc ?_
      simp [hput']
    · simpa using List.rel_append halike hgroup

/-! ## Listings under two limits -/

/-- Under two limits a text has both listings or neither.  The tokens of one are as many as those of
the other, on the same lines and of the same kinds, and the diagnostics are the same.  Span by span
the tokens have the same texts as well, but for one string literal that a span of a string puts; of
this the text differs only where it is collapsed under the lesser limit and is not under the
greater. -/
theorem lex_collapseLimit (settings : Settings) (m n : Nat) (text : String) :
    let lesser : Settings := { settings with collapseLimit := m }
    let greater : Settings := { settings with collapseLimit := n }
    (lex lesser text).map (fun _ => ()) = (lex greater text).map (fun _ => ()) ∧
    (text.utf8ByteSize ≤ maxOffset → ∃ u, lex lesser text = .ok u) ∧
    ∀ u v : Listing, lex lesser text = .ok u → lex greater text = .ok v →
      u.tokens.size = v.tokens.size ∧
      u.tokens.toList.map Token.line = v.tokens.toList.map Token.line ∧
      u.tokens.toList.map Token.kind = v.tokens.toList.map Token.kind ∧
      u.lineStarts = v.lineStarts ∧ u.lineCount = v.lineCount ∧ u.diagnostics = v.diagnostics ∧
      ∃ (lexemes : List Lexeme) (groups : List (List Token × List Token)),
        let source := PaddedText.ofString (settings.source text)
        let table := LineTable.ofBytes source.bytes
        let spans := Span.ofLexemes source lexemes
        Lexeme.ofText source = .ok lexemes ∧
        Groups lesser table spans (groups.map Prod.fst) ∧
        Groups greater table spans (groups.map Prod.snd) ∧
        u.tokens.toList = (groups.map Prod.fst).flatten ∧
        v.tokens.toList = (groups.map Prod.snd).flatten ∧
        List.Forall₂ (fun span pair => pair.1 = pair.2 ∨
          span.terminal = .string ∧ ∃ t t' : Token, pair = ([t], [t']) ∧
            (m ≤ n → t.text = t'.text ∨
              t.text = Literal.collapsedText ∧ t'.text ≠ Literal.collapsedText)) spans groups := by
  intro lesser greater
  have hsource : lesser.source text = greater.source text := rfl
  refine ⟨?_, fun hsize => ⟨_, lex_eq (lesser.utf8ByteSize_source_le hsize)⟩, ?_⟩
  · rw [lex_eq_map, lex_eq_map, hsource]
    cases Lexeme.ofText (PaddedText.ofString (greater.source text)) <;> rfl
  · intro u v hu hv
    have hread := ofText_of_lex hu
    have hlexemes : Lexeme.ofText (PaddedText.ofString (settings.source text)) =
        .ok ((pieces (PaddedText.ofString (settings.source text)).bytes).map Piece.lexeme) := hread
    obtain rfl := eq_of_lex hu
    obtain rfl := eq_of_lex hv
    have hspans := ofLexemes_pieces (PaddedText.ofString (settings.source text))
    obtain ⟨groups, hgroups, hgroups', halike, hall⟩ := exists_groups_recollapsed settings
      (LineTable.ofBytes (PaddedText.ofString (settings.source text)).bytes) m n
      fun span hspan => first_of_mem_spansFrom hspan
    have htokens := hgroups.tokensOf_eq
    have htokens' := hgroups'.tokensOf_eq
    have hpairs := halike
    rw [← htokens, ← htokens'] at hpairs
    have hlines := map_line_of_alike hpairs
    have hstarts := startsFrom_congr hlines 0 #[]
    refine ⟨hpairs.length_eq, hlines, map_kind_of_alike hpairs, hstarts,
      congrArg Array.size hstarts, rfl, _, groups, hlexemes, ?_, ?_, htokens, htokens', ?_⟩
    · show Groups lesser _ (Span.ofLexemes _ _) _
      rw [hspans]
      exact hgroups
    · show Groups greater _ (Span.ofLexemes _ _) _
      rw [hspans]
      exact hgroups'
    · show List.Forall₂ _ (Span.ofLexemes _ _) _
      rw [hspans]
      refine hall.imp ?_
      rintro span ⟨group, group'⟩ hspan
      cases hspan with
      | same group => exact .inl rfl
      | literal w line hk =>
        exact .inr ⟨hk, _, _, rfl, fun hle => Literal.normalText_of_le hle w⟩

/-- A string collapses and one of three characters in four bytes does not; the closers in front of
them are split, and those behind them are not, under either limit. -/
theorem lex_collapseLimit_closers : ∃ u v : Listing,
    lex ⟨4, true, true⟩ "A<B<C>>\n\"wx\"<\"é\">>" = .ok u ∧
      lex ⟨15, true, true⟩ "A<B<C>>\n\"wx\"<\"é\">>" = .ok v ∧
      u.tokens.toList.map Token.text =
        ["A", "<", "B", "<", "C", ">", ">", "\"\"", "<", "\"é\"", ">>"] ∧
      v.tokens.toList.map Token.text =
        ["A", "<", "B", "<", "C", ">", ">", "\"wx\"", "<", "\"é\"", ">>"] ∧
      u.tokens.toList.map Token.kind = v.tokens.toList.map Token.kind ∧
      u.lineStarts = v.lineStarts ∧ u.diagnostics = v.diagnostics := by
  obtain ⟨-, hok, htokens⟩ := lex_collapseLimit {} 4 15 "A<B<C>>\n\"wx\"<\"é\">>"
  obtain ⟨u, hu⟩ := hok (by decide)
  obtain ⟨v, hv⟩ := (lex_collapseLimit {} 15 4 "A<B<C>>\n\"wx\"<\"é\">>").2.1 (by decide)
  obtain ⟨-, -, hkinds, hstarts, -, hdiagnostics, -⟩ := htokens u v hu hv
  have hlesser : (lex ⟨4, true, true⟩ "A<B<C>>\n\"wx\"<\"é\">>").toOption.map
      (fun l => l.tokens.toList.map Token.text) =
      some ["A", "<", "B", "<", "C", ">", ">", "\"\"", "<", "\"é\"", ">>"] := by
    decide +kernel
  have hgreater : (lex ⟨15, true, true⟩ "A<B<C>>\n\"wx\"<\"é\">>").toOption.map
      (fun l => l.tokens.toList.map Token.text) =
      some ["A", "<", "B", "<", "C", ">", ">", "\"wx\"", "<", "\"é\"", ">>"] := by
    decide +kernel
  change lex ⟨4, true, true⟩ _ = _ at hu
  change lex ⟨15, true, true⟩ _ = _ at hv
  rw [hu] at hlesser
  rw [hv] at hgreater
  exact ⟨u, v, hu, hv, Option.some.inj hlesser, Option.some.inj hgreater, hkinds, hstarts,
    hdiagnostics⟩

end JavaTokens
