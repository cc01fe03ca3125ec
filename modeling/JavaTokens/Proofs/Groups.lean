import Mathlib.Data.List.Forall2
import Mathlib.Data.List.Induction
import JavaTokens.Proofs.Emission

/-!
# Groups of tokens

The tokens of a listing stand in groups, one for each span of the text and in the order of the spans.
A group is what its span puts behind the tokens of the groups before it; the one of trivia or of a
defect is empty.

    the tokens put for some spans are those of their groups           (Groups.foldl)
    what holds of all that a span can put holds of its group          (exists_groups)
-/

namespace JavaTokens

open Text

/-- The tokens of some spans, parted by the spans that put them. -/
inductive Groups (settings : Settings) (table : LineTable) : List Span → List (List Token) → Prop
  | nil : Groups settings table [] []
  | snoc {spans : List Span} {groups : List (List Token)} {span : Span} {group : List Token} :
      Groups settings table spans groups →
      settings.emitSpan table groups.flatten.reverse span = (groups ++ [group]).flatten.reverse →
      Groups settings table (spans ++ [span]) (groups ++ [group])

variable {settings : Settings} {table : LineTable} {spans : List Span} {groups : List (List Token)}

theorem Groups.foldl (h : Groups settings table spans groups) :
    spans.foldl (settings.emitSpan table) [] = groups.flatten.reverse := by
  induction h with
  | nil => rfl
  | snoc h hstep ih => rw [List.foldl_append, ih, List.foldl_cons, List.foldl_nil, hstep]

/-- The tokens of a text are those of the groups of its spans. -/
theorem Groups.tokensOf_eq {s : List UInt8}
    (h : Groups settings (LineTable.ofBytes s) (spansFrom 0 (pieces s)) groups) :
    tokensOf settings s = groups.flatten := by
  rw [tokensOf, h.foldl, List.reverse_reverse]

/-- What holds of all that a span can put, whatever stands before it, holds of its group. -/
theorem exists_groups (settings : Settings) (table : LineTable) {R : Span → List Token → Prop}
    (h : ∀ span ∈ spans, ∀ before, ∃ group,
      settings.emitSpan table before span = group.reverse ++ before ∧ R span group) :
    ∃ groups, Groups settings table spans groups ∧ List.Forall₂ R spans groups := by
  induction spans using List.reverseRecOn with
  | nil => exact ⟨[], .nil, .nil⟩
  | append_singleton spans span ih =>
    obtain ⟨groups, hgroups, hall⟩ := ih fun s hs => h s (List.mem_append_left _ hs)
    obtain ⟨group, hgroup, hspan⟩ := h span (by simp) groups.flatten.reverse
    refine ⟨groups ++ [group], hgroups.snoc ?_, ?_⟩
    · rw [hgroup, List.flatten_append, List.reverse_append, List.flatten_singleton]
    · exact List.rel_append hall (.cons hspan .nil)

/-- What holds of all texts that a token can lead to holds of the texts in the group of its span. -/
theorem lex_groups (settings : Settings) {text : String} (hsize : text.utf8ByteSize ≤ maxOffset)
    {R : Terminal → String → Prop}
    (h : ∀ k w texts, Cut.first (bytes w) = ⟨k, []⟩ → k.isToken = true →
      Emits settings k w texts → ∀ t ∈ texts, R k t) :
    ∃ (lexemes : List Lexeme) (listing : Listing) (groups : List (List Token)),
      let source := PaddedText.ofString (settings.source text)
      let spans := Span.ofLexemes source lexemes
      Lexeme.ofText source = .ok lexemes ∧ lex settings text = .ok listing ∧
      Groups settings (LineTable.ofBytes source.bytes) spans groups ∧
      listing.tokens.toList = groups.flatten ∧
      List.Forall₂ (fun span group => ∀ t ∈ group, R span.terminal t.text) spans groups := by
  have hsource := settings.utf8ByteSize_source_le hsize
  have hbytes := PaddedText.bytes_ofString hsource
  have hspans := ofLexemes_pieces (PaddedText.ofString (settings.source text))
  rw [hbytes] at hspans
  have hput : ∀ span ∈ spansFrom 0 (pieces (bytes (settings.source text))), ∀ before,
      ∃ group : List Token,
        settings.emitSpan (LineTable.ofBytes (bytes (settings.source text))) before span =
          group.reverse ++ before ∧ ∀ t ∈ group, R span.terminal t.text := by
    intro span hspan before
    have hfirst := first_of_mem_spansFrom hspan
    rw [Settings.emitSpan_eq, tokenText?_eq]
    cases htoken : span.terminal.isToken with
    | false => exact ⟨[], rfl, nofun⟩
    | true =>
      rw [if_pos rfl]
      cases hw : decode? span.bytes with
      | none => exact ⟨[], rfl, nofun⟩
      | some w =>
        rw [eq_bytes_of_decode? hw] at hfirst
        have hemits : Emits settings span.terminal w
            (settings.texts (before.map Token.text) span.terminal w) := emits_texts hfirst
        refine ⟨_, by rw [List.reverse_reverse], ?_⟩
        intro t ht
        rw [List.mem_reverse, List.mem_map] at ht
        obtain ⟨u, hu, rfl⟩ := ht
        exact h _ w _ hfirst htoken hemits u hu
  obtain ⟨groups, hgroups, hall⟩ := exists_groups settings _ hput
  refine ⟨_, _, groups, ofText_ofString hsource, lex_eq hsource, ?_, ?_, ?_⟩
  · rw [hbytes, hspans]
    exact hgroups
  · exact hgroups.tokensOf_eq
  · rw [hspans]
    exact hall

end JavaTokens
