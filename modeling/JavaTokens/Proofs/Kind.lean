import JavaTokens.Proofs.Kind.Word
import JavaTokens.Proofs.Kind.Numeral
import JavaTokens.Proofs.Kind.Literal
import JavaTokens.Proofs.Groups

/-!
# Kinds of tokens as they are read

The kind of a token is read off its text, by tests that know nothing of reading.  It is the one that
the terminal of its span calls for all the same: the tests do not overlap on what is read, and neither
a normal text nor a single closer is of another kind.

    every token is of the kind of the terminal it comes from          (lex_kinds)
-/

namespace JavaTokens

open Text Ascii

/-- The kind of a token with the given text that comes from the terminal. -/
def Terminal.kindOf : Terminal → (text : String) → Kind
  | word, text => if text ∈ Word.reserved then .keyword else .identifier
  | numeral _, _ => .numeral
  | string, _ => .stringLiteral
  | character, _ => .characterLiteral
  | _, _ => .operator

/-! ## Tests that exclude each other -/

namespace Kind

variable {text : String}

theorem ofText_of_isWord (h : Word.isWord text = true) :
    ofText text = if text ∈ Word.reserved then keyword else identifier := by
  unfold ofText Word.isIdentifier
  by_cases hmem : text ∈ Word.reserved
  · rw [if_pos hmem, if_pos (Word.isReserved_of_mem hmem)]
  · have hreserved : Word.isReserved text = false := by
      rw [Bool.eq_false_iff]
      exact fun hr => hmem (Word.mem_of_isReserved hr)
    rw [if_neg hmem, hreserved, if_neg Bool.false_ne_true, h]
    rfl

/-- Without a word the tests for words come to nothing. -/
theorem ofText_of_not_isWord (h : Word.isWord text = false) :
    ofText text =
      if Numeral.isNumeral text then numeral
      else if Literal.isString text then stringLiteral
      else if Literal.isCharacter text then characterLiteral
      else operator := by
  have hreserved : Word.isReserved text = false := by
    rw [Bool.eq_false_iff]
    intro hr
    rw [Word.isWord_of_mem (Word.mem_of_isReserved hr)] at h
    cases h
  simp only [ofText, Word.isIdentifier, hreserved, h, Bool.false_and, Bool.false_eq_true, if_false]

/-- No word begins like a numeral. -/
theorem not_isWord_of_isNumeral (h : Numeral.isNumeral text = true) :
    Word.isWord text = false := by
  rw [Bool.eq_false_iff]
  intro hword
  obtain ⟨b, s, hbytes, hb⟩ := exists_cons_of_begins (Cut.begins_of_isSome_form h)
  have hstart := Word.begins_of_isWord hword
  rw [hbytes, begins_cons, Bool.or_eq_true, isWordStart_iff, isBeyondAscii_iff] at hstart
  rw [Bool.or_eq_true, isDigit_iff, beq_iff_toNat] at hb
  change (48 ≤ b.toNat ∧ b.toNat ≤ 57) ∨ b.toNat = 46 at hb
  omega

theorem ofText_of_isNumeral (h : Numeral.isNumeral text = true) : ofText text = numeral := by
  rw [ofText_of_not_isWord (not_isWord_of_isNumeral h), if_pos h]

/-- A text in quotes is neither a word nor a numeral. -/
theorem not_isWord_of_isQuoted {quote : Char} {least : Nat} (hquote : quote = '"' ∨ quote = '\'')
    (h : Literal.isQuoted quote least text = true) :
    Word.isWord text = false ∧ Numeral.isNumeral text = false := by
  obtain ⟨cs, hcs⟩ := List.head?_eq_some_iff.mp (Literal.isQuoted_iff.mp h).2.1
  constructor
  · rw [Word.isWord, hcs]
    rcases hquote with rfl | rfl <;> rfl
  · rw [Bool.eq_false_iff]
    intro hnumeral
    have hbegins := Cut.begins_of_isSome_form hnumeral
    rw [bytes, hcs, List.flatMap_cons] at hbegins
    rcases hquote with rfl | rfl <;> cases hbegins

theorem ofText_of_isString (h : Literal.isString text = true) : ofText text = stringLiteral := by
  obtain ⟨hword, hnumeral⟩ := not_isWord_of_isQuoted (.inl rfl) h
  rw [ofText_of_not_isWord hword, hnumeral, if_neg Bool.false_ne_true, if_pos h]

theorem ofText_of_isCharacter (h : Literal.isCharacter text = true) :
    ofText text = characterLiteral := by
  obtain ⟨hword, hnumeral⟩ := not_isWord_of_isQuoted (.inr rfl) h
  have hstring : Literal.isString text = false := by
    rw [Bool.eq_false_iff]
    intro hs
    have hhead := (Literal.isQuoted_iff.mp hs).2.1
    rw [(Literal.isQuoted_iff.mp h).2.1] at hhead
    cases hhead
  rw [ofText_of_not_isWord hword, hnumeral, hstring, if_neg Bool.false_ne_true,
    if_neg Bool.false_ne_true, if_pos h]

theorem ofText_spelling (sym : Symbol) : ofText sym.spelling = operator := by
  have hall (sym : Symbol) : ofText sym.spelling = operator := by
    cases sym
    all_goals decide +kernel
  exact hall sym

end Kind

/-! ## Kinds of what is read -/

theorem ofText_of_first {text : String} {k : Terminal} (h : Cut.first (bytes text) = ⟨k, []⟩)
    (hk : k.isToken = true) : Kind.ofText text = k.kindOf text := by
  cases k with
  | word => exact Kind.ofText_of_isWord (isWord_of_first h)
  | numeral shape => exact Kind.ofText_of_isNumeral (isNumeral_of_first h)
  | string => exact Kind.ofText_of_isString (isString_of_first h)
  | character => exact Kind.ofText_of_isCharacter (isCharacter_of_first h)
  | symbol sym =>
    have hspelling := Cut.eq_spelling_of_first h
    rw [List.append_nil] at hspelling
    rw [bytes_inj hspelling]
    exact Kind.ofText_spelling sym
  | trivia | defect | finish => cases hk

/-- The texts of a token are of the kind that its terminal calls for. -/
theorem ofText_of_emits {settings : Settings} {k : Terminal} {text : String} {texts : List String}
    (h : Cut.first (bytes text) = ⟨k, []⟩) (hk : k.isToken = true)
    (he : Emits settings k text texts) : ∀ t ∈ texts, Kind.ofText t = k.kindOf t := by
  intro t ht
  cases he with
  | whole hliteral =>
    obtain rfl := List.mem_singleton.mp ht
    exact ofText_of_first h hk
  | literal hliteral =>
    obtain rfl := List.mem_singleton.mp ht
    cases k with
    | string => exact Kind.ofText_of_isString (Literal.isString_normalText _ (isString_of_first h))
    | character =>
      exact Kind.ofText_of_isCharacter (Literal.isCharacter_normalText _ (isCharacter_of_first h))
    | _ => cases hliteral
  | closers hliteral hsplit hrun =>
    obtain rfl := (List.mem_replicate.mp ht).2
    have hsymbol : ∃ sym, k = .symbol sym := by
      rcases hrun with rfl | rfl
      · exact ⟨.shiftRight, (congrArg Cut.terminal h).symm⟩
      · exact ⟨.shiftRightZero, (congrArg Cut.terminal h).symm⟩
    obtain ⟨sym, rfl⟩ := hsymbol
    exact Kind.ofText_spelling .greater

/-- Every token of a text is of the kind that the terminal of its span calls for: a keyword if it is a
word and reserved, an identifier if it is another word, a numeral, a string or a character if it is
read as one, and an operator if it is read as a symbol or split off one. -/
theorem lex_kinds (settings : Settings) (text : String) (hsize : text.utf8ByteSize ≤ maxOffset) :
    ∃ (lexemes : List Lexeme) (listing : Listing) (groups : List (List Token)),
      let source := PaddedText.ofString (settings.source text)
      let spans := Span.ofLexemes source lexemes
      Lexeme.ofText source = .ok lexemes ∧ lex settings text = .ok listing ∧
      Groups settings (LineTable.ofBytes source.bytes) spans groups ∧
      listing.tokens.toList = groups.flatten ∧
      List.Forall₂ (fun span group => ∀ t ∈ group, t.kind = span.terminal.kindOf t.text)
        spans groups :=
  lex_groups settings hsize fun _ _ _ h hk he => ofText_of_emits h hk he

/-- A keyword, a word beyond ASCII, two numerals, a tab in quotes, a string that collapses and closers
that are split. -/
theorem lex_kinds_mixed : ∃ (listing : Listing) (groups : List (List Token)),
    lex {} "new ñ<A<B>>(0x1F,'\t',\"sixteen letters.\")" = .ok listing ∧
      listing.tokens.toList = groups.flatten ∧
      List.Forall₂ (fun terminal group => ∀ t ∈ group, t.kind = Terminal.kindOf terminal t.text)
        [.word, .trivia .blanks, .word, .symbol .less, .word, .symbol .less, .word,
          .symbol .shiftRight, .symbol .leftParen, .numeral .hexadecimal, .symbol .comma,
          .character, .symbol .comma, .string, .symbol .rightParen] groups := by
  obtain ⟨lexemes, listing, groups, htext, hlex, -, htokens, hkinds⟩ :=
    lex_kinds {} "new ñ<A<B>>(0x1F,'\t',\"sixteen letters.\")" (by decide)
  have hlexemes : (Lexeme.ofText (PaddedText.ofString
      "new ñ<A<B>>(0x1F,'\t',\"sixteen letters.\")")).toOption =
      some [⟨.word, 3⟩, ⟨.trivia .blanks, 1⟩, ⟨.word, 2⟩, ⟨.symbol .less, 1⟩, ⟨.word, 1⟩,
        ⟨.symbol .less, 1⟩, ⟨.word, 1⟩, ⟨.symbol .shiftRight, 2⟩, ⟨.symbol .leftParen, 1⟩,
        ⟨.numeral .hexadecimal, 4⟩, ⟨.symbol .comma, 1⟩, ⟨.character, 3⟩, ⟨.symbol .comma, 1⟩,
        ⟨.string, 18⟩, ⟨.symbol .rightParen, 1⟩] := by
    decide +kernel
  have hsource : Settings.source {} "new ñ<A<B>>(0x1F,'\t',\"sixteen letters.\")" =
      "new ñ<A<B>>(0x1F,'\t',\"sixteen letters.\")" := by
    decide +kernel
  rw [hsource] at htext hkinds
  rw [htext] at hlexemes
  obtain rfl := Option.some.inj hlexemes
  have hterminals := (List.forall₂_map_left_iff (f := Span.terminal)
    (R := fun terminal (group : List Token) => ∀ t ∈ group, t.kind = terminal.kindOf t.text)).mpr
      hkinds
  exact ⟨listing, groups, hlex, htokens, hterminals⟩

end JavaTokens
