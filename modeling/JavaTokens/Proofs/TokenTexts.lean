import JavaTokens.Proofs.Groups
import JavaTokens.Proofs.NormalLiterals
import JavaTokens.Proofs.NumeralGrammar

/-!
# Texts of tokens

Every token stands on one line.  Tabs and line ends part tokens, and within a literal they are spelled
as escapes.  Spaces, form feeds and NUL part tokens as well but are no escapes, so a literal is the
only token that has them in its text.

    nothing but a literal has a blank in it                           (not_isParting_of_first)
    the text of a token is on one line, and where it has blanks       (lex_singleLine)
-/

namespace JavaTokens

open Text

/-- The characters that part tokens. -/
def isParting (c : Char) : Bool :=
  Literal.isEscaped c || c == ' ' || c == '\x0c' || c == '\x00'

theorem isParting_iff {c : Char} : isParting c = true ↔
    Literal.isEscaped c = true ∨ c = ' ' ∨ c = '\x0c' ∨ c = '\x00' := by
  simp only [isParting, Bool.or_eq_true, beq_iff_eq, or_assoc]

theorem not_isParting_of_all {cs : List Char} (h : (cs.all fun c => !isParting c) = true) :
    ∀ c ∈ cs, isParting c = false := by
  simpa only [List.all_eq_true, Bool.not_eq_true'] using h

/-! ## Texts without blanks -/

theorem Word.not_isParting {text : String} (h : isWord text = true) :
    ∀ c ∈ text.toList, isParting c = false := by
  have hnot {c : Char} (hc : isParting c = true) : isStart c = false ∧ isPart c = false := by
    rw [isParting_iff, Literal.isEscaped_iff] at hc
    rcases hc with ((rfl | rfl) | rfl) | rfl | rfl | rfl
    all_goals exact ⟨rfl, rfl⟩
  intro c hc
  rw [Bool.eq_false_iff]
  intro hparting
  obtain ⟨hstart, hpart⟩ := hnot hparting
  unfold isWord at h
  split at h
  · next hnil =>
    rw [hnil] at hc
    cases hc
  · next d rest hcons =>
    rw [hcons] at hc
    rw [Bool.and_eq_true, List.all_eq_true] at h
    rcases List.mem_cons.mp hc with rfl | hc
    · rw [hstart] at h
      cases h.1
    · rw [h.2 c hc] at hpart
      cases hpart

theorem Numeral.not_isParting {text : String} (h : isNumeral text = true) :
    ∀ c ∈ text.toList, isParting c = false := by
  have hall (form : Form) : ∀ c ∈ characters form.expression, isParting c = false := by
    refine not_isParting_of_all ?_
    rcases form with _ | _ | _ | (_ | _ | _ | _)
    all_goals decide +kernel
  obtain ⟨form, hform⟩ := Option.isSome_iff_exists.mp h
  intro c hc
  exact hall form c (mem_characters (form?_eq_some_iff.mp hform) c hc)

theorem Symbol.not_isParting (sym : Symbol) : ∀ c ∈ sym.spelling.toList, isParting c = false := by
  refine not_isParting_of_all ?_
  cases sym
  all_goals decide +kernel

/-- Nothing that is read as a token has a blank in it, unless it is a literal. -/
theorem not_isParting_of_first {text : String} {k : Terminal}
    (h : Cut.first (bytes text) = ⟨k, []⟩) (hk : k.isToken = true)
    (hliteral : k.isLiteralText = false) : ∀ c ∈ text.toList, isParting c = false := by
  cases k with
  | word => exact Word.not_isParting (isWord_of_first h)
  | numeral shape => exact Numeral.not_isParting (isNumeral_of_first h)
  | symbol sym =>
    have hspelling := Cut.eq_spelling_of_first h
    rw [List.append_nil] at hspelling
    rw [bytes_inj hspelling]
    exact Symbol.not_isParting sym
  | string | character => cases hliteral
  | trivia | defect | finish => cases hk

/-! ## What is put for a token -/

theorem Literal.not_isEscaped_normalText (limit : Nat) (text : String) :
    ∀ c ∈ (normalText limit text).toList, isEscaped c = false := by
  rcases toList_normalText limit text with ⟨-, hcollapsed⟩ | hspelled
  · have hall : (collapsedText.toList.all fun c => !isEscaped c) = true := by decide
    rw [hcollapsed]
    simpa only [List.all_eq_true, Bool.not_eq_true'] using hall
  · rw [hspelled]
    intro d hd
    obtain ⟨c, -, hc⟩ := List.mem_flatMap.mp hd
    exact not_isEscaped_escapeChar c d hc

theorem not_isEscaped_of_not_isParting {c : Char} (h : isParting c = false) :
    Literal.isEscaped c = false := by
  rw [Bool.eq_false_iff, Ne, isParting_iff, not_or] at h
  exact Bool.eq_false_iff.mpr h.1

/-- What the text of a token that comes from the terminal has in it. -/
structure IsTokenText (k : Terminal) (text : String) : Prop where
  ne_empty : text ≠ ""
  inLine : ∀ c ∈ text.toList, c ≠ '\t' ∧ c ≠ '\n' ∧ c ≠ '\r'
  isLiteral : (∃ c ∈ text.toList, c = ' ' ∨ c = '\x0c' ∨ c = '\x00') →
    k = .string ∨ k = .character

theorem IsTokenText.of_isParting {k : Terminal} {text : String} (hne : text ≠ "")
    (hline : ∀ c ∈ text.toList, Literal.isEscaped c = false)
    (hblank : k.isLiteralText = false → ∀ c ∈ text.toList, isParting c = false) :
    IsTokenText k text where
  ne_empty := hne
  inLine c hc := by
    have hescaped := Bool.eq_false_iff.mp (hline c hc)
    rw [Ne, Literal.isEscaped_iff, not_or, not_or] at hescaped
    exact ⟨hescaped.2, hescaped.1⟩
  isLiteral := by
    rintro ⟨c, hc, hc'⟩
    have hparting : isParting c = true := isParting_iff.mpr (.inr hc')
    cases k with
    | string => exact .inl rfl
    | character => exact .inr rfl
    | word | numeral | symbol | trivia | defect | finish =>
      rw [hblank rfl c hc] at hparting
      cases hparting

/-- What a token is put with is the text of a token. -/
theorem isTokenText_of_emits {settings : Settings} {k : Terminal} {text : String}
    {texts : List String} (h : Cut.first (bytes text) = ⟨k, []⟩) (hk : k.isToken = true)
    (he : Emits settings k text texts) : ∀ t ∈ texts, IsTokenText k t := by
  have htext : text ≠ "" := by
    rintro rfl
    obtain rfl : Terminal.finish = k := congrArg Cut.terminal h
    cases hk
  intro t ht
  have hne := he.ne_empty htext t ht
  cases he with
  | whole hliteral =>
    obtain rfl := List.mem_singleton.mp ht
    have hall := not_isParting_of_first h hk hliteral
    exact .of_isParting hne (fun c hc => not_isEscaped_of_not_isParting (hall c hc)) fun _ => hall
  | literal hliteral =>
    obtain rfl := List.mem_singleton.mp ht
    refine .of_isParting hne (Literal.not_isEscaped_normalText _ text) fun hnot => ?_
    rw [hliteral] at hnot
    cases hnot
  | closers hliteral hsplit hrun =>
    obtain rfl := (List.mem_replicate.mp ht).2
    have hall : ∀ c ∈ ">".toList, isParting c = false := not_isParting_of_all (by decide)
    exact .of_isParting hne (fun c hc => not_isEscaped_of_not_isParting (hall c hc)) fun _ => hall

/-- The text of a token is not empty, and it has no tab and no line end in it.  Where it has a space,
a form feed or a NUL in it, the token is a literal. -/
theorem lex_singleLine (settings : Settings) (text : String)
    (hsize : text.utf8ByteSize ≤ maxOffset) :
    ∃ (lexemes : List Lexeme) (listing : Listing) (groups : List (List Token)),
      let source := PaddedText.ofString (settings.source text)
      let spans := Span.ofLexemes source lexemes
      Lexeme.ofText source = .ok lexemes ∧ lex settings text = .ok listing ∧
      Groups settings (LineTable.ofBytes source.bytes) spans groups ∧
      listing.tokens.toList = groups.flatten ∧
      List.Forall₂ (fun span group => ∀ t ∈ group, IsTokenText span.terminal t.text)
        spans groups :=
  lex_groups settings hsize fun _ _ _ h hk he => isTokenText_of_emits h hk he

/-- A string with a tab, a space and a form feed, and a NUL between quotes. -/
theorem lex_singleLine_blanks : ∃ (listing : Listing) (groups : List (List Token)),
    lex {} "a\t= \"\tb \x0c\"+'\x00';\n" = .ok listing ∧
      listing.tokens.toList = groups.flatten ∧
      listing.tokens.toList.map Token.text = ["a", "=", "\"\\tb \x0c\"", "+", "'\x00'", ";"] ∧
      List.Forall₂ (fun terminal group => ∀ t ∈ group, IsTokenText terminal t.text)
        [.word, .trivia .blanks, .symbol .assign, .trivia .blanks, .string, .symbol .plus,
          .character, .symbol .semicolon, .trivia .lineEnd] groups := by
  obtain ⟨lexemes, listing, groups, htext, hlex, -, htokens, hclean⟩ :=
    lex_singleLine {} "a\t= \"\tb \x0c\"+'\x00';\n" (by decide)
  have hlexemes : (Lexeme.ofText (PaddedText.ofString "a\t= \"\tb \x0c\"+'\x00';\n")).toOption =
      some [⟨.word, 1⟩, ⟨.trivia .blanks, 1⟩, ⟨.symbol .assign, 1⟩, ⟨.trivia .blanks, 1⟩,
        ⟨.string, 6⟩, ⟨.symbol .plus, 1⟩, ⟨.character, 3⟩, ⟨.symbol .semicolon, 1⟩,
        ⟨.trivia .lineEnd, 1⟩] := by
    decide +kernel
  have hsource : Settings.source {} "a\t= \"\tb \x0c\"+'\x00';\n" =
      "a\t= \"\tb \x0c\"+'\x00';\n" := by
    decide +kernel
  have htexts : (lex {} "a\t= \"\tb \x0c\"+'\x00';\n").toOption.map
      (fun listing => listing.tokens.toList.map Token.text) =
      some ["a", "=", "\"\\tb \x0c\"", "+", "'\x00'", ";"] := by
    decide +kernel
  rw [hsource] at htext hclean
  rw [htext] at hlexemes
  obtain rfl := Option.some.inj hlexemes
  rw [hlex] at htexts
  have hterminals := (List.forall₂_map_left_iff (f := Span.terminal)
    (R := fun terminal (group : List Token) => ∀ t ∈ group, IsTokenText terminal t.text)).mpr hclean
  exact ⟨listing, groups, hlex, htokens, Option.some.inj htexts, hterminals⟩

end JavaTokens
