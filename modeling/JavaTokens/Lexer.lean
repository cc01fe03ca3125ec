import JavaTokens.Span
import JavaTokens.Listing
import JavaTokens.Literal
import JavaTokens.TypeArguments
import JavaTokens.Numeral.Plain

/-!
# From texts to listings

A text has its numerals made plain and is cut into spans.  Trivia are left out, defects are
reported, and every other span becomes a token, with the text of literals normalized and the closers
of type arguments taken one by one.
-/

namespace JavaTokens

structure Settings where
  /-- String literals of this many characters or more collapse. -/
  collapseLimit : Nat := Literal.defaultLimit
  /-- Whether numerals are made plain before reading. -/
  plainNumerals : Bool := true
  /-- Whether runs of `>` that close type arguments are split. -/
  splitClosers : Bool := true
deriving DecidableEq, Repr

namespace Settings

/-- The text that is read for a given one. -/
def source (settings : Settings) (text : String) : String :=
  if settings.plainNumerals then Numeral.plain text else text

/-- Puts the token for a span of the given text behind those of `before`, newest first. -/
def emit (settings : Settings) (before : List Token) (terminal : Terminal) (text : String)
    (line : Nat) : List Token :=
  if terminal.isLiteralText then ⟨Literal.normalText settings.collapseLimit text, line⟩ :: before
  else if 1 < text.utf8ByteSize && settings.splitClosers && TypeArguments.isCloserRun text
      && TypeArguments.openIn Token.text before then
    List.replicate text.utf8ByteSize ⟨">", line⟩ ++ before
  else ⟨text, line⟩ :: before

/-- Puts the tokens of a span behind those of `before`, newest first. -/
def emitSpan (settings : Settings) (table : LineTable) (before : List Token) (span : Span) :
    List Token :=
  match span.tokenText? with
  | some text => settings.emit before span.terminal text (table.lineOf span.offset)
  | none => before

end Settings

/-- The tokens and diagnostics of a text.  A text of at most `maxOffset` bytes leads to no fault. -/
def lex (settings : Settings) (text : String) : Except ReadFault Listing := do
  let padded := PaddedText.ofString (settings.source text)
  let spans := Span.ofLexemes padded (← Lexeme.ofText padded)
  let table := LineTable.ofBytes padded.bytes
  return Listing.ofTokens (spans.foldl (settings.emitSpan table) []).reverse
    (spans.filterMap (Span.diagnostic? table))

/-- The listing of a text that is given line by line. -/
def lexLines (settings : Settings) (lines : List String) : Except ReadFault Listing :=
  lex settings ("\n".intercalate lines)

/-- The listings of several texts, each one on its own. -/
def lexAll (settings : Settings) (texts : List String) : Except ReadFault (List Listing) :=
  texts.mapM (lex settings)

end JavaTokens
