import JavaTokens.Lexeme
import JavaTokens.Text.LineTable

/-!
# Spans

A lexeme together with its place and its bytes.
-/

namespace JavaTokens

structure Span where
  terminal : Terminal
  offset : Nat
  bytes : List UInt8
deriving DecidableEq, Repr

namespace Span

/-- Lays lexemes out over the bytes that stand at `offset`, behind the spans already `done`, newest
first. -/
def layOnto : List Lexeme → (offset : Nat) → (bytes : List UInt8) → (done : List Span) → List Span
  | [], _, _, done => done.reverse
  | lexeme :: rest, offset, bytes, done =>
    layOnto rest (offset + lexeme.length) (bytes.drop lexeme.length)
      (⟨lexeme.terminal, offset, bytes.take lexeme.length⟩ :: done)

/-- The spans of the lexemes of a text. -/
def ofLexemes (text : PaddedText) (lexemes : List Lexeme) : List Span :=
  layOnto lexemes 0 text.bytes []

/-- What a span with a defect is reported as. -/
def diagnostic? (table : LineTable) (span : Span) : Option Diagnostic :=
  span.terminal.defect?.map fun defect =>
    ⟨span.offset, span.bytes.length, table.lineOf span.offset, defect⟩

/-- The text of a span that is a token.  A span that is no text of its own is none. -/
def tokenText? (span : Span) : Option String :=
  match span.terminal with
  | .trivia _ | .defect _ | .finish => none
  | _ => Text.decode? span.bytes

end Span

end JavaTokens
