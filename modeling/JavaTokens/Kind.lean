import JavaTokens.Word
import JavaTokens.Literal
import JavaTokens.Numeral.Form

/-!
# Kinds of tokens

The kind of a token is read off its text alone, wherever the text comes from.
-/

namespace JavaTokens

inductive Kind
  | keyword | identifier | numeral | stringLiteral | characterLiteral
  /-- Operators, separators and everything else. -/
  | operator
deriving DecidableEq, Repr

namespace Kind

def name : Kind → String
  | keyword => "keyword"
  | identifier => "identifier"
  | numeral => "numeral"
  | stringLiteral => "string literal"
  | characterLiteral => "char literal"
  | operator => "operator"

def ofText (text : String) : Kind :=
  if Word.isReserved text then keyword
  else if Word.isIdentifier text then identifier
  else if Numeral.isNumeral text then numeral
  else if Literal.isString text then stringLiteral
  else if Literal.isCharacter text then characterLiteral
  else operator

end Kind

end JavaTokens
