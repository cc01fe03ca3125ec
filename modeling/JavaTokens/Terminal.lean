import JavaTokens.Symbol
import JavaTokens.Defect

/-!
# Terminals

The kinds of stretches into which a text is cut.  Words are not told apart into keywords and
identifiers here, and literals are not evaluated.
-/

namespace JavaTokens

/-- The spellings of numerals that reading tells apart. -/
inductive NumeralShape
  | decimal | floating | hexadecimal | binary
deriving DecidableEq, Repr

/-- What lies between tokens. -/
inductive Trivia
  /-- Spaces, tabs and form feeds. -/
  | blanks
  /-- A line feed, a carriage return, or the pair of the two. -/
  | lineEnd
  | lineComment | blockComment
deriving DecidableEq, Repr

inductive Terminal
  | word
  | numeral (shape : NumeralShape)
  | string | character
  | symbol (s : Symbol)
  | trivia (t : Trivia)
  | defect (d : Defect)
  /-- The end of the text. -/
  | finish
deriving DecidableEq, Repr

namespace Terminal

def isTrivia : Terminal → Bool
  | trivia _ => true
  | _ => false

def isNumeral : Terminal → Bool
  | numeral _ => true
  | _ => false

def isLiteralText : Terminal → Bool
  | string | character => true
  | _ => false

def defect? : Terminal → Option Defect
  | defect d => some d
  | _ => none

/-- The spelling, where it never varies. -/
def spelling? : Terminal → Option String
  | symbol s => some s.spelling
  | _ => none

/-- The number of a kind: literals below 32, operators below 80, separators below 96, trivia from
112 to 119, defects from 240, and 255 for the end. -/
def code : Terminal → Nat
  | word => 0
  | numeral shape => 1 + shape.ctorIdx
  | string => 5
  | character => 6
  | symbol s => s.code
  | trivia t => 112 + t.ctorIdx
  | defect d => d.code
  | finish => 255

/-- A readable name of the kind. -/
def name : Terminal → String
  | word => "identifier"
  | numeral .decimal => "integer literal"
  | numeral .floating => "float literal"
  | numeral .hexadecimal => "hex integer literal"
  | numeral .binary => "binary integer literal"
  | string => "string literal"
  | character => "char literal"
  | symbol _ => "operator"
  | trivia .blanks => "whitespace"
  | trivia .lineEnd => "newline"
  | trivia .lineComment => "line comment"
  | trivia .blockComment => "block comment"
  | defect d => d.label
  | finish => "end of file"

end Terminal

end JavaTokens
