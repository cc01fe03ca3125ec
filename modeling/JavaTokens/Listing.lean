import JavaTokens.Token
import JavaTokens.Defect

/-!
# Listings

The tokens of a text in order, held once, with the index at which each line begins among them.
There is a line for every line of the text up to the last one that holds a token; a line without
tokens is an empty stretch.
-/

namespace JavaTokens

structure Listing where
  tokens : Array Token
  /-- Of each line, the index of the first token that stands on it or behind it. -/
  lineStarts : Array Nat
  /-- What was left out, in the order of the text. -/
  diagnostics : List Diagnostic
deriving DecidableEq, Repr

namespace Listing

/-- The starts known so far and those of the lines up to the last of `tokens`, whose first has the
given index. -/
def startsFrom : List Token → (index : Nat) → (starts : Array Nat) → Array Nat
  | [], _, starts => starts
  | t :: rest, index, starts =>
    startsFrom rest (index + 1) (starts ++ Array.replicate (t.line - starts.size) index)

def ofTokens (tokens : List Token) (diagnostics : List Diagnostic) : Listing where
  tokens := tokens.toArray
  lineStarts := startsFrom tokens 0 #[]
  diagnostics := diagnostics

/-- The number of the last line that holds a token, or zero. -/
def lineCount (l : Listing) : Nat := l.lineStarts.size

/-- The tokens of the line with the given index, which is one less than its number.  A stretch that
ends before it starts, or behind the last token, is no line. -/
def line? (l : Listing) (index : Nat) : Option (List Token) := do
  let start ← l.lineStarts[index]?
  let stop := l.lineStarts[index + 1]?.getD l.tokens.size
  if start ≤ stop ∧ stop ≤ l.tokens.size then some (l.tokens.extract start stop).toList else none

/-- The lines in order, the first one first. -/
def lines (l : Listing) : List (List Token) :=
  (List.range l.lineCount).map fun index => (l.line? index).getD []

/-- The lines behind an empty one, so that each stands at its number. -/
def numberedLines (l : Listing) : List (List Token) := [] :: l.lines

def lineTexts (l : Listing) : List (List String) := l.lines.map fun line => line.map Token.text

def isEmpty (l : Listing) : Bool := l.tokens.isEmpty

end Listing

end JavaTokens
