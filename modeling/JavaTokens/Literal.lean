/-!
# Texts of literals

The text of a string or character literal is set in one line, with its tabs and line ends spelled as
escapes.  A long string literal is data and not structure, and its text collapses to `""`.
-/

namespace JavaTokens.Literal

/-! ## Shapes -/

/-- A text of at least `least` bytes on one line, with the same quote at both ends. -/
def isQuoted (quote : Char) (least : Nat) (text : String) : Bool :=
  let cs := text.toList
  least ≤ text.utf8ByteSize && cs.head? == some quote && cs.getLast? == some quote &&
    cs.all fun c => c != '\n' && c != '\r'

/-- A string literal may be empty. -/
def isString (text : String) : Bool := isQuoted '"' 2 text

/-- A character literal has something between its quotes. -/
def isCharacter (text : String) : Bool := isQuoted '\'' 3 text

/-! ## Normal texts -/

/-- The text of every collapsed string literal. -/
def collapsedText : String := "\"\""

/-- Without another setting, string literals collapse from this many characters on, quotes included.
-/
def defaultLimit : Nat := 15

/-- Whether a character is spelled as an escape. -/
def isEscaped (c : Char) : Bool := c == '\n' || c == '\r' || c == '\t'

def escapeChar (c : Char) : List Char :=
  if c == '\n' then ['\\', 'n']
  else if c == '\r' then ['\\', 'r']
  else if c == '\t' then ['\\', 't']
  else [c]

/-- The text with its tabs and line ends spelled as escapes, or `none` if it has neither. -/
def escape? (text : String) : Option String :=
  if text.toList.any isEscaped then some (String.ofList (text.toList.flatMap escapeChar)) else none

/-- What becomes of the text of a literal. -/
inductive Normal
  | kept
  | collapsed
  | escaped (text : String)
deriving DecidableEq, Repr

/-- A string literal of `limit` characters or more collapses; any other text is escaped where it has
to be. -/
def normalize (limit : Nat) (text : String) : Normal :=
  if text.toList.head? == some '"' && limit ≤ text.length then .collapsed
  else
    match escape? text with
    | some escaped => .escaped escaped
    | none => .kept

/-- The text that a literal gets. -/
def Normal.apply (text : String) : Normal → String
  | kept => text
  | collapsed => collapsedText
  | escaped text => text

def normalText (limit : Nat) (text : String) : String := (normalize limit text).apply text

end JavaTokens.Literal
