/-!
# Defects

What can be wrong with a stretch of text that is no part of a program.  Every defect has a short
label, which names the kind of terminal, and a description, which a diagnostic shows.
-/

namespace JavaTokens

inductive Defect
  /-- A character that begins nothing: `#`, `\`, a control character, a character beyond ASCII that
  is no letter. -/
  | strayCharacter
  /-- A string literal cut off by the end of its line or of the text. -/
  | openString
  /-- A character literal that is empty, too long or not closed. -/
  | openCharacter
  /-- A block comment that is not closed. -/
  | openComment
  /-- A radix mark or an exponent mark without digits. -/
  | digitlessNumeral
  /-- A zero byte inside the text. -/
  | nullByte
deriving DecidableEq, Repr

namespace Defect

def label : Defect → String
  | strayCharacter => "invalid character"
  | openString => "unterminated string"
  | openCharacter => "unterminated char literal"
  | openComment => "unterminated block comment"
  | digitlessNumeral => "malformed numeric literal"
  | nullByte => "interior null byte"

def description : Defect → String
  | strayCharacter => "invalid character"
  | openString => "unterminated string literal"
  | openCharacter => "unterminated character literal"
  | openComment => "unterminated block comment"
  | digitlessNumeral => "malformed numeric literal"
  | nullByte => "interior null byte"

/-- Defects are numbered from 240, in the order in which they are listed. -/
def code (d : Defect) : Nat := 240 + d.ctorIdx

end Defect

/-- A stretch of text that was left out for a defect. -/
structure Diagnostic where
  offset : Nat
  length : Nat
  /-- The line of the first byte, counted from one. -/
  line : Nat
  defect : Defect
deriving DecidableEq, Repr

def Diagnostic.message (d : Diagnostic) : String :=
  d.defect.description ++ " at line " ++ toString d.line

end JavaTokens
