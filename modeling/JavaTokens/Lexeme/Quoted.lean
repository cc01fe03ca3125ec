import JavaTokens.Reader
import JavaTokens.Terminal

/-!
# Reading string and character literals

No literal goes over the end of its line, which is left for the next stretch, so that lines are
counted right behind a literal that is not closed.
-/

namespace JavaTokens.Lexeme

open ReadM Ascii

/-- The character behind a backslash, unless the line or the text ends there. -/
def escaped : ReadM Unit := do
  if isLineEnd (← current) then return ()
  else if ← atEnd then return ()
  else skipChar

/-! ## String literals -/

/-- A string literal from behind its opening quote.  Each round passes at least one byte. -/
def stringRest : (fuel : Nat) → ReadM Terminal
  | 0 => return .defect .openString
  | fuel + 1 => do
    let b ← seekStringStop
    if b == '"'.toUInt8 then
      skip 1
      return .string
    else if b == '\\'.toUInt8 then
      skip 1
      escaped
      stringRest fuel
    else return .defect .openString

def string : ReadM Terminal := do
  skip 1
  stringRest ((← get).left + 1)

/-! ## Character literals -/

/-- The rest of an escape: `u` any number of times and up to four hexadecimal digits, or up to three
octal digits, or one character. -/
def characterEscape : ReadM Unit := do
  let b ← current
  if b == 'u'.toUInt8 then
    skipWhile (· == 'u'.toUInt8)
    skipUpTo isHexDigit 4
  else if isOctalDigit b then skipUpTo isOctalDigit 3
  else escaped

def closeCharacter : ReadM Terminal := do
  if (← current) == '\''.toUInt8 then
    skip 1
    return .character
  else return .defect .openCharacter

/-- A character literal.  Of the empty literal both quotes are taken, so that the second one opens
no other. -/
def character : ReadM Terminal := do
  skip 1
  let b ← current
  if b == '\''.toUInt8 then
    skip 1
    return .defect .openCharacter
  else if isLineEnd b then return .defect .openCharacter
  else if b == '\\'.toUInt8 then
    skip 1
    characterEscape
    closeCharacter
  else if ← atEnd then return .defect .openCharacter
  else
    skipChar
    closeCharacter

end JavaTokens.Lexeme
