import JavaTokens.Reader
import JavaTokens.Terminal

/-!
# Reading blanks, line ends and comments
-/

namespace JavaTokens.Lexeme

open ReadM

def blanks : ReadM Terminal := do
  skipBlanks
  return .trivia .blanks

def lineFeed : ReadM Terminal := do
  skip 1
  return .trivia .lineEnd

/-- A carriage return, together with a line feed behind it. -/
def carriageReturn : ReadM Terminal := do
  skip 1
  skipOptional (· == '\n'.toUInt8)
  return .trivia .lineEnd

/-- A comment, or a division. -/
def slash : ReadM Terminal := do
  skip 1
  let b ← current
  if b == '/'.toUInt8 then
    skip 1
    seekLineEnd
    return .trivia .lineComment
  else if b == '*'.toUInt8 then
    skip 1
    if ← skipComment then return .trivia .blockComment
    else return .defect .openComment
  else if b == '='.toUInt8 then
    skip 1
    return .symbol .divideAssign
  else return .symbol .divide

/-- A zero byte: the end of the text, or one that stands inside it. -/
def null : ReadM Terminal := do
  if ← atEnd then return .finish
  else
    skip 1
    return .defect .nullByte

/-- One byte that begins nothing. -/
def stray : ReadM Terminal := do
  skip 1
  return .defect .strayCharacter

end JavaTokens.Lexeme
