import JavaTokens.Reader
import JavaTokens.Terminal
import JavaTokens.Unicode.Property

/-!
# Reading words

A word begins with an ASCII letter, `_`, `$` or an alphabetic character beyond ASCII, and goes on
with those, with digits and with alphanumeric characters beyond ASCII.
-/

namespace JavaTokens.Lexeme

open ReadM

/-- Moves over one more character of a word, if there is one. -/
def wordPart : ReadM Bool := do
  let b ← current
  if Ascii.isWordPart b then
    skip 1
    return true
  else if b < 0x80 then return false
  else if (← char?).any Unicode.isAlphanumeric then
    skipChar
    return true
  else return false

def wordRest : ReadM Terminal := do
  repeatWhile wordPart ((← get).left + 1)
  return .word

/-- A word that begins with an ASCII byte. -/
def word : ReadM Terminal := do
  skip 1
  wordRest

/-- A word that begins beyond ASCII, or one character that begins nothing. -/
def beyondAscii : ReadM Terminal := do
  if (← char?).any Unicode.isAlphabetic then
    skipChar
    wordRest
  else
    skipChar
    return .defect .strayCharacter

end JavaTokens.Lexeme
