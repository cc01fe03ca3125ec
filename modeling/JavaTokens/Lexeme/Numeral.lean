import JavaTokens.Reader
import JavaTokens.Terminal

/-!
# Reading numerals

Numerals are read without digit separators.  `0x` has to be followed by a hexadecimal digit and an
exponent mark by a decimal digit; a lone `0b` is the numeral `0` before a word.
-/

namespace JavaTokens.Lexeme

open ReadM Ascii

def longSuffix : ReadM Unit := skipOptional (isLetterOf 'l')

/-- An exponent, if there is one.  The answer is `false` for an exponent mark without digits. -/
def exponent : ReadM Bool := do
  if isLetterOf 'e' (← current) then
    skip 1
    skipOptional isSign
    skipSome isDigit
  else return true

/-- What may follow the mantissa of a floating-point numeral. -/
def floatTail : ReadM Terminal := do
  if ← exponent then
    skipOptional isFloatSuffix
    return .numeral .floating
  else return .defect .digitlessNumeral

/-- The digits behind a dot, and the rest of the numeral. -/
def fraction : ReadM Terminal := do
  skip 1
  skipWhile isDigit
  floatTail

/-- A hexadecimal numeral from its radix mark on. -/
def hexadecimal : ReadM Terminal := do
  skip 1
  if ← skipSome isHexDigit then
    longSuffix
    return .numeral .hexadecimal
  else return .defect .digitlessNumeral

/-- A binary numeral from its radix mark on. -/
def binary : ReadM Terminal := do
  skip 1
  skipWhile isBinaryDigit
  longSuffix
  return .numeral .binary

/-- A decimal numeral from its second byte on. -/
def decimal : ReadM Terminal := do
  skipWhile isDigit
  let b ← current
  if b == '.'.toUInt8 then fraction
  else if isLetterOf 'e' b || isFloatSuffix b then floatTail
  else
    longSuffix
    return .numeral .decimal

/-- A numeral that begins with `0`, from its second byte on. -/
def afterZero : ReadM Terminal := do
  let b ← current
  if isLetterOf 'x' b then hexadecimal
  else if isLetterOf 'b' b then
    if isBinaryDigit (← look 1) then binary else decimal
  else decimal

/-- A numeral that begins with a digit. -/
def number : ReadM Terminal := do
  let first ← current
  skip 1
  if first == '0'.toUInt8 then afterZero else decimal

end JavaTokens.Lexeme
