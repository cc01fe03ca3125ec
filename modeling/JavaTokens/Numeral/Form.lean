import JavaTokens.Text.Ascii
import JavaTokens.Text.Utf8

/-!
# Forms of numerals

The numerals of the language by their spelling.  With `G D` for digits of the class `D` in groups
joined by single underscores, and `E` for an exponent `[eE][+-]?[0-9]+`, the forms are

    hexadecimal    0[xX] G(hex) [lLfFdD]?          fraction       [0-9]+ . [0-9]+ E? [fFdD]?
    binary         0[bB] G(binary) [lL]?           trailing dot   [0-9]+ . E? [fFdD]?
    integer        G(decimal) [lLfFdD]?            leading dot    . [0-9]+ E? [fFdD]?
                                                   exponent       [0-9]+ E [fFdD]?

Each step below takes the longest run that its class admits and gives back the bytes behind it.
-/

namespace JavaTokens.Numeral

open Ascii

/-- What makes a numeral a floating-point numeral. -/
inductive FloatForm
  | fraction | trailingDot | leadingDot | exponent
deriving DecidableEq, Repr

inductive Form
  | hexadecimal | binary | integer
  | float (form : FloatForm)
deriving DecidableEq, Repr

/-! ## Parts of numerals -/

/-- The bytes behind the digits and groups that go on from a digit. -/
def groupsRest (isDigit : UInt8 → Bool) : List UInt8 → List UInt8
  | [] => []
  | b :: rest =>
    if isDigit b then groupsRest isDigit rest
    else if b == '_'.toUInt8 && rest.head?.any isDigit then groupsRest isDigit rest
    else b :: rest

/-- The bytes behind the groups of digits at the beginning, if there is a digit. -/
def afterGroups? (isDigit : UInt8 → Bool) (bytes : List UInt8) : Option (List UInt8) :=
  if bytes.head?.any isDigit then some (groupsRest isDigit bytes) else none

/-- The bytes behind `0` and a radix mark, which is a letter of either case. -/
def afterRadix? (mark : Char) : List UInt8 → Option (List UInt8)
  | zero :: b :: rest => if zero == '0'.toUInt8 && isLetterOf mark b then some rest else none
  | _ => none

/-- Nothing, or one byte of the class. -/
def isSuffix (allowed : UInt8 → Bool) : List UInt8 → Bool
  | [] => true
  | [b] => allowed b
  | _ => false

/-- Groups of digits and a suffix. -/
def isGrouped (isDigit suffix : UInt8 → Bool) (bytes : List UInt8) : Bool :=
  (afterGroups? isDigit bytes).any (isSuffix suffix)

/-- The letters `l`, `f` and `d`, which end a numeral of no special radix. -/
def isNumberSuffix (b : UInt8) : Bool := isLetterOf 'l' b || isFloatSuffix b

/-- The bytes behind the decimal digits at the beginning, if there is one. -/
def afterDigits? (bytes : List UInt8) : Option (List UInt8) :=
  if bytes.head?.any isDigit then some (bytes.dropWhile isDigit) else none

def dropSign : List UInt8 → List UInt8
  | [] => []
  | b :: rest => if isSign b then rest else b :: rest

/-- The bytes behind an exponent, which may be missing but not lack its digits. -/
def afterExponent? : List UInt8 → Option (List UInt8)
  | [] => some []
  | b :: rest => if isLetterOf 'e' b then afterDigits? (dropSign rest) else some (b :: rest)

/-- The form that a mantissa settles, and the bytes behind it.  Without a dot an exponent has to
follow. -/
def mantissa? (bytes : List UInt8) : Option (FloatForm × List UInt8) :=
  let whole := bytes.head?.any isDigit
  match bytes.dropWhile isDigit with
  | [] => none
  | b :: rest =>
    if b == '.'.toUInt8 then
      match whole, rest.head?.any isDigit with
      | true, true => some (.fraction, rest.dropWhile isDigit)
      | true, false => some (.trailingDot, rest)
      | false, true => some (.leadingDot, rest.dropWhile isDigit)
      | false, false => none
    else if whole && isLetterOf 'e' b then some (.exponent, b :: rest)
    else none

def floatForm? (bytes : List UInt8) : Option FloatForm := do
  let (form, tail) ← mantissa? bytes
  let rest ← afterExponent? tail
  if isSuffix isFloatSuffix rest then some form else none

/-! ## The form of a text -/

/-- The form of a numeral given by its bytes.  A text that begins like a hexadecimal numeral is one
or is none; one that begins like a binary numeral may be another. -/
def formOfBytes? (bytes : List UInt8) : Option Form :=
  match afterRadix? 'x' bytes with
  | some digits => if isGrouped isHexDigit isNumberSuffix digits then some .hexadecimal else none
  | none =>
    if (afterRadix? 'b' bytes).any (isGrouped isBinaryDigit (isLetterOf 'l')) then some .binary
    else if isGrouped isDigit isNumberSuffix bytes then some .integer
    else (floatForm? bytes).map .float

/-- The form of the numeral that a text spells, if it spells one. -/
def form? (text : String) : Option Form := formOfBytes? (Text.bytes text)

def isNumeral (text : String) : Bool := (form? text).isSome

end JavaTokens.Numeral
