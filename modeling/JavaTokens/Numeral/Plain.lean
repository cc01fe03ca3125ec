/-!
# Plain numerals

Reading knows no digit separators and reads a binary numeral by its digits alone.  Both are made
plain by leaving out one character of three: the `_` between two digits, and the `b` between `0` and
a binary digit.  Places are found from left to right and do not overlap, so in `1_0_0` the second
separator stays.  No line end is left out, so every line keeps its number.
-/

namespace JavaTokens.Numeral

/-- Whether the middle one of three characters is left out. -/
def dropsMiddle (a b c : Char) : Bool :=
  (a.isDigit && b == '_' && c.isDigit) || (a == '0' && b == 'b' && (c == '0' || c == '1'))

/-- The characters made plain behind those of `out`, newest first, and whether any was left out. -/
def plainOnto : List Char → (out : List Char) → (dropped : Bool) → List Char × Bool
  | a :: b :: c :: rest, out, dropped =>
    if dropsMiddle a b c then plainOnto rest (c :: a :: out) true
    else plainOnto (b :: c :: rest) (a :: out) dropped
  | cs, out, dropped => (out.reverse ++ cs, dropped)

/-- The text with its numerals made plain, or `none` if they all are. -/
def plain? (text : String) : Option String :=
  let (cs, dropped) := plainOnto text.toList [] false
  if dropped then some (String.ofList cs) else none

def plain (text : String) : String := (plain? text).getD text

end JavaTokens.Numeral
