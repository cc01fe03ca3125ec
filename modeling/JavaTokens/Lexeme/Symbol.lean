import JavaTokens.Reader
import JavaTokens.Terminal

/-!
# Reading operators and separators

The longest spelling wins, so a run of `>` is always one shift; whether it closes type arguments is
decided where the tokens before it are known.
-/

namespace JavaTokens.Lexeme

open ReadM

/-- A symbol of one byte. -/
def single (s : Symbol) : ReadM Terminal := do
  skip 1
  return .symbol s

/-- The symbol `bare`, from its last byte on, or `assigned` if `=` follows that byte. -/
def assignable (bare assigned : Symbol) : ReadM Terminal := do
  skip 1
  if (← current) == '='.toUInt8 then
    skip 1
    return .symbol assigned
  else return .symbol bare

/-- A byte that may stand twice, alone, or before `=`. -/
def doubling (twice bare assigned : Symbol) : ReadM Terminal := do
  if (← look 1) == (← current) then
    skip 2
    return .symbol twice
  else assignable bare assigned

/-- The symbols `<`, `<=`, `<<` and `<<=`. -/
def less : ReadM Terminal := do
  if (← look 1) == '<'.toUInt8 then
    skip 1
    assignable .shiftLeft .shiftLeftAssign
  else assignable .less .lessEqual

/-- The symbols `>`, `>=`, `>>`, `>>=`, `>>>` and `>>>=`. -/
def greater : ReadM Terminal := do
  if (← look 1) == '>'.toUInt8 then
    skip 1
    if (← look 1) == '>'.toUInt8 then
      skip 1
      assignable .shiftRightZero .shiftRightZeroAssign
    else assignable .shiftRight .shiftRightAssign
  else assignable .greater .greaterEqual

/-- The symbols `.` and `...`, where no digit follows. -/
def dots : ReadM Terminal := do
  if (← look 1) == '.'.toUInt8 then
    if (← look 2) == '.'.toUInt8 then
      skip 3
      return .symbol .ellipsis
    else single .dot
  else single .dot

end JavaTokens.Lexeme
