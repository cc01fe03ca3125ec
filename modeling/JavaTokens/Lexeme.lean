import JavaTokens.Lexeme.Word
import JavaTokens.Lexeme.Symbol
import JavaTokens.Lexeme.Numeral
import JavaTokens.Lexeme.Quoted
import JavaTokens.Lexeme.Trivia

/-!
# Lexemes

A text is cut into lexemes without anything left over: the first byte of each picks the rule that
reads it to its end.  Malformed text is no failure: what begins nothing becomes a lexeme of its own,
with a defect as its terminal.
-/

namespace JavaTokens

/-- A stretch of text: what it is and how many bytes it takes. -/
structure Lexeme where
  terminal : Terminal
  length : Nat
deriving DecidableEq, Repr

namespace Lexeme

/-! ## Rules -/

/-- The rules by which lexemes are read. -/
inductive Rule
  | null | blanks | carriageReturn | lineFeed | word | number | string | character | slash
  | single (s : Symbol)
  | assignable (bare assigned : Symbol)
  | doubling (twice bare assigned : Symbol)
  | less | greater | dot | beyondAscii | stray
deriving DecidableEq, Repr

/-- The rule for a byte that is no letter, digit or blank, given as a character. -/
def Rule.ofMark : Char → Rule
  | '\x00' => null
  | '\r' => carriageReturn
  | '\n' => lineFeed
  | '"' => string
  | '\'' => character
  | '/' => slash
  | '+' => doubling .increment .plus .plusAssign
  | '-' => doubling .decrement .minus .minusAssign
  | '&' => doubling .conditionalAnd .bitAnd .bitAndAssign
  | '|' => doubling .conditionalOr .bitOr .bitOrAssign
  | '*' => assignable .times .timesAssign
  | '%' => assignable .remainder .remainderAssign
  | '^' => assignable .exclusiveOr .exclusiveOrAssign
  | '!' => assignable .not .notEqual
  | '=' => assignable .assign .equal
  | '<' => less
  | '>' => greater
  | '.' => dot
  | '~' => single .complement
  | '?' => single .question
  | ':' => single .colon
  | '(' => single .leftParen
  | ')' => single .rightParen
  | '[' => single .leftBracket
  | ']' => single .rightBracket
  | '{' => single .leftBrace
  | '}' => single .rightBrace
  | ',' => single .comma
  | ';' => single .semicolon
  | '@' => single .atSign
  | _ => stray

/-- The rule that the first byte of a lexeme picks. -/
def Rule.ofByte (b : UInt8) : Rule :=
  if Ascii.isWordStart b then word
  else if Ascii.isDigit b then number
  else if Ascii.isBlank b then blanks
  else if 0x80 ≤ b then beyondAscii
  else ofMark (Char.ofUInt8 b)

/-- A dot begins a numeral if a digit follows it. -/
def dot : ReadM Terminal := do
  if Ascii.isDigit (← ReadM.look 1) then fraction else dots

def Rule.read : Rule → ReadM Terminal
  | null => Lexeme.null
  | blanks => Lexeme.blanks
  | carriageReturn => Lexeme.carriageReturn
  | lineFeed => Lexeme.lineFeed
  | word => Lexeme.word
  | number => Lexeme.number
  | string => Lexeme.string
  | character => Lexeme.character
  | slash => Lexeme.slash
  | single s => Lexeme.single s
  | assignable bare assigned => Lexeme.assignable bare assigned
  | doubling twice bare assigned => Lexeme.doubling twice bare assigned
  | less => Lexeme.less
  | greater => Lexeme.greater
  | dot => Lexeme.dot
  | beyondAscii => Lexeme.beyondAscii
  | stray => Lexeme.stray

/-! ## Reading lexemes -/

/-- Reads the lexeme at the position.  At the end of the text that is the empty `finish`, every
time. -/
def next : ReadM Lexeme := do
  let start ← ReadM.position
  let terminal ← (Rule.ofByte (← ReadM.current)).read
  return ⟨terminal, (← ReadM.position) - start⟩

/-- Reads `n` lexemes, ends of the text included. -/
def nextMany : (n : Nat) → ReadM (List Lexeme)
  | 0 => return []
  | n + 1 => do
    let lexeme ← next
    return lexeme :: (← nextMany n)

/-- Reads lexemes up to the end of the text behind those already `done`, newest first. -/
def collect : (fuel : Nat) → (done : List Lexeme) → ReadM (List Lexeme)
  | 0, done => return done.reverse
  | fuel + 1, done => do
    let lexeme ← next
    if lexeme.terminal = .finish then return done.reverse else collect fuel (lexeme :: done)

/-- Reads all lexemes from the position on, without the end of the text. -/
def rest : ReadM (List Lexeme) := do
  collect ((← get).left + 1) []

/-- Cuts a text into lexemes. -/
def ofText (text : PaddedText) : Except ReadFault (List Lexeme) := rest.run' text.reader

end Lexeme

end JavaTokens
