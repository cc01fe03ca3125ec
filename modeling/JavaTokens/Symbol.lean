/-!
# Operators and separators

The terminals of Java whose spelling never varies.
-/

namespace JavaTokens

inductive Symbol
  | plus | minus | times | divide | remainder | exclusiveOr | bitAnd | bitOr | complement | not
  | assign | less | greater | question | colon | increment | decrement | equal | notEqual
  | lessEqual | greaterEqual | conditionalAnd | conditionalOr | shiftLeft
  /-- Also two closers of type arguments. -/
  | shiftRight
  /-- Also three closers of type arguments. -/
  | shiftRightZero
  | plusAssign | minusAssign | timesAssign | divideAssign | remainderAssign | exclusiveOrAssign
  | bitAndAssign | bitOrAssign | shiftLeftAssign | shiftRightAssign | shiftRightZeroAssign | atSign
  | leftParen | rightParen | leftBracket | rightBracket | leftBrace | rightBrace | comma | semicolon
  | dot | ellipsis
deriving DecidableEq, Repr

namespace Symbol

def spelling : Symbol → String
  | plus => "+"
  | minus => "-"
  | times => "*"
  | divide => "/"
  | remainder => "%"
  | exclusiveOr => "^"
  | bitAnd => "&"
  | bitOr => "|"
  | complement => "~"
  | not => "!"
  | assign => "="
  | less => "<"
  | greater => ">"
  | question => "?"
  | colon => ":"
  | increment => "++"
  | decrement => "--"
  | equal => "=="
  | notEqual => "!="
  | lessEqual => "<="
  | greaterEqual => ">="
  | conditionalAnd => "&&"
  | conditionalOr => "||"
  | shiftLeft => "<<"
  | shiftRight => ">>"
  | shiftRightZero => ">>>"
  | plusAssign => "+="
  | minusAssign => "-="
  | timesAssign => "*="
  | divideAssign => "/="
  | remainderAssign => "%="
  | exclusiveOrAssign => "^="
  | bitAndAssign => "&="
  | bitOrAssign => "|="
  | shiftLeftAssign => "<<="
  | shiftRightAssign => ">>="
  | shiftRightZeroAssign => ">>>="
  | atSign => "@"
  | leftParen => "("
  | rightParen => ")"
  | leftBracket => "["
  | rightBracket => "]"
  | leftBrace => "\x7b"
  | rightBrace => "\x7d"
  | comma => ","
  | semicolon => ";"
  | dot => "."
  | ellipsis => "..."

/-- The separators are the symbols from the left parenthesis on. -/
def isSeparator (s : Symbol) : Bool := leftParen.ctorIdx ≤ s.ctorIdx

/-- Operators are numbered from 32 and separators from 80, in the order in which they are listed. -/
def code (s : Symbol) : Nat :=
  if s.isSeparator then 80 + (s.ctorIdx - leftParen.ctorIdx) else 32 + s.ctorIdx

end Symbol

end JavaTokens
