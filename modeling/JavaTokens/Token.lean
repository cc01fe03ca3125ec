import JavaTokens.Kind

/-!
# Tokens
-/

namespace JavaTokens

/-- The text of a token and the line on which it begins, counted from one. -/
structure Token where
  text : String
  line : Nat
deriving DecidableEq, Repr

def Token.kind (t : Token) : Kind := Kind.ofText t.text

end JavaTokens
