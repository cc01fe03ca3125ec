import JavaTokens.Word.Reserved
import JavaTokens.Unicode.Property

/-!
# Words

A word is a letter and what letters and digits follow it.  Beyond ASCII the letters are the alphabetic
characters, and the alphanumeric ones may follow.  An identifier is a word that is not reserved.
-/

namespace JavaTokens.Word

/-- The characters that may begin a word. -/
def isStart (c : Char) : Bool :=
  c.isAlpha || c == '_' || c == '$' || (0x80 ≤ c.toNat && Unicode.isAlphabetic c)

/-- The characters that may stand in a word after its first. -/
def isPart (c : Char) : Bool :=
  c.isAlphanum || c == '_' || c == '$' || (0x80 ≤ c.toNat && Unicode.isAlphanumeric c)

def isWord (text : String) : Bool :=
  match text.toList with
  | [] => false
  | c :: rest => isStart c && rest.all isPart

def isIdentifier (text : String) : Bool := isWord text && !isReserved text

end JavaTokens.Word
