/-!
# Reserved words

The keywords of Java and the words `true`, `false` and `null`.  The test looks at the length of a
word first, and then only at the reserved words of that length.
-/

namespace JavaTokens.Word

/-- The reserved words in alphabetical order. -/
def reserved : List String :=
  ["abstract", "assert", "boolean", "break", "byte", "case", "catch", "char", "class", "const",
   "continue", "default", "do", "double", "else", "enum", "extends", "false", "final", "finally",
   "float", "for", "goto", "if", "implements", "import", "instanceof", "int", "interface", "long",
   "native", "new", "null", "package", "private", "protected", "public", "return", "short",
   "static", "strictfp", "super", "switch", "synchronized", "this", "throw", "throws", "transient",
   "true", "try", "void", "volatile", "while"]

/-- The reserved words of a given length. -/
def reservedOfLength : Nat → List String
  | 2 => ["do", "if"]
  | 3 => ["for", "int", "new", "try"]
  | 4 => ["byte", "case", "char", "else", "enum", "goto", "long", "null", "this", "true", "void"]
  | 5 => ["break", "catch", "class", "const", "false", "final", "float", "short", "super", "throw",
      "while"]
  | 6 => ["assert", "double", "import", "native", "public", "return", "static", "switch", "throws"]
  | 7 => ["boolean", "default", "extends", "finally", "package", "private"]
  | 8 => ["abstract", "continue", "strictfp", "volatile"]
  | 9 => ["interface", "protected", "transient"]
  | 10 => ["implements", "instanceof"]
  | 12 => ["synchronized"]
  | _ => []

/-- A reserved word has 2 to 12 bytes, begins with a small letter, and is listed under its
length. -/
def isReserved (text : String) : Bool :=
  let length := text.utf8ByteSize
  2 ≤ length && length ≤ 12 && text.toList.head?.any Char.isLower &&
    (reservedOfLength length).contains text

end JavaTokens.Word
