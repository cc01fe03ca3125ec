import JavaTokens.Unicode.Property

/-!
# Closers of type arguments

Reading takes the longest operator, so `List<List<String>>` ends in a shift.  Such a run of `>`
closes type arguments if the tokens before it are parts of type arguments, back to an opening `<`.
That is a guess: `A < B >> c` counts as closing, and `foo(a) >> 2` does not.
-/

namespace JavaTokens.TypeArguments

/-- One or more `>` and nothing else. -/
def isCloserRun (text : String) : Bool := !text.isEmpty && text.toList.all (· == '>')

/-- Separators, wildcards, words for bounds, and names that begin with a capital letter. -/
def isPart (text : String) : Bool :=
  [",", ".", "?", "[", "]", "extends", "super"].contains text ||
    text.toList.head?.any Unicode.isUppercase

/-- Whether the first one of `before` that is no part of type arguments is the opening `<`.  The
nearest comes first. -/
def openIn {α : Type} (text : α → String) (before : List α) : Bool :=
  (before.find? fun a => !isPart (text a)).any fun a => text a == "<"

/-- Whether a run of `>` closes type arguments, by the texts before it, the nearest first. -/
def closes (before : List String) : Bool := openIn id before

end JavaTokens.TypeArguments
