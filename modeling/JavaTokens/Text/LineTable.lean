import JavaTokens.Bisect
import JavaTokens.Text.Padded
import JavaTokens.Text.Ascii

/-!
# Line tables

The lines of a text are numbered from one.  A line feed ends a line, and so does a carriage return
that no line feed follows; the pair of the two ends one line.  The table holds the offset at which
each line begins, and finds the line of an offset among them.
-/

namespace JavaTokens

/-- The offsets at which lines begin, in increasing order. -/
structure LineTable where
  starts : Array Nat
deriving DecidableEq, Repr

namespace LineTable

/-- Whether a line ends after the byte `b` that stands before `rest`. -/
def endsLine (b : UInt8) (rest : List UInt8) : Bool :=
  b == '\n'.toUInt8 || (b == '\r'.toUInt8 && rest.head? != some '\n'.toUInt8)

/-- The starts known so far and those in `bytes`, which stand at `offset`.  A start that is no
offset of 32 bits is left out. -/
def collect : List UInt8 → Nat → Array Nat → Array Nat
  | [], _, starts => starts
  | b :: rest, offset, starts =>
    collect rest (offset + 1)
      (if endsLine b rest && offset < maxOffset then starts.push (offset + 1) else starts)

def ofBytes (bytes : List UInt8) : LineTable := ⟨collect bytes 0 #[0]⟩

/-- The line of the byte at `offset`; beyond the end of the text that is the last line. -/
def lineOf (table : LineTable) (offset : Nat) : Nat :=
  bisect (fun i => table.starts[i]?.any fun start => start ≤ offset) 0 table.starts.size

/-- The line of an offset, as a number of 32 bits.  A text has one line more than it has line ends,
which may be one more than such a number can count. -/
def lineNumber (table : LineTable) (offset : UInt32) : UInt32 :=
  UInt32.ofNat (table.lineOf offset.toNat)

/-- A text has at least one line, which may be empty. -/
def lineCount (table : LineTable) : Nat := table.starts.size

end LineTable

end JavaTokens
