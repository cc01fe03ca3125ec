import JavaTokens.Text.Padded
import JavaTokens.Text.Ascii

/-!
# Reading a padded text

A reader holds the bytes from its position on, padding included.  Looking at a byte beyond the
padding and searching from beyond the end of the text are faults, and so is a position that is no
offset of 32 bits; the operations below say exactly when they arise.

* `look` reads a byte without moving.
* `skip`, `skipChar` and `skipWhile` move by bytes, by characters and over a run.
* `seek` and `skipComment` search the rest of the text, never the padding.
-/

namespace JavaTokens

/-- The ways in which a reader can be misused. -/
inductive ReadFault
  /-- A byte beyond the padding was looked at. -/
  | outOfBounds
  /-- A search began beyond the end of the text. -/
  | pastEnd
  /-- A position left the range of 32 bits. -/
  | overflow
deriving DecidableEq, Repr

/-- A position in a padded text. -/
structure Reader where
  /-- The bytes from the position on, to the end of the padding. -/
  ahead : List UInt8
  pos : Nat
  /-- The size of the text, which is the offset of its end marker. -/
  stop : Nat
deriving DecidableEq, Repr

/-- The reader at the beginning of a text. -/
def PaddedText.reader (t : PaddedText) : Reader := ⟨t.padded, 0, t.size⟩

namespace Reader

/-- The number of bytes of the text that are not yet read. -/
def left (r : Reader) : Nat := r.stop - r.pos

def moved (r : Reader) (n : Nat) : Reader := { r with ahead := r.ahead.drop n, pos := r.pos + n }

end Reader

/-- Reading, with the reader as state. -/
abbrev ReadM := StateT Reader (Except ReadFault)

namespace ReadM

/-! ## Looking -/

def position : ReadM Nat := return (← get).pos

/-- The byte at distance `k` from the position. -/
def look (k : Nat) : ReadM UInt8 := do
  match (← get).ahead[k]? with
  | some b => return b
  | none => throw .outOfBounds

def current : ReadM UInt8 := look 0

/-- Whether the reader is at or behind the end marker.  A zero byte inside the text is no end. -/
def atEnd : ReadM Bool := do
  let r ← get
  if r.pos < r.stop then return false
  else return (← current) == 0

/-- The character at the position, if one is encoded there before the end of the text. -/
def char? : ReadM (Option Char) := do
  if ← atEnd then return none
  else
    let b ← current
    let r ← get
    return Text.firstChar? (r.ahead.take (min (Text.leadWidth b) r.left))

/-! ## Moving -/

def skip (n : Nat) : ReadM Unit := do
  let r ← get
  if r.pos + n ≤ maxOffset then set (r.moved n) else throw .overflow

/-- Moves over the width that the current byte announces, but not over the end of the text.  The far
side of the character has to be an offset of 32 bits even where the text ends before it. -/
def skipChar : ReadM Unit := do
  let width := Text.leadWidth (← current)
  let r ← get
  if r.pos + width ≤ maxOffset then
    skip (if r.pos < r.stop then min width r.left else 1)
  else throw .overflow

/-- Moves over the longest run of bytes in the class `p`. -/
def skipWhile (p : UInt8 → Bool) : ReadM Unit := do
  match (← get).ahead.findIdx? (fun b => !p b) with
  | some n => skip n
  | none => throw .outOfBounds

def skipBlanks : ReadM Unit := skipWhile Ascii.isBlank

/-- Moves over one byte if it is in the class `p`. -/
def skipOptional (p : UInt8 → Bool) : ReadM Unit := do
  if p (← current) then skip 1

/-- Moves over a run of bytes in the class `p`, and tells whether there was any. -/
def skipSome (p : UInt8 → Bool) : ReadM Bool := do
  if p (← current) then
    skipWhile p
    return true
  else return false

/-- Moves over at most `n` bytes in the class `p`. -/
def skipUpTo (p : UInt8 → Bool) : Nat → ReadM Unit
  | 0 => return ()
  | n + 1 => do
    if p (← current) then
      skip 1
      skipUpTo p n

/-- Runs `step` until it answers `false`, at most `fuel` times. -/
def repeatWhile (step : ReadM Bool) : (fuel : Nat) → ReadM Unit
  | 0 => return ()
  | fuel + 1 => do
    if ← step then repeatWhile step fuel

/-! ## Searching the rest of the text -/

/-- The number of bytes that are left of the text.  A position beyond the end is a fault. -/
def textLeft : ReadM Nat := do
  let r ← get
  if r.pos ≤ r.stop then return r.left else throw .pastEnd

/-- Moves to the next byte in the class `p`, or to the end of the text. -/
def seek (p : UInt8 → Bool) : ReadM Unit := do
  let limit ← textLeft
  skip (min ((← get).ahead.findIdx p) limit)

/-- Moves to the end of the line, and not over it. -/
def seekLineEnd : ReadM Unit := seek Ascii.isLineEnd

/-- Moves to the next byte at which the body of a string literal is looked at, and answers that
byte; at the end of the text it answers the end marker. -/
def seekStringStop : ReadM UInt8 := do
  seek Ascii.isStringStop
  current

/-- The number of bytes through the first `*/`, when `n` bytes have been passed already. -/
def commentLength? : List UInt8 → (n : Nat) → Option Nat
  | a :: b :: rest, n =>
    if a == '*'.toUInt8 && b == '/'.toUInt8 then some (n + 2)
    else commentLength? (b :: rest) (n + 1)
  | _, _ => none

/-- Moves over the rest of a block comment, through its `*/`.  A comment that is not closed reaches
to the end of the text, and the answer is `false`. -/
def skipComment : ReadM Bool := do
  let limit ← textLeft
  match commentLength? (← get).ahead 0 with
  | some n =>
    if n ≤ limit then
      skip n
      return true
    else
      skip limit
      return false
  | none =>
    skip limit
    return false

end ReadM

end JavaTokens
