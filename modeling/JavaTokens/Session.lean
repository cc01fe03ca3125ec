import JavaTokens.Lexeme

/-!
# Sessions

A sequence of calls on one reader, with copies of it put aside and taken back, given as data.
-/

namespace JavaTokens

/-- A call on a reader. -/
inductive Call
  /-- The byte at a distance from the position. -/
  | look (distance : Nat)
  | skip (n : Nat)
  | skipChar | atEnd | size | char
  | skipWhile (p : UInt8 → Bool)
  | seekLineEnd | seekStringStop | skipComment | skipBlanks
  /-- The next lexeme, read from a copy of the reader. -/
  | lexeme
  /-- The next lexeme, which the reader moves over. -/
  | takeLexeme
  /-- Puts a copy of the reader aside. -/
  | save
  /-- Goes on with the copy that was put aside last, if there is one. -/
  | restore
  /-- Goes on with a copy of one that was put aside, numbered from the newest, if there is that one.
  It stays put aside. -/
  | revisit (number : Nat)

/-- What a call answers. -/
inductive Reply
  | nothing
  | byte (b : UInt8)
  | flag (b : Bool)
  | size (n : Nat)
  | char (c : Option Char)
  | lexeme (l : Lexeme)
deriving DecidableEq, Repr

/-- A reader, and the copies put aside, newest first. -/
structure Session where
  reader : Reader
  saved : List Reader
deriving DecidableEq, Repr

namespace Session

/-- The session that begins at the beginning of a text. -/
def ofText (text : PaddedText) : Session := ⟨text.reader, []⟩

/-- Runs a reading on the reader of the session, and replies with its answer. -/
def onReader {α : Type} (s : Session) (reply : α → Reply) (act : ReadM α) :
    Except ReadFault (Reply × Session) := do
  let (answer, reader) ← act.run s.reader
  return (reply answer, { s with reader := reader })

/-- Runs a reading that has no answer. -/
def move (s : Session) (act : ReadM Unit) : Except ReadFault (Reply × Session) :=
  s.onReader (fun _ => .nothing) act

def call (s : Session) : Call → Except ReadFault (Reply × Session)
  | .look k => s.onReader .byte (ReadM.look k)
  | .skip n => s.move (ReadM.skip n)
  | .skipChar => s.move ReadM.skipChar
  | .atEnd => s.onReader .flag ReadM.atEnd
  | .size => return (.size s.reader.stop, s)
  | .char => s.onReader .char ReadM.char?
  | .skipWhile p => s.move (ReadM.skipWhile p)
  | .seekLineEnd => s.move ReadM.seekLineEnd
  | .seekStringStop => s.onReader .byte ReadM.seekStringStop
  | .skipComment => s.onReader .flag ReadM.skipComment
  | .skipBlanks => s.move ReadM.skipBlanks
  | .lexeme => do
    let lexeme ← Lexeme.next.run' s.reader
    return (.lexeme lexeme, s)
  | .takeLexeme => s.onReader .lexeme Lexeme.next
  | .save => return (.nothing, { s with saved := s.reader :: s.saved })
  | .restore =>
    match s.saved with
    | [] => return (.nothing, s)
    | r :: saved => return (.nothing, ⟨r, saved⟩)
  | .revisit k => return (.nothing, { s with reader := s.saved[k]?.getD s.reader })

/-- Runs calls up to the first fault.  Every call before it has its reply and the position after it.
-/
def run (s : Session) : List Call → List (Reply × Nat) × Option ReadFault
  | [] => ([], none)
  | c :: rest =>
    match s.call c with
    | .error fault => ([], some fault)
    | .ok (reply, next) =>
      let (replies, fault) := next.run rest
      ((reply, next.reader.pos) :: replies, fault)

end Session

end JavaTokens
