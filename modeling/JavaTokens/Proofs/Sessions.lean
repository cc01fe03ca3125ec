import JavaTokens.Session
import JavaTokens.Proofs.Partition

/-!
# Sessions without faults

A caller of a reader keeps to little: it looks at most two bytes ahead, moves by a byte or by a
character only where the reader denies the end, and moves over no class that holds the zero byte.
Then no call faults, in whatever order the calls are made and whichever copies are taken back, and
the end is told by the position alone.

    a reader in a text tells its end where it stands there            (Reader.In.sound)
    one allowed call leaves every reader in the text                  (Session.In.exists_call)
    no call of an allowed sequence faults                             (run_of_allows)
-/

namespace JavaTokens

open ReadM Text

/-! ## What a caller keeps to -/

/-- Whether the reader tells that it is not at the end of its text. -/
def Reader.deniesEnd (r : Reader) : Bool :=
  match ReadM.atEnd.run r with
  | .ok (answer, _) => !answer
  | .error _ => false

/-- What is asked of a caller before a call on a reader. -/
def Call.isAllowed (r : Reader) : Call → Bool
  | .look k => k ≤ 2
  | .skip n => n == 1 && r.deniesEnd
  | .skipChar => r.deniesEnd
  | .skipWhile p => !p 0
  | _ => true

/-- Whether every call is allowed where it is made.  Behind a fault none is made. -/
def Session.allows (s : Session) : List Call → Bool
  | [] => true
  | c :: rest =>
    c.isAllowed s.reader &&
      match s.call c with
      | .ok (_, next) => next.allows rest
      | .error _ => true

/-- Whether a call goes on with a copy that was put aside. -/
def Call.takesBack : Call → Bool
  | .restore | .revisit _ => true
  | _ => false

/-! ## What calls keep -/

/-- A reader in a text of `size` bytes, not behind its end, which it tells exactly where it stands
there. -/
structure Reader.Sound (size : Nat) (r : Reader) : Prop where
  stop_eq : r.stop = size
  pos_le : r.pos ≤ size
  atEnd : ReadM.atEnd.run r = .ok (decide (r.pos = size), r)

/-- What calls reply, each with the position behind it, if none of them faults: the reader is sound
before and behind every call, and no call moves it back but those that take back a copy. -/
inductive Session.Steady (size : Nat) : Session → List Call → List (Reply × Nat) → Prop
  | nil {s : Session} (sound : s.reader.Sound size) : Steady size s [] []
  | cons {s next : Session} {c : Call} {reply : Reply} {calls : List Call}
      {steps : List (Reply × Nat)} (sound : s.reader.Sound size)
      (call : s.call c = .ok (reply, next))
      (pos_le : c.takesBack = false → s.reader.pos ≤ next.reader.pos)
      (rest : Steady size next calls steps) :
      Steady size s (c :: calls) ((reply, next.reader.pos) :: steps)

/-- Steady calls are run to their end. -/
theorem Session.Steady.run_eq {size : Nat} {s : Session} {calls : List Call}
    {steps : List (Reply × Nat)} (h : s.Steady size calls steps) :
    s.run calls = (steps, none) := by
  induction h with
  | nil => rfl
  | cons _ hcall _ _ ih => simp only [Session.run, hcall, ih]

/-! ## Readers in a text -/

/-- The reader is before what is left of the bytes at its position. -/
def Reader.In (text : List UInt8) (r : Reader) : Prop :=
  ∃ s, s <:+ text ∧ r.Before s ∧ r.stop = text.length

theorem PaddedText.reader_in (t : PaddedText) : t.reader.In t.bytes :=
  ⟨t.bytes, List.suffix_refl _, t.reader_before, rfl⟩

namespace Reader.In

variable {text : List UInt8} {r : Reader}

theorem sound (h : r.In text) : r.Sound text.length := by
  obtain ⟨s, hs, hr, hstop⟩ := h
  have hpos := hr.pos_add
  refine ⟨hstop, by omega, ?_⟩
  rw [run_atEnd_of_before hr]
  congr 2
  rw [Bool.eq_iff_iff, List.isEmpty_iff, decide_eq_true_eq, ← List.length_eq_zero_iff]
  omega

/-- A reading that yields something from where the reader is has its answer, and leaves the reader
in the text, where it was or further on. -/
theorem exists_run {α : Type} {act : ReadM α} (htext : Whole text) (h : r.In text)
    (hact : ∀ s, r.Before s → ∃ a t, Yields act s a t) :
    ∃ a r', act.run r = .ok (a, r') ∧ r'.In text ∧ r.pos ≤ r'.pos := by
  obtain ⟨s, hs, hr, hstop⟩ := h
  obtain ⟨a, t, hy⟩ := hact s hr
  obtain ⟨r', hrun, hr', hstop'⟩ := hy.run_of_whole (htext.of_suffix hs) hr
  have hpos := hr.pos_add
  have hpos' := hr'.pos_add
  have hle := hy.suffix.length_le
  exact ⟨a, r', hrun, ⟨t, hy.suffix.trans hs, hr', hstop'.trans hstop⟩, by omega⟩

end Reader.In

/-- Where a reader denies the end, something is left. -/
theorem Reader.Before.exists_cons {r : Reader} {s : List UInt8} (hr : r.Before s)
    (h : r.deniesEnd = true) : ∃ b t, s = b :: t := by
  rw [deniesEnd, run_atEnd_of_before hr] at h
  rcases s with _ | ⟨b, t⟩
  · cases h
  · exact ⟨b, t, rfl⟩

/-! ## One call -/

/-- The reader of the session and all its copies are in the text. -/
def Session.In (text : List UInt8) (s : Session) : Prop := ∀ r ∈ s.reader :: s.saved, r.In text

namespace Session.In

variable {text : List UInt8} {s : Session}

theorem of_reader (h : s.In text) {r : Reader} (hr : r.In text) :
    Session.In text { s with reader := r } :=
  List.forall_mem_cons.mpr ⟨hr, (List.forall_mem_cons.mp h).2⟩

/-- A call that is a reading is made without a fault, and moves the reader onwards if at all. -/
theorem exists_onReader {α : Type} {act : ReadM α} (htext : Whole text) (h : s.In text)
    (reply : α → Reply) (hact : ∀ u, s.reader.Before u → ∃ a t, Yields act u a t) :
    ∃ a next, s.onReader reply act = .ok (a, next) ∧ next.In text ∧
      s.reader.pos ≤ next.reader.pos := by
  have hreader := h _ List.mem_cons_self
  obtain ⟨a, r, hrun, hr, hpos⟩ := hreader.exists_run htext hact
  refine ⟨reply a, { s with reader := r }, ?_, h.of_reader hr, hpos⟩
  rw [Session.onReader, hrun]
  rfl

/-- An allowed call that goes on with the reader is made without a fault, and moves it onwards if at
all. -/
theorem exists_call_onwards (htext : Whole text) (h : s.In text) {c : Call}
    (hc : c.isAllowed s.reader = true) (honwards : c.takesBack = false) :
    ∃ reply next, s.call c = .ok (reply, next) ∧ next.In text ∧
      s.reader.pos ≤ next.reader.pos := by
  have hreader := h _ List.mem_cons_self
  let nothing : Unit → Reply := fun _ => .nothing
  cases c with
  | look k =>
    have hk : k ≤ 2 := of_decide_eq_true hc
    exact h.exists_onReader htext .byte fun u _ => ⟨_, _, yields_look (by omega)⟩
  | skip n =>
    obtain ⟨hn, hend⟩ := Bool.and_eq_true_iff.mp hc
    obtain rfl := eq_of_beq hn
    -- a reader that denies the end stands before a byte
    refine h.exists_onReader htext nothing fun u hu => ?_
    obtain ⟨b, t, rfl⟩ := hu.exists_cons hend
    exact ⟨_, _, yields_skip_one b t⟩
  | skipChar =>
    refine h.exists_onReader htext nothing fun u hu => ?_
    obtain ⟨b, t, rfl⟩ := hu.exists_cons hc
    exact ⟨_, _, yields_skipChar (List.cons_ne_nil b t)⟩
  | skipWhile p =>
    have hp : p 0 = false := by simpa [Call.isAllowed] using hc
    exact h.exists_onReader htext nothing fun u _ => ⟨_, _, yields_skipWhile hp u⟩
  | atEnd => exact h.exists_onReader htext .flag fun u _ => ⟨_, _, yields_atEnd u⟩
  | char => exact h.exists_onReader htext .char fun u _ => ⟨_, _, yields_char u⟩
  | seekLineEnd => exact h.exists_onReader htext nothing fun u _ => ⟨_, _, yields_seekLineEnd u⟩
  | seekStringStop =>
    exact h.exists_onReader htext .byte fun u _ => ⟨_, _, yields_seekStringStop u⟩
  | skipComment => exact h.exists_onReader htext .flag fun u _ => ⟨_, _, yields_skipComment u⟩
  | skipBlanks => exact h.exists_onReader htext nothing fun u _ => ⟨_, _, yields_skipWhile rfl u⟩
  | takeLexeme => exact h.exists_onReader htext .lexeme fun u _ => ⟨_, _, yields_next u⟩
  | size => exact ⟨_, s, rfl, h, Nat.le_refl _⟩
  | lexeme =>
    obtain ⟨l, r, hrun, -⟩ := hreader.exists_run htext fun u _ => ⟨_, _, yields_next u⟩
    refine ⟨.lexeme l, s, ?_, h, Nat.le_refl _⟩
    rw [Session.call, StateT.run'_eq, hrun]
    rfl
  | save => exact ⟨_, _, rfl, List.forall_mem_cons.mpr ⟨hreader, h⟩, Nat.le_refl _⟩
  | restore | revisit => cases honwards

/-- A call that goes on with a copy is made without a fault. -/
theorem exists_call_back (h : s.In text) {c : Call} (hback : c.takesBack = true) :
    ∃ reply next, s.call c = .ok (reply, next) ∧ next.In text := by
  cases c with
  | restore =>
    have hsaved := (List.forall_mem_cons.mp h).2
    rw [Session.call]
    cases hcopies : s.saved with
    | nil => exact ⟨_, s, rfl, h⟩
    | cons r copies =>
      rw [hcopies] at hsaved
      exact ⟨_, ⟨r, copies⟩, rfl, hsaved⟩
  | revisit k =>
    refine ⟨_, _, rfl, h.of_reader ?_⟩
    cases hcopy : s.saved[k]? with
    | none => exact h _ List.mem_cons_self
    | some r => exact h r (List.mem_cons_of_mem _ (List.mem_of_getElem? hcopy))
  | _ => cases hback

/-- What one allowed call does to a session in a text. -/
theorem exists_call (htext : Whole text) (h : s.In text) {c : Call}
    (hc : c.isAllowed s.reader = true) :
    ∃ reply next, s.call c = .ok (reply, next) ∧ next.In text ∧
      (c.takesBack = false → s.reader.pos ≤ next.reader.pos) := by
  cases hback : c.takesBack with
  | false =>
    obtain ⟨reply, next, hcall, hnext, hpos⟩ := h.exists_call_onwards htext hc hback
    exact ⟨reply, next, hcall, hnext, fun _ => hpos⟩
  | true =>
    obtain ⟨reply, next, hcall, hnext⟩ := h.exists_call_back hback
    exact ⟨reply, next, hcall, hnext, nofun⟩

/-! ## Many calls -/

/-- Allowed calls are made one after another without a fault.  What carries the induction is that
every reader stays in the text, the copies included. -/
theorem exists_steady (htext : Whole text) (h : s.In text) {calls : List Call}
    (hcalls : s.allows calls = true) : ∃ steps, s.Steady text.length calls steps := by
  induction calls generalizing s with
  | nil => exact ⟨[], .nil (h _ List.mem_cons_self).sound⟩
  | cons c calls ih =>
    obtain ⟨hc, hrest⟩ := Bool.and_eq_true_iff.mp hcalls
    obtain ⟨reply, next, hcall, hnext, hpos⟩ := h.exists_call htext hc
    rw [hcall] at hrest
    obtain ⟨steps, hsteps⟩ := ih hnext hrest
    exact ⟨_, .cons (h _ List.mem_cons_self).sound hcall hpos hsteps⟩

end Session.In

/-- Calls on a reader from the beginning of a text on, each allowed where it is made, are run to their
end.  The reader is never behind the end of the text, which it tells where it stands there, and moves
back only to take back a copy. -/
theorem run_of_allows (text : String) (calls : List Call) (hsize : text.utf8ByteSize ≤ maxOffset)
    (hcalls : (Session.ofText (PaddedText.ofString text)).allows calls = true) :
    let start := Session.ofText (PaddedText.ofString text)
    ∃ steps, start.run calls = (steps, none) ∧ start.Steady text.utf8ByteSize calls steps := by
  intro start
  have hbytes := PaddedText.bytes_ofString hsize
  have hstart : start.In (bytes text) := by
    rw [← hbytes]
    exact List.forall_mem_cons.mpr ⟨PaddedText.reader_in _, nofun⟩
  obtain ⟨steps, hsteps⟩ := hstart.exists_steady (isUtf8_bytes text).whole hcalls
  rw [length_bytes] at hsteps
  exact ⟨steps, hsteps.run_eq, hsteps⟩

/-- From inside a character, over a zero byte in the text, to its end, and back to two copies. -/
theorem run_of_allows_copies :
    let start := Session.ofText (PaddedText.ofString "é\x00\"x")
    let calls := [.save, .skip 1, .char, .skipChar, .atEnd, .look 2, .skip 1, .save, .takeLexeme,
      .atEnd, .skipComment, .revisit 1, .skipWhile isBeyondAscii, .restore, .lexeme]
    start.allows calls = true ∧
      (start.run calls).1.map Prod.snd = [0, 1, 1, 2, 2, 2, 3, 3, 5, 5, 5, 0, 2, 3, 3] ∧
      ∃ steps, start.run calls = (steps, none) ∧ start.Steady "é\x00\"x".utf8ByteSize calls steps :=
  ⟨by decide +kernel, by decide +kernel, run_of_allows _ _ (by decide) (by decide +kernel)⟩

end JavaTokens
