import JavaTokens.Proofs.Kind.Word
import JavaTokens.Proofs.Partition

/-!
# Reading at the greatest offset

A position of a text is an offset of 32 bits, and a step over a character is the one reading that
computes more than positions of the text: it adds the width that the first byte announces before it
looks where the text ends.  So reading overflows only in a text that is cut inside a character, and
there it does as soon as a lexeme begins with what is left of that character.

    in a text that is cut at a boundary, no position overflows        (whole_ofString)
    a lexeme that begins too close to the greatest offset overflows   (run_next_overflow)
    what is read of any text                                          (nextMany_overflow)
-/

namespace JavaTokens

open ReadM Text

/-! ## Texts cut at a boundary -/

/-- What is kept of a text is whole unless it is cut inside a character. -/
theorem PaddedText.whole_ofString {text : String}
    (h : text.utf8ByteSize ≤ maxOffset ∨ (⟨maxOffset⟩ : String.Pos.Raw).IsValid text) :
    Whole (PaddedText.ofString text).bytes := by
  rcases h with hsize | hvalid
  · rw [PaddedText.bytes_ofString hsize]
    exact (isUtf8_bytes text).whole
  · obtain ⟨u, v, htext, hu, hv⟩ := isValid_iff.mp hvalid
    have hutf8 := isUtf8_bytes text
    have hkept : (PaddedText.ofString text).bytes = u := by
      show (Text.bytes text).take maxOffset = u
      rw [htext, ← hu, List.take_left]
    rw [htext] at hutf8
    rw [hkept]
    exact (hutf8.left_of_append hv).whole

/-! ## A lexeme beyond ASCII -/

theorem Reader.Before.run_skipChar_overflow {r : Reader} {b : UInt8} {t : List UInt8}
    (hr : r.Before (b :: t)) (h : maxOffset < r.pos + leadWidth b) :
    skipChar.run r = .error .overflow := by
  have hb : r.ahead[0]? = some b := hr.getElem? (by omega)
  rw [run_skipChar hb, if_neg (by omega)]

/-- Only a byte beyond ASCII announces more than itself. -/
theorem Reader.Before.isBeyondAscii_of_overflow {r : Reader} {b : UInt8} {t : List UInt8}
    (hr : r.Before (b :: t)) (h : maxOffset < r.pos + leadWidth b) : isBeyondAscii b = true := by
  rw [isBeyondAscii_iff]
  by_contra hb
  have hascii : b < 0x80 := Nat.not_le.mp hb
  have hpos := hr.pos_add
  have hstop := hr.stop_le
  rw [leadWidth_of_ascii hascii] at h
  rw [List.length_cons] at hpos
  omega

/-- A lexeme overflows if its first byte announces more bytes than there are offsets. -/
theorem run_next_overflow {r : Reader} {b : UInt8} {t : List UInt8} (hr : r.Before (b :: t))
    (h : maxOffset < r.pos + leadWidth b) : Lexeme.next.run r = .error .overflow := by
  have hrule := ofByte_of_isBeyondAscii (hr.isBeyondAscii_of_overflow h)
  have hcurrent : current.run r = .ok (b, r) := run_look_of_getElem? (hr.getElem? (by omega))
  have hread : Lexeme.beyondAscii.run r = .error .overflow := by
    unfold Lexeme.beyondAscii
    rw [StateT.run_bind]
    rcases (yields_char (b :: t)).run r hr with ⟨r', hchar, hr', hstop⟩ | ⟨hfault, -⟩
    · -- whatever the character is, the step over it comes first
      have hpos := hr.pos_add
      have hpos' := hr'.pos_add
      have hskip := hr'.run_skipChar_overflow (by omega)
      rw [hchar]
      show StateT.run (if _ then _ else _ : ReadM Terminal) r' = _
      split
      · rw [StateT.run_bind, hskip]
        rfl
      · rw [StateT.run_bind, hskip]
        rfl
    · rw [hfault]
      rfl
  rw [run_next, StateT.run_bind, hcurrent]
  show ((Lexeme.Rule.ofByte b).read.run r >>= _) = _
  rw [hrule]
  show (Lexeme.beyondAscii.run r >>= _) = _
  rw [hread]
  rfl

/-! ## Many lexemes -/

/-- One more lexeme is read behind the others. -/
theorem nextMany_succ (n : Nat) :
    Lexeme.nextMany (n + 1) =
      Lexeme.nextMany n >>= fun lexemes => Lexeme.next >>= fun l => pure (lexemes ++ [l]) := by
  induction n with
  | zero => simp only [Lexeme.nextMany, pure_bind, List.nil_append]
  | succ n ih =>
    calc Lexeme.nextMany (n + 2)
      _ = Lexeme.next >>= fun l => Lexeme.nextMany (n + 1) >>= fun ls => pure (l :: ls) := rfl
      _ = Lexeme.next >>= fun l => Lexeme.nextMany n >>= fun ls =>
            Lexeme.next >>= fun l' => pure (l :: ls ++ [l']) := by
        rw [ih]
        simp only [bind_assoc, pure_bind, List.cons_append]
      _ = Lexeme.nextMany (n + 1) >>= fun ls => Lexeme.next >>= fun l => pure (ls ++ [l]) := by
        rw [Lexeme.nextMany]
        simp only [bind_assoc, pure_bind]

theorem run_nextMany_of_fault {n : Nat} {r r' : Reader} {lexemes : List Lexeme} {fault : ReadFault}
    (h : (Lexeme.nextMany n).run r = .ok (lexemes, r'))
    (hfault : Lexeme.next.run r' = .error fault) :
    (Lexeme.nextMany (n + 1)).run r = .error fault := by
  rw [nextMany_succ, StateT.run_bind, h]
  show (Lexeme.next >>= fun l => pure (lexemes ++ [l])).run r' = _
  rw [StateT.run_bind, hfault]
  rfl

/-- Behind lexemes that are read, the reader is before what is left of the text at its position. -/
theorem before_of_nextMany {text : PaddedText} {n : Nat} {lexemes : List Lexeme} {r : Reader}
    (h : (Lexeme.nextMany n).run text.reader = .ok (lexemes, r)) :
    r.Before (text.bytes.drop r.pos) ∧ r.pos ≤ text.size := by
  have hyields := yields_nextMany n text.bytes
  obtain ⟨-, hr, hstop⟩ := hyields.eq_of_run text.reader_before h
  have hpos := hr.pos_add
  have hsize : r.stop = text.bytes.length := hstop
  have hdrop := List.suffix_iff_eq_drop.mp hyields.suffix
  rw [show text.bytes.length - _ = r.pos from by omega] at hdrop
  rw [← hdrop]
  refine ⟨hr, ?_⟩
  show r.pos ≤ text.bytes.length
  omega

/-- Behind lexemes that are read, one that reaches beyond the greatest offset overflows. -/
theorem run_nextMany_overflow {text : PaddedText} {n : Nat} {lexemes : List Lexeme} {r : Reader}
    {b : UInt8} (hrun : (Lexeme.nextMany n).run text.reader = .ok (lexemes, r))
    (hb : text.bytes[r.pos]? = some b) (hwidth : maxOffset < r.pos + leadWidth b) :
    (Lexeme.nextMany (n + 1)).run text.reader = .error .overflow := by
  obtain ⟨hpos, hget⟩ := List.getElem?_eq_some_iff.mp hb
  have hr := (before_of_nextMany hrun).1
  rw [List.drop_eq_getElem_cons hpos, hget] at hr
  exact run_nextMany_of_fault hrun (run_next_overflow hr hwidth)

/-! ## A text that is cut inside its last character -/

/-- A run of blanks is a lexeme. -/
theorem run_next_blanks {r : Reader} {n : Nat} {b : UInt8} {t : List UInt8}
    (hr : r.Before (List.replicate (n + 1) 0x20 ++ b :: t)) (hb : Ascii.isBlank b = false) :
    Lexeme.next.run r = .ok (⟨.trivia .blanks, n + 1⟩, r.moved (n + 1)) := by
  obtain ⟨k, -, hahead⟩ := hr.ahead
  have hpos := hr.pos_add
  have hstop := hr.stop_le
  have hcurrent : current.run r = .ok (0x20, r) := run_look_of_getElem? (hr.getElem? (by omega))
  have hfind : r.ahead.findIdx? (fun b => !Ascii.isBlank b) = some (n + 1) := by
    have hspace : Ascii.isBlank 0x20 = true := rfl
    rw [hahead]
    simp [List.findIdx?_append, List.findIdx?_replicate, List.findIdx?_cons, hb, hspace]
  rw [List.length_append, List.length_replicate] at hpos
  rw [run_next, StateT.run_bind, hcurrent]
  show (Lexeme.blanks.run r >>= fun p => .ok (Lexeme.mk p.1 (p.2.pos - r.pos), p.2)) = _
  have hblanks : Lexeme.blanks.run r = .ok (.trivia .blanks, r.moved (n + 1)) := by
    unfold Lexeme.blanks skipBlanks
    rw [StateT.run_bind, run_skipWhile, hfind]
    show ((skip (n + 1)).run r >>= _) = _
    rw [run_skip, if_pos (by omega)]
    rfl
  rw [hblanks]
  show Except.ok (Lexeme.mk _ (r.pos + (n + 1) - r.pos), _) = _
  rw [Nat.add_sub_cancel_left]

/-- Blanks, and a character of two bytes of which only the first is kept. -/
def overlong : String := String.ofList (List.replicate (maxOffset - 1) ' ' ++ ['é'])

theorem bytes_ofString_blanks {n : Nat} (h : n + 1 = maxOffset) :
    (PaddedText.ofString (String.ofList (List.replicate n ' ' ++ ['é']))).bytes =
      List.replicate n 0x20 ++ [0xC3] := by
  have hblank : String.utf8EncodeChar ' ' = [0x20] := by decide
  have hlast : String.utf8EncodeChar 'é' = [0xC3, 0xA9] := by decide
  have hbytes : bytes (String.ofList (List.replicate n ' ' ++ ['é'])) =
      (List.replicate n 0x20 ++ [0xC3]) ++ [0xA9] := by
    simp [bytes, List.flatMap_replicate, hblank, hlast]
  show (bytes (String.ofList (List.replicate n ' ' ++ ['é']))).take maxOffset = _
  rw [hbytes, ← h]
  exact List.take_left' (by simp)

theorem bytes_ofString_overlong :
    (PaddedText.ofString overlong).bytes = List.replicate (maxOffset - 1) 0x20 ++ [0xC3] := by
  have hpos : 1 ≤ maxOffset := by decide
  rw [overlong, bytes_ofString_blanks (Nat.sub_add_cancel hpos)]

theorem run_nextMany_overlong :
    (Lexeme.nextMany 1).run (PaddedText.ofString overlong).reader =
      .ok ([⟨.trivia .blanks, maxOffset - 1⟩],
        (PaddedText.ofString overlong).reader.moved (maxOffset - 1)) := by
  have hpos : 2 ≤ maxOffset := by decide
  obtain ⟨n, hn⟩ : ∃ n, maxOffset - 1 = n + 1 := ⟨maxOffset - 2, by omega⟩
  have hbefore := (PaddedText.ofString overlong).reader_before
  rw [bytes_ofString_overlong, hn] at hbefore
  rw [hn, Lexeme.nextMany, StateT.run_bind, run_next_blanks hbefore rfl]
  rfl

theorem getElem?_overlong : (PaddedText.ofString overlong).bytes[
    ((PaddedText.ofString overlong).reader.moved (maxOffset - 1)).pos]? = some 0xC3 := by
  show (PaddedText.ofString overlong).bytes[0 + (maxOffset - 1)]? = some 0xC3
  rw [bytes_ofString_overlong, Nat.zero_add, List.getElem?_append_right (by simp)]
  simp

theorem lt_overlong : maxOffset <
    ((PaddedText.ofString overlong).reader.moved (maxOffset - 1)).pos + leadWidth 0xC3 := by
  have hwidth : leadWidth 0xC3 = 2 := rfl
  show maxOffset < 0 + (maxOffset - 1) + leadWidth 0xC3
  omega

/-! ## Positions in a text -/

/-- Reading stays in the text, and the one fault is an overflow, for which the text has to be cut
inside a character.  It overflows at a lexeme whose first byte announces a character that reaches
beyond the greatest offset. -/
theorem nextMany_overflow (text : String) :
    let source := PaddedText.ofString text
    (∀ n,
      (∃ lexemes r, (Lexeme.nextMany n).run source.reader = .ok (lexemes, r) ∧
        r.pos ≤ source.size) ∨
      (Lexeme.nextMany n).run source.reader = .error .overflow ∧
        maxOffset < text.utf8ByteSize ∧ ¬ (⟨maxOffset⟩ : String.Pos.Raw).IsValid text) ∧
    ∀ n lexemes r b, (Lexeme.nextMany n).run source.reader = .ok (lexemes, r) →
      source.bytes[r.pos]? = some b → maxOffset < r.pos + leadWidth b →
      (Lexeme.nextMany (n + 1)).run source.reader = .error .overflow := by
  intro source
  constructor
  · intro n
    rcases (yields_nextMany n _).run _ source.reader_before with ⟨r, hok, -⟩ | ⟨hfault, hcut⟩
    · exact .inl ⟨_, r, hok, (before_of_nextMany hok).2⟩
    · have hwhole := mt PaddedText.whole_ofString hcut
      rw [not_or, Nat.not_le] at hwhole
      exact .inr ⟨hfault, hwhole⟩
  · intro n lexemes r b hrun hb hwidth
    exact run_nextMany_overflow hrun hb hwidth

/-- The second lexeme of the text that is too long overflows. -/
theorem nextMany_overflow_overlong :
    let source := PaddedText.ofString overlong
    ∃ lexemes r b, (Lexeme.nextMany 1).run source.reader = .ok (lexemes, r) ∧
      source.bytes[r.pos]? = some b ∧ maxOffset < r.pos + leadWidth b ∧
      (Lexeme.nextMany 2).run source.reader = .error .overflow :=
  ⟨_, _, 0xC3, run_nextMany_overlong, getElem?_overlong, lt_overlong,
    (nextMany_overflow overlong).2 1 _ _ _ run_nextMany_overlong getElem?_overlong lt_overlong⟩

/-- Not every position in its reading is an offset of 32 bits. -/
theorem not_nextMany_overlong :
    ¬ ∀ n, ∃ lexemes r,
      (Lexeme.nextMany n).run (PaddedText.ofString overlong).reader = .ok (lexemes, r) ∧
        r.pos ≤ (PaddedText.ofString overlong).size := by
  intro h
  obtain ⟨lexemes, r, hrun, -⟩ := h 2
  rw [run_nextMany_overflow run_nextMany_overlong getElem?_overlong lt_overlong] at hrun
  cases hrun

end JavaTokens
