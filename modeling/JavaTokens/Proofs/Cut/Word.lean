import JavaTokens.Lexeme.Word
import JavaTokens.Proofs.Cut.Basic

/-!
# Cuts of words

The rules for words, and for characters beyond ASCII that begin none.  A word goes on character by
character, and a character is only seen when all of its bytes are there.
-/

namespace JavaTokens

open Text

/-! ## Rules -/

/-- What is left behind one more character of a word, if there is one. -/
def wordPart? (s : List UInt8) : Option (List UInt8) :=
  if begins Ascii.isWordPart s then some (s.drop 1)
  else if begins isBeyondAscii s && (charAt? s).any Unicode.isAlphanumeric then some (dropChar s)
  else none

theorem wordPart?_of_isWordPart {b : UInt8} (h : Ascii.isWordPart b = true) (s : List UInt8) :
    wordPart? (b :: s) = some s :=
  if_pos h

theorem wordPart?_of_not_isWordPart {b : UInt8} (h : Ascii.isWordPart b = false) (s : List UInt8) :
    wordPart? (b :: s) =
      if isBeyondAscii b && (charAt? (b :: s)).any Unicode.isAlphanumeric then
        some (dropChar (b :: s))
      else none :=
  if_neg (by simpa using h)

/-- A character that goes on with a word is one of its ASCII bytes, or it is whole and beyond
ASCII. -/
theorem wordPart?_eq_some {s t : List UInt8} (h : wordPart? s = some t) :
    (begins Ascii.isWordPart s = true ∧ t = s.drop 1) ∨
      begins isBeyondAscii s = true ∧ t = dropChar s ∧ ∃ c, charAt? s = some c := by
  unfold wordPart? at h
  split at h
  · next hs =>
    cases h
    exact .inl ⟨hs, rfl⟩
  · split at h
    · next hs =>
      cases h
      rw [Bool.and_eq_true, Option.any_eq_true] at hs
      obtain ⟨hs, c, hc, -⟩ := hs
      exact .inr ⟨hs, rfl, c, hc⟩
    · cases h

theorem length_lt_of_wordPart? {s t : List UInt8} (h : wordPart? s = some t) :
    t.length < s.length := by
  rcases wordPart?_eq_some h with ⟨hs, rfl⟩ | ⟨hs, rfl, -⟩
  · obtain ⟨b, t, rfl, -⟩ := exists_cons_of_begins hs
    simp
  · obtain ⟨b, t, rfl, -⟩ := exists_cons_of_begins hs
    exact length_dropChar_lt (List.cons_ne_nil b t)

/-- What is left behind the rest of a word. -/
def dropWord (s : List UInt8) : List UInt8 :=
  match _h : wordPart? s with
  | some t => dropWord t
  | none => s
termination_by s.length
decreasing_by exact length_lt_of_wordPart? _h

theorem dropWord_of_some {s t : List UInt8} (h : wordPart? s = some t) :
    dropWord s = dropWord t := by
  rw [dropWord]
  split
  · next h' =>
    rw [h, Option.some.injEq] at h'
    rw [h']
  · next h' =>
    rw [h] at h'
    cases h'

theorem dropWord_of_none {s : List UInt8} (h : wordPart? s = none) : dropWord s = s := by
  rw [dropWord]
  split
  · next h' =>
    rw [h] at h'
    cases h'
  · rfl

namespace Cut

open Lexeme ReadM

def word (s : List UInt8) : Cut := ⟨.word, dropWord s⟩

/-- A character beyond ASCII is looked at from its first byte. -/
def beyondAscii (s : List UInt8) : Cut :=
  if (charAt? s).any Unicode.isAlphabetic then word (dropChar s)
  else ⟨.defect .strayCharacter, dropChar s⟩

/-! ## Reading -/

theorem yields_wordPart (s : List UInt8) :
    Yields wordPart s (wordPart? s).isSome ((wordPart? s).getD s) := by
  refine (yields_current s).bind ?_
  rcases s with _ | ⟨b, s⟩
  · exact yields_pure false []
  · rw [List.headD_cons]
    cases hpart : Ascii.isWordPart b with
    | true =>
      rw [wordPart?_of_isWordPart hpart]
      exact (yields_skip_one b s).bind (yields_pure true s)
    | false =>
      rw [wordPart?_of_not_isWordPart hpart]
      by_cases hb : b < 0x80
      · have hbeyond : isBeyondAscii b = false := by simpa [isBeyondAscii] using hb
        rw [hbeyond, Bool.false_and, if_neg Bool.false_ne_true, if_pos hb]
        exact yields_pure false _
      · have hbeyond : isBeyondAscii b = true := by simpa [isBeyondAscii] using hb
        rw [hbeyond, Bool.true_and, if_neg Bool.false_ne_true, if_neg hb]
        refine (yields_char _).bind ?_
        split
        · exact (yields_skipChar (List.cons_ne_nil b s)).bind (yields_pure true _)
        · exact yields_pure false _

/-- One round for each byte is enough. -/
theorem yields_repeatWhile_wordPart {s : List UInt8} {fuel : Nat} (h : s.length < fuel) :
    Yields (repeatWhile wordPart fuel) s () (dropWord s) := by
  induction fuel generalizing s with
  | zero => omega
  | succ fuel ih =>
    refine (yields_wordPart s).bind ?_
    cases hs : wordPart? s with
    | none =>
      rw [dropWord_of_none hs]
      exact yields_pure () s
    | some t =>
      have ht := length_lt_of_wordPart? hs
      rw [dropWord_of_some hs, Option.getD_some]
      apply ih
      omega

theorem cuts_wordRest (s : List UInt8) : Cuts Lexeme.wordRest s (word s) :=
  yields_left (f := fun n => do repeatWhile wordPart (n + 1); return Terminal.word)
    ((yields_repeatWhile_wordPart (Nat.lt_succ_self _)).bind (yields_pure _ _))

theorem cuts_word (b : UInt8) (s : List UInt8) : Cuts Lexeme.word (b :: s) (word s) :=
  Cuts.skip_one (cuts_wordRest s)

theorem cuts_beyondAscii (b : UInt8) (s : List UInt8) :
    Cuts Lexeme.beyondAscii (b :: s) (beyondAscii (b :: s)) := by
  have hskip := yields_skipChar (List.cons_ne_nil b s)
  exact Cuts.bind (yields_char _) (Cuts.ite rfl (fun _ => Cuts.bind hskip (cuts_wordRest _))
    fun _ => Cuts.bind hskip (Cuts.pure _ _))

/-! ## What is taken -/

/-- The bytes of words. -/
def isWordByte (b : UInt8) : Bool := Ascii.isWordPart b || isBeyondAscii b

theorem ascii_of_isWordPart (b : UInt8) (h : Ascii.isWordPart b = true) :
    b < 0x80 ∧ isInLine b = true := by
  rw [Ascii.isWordPart_iff] at h
  rw [ascii_isInLine_iff]
  omega

theorem isInLine_of_isWordByte (b : UInt8) (h : isWordByte b = true) : isInLine b = true := by
  rw [isWordByte, Bool.or_eq_true] at h
  rcases h with h | h
  · exact (ascii_of_isWordPart b h).2
  · exact isInLine_of_isBeyondAscii b h

theorem takes_dropWord (s : List UInt8) : Takes isWordByte s (dropWord s) := by
  fun_induction dropWord s with
  | case1 s t h ih =>
    refine Takes.trans ?_ ih
    rcases wordPart?_eq_some h with ⟨hs, rfl⟩ | ⟨hs, rfl, c, hc⟩
    · exact (takes_drop_one hs).mono (by simp +contextual [isWordByte])
    · exact (takes_dropChar hc hs).mono (by simp +contextual [isWordByte])
  | case2 s h => exact .refl _ s

theorem isUtf8_dropWord {s : List UInt8} (hs : IsUtf8 s) : IsUtf8 (dropWord s) := by
  fun_induction dropWord s with
  | case1 s t h ih =>
    apply ih
    rcases wordPart?_eq_some h with ⟨hb, rfl⟩ | ⟨-, rfl, -⟩
    · exact (takes_drop_one hb).isUtf8 (fun b hb => (ascii_of_isWordPart b hb).1) hs
    · exact isUtf8_dropChar hs
  | case2 s h => exact hs

theorem inLine_dropWord {s : List UInt8} (hs : IsUtf8 s) : InLine s (dropWord s) :=
  ⟨(takes_dropWord s).mono isInLine_of_isWordByte, isUtf8_dropWord hs⟩

theorem inLine_beyondAscii {s : List UInt8} (hs : IsUtf8 s)
    (h : begins Ascii.isLineEnd s = false) : InLine s (beyondAscii s).rest := by
  have hchar := inLine_dropChar hs h
  unfold beyondAscii
  split
  · exact hchar.trans (inLine_dropWord hchar.isUtf8)
  · exact hchar

/-! ## Indifference to what is left -/

/-- A character that is there to its end is there with text behind it. -/
theorem charAt?_append_of_some {s : List UInt8} {c : Char} (h : charAt? s = some c)
    (v : List UInt8) : charAt? (s ++ v) = some c := by
  obtain ⟨t, rfl⟩ := charAt?_eq_some_iff.mp h
  rw [List.append_assoc]
  exact charAt?_append c (t ++ v)

/-- Where a character does not reach to its end, text behind it may make it whole, and is then taken
in part. -/
theorem length_dropChar_append_lt {u v : List UInt8} {c : Char} (hu : charAt? u = none)
    (h : charAt? (u ++ v) = some c) : (dropChar (u ++ v)).length < v.length := by
  obtain ⟨t, ht⟩ := charAt?_eq_some_iff.mp h
  rw [ht, dropChar_append]
  rcases List.append_eq_append_iff.mp ht with ⟨w, hw, hv⟩ | ⟨w, rfl, rfl⟩
  · rcases w with _ | ⟨a, w⟩
    · rw [List.append_nil] at hw
      have hchar := charAt?_append c []
      rw [hw, List.append_nil, hu] at hchar
      cases hchar
    · rw [hv, List.length_append, List.length_cons]
      omega
  · rw [charAt?_append] at hu
    cases hu

theorem dropChar_append_of_some {u : List UInt8} {c : Char} (h : charAt? u = some c)
    (v : List UInt8) : dropChar (u ++ v) = dropChar u ++ v := by
  obtain ⟨t, rfl⟩ := charAt?_eq_some_iff.mp h
  rw [List.append_assoc, dropChar_append, dropChar_append]

theorem wordPart?_append (b : UInt8) (u v : List UInt8) :
    wordPart? (b :: u ++ v) = (wordPart? (b :: u)).map (· ++ v) ∨
      wordPart? (b :: u) = none ∧ ∃ t, wordPart? (b :: u ++ v) = some t ∧ t.length < v.length := by
  cases hb : Ascii.isWordPart b with
  | true =>
    rw [List.cons_append, wordPart?_of_isWordPart hb, wordPart?_of_isWordPart hb]
    exact .inl rfl
  | false =>
    rw [List.cons_append, wordPart?_of_not_isWordPart hb, wordPart?_of_not_isWordPart hb]
    cases hu : charAt? (b :: u) with
    | some c =>
      have hv := charAt?_append_of_some hu v
      have hd := dropChar_append_of_some hu v
      rw [List.cons_append] at hv hd
      rw [hv, hd]
      refine .inl ?_
      split <;> rfl
    | none =>
      simp only [Option.any_none, Bool.and_false, Bool.false_eq_true, if_false, Option.map_none]
      cases hv : charAt? (b :: (u ++ v)) with
      | none => exact .inl (by simp)
      | some c =>
        have hl := length_dropChar_append_lt hu hv
        split
        · exact .inr ⟨trivial, _, rfl, hl⟩
        · exact .inl rfl

theorem local_word : Local word where
  length_le s := (takes_dropWord s).length_le
  append u v := by
    show word (u ++ v) = (word u).before v ∨ (dropWord (u ++ v)).length < v.length
    unfold word
    fun_induction dropWord u with
    | case1 u t h ih =>
      obtain ⟨b, u, rfl⟩ : ∃ b u', u = b :: u' := by
        rcases u with _ | ⟨b, u⟩
        · cases h
        · exact ⟨b, u, rfl⟩
      rcases wordPart?_append b u v with hv | ⟨hn, -⟩
      · rw [h] at hv
        rw [dropWord_of_some hv]
        exact ih
      · rw [h] at hn
        cases hn
    | case2 u h =>
      rcases u with _ | ⟨b, u⟩
      · rcases eq_or_length_lt_of_suffix (takes_dropWord v).suffix with heq | hlt
        · refine .inl ?_
          rw [List.nil_append, heq]
          rfl
        · exact .inr hlt
      · rcases wordPart?_append b u v with hv | ⟨-, t, hv, ht⟩
        · rw [h] at hv
          refine .inl ?_
          rw [dropWord_of_none hv]
          rfl
        · rw [dropWord_of_some hv]
          exact .inr (Nat.lt_of_le_of_lt (takes_dropWord t).length_le ht)

theorem length_beyondAscii_le (s : List UInt8) :
    (beyondAscii s).rest.length ≤ (dropChar s).length := by
  unfold beyondAscii
  split
  · exact (takes_dropWord _).length_le
  · exact Nat.le_refl _

theorem local_beyondAscii : Local beyondAscii where
  length_le s := Nat.le_trans (length_beyondAscii_le s) (dropChar_suffix s).length_le
  append u v := by
    rcases localRest_dropChar.append u v with hd | ⟨-, hd⟩
    · cases hu : charAt? u with
      | some c =>
        rw [beyondAscii, beyondAscii, charAt?_append_of_some hu v, hu, hd]
        split
        · exact local_word.append (dropChar u) v
        · exact .inl rfl
      | none =>
        cases hv : charAt? (u ++ v) with
        | some c => exact .inr (Nat.lt_of_le_of_lt (length_beyondAscii_le _)
            (length_dropChar_append_lt hu hv))
        | none =>
          rw [beyondAscii, beyondAscii, hu, hv, hd]
          exact .inl rfl
    · exact .inr (Nat.lt_of_le_of_lt (length_beyondAscii_le _) hd)

end Cut

end JavaTokens
