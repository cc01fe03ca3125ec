import Mathlib.Data.List.TakeWhile
import JavaTokens.Word
import JavaTokens.Proofs.Spelling

/-!
# Words as they are read and as they are tested

Reading goes over the bytes of a word, the test over its characters.  A character goes on with a word
for the one if it does for the other, so both stop at the same place.

    the words listed under a length are the reserved ones of it       (reservedOfLength_eq)
    Word.isReserved text = true ↔ text ∈ Word.reserved                (isReserved_iff)
    what is read as a word is one                                     (isWord_of_first)
    a word is read as one                                             (first_append_of_isWord)
-/

namespace JavaTokens

open Text

/-! ## Reserved words -/

namespace Word

/-- Under every length stand the reserved words of that length, in their order, and no others. -/
theorem reservedOfLength_eq (n : Nat) :
    reservedOfLength n = reserved.filter fun w => w.utf8ByteSize == n := by
  have hlengths : ∀ w ∈ reserved, w.utf8ByteSize ∈ [2, 3, 4, 5, 6, 7, 8, 9, 10, 12] := by
    decide +kernel
  fun_cases reservedOfLength n with
  | case11 =>
    -- no reserved word has a length under which nothing is listed
    symm
    rw [List.filter_eq_nil_iff]
    intro w hw hn
    have hlength := hlengths w hw
    rw [eq_of_beq hn] at hlength
    simp_all
  | _ => decide +kernel

theorem mem_reservedOfLength_iff {text : String} :
    text ∈ reservedOfLength text.utf8ByteSize ↔ text ∈ reserved := by
  rw [reservedOfLength_eq, List.mem_filter, beq_self_eq_true, and_iff_left rfl]

theorem mem_of_isReserved {text : String} (h : isReserved text = true) : text ∈ reserved := by
  simp only [isReserved, Bool.and_eq_true, List.contains_iff_mem] at h
  exact mem_reservedOfLength_iff.mp h.2

theorem isWord_of_mem {text : String} (h : text ∈ reserved) : isWord text = true := by
  have hall : ∀ w ∈ reserved, isWord w = true := by decide +kernel
  exact hall text h

/-- No reserved word is kept out by its length or its first letter. -/
theorem isReserved_of_mem {text : String} (h : text ∈ reserved) : isReserved text = true := by
  have hall : ∀ w ∈ reserved, (2 ≤ w.utf8ByteSize ∧ w.utf8ByteSize ≤ 12) ∧
      w.toList.head?.any Char.isLower = true := by
    decide +kernel
  simp only [isReserved, Bool.and_eq_true, decide_eq_true_eq, List.contains_iff_mem]
  exact ⟨hall text h, mem_reservedOfLength_iff.mpr h⟩

/-- A text of any length is told to be reserved exactly if it stands in the table. -/
theorem isReserved_iff (text : String) : isReserved text = true ↔ text ∈ reserved := by
  constructor
  · exact mem_of_isReserved
  · exact isReserved_of_mem

end Word

/-! ## Characters of words -/

/-- A character below `0x80` is one byte, and any other begins with a byte beyond ASCII. -/
theorem utf8EncodeChar_cases (c : Char) :
    (c.toNat < 0x80 ∧ String.utf8EncodeChar c = [UInt8.ofNat c.toNat]) ∨
      0x80 ≤ c.toNat ∧ begins isBeyondAscii (String.utf8EncodeChar c) = true := by
  have hv := val_le c
  show (c.val.toNat < 0x80 ∧ _) ∨ 0x80 ≤ c.val.toNat ∧ _
  fun_cases String.utf8EncodeChar c with
  | case1 v h => exact .inl ⟨by omega, rfl⟩
  | case2 v h₁ h₂ | case3 v h₁ h₂ h₃ | case4 v h₁ h₂ h₃ =>
    refine .inr ⟨by omega, ?_⟩
    rw [begins_cons, isBeyondAscii_iff, UInt8.toNat_ofNat']
    omega

theorem isBeyondAscii_ofNat {n : Nat} (h : n < 0x80) : isBeyondAscii (UInt8.ofNat n) = false := by
  rw [Bool.eq_false_iff, Ne, isBeyondAscii_iff, UInt8.toNat_ofNat']
  omega

theorem isWordPart_ofNat {n : Nat} (h : n < 0x80) :
    Ascii.isWordPart (UInt8.ofNat n) = Word.isPart (Char.ofNat n) := by
  have hall : ∀ n, n < 0x80 → Ascii.isWordPart (UInt8.ofNat n) = Word.isPart (Char.ofNat n) := by
    decide +kernel
  exact hall n h

theorem isWordStart_ofNat {n : Nat} (h : n < 0x80) :
    Ascii.isWordStart (UInt8.ofNat n) = Word.isStart (Char.ofNat n) := by
  have hall : ∀ n, n < 0x80 → Ascii.isWordStart (UInt8.ofNat n) = Word.isStart (Char.ofNat n) := by
    decide +kernel
  exact hall n h

namespace Word

variable {c : Char}

theorem lt_of_ascii (h : (c.isAlphanum || c == '_' || c == '$') = true) : c.toNat < 0x80 := by
  have halnum : c.isAlphanum =
      (decide (65 ≤ c.val ∧ c.val ≤ 90) || ((97 ≤ c.val) && (c.val ≤ 122)) ||
        ((48 ≤ c.val) && (c.val ≤ 57))) := rfl
  simp only [halnum, Bool.or_eq_true, beq_iff_eq, Bool.and_eq_true, decide_eq_true_eq,
    UInt32.le_iff_toNat_le] at h
  change (((((65 ≤ c.toNat ∧ c.toNat ≤ 90) ∨ (97 ≤ c.toNat ∧ c.toNat ≤ 122)) ∨
    (48 ≤ c.toNat ∧ c.toNat ≤ 57)) ∨ c = '_') ∨ c = '$') at h
  rcases h with (h | rfl) | rfl
  · omega
  · decide
  · decide

theorem isPart_of_le (h : 0x80 ≤ c.toNat) : isPart c = Unicode.isAlphanumeric c := by
  have hascii : (c.isAlphanum || c == '_' || c == '$') = false := by
    rw [Bool.eq_false_iff]
    intro hc
    have hlt := lt_of_ascii hc
    omega
  rw [isPart, hascii, decide_eq_true h, Bool.false_or, Bool.true_and]

theorem isStart_of_le (h : 0x80 ≤ c.toNat) : isStart c = Unicode.isAlphabetic c := by
  have hascii : (c.isAlpha || c == '_' || c == '$') = false := by
    rw [Bool.eq_false_iff]
    intro hc
    have hlt := lt_of_ascii (c := c) (by
      rw [Char.isAlphanum, Bool.or_right_comm _ c.isDigit, Bool.or_right_comm _ c.isDigit, hc,
        Bool.true_or])
    omega
  rw [isStart, hascii, decide_eq_true h, Bool.false_or, Bool.true_and]

end Word

/-! ## Reading words -/

theorem not_isWordPart_of_isBeyondAscii {b : UInt8} (h : isBeyondAscii b = true) :
    Ascii.isWordPart b = false := by
  rw [isBeyondAscii_iff] at h
  rw [Bool.eq_false_iff, Ne, Ascii.isWordPart_iff]
  omega

/-- A character goes on with a word for reading if it does for the test. -/
theorem wordPart?_utf8EncodeChar (c : Char) (t : List UInt8) :
    wordPart? (String.utf8EncodeChar c ++ t) = if Word.isPart c then some t else none := by
  rcases utf8EncodeChar_cases c with ⟨hlt, hc⟩ | ⟨hle, hc⟩
  · have hpart := isWordPart_ofNat hlt
    rw [Char.ofNat_toNat] at hpart
    rw [hc, List.singleton_append, wordPart?, begins_cons, begins_cons, hpart,
      isBeyondAscii_ofNat hlt, Bool.false_and]
    rfl
  · obtain ⟨b, r, hbytes, hb⟩ := exists_cons_of_begins hc
    have hchar := charAt?_append c t
    have hdrop := dropChar_append c t
    rw [hbytes, List.cons_append] at hchar hdrop ⊢
    rw [wordPart?_of_not_isWordPart (not_isWordPart_of_isBeyondAscii hb), hb, hchar, hdrop,
      Word.isPart_of_le hle]
    rfl

theorem wordPart?_nil : wordPart? [] = none := rfl

/-- Reading stops where the test does. -/
theorem dropWord_flatMap (cs : List Char) :
    dropWord (cs.flatMap String.utf8EncodeChar) =
      (cs.dropWhile Word.isPart).flatMap String.utf8EncodeChar := by
  induction cs with
  | nil => exact dropWord_of_none wordPart?_nil
  | cons c cs ih =>
    have hstep := wordPart?_utf8EncodeChar c (cs.flatMap String.utf8EncodeChar)
    rw [List.flatMap_cons, List.dropWhile_cons]
    split
    · next hc =>
      rw [if_pos hc] at hstep
      rw [dropWord_of_some hstep, ih]
    · next hc =>
      rw [if_neg hc] at hstep
      rw [dropWord_of_none hstep, List.flatMap_cons]

theorem all_isPart_of_dropWord {cs : List Char}
    (h : dropWord (cs.flatMap String.utf8EncodeChar) = []) : cs.all Word.isPart = true := by
  rw [dropWord_flatMap, List.flatMap_eq_nil_iff] at h
  rw [List.all_eq_true, ← List.dropWhile_eq_nil_iff]
  refine List.eq_nil_iff_forall_not_mem.mpr ?_
  intro c hc
  exact utf8EncodeChar_ne_nil c (h c hc)

theorem isStart_of_leads {c : Char} {b : UInt8} {t : List UInt8}
    (hc : String.utf8EncodeChar c = b :: t) (h : Ascii.isWordStart b = true) :
    Word.isStart c = true ∧ t = [] := by
  rcases utf8EncodeChar_cases c with ⟨hlt, hone⟩ | ⟨-, hbeyond⟩
  · have hstart := isWordStart_ofNat hlt
    rw [hone, List.cons.injEq] at hc
    rw [hc.1, h, Char.ofNat_toNat] at hstart
    exact ⟨hstart.symm, hc.2.symm⟩
  · rw [hc, begins_cons] at hbeyond
    have hpart := not_isWordPart_of_isBeyondAscii hbeyond
    rw [Ascii.isWordPart, h] at hpart
    cases hpart

/-- A word begins with a letter or beyond ASCII. -/
theorem Word.begins_of_isWord {text : String} (h : isWord text = true) :
    begins (fun b => Ascii.isWordStart b || isBeyondAscii b) (bytes text) = true := by
  unfold isWord at h
  cases htext : text.toList with
  | nil =>
    rw [htext] at h
    cases h
  | cons c cs =>
    simp only [htext, Bool.and_eq_true] at h
    rw [bytes, htext, List.flatMap_cons]
    rcases utf8EncodeChar_cases c with ⟨hlt, hone⟩ | ⟨-, hbeyond⟩
    · have hstart := isWordStart_ofNat hlt
      rw [Char.ofNat_toNat, h.1] at hstart
      rw [hone, List.singleton_append, begins_cons, hstart, Bool.true_or]
    · obtain ⟨b, t, hbytes, hb⟩ := exists_cons_of_begins hbeyond
      rw [hbytes, List.cons_append, begins_cons, hb, Bool.or_true]

/-- What is read as a word is one. -/
theorem isWord_of_first {text : String} (h : Cut.first (bytes text) = ⟨.word, []⟩) :
    Word.isWord text = true := by
  obtain ⟨b, s, r, hbytes, hleads, hreads, hcut⟩ := Cut.exists_rule_of_isToken h rfl
  obtain ⟨c, cs, htext⟩ : ∃ c cs, text.toList = c :: cs := by
    refine List.exists_cons_of_ne_nil ?_
    intro hnil
    rw [bytes, hnil] at hbytes
    cases hbytes
  rw [bytes, htext, List.flatMap_cons] at hbytes
  obtain ⟨a, t, hc, -⟩ := utf8EncodeChar_shape c
  simp only [Word.isWord, htext, Bool.and_eq_true]
  cases r with
  | word =>
    rw [hc, List.cons_append, List.cons.injEq] at hbytes
    obtain ⟨rfl, rfl⟩ := hbytes
    obtain ⟨hstart, rfl⟩ := isStart_of_leads hc hleads
    exact ⟨hstart, all_isPart_of_dropWord (congrArg Cut.rest hcut)⟩
  | beyondAscii =>
    have hle : 0x80 ≤ c.toNat := by
      rcases utf8EncodeChar_cases c with ⟨hlt, hone⟩ | ⟨hle, -⟩
      · rw [hone, List.singleton_append, List.cons.injEq] at hbytes
        have hbeyond : Cut.leads (UInt8.ofNat c.toNat) .beyondAscii = false :=
          isBeyondAscii_ofNat hlt
        rw [hbytes.1, hleads] at hbeyond
        cases hbeyond
      · exact hle
    change Cut.beyondAscii (b :: s) = _ at hcut
    rw [← hbytes, Cut.beyondAscii, charAt?_append, dropChar_append, Option.any_some,
      ← Word.isStart_of_le hle] at hcut
    split at hcut
    · next hstart => exact ⟨hstart, all_isPart_of_dropWord (congrArg Cut.rest hcut)⟩
    · cases hcut
  | _ => cases hreads

/-! ## Words with text behind them -/

/-- Reading takes the rest of a word and stops behind it. -/
theorem dropWord_append {cs : List Char} (h : cs.all Word.isPart = true) {t : List UInt8}
    (ht : wordPart? t = none) : dropWord (cs.flatMap String.utf8EncodeChar ++ t) = t := by
  induction cs with
  | nil => exact dropWord_of_none ht
  | cons c cs ih =>
    rw [List.all_cons, Bool.and_eq_true] at h
    have hstep := wordPart?_utf8EncodeChar c (cs.flatMap String.utf8EncodeChar ++ t)
    rw [if_pos h.1] at hstep
    rw [List.flatMap_cons, List.append_assoc, dropWord_of_some hstep, ih h.2]

theorem ofByte_of_isBeyondAscii {b : UInt8} (h : isBeyondAscii b = true) :
    Lexeme.Rule.ofByte b = .beyondAscii := by
  have hpart := not_isWordPart_of_isBeyondAscii h
  rw [Ascii.isWordPart, Bool.or_eq_false_iff] at hpart
  have hblank : Ascii.isBlank b = false := by
    rw [isBeyondAscii_iff] at h
    rw [Bool.eq_false_iff, Ne, Ascii.isBlank_iff]
    omega
  rw [Lexeme.Rule.ofByte, hpart.1, hpart.2, hblank]
  exact if_pos (of_decide_eq_true h)

/-- A word is read as one, before anything that does not go on with it. -/
theorem first_append_of_isWord {text : String} (h : Word.isWord text = true) {t : List UInt8}
    (ht : wordPart? t = none) : Cut.first (bytes text ++ t) = ⟨.word, t⟩ := by
  unfold Word.isWord at h
  cases htext : text.toList with
  | nil =>
    rw [htext] at h
    cases h
  | cons c cs =>
    simp only [htext, Bool.and_eq_true] at h
    have hrest := dropWord_append h.2 ht
    rw [bytes, htext, List.flatMap_cons, List.append_assoc]
    rcases utf8EncodeChar_cases c with ⟨hlt, hone⟩ | ⟨hle, hbeyond⟩
    · have hstart := isWordStart_ofNat hlt
      rw [Char.ofNat_toNat, h.1] at hstart
      have hrule : Lexeme.Rule.ofByte (UInt8.ofNat c.toNat) = .word := if_pos hstart
      rw [hone, List.singleton_append, Cut.first_cons, hrule]
      exact congrArg (Cut.mk .word) hrest
    · obtain ⟨b, u, hbytes, hb⟩ := exists_cons_of_begins hbeyond
      have hchar := charAt?_append c (cs.flatMap String.utf8EncodeChar ++ t)
      have hdrop := dropChar_append c (cs.flatMap String.utf8EncodeChar ++ t)
      rw [hbytes, List.cons_append] at hchar hdrop ⊢
      rw [Cut.first_cons, ofByte_of_isBeyondAscii hb]
      show Cut.beyondAscii _ = _
      rw [Cut.beyondAscii, hchar, Option.any_some, ← Word.isStart_of_le hle, if_pos h.1, hdrop]
      exact congrArg (Cut.mk .word) hrest

end JavaTokens
