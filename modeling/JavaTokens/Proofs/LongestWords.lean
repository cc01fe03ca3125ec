import JavaTokens.Proofs.Kind.Word
import JavaTokens.Proofs.Context

/-!
# Longest words

Words are read by their bytes and tested by their characters, and both take the same for a word.  A
text that begins with a character that may begin a word is read as the longest word that it begins
with.

    what begins like a word is read as one                            (exists_word)
    the longest word in front is the first lexeme, and a text that
    is one word is one lexeme                                         (ofText_word)
-/

namespace JavaTokens

open Text

/-! ## Words in front of a text -/

theorem first_of_isWord {text : String} (h : Word.isWord text = true) :
    Cut.first (bytes text) = ⟨.word, []⟩ := by
  have hfirst := first_append_of_isWord h wordPart?_nil
  rwa [List.append_nil] at hfirst

/-- Nothing goes on with a word where the test stops. -/
theorem wordPart?_dropWhile (cs : List Char) :
    wordPart? ((cs.dropWhile Word.isPart).flatMap String.utf8EncodeChar) = none := by
  induction cs with
  | nil => exact wordPart?_nil
  | cons c cs ih =>
    rw [List.dropWhile_cons]
    split
    · exact ih
    · next hc => rw [List.flatMap_cons, wordPart?_utf8EncodeChar, if_neg hc]

/-- What begins like a word is read as one. -/
theorem exists_word {text : String} (h : text.toList.head?.any Word.isStart = true) :
    ∃ w v : String, text = w ++ v ∧ Word.isWord w = true ∧
      Cut.first (bytes text) = ⟨.word, bytes v⟩ := by
  obtain ⟨c, hhead, hc⟩ := (Option.any_eq_true _ _).mp h
  obtain ⟨cs, htext⟩ := List.head?_eq_some_iff.mp hhead
  let w : String := .ofList (c :: cs.takeWhile Word.isPart)
  let v : String := .ofList (cs.dropWhile Word.isPart)
  have hsplit : text = w ++ v := by
    rw [← String.ofList_append, List.cons_append, List.takeWhile_append_dropWhile, ← htext,
      String.ofList_toList]
  have hw : Word.isWord w = true := by
    have hall : (cs.takeWhile Word.isPart).all Word.isPart = true := by
      rw [List.all_eq_true]
      intro d hd
      exact List.mem_takeWhile_imp hd
    simp only [Word.isWord, w, String.toList_ofList, hc, hall, Bool.and_self]
  have hv : wordPart? (bytes v) = none := by
    rw [bytes, String.toList_ofList]
    exact wordPart?_dropWhile cs
  refine ⟨w, v, hsplit, hw, ?_⟩
  rw [hsplit, bytes_append, first_append_of_isWord hw hv]

theorem Word.isStart_of_isWord {w : String} (h : isWord w = true) (v : String) :
    (w ++ v).toList.head?.any isStart = true := by
  unfold isWord at h
  rw [String.toList_append]
  cases hw : w.toList with
  | nil =>
    rw [hw] at h
    cases h
  | cons c cs =>
    simp only [hw, Bool.and_eq_true] at h
    exact h.1

theorem Word.isIdentifier_or_isReserved_iff {text : String} :
    isIdentifier text = true ∨ isReserved text = true ↔ isWord text = true := by
  rw [isIdentifier, Bool.and_eq_true, Bool.not_eq_true']
  constructor
  · rintro (⟨h, -⟩ | h)
    · exact h
    · exact isWord_of_mem (mem_of_isReserved h)
  · intro h
    cases hreserved : isReserved text with
    | true => exact .inr rfl
    | false => exact .inl ⟨h, rfl⟩

/-! ## Texts -/

/-- The first lexeme of a text is a word if the first character may begin one, and then it is the
longest word in front.  A text that is not cut is one word exactly if it is an identifier or
reserved. -/
theorem ofText_word (text : String) :
    (text.utf8ByteSize ≤ maxOffset → ∃ lexemes,
      Lexeme.ofText (PaddedText.ofString text) = .ok lexemes ∧
        ((∃ n, lexemes.head? = some ⟨.word, n⟩) ↔
          text.toList.head?.any Word.isStart = true) ∧
        ∀ n, lexemes.head? = some ⟨.word, n⟩ →
          ∃ w, IsLongestPrefix (Word.isWord · = true) w text ∧ w.utf8ByteSize = n) ∧
      (Lexeme.ofText (PaddedText.ofString text) = .ok [⟨.word, text.utf8ByteSize⟩] ↔
        text.utf8ByteSize ≤ maxOffset ∧
          (Word.isIdentifier text = true ∨ Word.isReserved text = true)) := by
  constructor
  · intro hsize
    by_cases hnil : text.toList = []
    · have hread : Lexeme.ofText (PaddedText.ofString text) = .ok [] := by
        rw [ofText_ofString hsize, bytes, hnil, List.flatMap_nil, pieces_nil]
        rfl
      refine ⟨[], hread, ⟨?_, ?_⟩, ?_⟩
      · rintro ⟨n, h⟩
        cases h
      · intro h
        rw [hnil] at h
        cases h
      · intro n h
        cases h
    obtain ⟨w, v, k, lexemes, rfl, -, hfirst, hw, hread⟩ := exists_ofText_first hsize hnil
    have hword (hk : k = .word) : IsLongestPrefix (Word.isWord · = true) w (w ++ v) := by
      subst hk
      refine isLongestPrefix_of_first ?_ (isWord_of_first hw) hfirst
      intro u hu
      exact ⟨.word, first_of_isWord hu⟩
    refine ⟨_, hread, ⟨?_, ?_⟩, ?_⟩
    · rintro ⟨n, h⟩
      have hk : k = .word := (Lexeme.mk.inj (Option.some.inj h)).1
      exact Word.isStart_of_isWord (hword hk).holds v
    · intro hstart
      obtain ⟨w', v', -, -, hfirst'⟩ := exists_word hstart
      rw [hfirst, Cut.mk.injEq] at hfirst'
      exact ⟨w.utf8ByteSize, by rw [hfirst'.1]; rfl⟩
    · intro n h
      obtain ⟨hk, hn⟩ := Lexeme.mk.inj (Option.some.inj h)
      exact ⟨w, hword hk, hn⟩
  · have hne : Terminal.word ≠ .finish := by decide
    rw [ofText_eq_singleton_iff hne, Word.isIdentifier_or_isReserved_iff]
    exact and_congr_right fun _ => ⟨isWord_of_first, first_of_isWord⟩

/-- A letter and a digit beyond ASCII are both in the word, and a word that is reserved is one as
well. -/
theorem ofText_word_digits :
    (∃ w, IsLongestPrefix (Word.isWord · = true) w "é٣_x-1" ∧ w.utf8ByteSize = 6) ∧
      Lexeme.ofText (PaddedText.ofString "int") = .ok [⟨.word, 3⟩] := by
  constructor
  · obtain ⟨lexemes, hread, -, hlongest⟩ := (ofText_word "é٣_x-1").1 (by decide)
    have hlexemes : (Lexeme.ofText (PaddedText.ofString "é٣_x-1")).toOption =
        some [⟨.word, 6⟩, ⟨.symbol .minus, 1⟩, ⟨.numeral .decimal, 1⟩] := by
      decide +kernel
    rw [hread] at hlexemes
    obtain rfl := Option.some.inj hlexemes
    exact hlongest 6 rfl
  · exact (ofText_word "int").2.mpr ⟨by decide, .inr (by decide +kernel)⟩

end JavaTokens
