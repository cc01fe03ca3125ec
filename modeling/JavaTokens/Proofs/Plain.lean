import Mathlib.Data.List.Flatten
import JavaTokens.Numeral.Plain
import JavaTokens.Proofs.Encoding

/-!
# Plain texts

Making numerals plain only leaves characters out, and neither the first nor the last one.  So a
plain text is no longer than its text.

    plain text = the characters of it that stay                       (plain_eq)
-/

namespace JavaTokens.Numeral

/-! ## Characters left out -/

/-- The characters of a text made plain. -/
def plainChars : List Char → List Char
  | a :: b :: c :: rest =>
    if dropsMiddle a b c then a :: c :: plainChars rest else a :: plainChars (b :: c :: rest)
  | cs => cs

theorem plainOnto_eq (cs out : List Char) (dropped : Bool) :
    (plainOnto cs out dropped).1 = out.reverse ++ plainChars cs := by
  fun_induction plainOnto cs out dropped with
  | case1 a b c rest out dropped h ih => rw [ih, plainChars, if_pos h]; simp
  | case2 a b c rest out dropped h ih => rw [ih, plainChars, if_neg h]; simp
  | case3 cs out dropped h =>
    rcases cs with _ | ⟨a, _ | ⟨b, _ | ⟨c, rest⟩⟩⟩
    · rfl
    · rfl
    · rfl
    · exact absurd rfl (h a b c rest)

theorem plainChars_sublist (cs : List Char) : (plainChars cs).Sublist cs := by
  fun_induction plainChars cs with
  | case1 a b c rest h ih => exact ((ih.cons_cons c).cons b).cons_cons a
  | case2 a b c rest h ih => exact ih.cons_cons a
  | case3 cs h => exact .refl cs

/-- A text is plain if nothing is left out of it, and only then. -/
theorem plainOnto_snd_eq_false_iff (cs out : List Char) (dropped : Bool) :
    (plainOnto cs out dropped).2 = false ↔ dropped = false ∧ plainChars cs = cs := by
  fun_induction plainOnto cs out dropped with
  | case1 a b c rest out dropped h ih =>
    rw [ih]
    constructor
    · rintro ⟨hd, -⟩
      cases hd
    · rintro ⟨-, hsame⟩
      have hle := (plainChars_sublist rest).length_le
      have hlength := congrArg List.length hsame
      rw [plainChars, if_pos h] at hlength
      simp only [List.length_cons] at hlength
      omega
  | case2 a b c rest out dropped h ih => rw [ih, plainChars, if_neg h, List.cons_inj_right]
  | case3 cs out dropped h =>
    rcases cs with _ | ⟨a, _ | ⟨b, _ | ⟨c, rest⟩⟩⟩
    · exact (and_iff_left rfl).symm
    · exact (and_iff_left rfl).symm
    · exact (and_iff_left rfl).symm
    · exact absurd rfl (h a b c rest)

theorem plain_eq (text : String) : plain text = String.ofList (plainChars text.toList) := by
  unfold plain plain?
  cases h : plainOnto text.toList [] false with
  | mk cs dropped =>
    have hcs := plainOnto_eq text.toList [] false
    rw [h, List.reverse_nil, List.nil_append] at hcs
    cases dropped with
    | true => simp [← hcs]
    | false =>
      have hdropped : (plainOnto text.toList [] false).2 = false := by rw [h]
      have hsame := ((plainOnto_snd_eq_false_iff _ _ _).mp hdropped).2
      simp [hsame]

theorem plain?_eq_none_iff (text : String) : plain? text = none ↔ plain text = text := by
  constructor
  · intro h
    rw [plain, h, Option.getD_none]
  · intro h
    have hsame : plainChars text.toList = text.toList := by
      rw [plain_eq] at h
      rw [← String.toList_ofList (l := plainChars text.toList), h]
    have hdropped := (plainOnto_snd_eq_false_iff text.toList [] false).mpr ⟨rfl, hsame⟩
    unfold plain?
    simp only [hdropped, Bool.false_eq_true, if_false]

theorem getLast?_plainChars (cs : List Char) : (plainChars cs).getLast? = cs.getLast? := by
  fun_induction plainChars cs with
  | case1 a b c rest h ih => simp [List.getLast?_cons, ih]
  | case2 a b c rest h ih => simp only [List.getLast?_cons, ih]
  | case3 cs h => rfl

theorem mem_of_mem_plain {text : String} {c : Char} (h : c ∈ (plain text).toList) :
    c ∈ text.toList := by
  rw [plain_eq, String.toList_ofList] at h
  exact (plainChars_sublist text.toList).subset h

theorem utf8ByteSize_plain_le (text : String) : (plain text).utf8ByteSize ≤ text.utf8ByteSize := by
  rw [← Text.length_bytes, ← Text.length_bytes, plain_eq, Text.bytes, Text.bytes,
    String.toList_ofList]
  exact ((plainChars_sublist text.toList).flatMap _).length_le

/-- Where no character behind it can be left out, the text behind a character is made plain on its
own. -/
theorem plainChars_cons {a : Char} (h : ∀ b c, dropsMiddle a b c = false) (cs : List Char) :
    plainChars (a :: cs) = a :: plainChars cs := by
  rcases cs with _ | ⟨b, _ | ⟨c, cs⟩⟩
  · rfl
  · rfl
  · rw [plainChars, if_neg (by simp [h b c])]

end JavaTokens.Numeral
