import JavaTokens.Literal
import JavaTokens.Proofs.Spelling

/-!
# Literals as they are read and as they are tested

A literal is read from quote to quote within its line.  Its normal text has the same quotes and is no
shorter, unless the literal collapses.

    what is read as a string is one                                   (isString_of_first)
    what is read as a character is one                                (isCharacter_of_first)
    so are their normal texts                                         (isString_normalText)
-/

namespace JavaTokens

open Text Ascii

/-! ## From quote to quote -/

namespace Cut

variable {s t : List UInt8}

/-- A string literal ends with the quote that closes it. -/
theorem eq_append_of_stringRest (h : stringRest s = ⟨.string, t⟩) :
    ∃ u, s = u ++ '"'.toUInt8 :: t := by
  fun_induction stringRest s with
  | case1 => cases h
  | case2 b s hq =>
    obtain rfl := eq_of_beq hq
    obtain rfl : s = t := congrArg Cut.rest h
    exact ⟨[], rfl⟩
  | case3 b s hq hb ih =>
    obtain ⟨u, hu⟩ := ih h
    obtain ⟨v, hv⟩ := dropEscaped_suffix s
    exact ⟨b :: (v ++ u), by rw [← hv, hu]; simp⟩
  | case4 b s hq hb hl => cases h
  | case5 b s hq hb hl ih =>
    obtain ⟨u, rfl⟩ := ih h
    exact ⟨b :: u, rfl⟩

/-- A character literal ends with the quote that closes it, which is not the one behind the first. -/
theorem eq_append_of_character (h : character s = ⟨.character, t⟩) :
    ∃ u, u ≠ [] ∧ s = u ++ '\''.toUInt8 :: t := by
  unfold character closeCharacter at h
  split at h
  · cases h
  · next hopen =>
    split at h
    · next hclose =>
      obtain ⟨b, r, hr, hb⟩ := exists_cons_of_begins hclose
      obtain rfl := eq_of_beq hb
      obtain rfl : r = t := by
        rw [hr] at h
        exact congrArg Cut.rest h
      obtain ⟨u, hu⟩ := characterBody_suffix s
      rw [hr] at hu
      refine ⟨u, ?_, hu.symm⟩
      rintro rfl
      rw [← hu] at hopen
      exact hopen rfl
    · cases h

end Cut

namespace Literal

variable {quote : Char} {least limit : Nat} {text : String}

theorem isQuoted_iff : isQuoted quote least text = true ↔
    least ≤ text.utf8ByteSize ∧ text.toList.head? = some quote ∧
      text.toList.getLast? = some quote ∧ ∀ c ∈ text.toList, c ≠ '\n' ∧ c ≠ '\r' := by
  simp only [isQuoted, Bool.and_eq_true, decide_eq_true_eq, beq_iff_eq, List.all_eq_true, bne_iff_ne,
    and_assoc]

/-- A stretch of bytes within a line, with the byte of a quote at both ends. -/
theorem isQuoted_of_bytes {q : UInt8} {u : List UInt8} (hq : String.utf8EncodeChar quote = [q])
    (hlt : q < 0x80) (hbytes : bytes text = q :: (u ++ [q])) (hleast : least ≤ u.length + 2)
    (hline : ∀ b ∈ bytes text, isInLine b = true) : isQuoted quote least text = true := by
  rw [isQuoted_iff]
  refine ⟨?_, head?_of_head?_bytes hq hlt ?_, getLast?_of_getLast?_bytes hq hlt ?_, ?_⟩
  · rw [← length_bytes, hbytes, List.length_cons, List.length_append, List.length_singleton]
    exact hleast
  · rw [hbytes, List.head?_cons]
  · rw [hbytes, ← List.cons_append, List.getLast?_append]
    rfl
  · intro c hc
    constructor
    · rintro rfl
      have hmem := (mem_bytes_iff (b := '\n'.toUInt8) rfl (by decide)).mpr hc
      cases hline _ hmem
    · rintro rfl
      have hmem := (mem_bytes_iff (b := '\r'.toUInt8) rfl (by decide)).mpr hc
      cases hline _ hmem

end Literal

theorem isInLine_of_first {text : String} {k : Terminal} (h : Cut.first (bytes text) = ⟨k, []⟩)
    (hk : k.isToken = true) : ∀ b ∈ bytes text, isInLine b = true := by
  have htoken := Cut.inLine_of_isToken (isUtf8_bytes text) (by rw [h]; exact hk)
  rw [h] at htoken
  obtain ⟨u, hu, hline⟩ := htoken.takes
  rwa [hu, List.append_nil]

/-- What is read as a string is one. -/
theorem isString_of_first {text : String} (h : Cut.first (bytes text) = ⟨.string, []⟩) :
    Literal.isString text = true := by
  have hline := isInLine_of_first h rfl
  obtain ⟨b, s, r, hbytes, hleads, hreads, hcut⟩ := Cut.exists_rule_of_isToken h rfl
  cases r with
  | string =>
    obtain rfl := eq_of_beq hleads
    obtain ⟨u, rfl⟩ := Cut.eq_append_of_stringRest hcut
    exact Literal.isQuoted_of_bytes rfl (by decide) hbytes (by omega) hline
  | _ => cases hreads

/-- What is read as a character is one. -/
theorem isCharacter_of_first {text : String} (h : Cut.first (bytes text) = ⟨.character, []⟩) :
    Literal.isCharacter text = true := by
  have hline := isInLine_of_first h rfl
  obtain ⟨b, s, r, hbytes, hleads, hreads, hcut⟩ := Cut.exists_rule_of_isToken h rfl
  cases r with
  | character =>
    obtain rfl := eq_of_beq hleads
    obtain ⟨u, hu, rfl⟩ := Cut.eq_append_of_character hcut
    have hlen := List.length_pos_iff.mpr hu
    exact Literal.isQuoted_of_bytes rfl (by decide) hbytes (by omega) hline
  | _ => cases hreads

/-! ## Normal texts -/

namespace Literal

variable {quote : Char} {least limit : Nat} {text escaped : String}

theorem escapeChar_of_not_isEscaped {c : Char} (h : isEscaped c = false) : escapeChar c = [c] := by
  simp only [isEscaped, Bool.or_eq_false_iff] at h
  simp only [escapeChar, h, Bool.false_eq_true, if_false]

theorem isEscaped_iff {c : Char} : isEscaped c = true ↔ (c = '\n' ∨ c = '\r') ∨ c = '\t' := by
  simp only [isEscaped, Bool.or_eq_true, beq_iff_eq]

/-- The spelling of a character leaves nothing to be escaped. -/
theorem not_isEscaped_escapeChar (c : Char) : ∀ d ∈ escapeChar c, isEscaped d = false := by
  cases hc : isEscaped c with
  | false =>
    rw [escapeChar_of_not_isEscaped hc]
    exact List.forall_mem_singleton.mpr hc
  | true =>
    rcases isEscaped_iff.mp hc with (rfl | rfl) | rfl
    all_goals exact List.forall_mem_cons.mpr ⟨rfl, List.forall_mem_singleton.mpr rfl⟩

theorem length_escapeChar (c : Char) :
    (String.utf8EncodeChar c).length ≤ ((escapeChar c).flatMap String.utf8EncodeChar).length := by
  unfold escapeChar
  split
  · next h =>
    obtain rfl := eq_of_beq h
    decide
  · split
    · next h =>
      obtain rfl := eq_of_beq h
      decide
    · split
      · next h =>
        obtain rfl := eq_of_beq h
        decide
      · exact Nat.le_of_eq (congrArg List.length (List.flatMap_singleton _ _).symm)

theorem eq_of_escape? (h : escape? text = some escaped) :
    escaped.toList = text.toList.flatMap escapeChar := by
  unfold escape? at h
  split at h
  · rw [← Option.some.inj h, String.toList_ofList]
  · cases h

theorem utf8ByteSize_le_of_escape? (h : escape? text = some escaped) :
    text.utf8ByteSize ≤ escaped.utf8ByteSize := by
  rw [← length_bytes, ← length_bytes, bytes, bytes, eq_of_escape? h]
  induction text.toList with
  | nil => exact Nat.le_refl 0
  | cons c cs ih =>
    have hc := length_escapeChar c
    simp only [List.flatMap_cons, List.flatMap_append, List.length_append]
    omega

/-- What is escaped keeps its quotes. -/
theorem isQuoted_of_escape? (hquote : isEscaped quote = false)
    (h : isQuoted quote least text = true) (he : escape? text = some escaped) :
    isQuoted quote least escaped = true := by
  rw [isQuoted_iff] at h ⊢
  obtain ⟨hleast, hhead, hlast, -⟩ := h
  have hsize := utf8ByteSize_le_of_escape? he
  have hkept := escapeChar_of_not_isEscaped hquote
  rw [eq_of_escape? he]
  refine ⟨by omega, ?_, ?_, ?_⟩
  · obtain ⟨cs, hcs⟩ := List.head?_eq_some_iff.mp hhead
    rw [hcs, List.flatMap_cons, hkept]
    rfl
  · obtain ⟨cs, hcs⟩ := List.getLast?_eq_some_iff.mp hlast
    rw [hcs, List.flatMap_append, List.flatMap_singleton, hkept, List.getLast?_append]
    rfl
  · intro d hd
    obtain ⟨c, -, hc⟩ := List.mem_flatMap.mp hd
    have hescaped := Bool.eq_false_iff.mp (not_isEscaped_escapeChar c d hc)
    rw [Ne, isEscaped_iff, not_or, not_or] at hescaped
    exact hescaped.1

theorem isQuoted_normalText (hquote : isEscaped quote = false)
    (h : isQuoted quote least text = true)
    (hcollapsed : quote = '"' → isQuoted quote least collapsedText = true) :
    isQuoted quote least (normalText limit text) = true := by
  unfold normalText normalize
  split
  · next hc =>
    rw [Bool.and_eq_true, beq_iff_eq, (isQuoted_iff.mp h).2.1, Option.some.injEq] at hc
    exact hcollapsed hc.1
  · cases he : escape? text with
    | none => exact h
    | some escaped => exact isQuoted_of_escape? hquote h he

theorem isString_normalText (limit : Nat) (h : isString text = true) :
    isString (normalText limit text) = true :=
  isQuoted_normalText rfl h fun _ => by decide

theorem isCharacter_normalText (limit : Nat) (h : isCharacter text = true) :
    isCharacter (normalText limit text) = true :=
  isQuoted_normalText rfl h nofun

end Literal

end JavaTokens
