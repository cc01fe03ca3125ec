import JavaTokens.Proofs.Kind
import JavaTokens.Proofs.Separators
import JavaTokens.Proofs.Stretches

/-!
# Texts of numerals

A numeral is one token if no separator is left in it when it is made plain.  If one is, the token
ends there, and from the separator on the text is a word.

    the tokens of a numeral                                           (lex_numeral)
-/

namespace JavaTokens

open Text Ascii

/-! ## Texts up to a separator -/

namespace Numeral

/-- The text up to its first separator. -/
def beforeSeparator (text : String) : String := .ofList (text.toList.takeWhile (· != '_'))

/-- The text from its first separator on. -/
def fromSeparator (text : String) : String := .ofList (text.toList.dropWhile (· != '_'))

variable {text : String}

theorem bytes_beforeSeparator_append (text : String) :
    bytes (beforeSeparator text) ++ bytes (fromSeparator text) = bytes text := by
  simp only [bytes, beforeSeparator, fromSeparator, String.toList_ofList, ← List.flatMap_append,
    List.takeWhile_append_dropWhile]

theorem fromSeparator_of_mem (h : '_' ∈ text.toList) :
    ∃ cs, (fromSeparator text).toList = '_' :: cs := by
  obtain ⟨ds, cs, htext, hds⟩ := List.eq_append_cons_of_mem h
  refine ⟨cs, ?_⟩
  rw [fromSeparator, String.toList_ofList, htext, List.dropWhile_append_of_pos]
  · rfl
  · intro c hc
    rw [bne_iff_ne]
    rintro rfl
    exact hds hc

theorem fromSeparator_of_not_mem (h : '_' ∉ text.toList) :
    beforeSeparator text = text ∧ fromSeparator text = "" := by
  have hall : ∀ c ∈ text.toList, (c != '_') = true := by
    intro c hc
    rw [bne_iff_ne]
    rintro rfl
    exact h hc
  constructor
  · rw [beforeSeparator, List.takeWhile_eq_self_iff.mpr hall, String.ofList_toList]
  · rw [fromSeparator, List.dropWhile_eq_nil_iff.mpr hall]

/-- A separator is a byte of its own. -/
theorem bytes_fromSeparator (text : String) :
    bytes (fromSeparator text) = Cut.fromSeparator (bytes text) := by
  have hbefore : '_'.toUInt8 ∉ bytes (beforeSeparator text) := by
    intro hbyte
    have hmem : '_' ∈ (beforeSeparator text).toList := (mem_bytes_iff rfl (by decide)).mp hbyte
    rw [beforeSeparator, String.toList_ofList] at hmem
    cases List.mem_takeWhile_imp hmem
  rw [← bytes_beforeSeparator_append text, Cut.fromSeparator_append hbefore]
  by_cases h : '_' ∈ text.toList
  · obtain ⟨cs, hcs⟩ := fromSeparator_of_mem h
    rw [bytes, hcs]
    rfl
  · rw [(fromSeparator_of_not_mem h).2]
    rfl

end Numeral

/-! ## Tokens of a numeral -/

open Numeral

variable {text : String}

theorem not_isCloserRun_of_isNumeral (h : isNumeral text = true) :
    TypeArguments.isCloserRun text = false := by
  rw [Bool.eq_false_iff]
  intro hrun
  have hbegins := Cut.begins_of_isSome_form h
  rw [eq_replicate_of_isCloserRun hrun, bytes_replicate (b := '>'.toUInt8) rfl] at hbegins
  cases hn : text.toList.length with
  | zero =>
    rw [hn] at hbegins
    cases hbegins
  | succ n =>
    rw [hn] at hbegins
    cases hbegins

theorem dropWord_eq_nil {s : List UInt8} (h : ∀ b ∈ s, isWordPart b = true) : dropWord s = [] := by
  induction s with
  | nil => exact dropWord_of_none wordPart?_nil
  | cons b s ih =>
    rw [List.forall_mem_cons] at h
    rw [dropWord_of_some (wordPart?_of_isWordPart h.1 s), ih h.2]

/-- Before a separator a numeral is put, and is one by the test as well. -/
theorem puts_beforeSeparator (h : Cut.StopsAtSeparator (bytes text)) :
    Puts [beforeSeparator text] (bytes text) (bytes (fromSeparator text)) ∧
      Kind.ofText (beforeSeparator text) = .numeral := by
  obtain ⟨shape, hfirst⟩ := h.first
  rw [← bytes_fromSeparator, ← bytes_beforeSeparator_append text] at hfirst
  have hnumeral : isNumeral (beforeSeparator text) = true :=
    isNumeral_of_first (Cut.local_first.truncate hfirst)
  have hputs := puts_of_first hfirst rfl rfl (not_isCloserRun_of_isNumeral hnumeral)
  rw [bytes_beforeSeparator_append] at hputs
  exact ⟨hputs, Kind.ofText_of_isNumeral hnumeral⟩

/-- From a separator on an identifier is put. -/
theorem puts_fromSeparator (h : Cut.StopsAtSeparator (bytes text)) (hmem : '_' ∈ text.toList) :
    Puts [fromSeparator text] (bytes (fromSeparator text)) [] ∧
      Kind.ofText (fromSeparator text) = .identifier := by
  obtain ⟨cs, hcs⟩ := fromSeparator_of_mem hmem
  have hbytes : bytes (fromSeparator text) = '_'.toUInt8 :: cs.flatMap String.utf8EncodeChar := by
    rw [bytes, hcs]
    rfl
  have hword : Cut.first (bytes (fromSeparator text)) = ⟨.word, []⟩ := by
    have hparts := h.isWordPart
    rw [← bytes_fromSeparator, hbytes, List.forall_mem_cons] at hparts
    rw [hbytes]
    exact congrArg (Cut.mk .word) (dropWord_eq_nil hparts.2)
  have hreserved : fromSeparator text ∉ Word.reserved := by
    have hall : ∀ w ∈ Word.reserved, w.toList.head? ≠ some '_' := by decide
    intro hmem
    exact hall _ hmem (by rw [hcs]; rfl)
  have hrun : TypeArguments.isCloserRun (fromSeparator text) = false := by
    rw [TypeArguments.isCloserRun, hcs]
    exact Bool.and_false _
  constructor
  · rw [← List.append_nil (bytes (fromSeparator text))] at hword ⊢
    exact puts_of_first hword rfl rfl hrun
  · rw [ofText_of_first hword rfl]
    exact if_neg hreserved

/-- A numeral is one token with its plain text if no separator is left in that, and otherwise a
numeral up to the first separator and an identifier from there on.  Nothing is left out. -/
theorem lex_numeral (h : (form? text).isSome = true) (hsize : text.utf8ByteSize ≤ maxOffset) :
    ∃ listing : Listing, lex {} text = .ok listing ∧ listing.diagnostics = [] ∧
      listing.tokens.toList.map (fun t => (t.text, t.kind)) =
        if '_' ∈ (plain text).toList then
          [(beforeSeparator (plain text), .numeral), (fromSeparator (plain text), .identifier)]
        else [(plain text, .numeral)] := by
  have hsource : bytes (Settings.source {} text) = bytes (plain text) := rfl
  have hstop : Cut.StopsAtSeparator (bytes (plain text)) := by
    rw [bytes_plain]
    exact Cut.stopsAtSeparator_of_form h
  have hkinds (tokens : List Token) : tokens.map (fun t => (t.text, t.kind)) =
      (tokens.map Token.text).map fun t => (t, Kind.ofText t) := by
    rw [List.map_map]
    rfl
  obtain ⟨hbefore, hnumeral⟩ := puts_beforeSeparator hstop
  split
  · next hmem =>
    obtain ⟨hfrom, hidentifier⟩ := puts_fromSeparator hstop hmem
    obtain ⟨listing, hlex, hnone, htexts⟩ := (hbefore.trans hfrom).exists_listing hsource hsize
    refine ⟨listing, hlex, hnone, ?_⟩
    rw [hkinds, htexts, List.singleton_append, List.map_cons, List.map_singleton, hnumeral,
      hidentifier]
  · next hmem =>
    obtain ⟨hall, hnothing⟩ := fromSeparator_of_not_mem hmem
    rw [hall, hnothing] at hbefore
    rw [hall] at hnumeral
    obtain ⟨listing, hlex, hnone, htexts⟩ := hbefore.exists_listing hsource hsize
    refine ⟨listing, hlex, hnone, ?_⟩
    rw [hkinds, htexts, List.map_singleton, hnumeral]

/-- In a binary numeral whose mark stays, two separators with two digits between them are both left
out. -/
theorem lex_numeral_binary : form? "0B1_00_1L" = some .binary ∧
    ∃ listing : Listing, lex {} "0B1_00_1L" = .ok listing ∧ listing.diagnostics = [] ∧
      listing.tokens.toList.map (fun t => (t.text, t.kind)) = [("0B1001L", .numeral)] := by
  have hform : form? "0B1_00_1L" = some .binary := rfl
  have hplain : plain "0B1_00_1L" = "0B1001L" := by decide
  have hlex := lex_numeral (Option.isSome_of_eq_some hform) (by decide)
  rw [hplain] at hlex
  exact ⟨hform, hlex⟩

/-- The second one of two separators with one digit between them is left, and ends the token. -/
theorem lex_numeral_kept : form? "1_0_0" = some .integer ∧
    ∃ listing : Listing, lex {} "1_0_0" = .ok listing ∧
      listing.tokens.toList.map Token.text = ["10", "_0"] ∧ listing.tokens.size ≠ 1 := by
  have htexts : (lex {} "1_0_0").toOption.map (fun l => l.tokens.toList.map Token.text) =
      some ["10", "_0"] := by
    decide +kernel
  cases hlex : lex {} "1_0_0" with
  | error fault =>
    rw [hlex] at htexts
    cases htexts
  | ok listing =>
    rw [hlex] at htexts
    have hlisting : listing.tokens.toList.map Token.text = _ := Option.some.inj htexts
    refine ⟨rfl, listing, rfl, hlisting, ?_⟩
    intro hsize
    have hlength := congrArg List.length hlisting
    rw [List.length_map, Array.length_toList, hsize] at hlength
    cases hlength

end JavaTokens
