import JavaTokens.Proofs.AsciiClasses
import JavaTokens.Proofs.StringGrammar
import JavaTokens.Proofs.Context

/-!
# The grammar of character literals

A character literal by its characters: quotes around one character that stands for itself, or around
one escape.  An escape is given by its marks and digits, of which reading takes as many as there may
be, so that what is left open is as long as the grammar lets it be.

    reading goes over a body, whatever stands behind it               (characterBody_append)
    a text that is one lexeme is a literal, or the beginning of one   (cases_of_first_quote)
    a text is read as a character if it begins with a literal         (ofText_character)
-/

namespace JavaTokens

open Text

namespace Literal

/-! ## Literals by their characters -/

def isOctal (c : Char) : Bool := '0' ≤ c && c ≤ '7'

def isHex (c : Char) : Bool := c.isDigit || ('a' ≤ c && c ≤ 'f') || ('A' ≤ c && c ≤ 'F')

/-- What may stand between the quotes of a character literal. -/
inductive IsCharacterBody : List Char → Prop
  | plain {c : Char} : c ≠ '\'' → c ≠ '\\' → endsLine c = false → IsCharacterBody [c]
  | unicode {marks digits : List Char} : marks ≠ [] → (∀ c ∈ marks, (c == 'u') = true) →
      digits.length ≤ 4 → (∀ c ∈ digits, isHex c = true) →
      IsCharacterBody ('\\' :: (marks ++ digits))
  | octal {digits : List Char} : digits ≠ [] → digits.length ≤ 3 →
      (∀ c ∈ digits, isOctal c = true) → IsCharacterBody ('\\' :: digits)
  | escaped {c : Char} : c ≠ 'u' → isOctal c = false → endsLine c = false →
      IsCharacterBody ['\\', c]

/-- A body in quotes. -/
def IsCharacterLiteral (text : String) : Prop :=
  ∃ body, text.toList = '\'' :: (body ++ ['\'']) ∧ IsCharacterBody body

/-- A quote and what some body begins with. -/
def IsOpening (text : String) : Prop :=
  ∃ p body, text.toList = '\'' :: p ∧ p <+: body ∧ IsCharacterBody body

variable {c : Char} {cs body p : List Char}

theorem asciiClass_isOctal : AsciiClass Ascii.isOctalDigit isOctal :=
  .between (by decide) (by decide)

theorem asciiClass_isHex : AsciiClass Ascii.isHexDigit isHex :=
  (asciiClass_isDigit.or (.between (by decide) (by decide))).or (.between (by decide) (by decide))

theorem asciiClass_mark : AsciiClass (· == 'u'.toUInt8) (· == 'u') := .beq rfl (by decide)

theorem asciiClass_quote : AsciiClass (· == '\''.toUInt8) (· == '\'') := .beq rfl (by decide)

theorem asciiClass_backslash : AsciiClass (· == '\\'.toUInt8) (· == '\\') := .beq rfl (by decide)

theorem isHex_of_isOctal (h : isOctal c = true) : isHex c = true := by
  rw [isOctal, Bool.and_eq_true, decide_eq_true_eq, decide_eq_true_eq] at h
  have hdigit : c.isDigit = true := by
    rw [Char.isDigit, Bool.and_eq_true, decide_eq_true_eq, decide_eq_true_eq]
    exact ⟨h.1, Char.le_trans h.2 (by decide)⟩
  rw [isHex, hdigit, Bool.true_or, Bool.true_or]

theorem endsLine_eq_false_of_isHex (h : isHex c = true) : endsLine c = false := by
  rw [Bool.eq_false_iff, Ne, endsLine, Bool.or_eq_true, beq_iff_eq, beq_iff_eq]
  rintro (rfl | rfl)
  · cases h
  · cases h

theorem IsCharacterBody.endsLine_eq_false (h : IsCharacterBody body) :
    ∀ c ∈ body, endsLine c = false := by
  cases h with
  | plain _ _ hc => exact List.forall_mem_singleton.mpr hc
  | unicode _ hmarks _ hdigits =>
    rw [List.forall_mem_cons, List.forall_mem_append]
    refine ⟨rfl, ?_, fun c hc => endsLine_eq_false_of_isHex (hdigits c hc)⟩
    intro c hc
    rw [eq_of_beq (hmarks c hc)]
    rfl
  | octal _ _ hdigits =>
    rw [List.forall_mem_cons]
    exact ⟨rfl, fun c hc => endsLine_eq_false_of_isHex (isHex_of_isOctal (hdigits c hc))⟩
  | escaped _ _ hc =>
    rw [List.forall_mem_cons]
    exact ⟨rfl, List.forall_mem_singleton.mpr hc⟩

/-- A body does not begin with the quote that closes it. -/
theorem IsCharacterBody.exists_cons (h : IsCharacterBody body) :
    ∃ c cs, body = c :: cs ∧ (c == '\'') = false := by
  cases h with
  | plain hquote => exact ⟨_, _, rfl, beq_eq_false_iff_ne.mpr hquote⟩
  | _ => exact ⟨_, _, rfl, rfl⟩

/-- What a body begins with is nothing, a backslash alone, or a body again. -/
theorem IsCharacterBody.prefix_cases (h : IsCharacterBody body) (hp : p <+: body) :
    p = [] ∨ p = ['\\'] ∨ IsCharacterBody p := by
  rcases p with _ | ⟨c, p⟩
  · exact .inl rfl
  right
  cases h with
  | plain hquote hescape hc =>
    obtain ⟨rfl, hrest⟩ := List.cons_prefix_cons.mp hp
    obtain rfl := List.prefix_nil.mp hrest
    exact .inr (.plain hquote hescape hc)
  | @unicode marks digits hne hmarks hlength hdigits =>
    obtain ⟨rfl, hrest⟩ := List.cons_prefix_cons.mp hp
    rcases Nat.eq_zero_or_pos p.length with hzero | hpos
    · rw [List.eq_nil_of_length_eq_zero hzero]
      exact .inl rfl
    · right
      rw [List.prefix_iff_eq_take.mp hrest, List.take_append]
      refine .unicode ?_ (fun c hc => hmarks c (List.mem_of_mem_take hc)) ?_
        fun c hc => hdigits c (List.mem_of_mem_take hc)
      · rw [Ne, List.take_eq_nil_iff, not_or]
        exact ⟨by omega, hne⟩
      · exact Nat.le_trans (List.length_take_le' _ _) hlength
  | octal hne hlength hdigits =>
    obtain ⟨rfl, hrest⟩ := List.cons_prefix_cons.mp hp
    by_cases hnil : p = []
    · rw [hnil]
      exact .inl rfl
    · exact .inr (.octal hnil (Nat.le_trans hrest.length_le hlength)
        fun c hc => hdigits c (hrest.subset hc))
  | escaped hmark hoctal hc =>
    obtain ⟨rfl, hrest⟩ := List.cons_prefix_cons.mp hp
    rcases p with _ | ⟨d, p⟩
    · exact .inl rfl
    · obtain ⟨rfl, hnil⟩ := List.cons_prefix_cons.mp hrest
      obtain rfl := List.prefix_nil.mp hnil
      exact .inr (.escaped hmark hoctal hc)

end Literal

/-! ## Reading -/

/-- Up to as many bytes of a class as there are before one that is in none. -/
theorem dropUpTo_append_of_all {q : UInt8 → Bool} {n : Nat} {u s : List UInt8}
    (hu : ∀ b ∈ u, q b = true) (hlength : u.length ≤ n) (hs : begins q s = false) :
    dropUpTo q n (u ++ s) = s := by
  induction u generalizing n with
  | nil =>
    cases n with
    | zero => rfl
    | succ n => rw [List.nil_append, dropUpTo, hs, if_neg Bool.false_ne_true]
  | cons b u ih =>
    rw [List.forall_mem_cons] at hu
    cases n with
    | zero => exact absurd hlength (by simp)
    | succ n =>
      rw [List.cons_append, dropUpTo, begins_cons, if_pos hu.1]
      exact ih hu.2 (Nat.le_of_succ_le_succ hlength)

namespace Cut

open Literal

variable {s : List UInt8} {c : Char} {cs body : List Char}

/-- The bytes with which the marks or the digits of an escape go on. -/
def goesOn (b : UInt8) : Bool := b == 'u'.toUInt8 || Ascii.isHexDigit b

theorem not_begins_of_goesOn (hs : begins goesOn s = false) :
    begins (· == 'u'.toUInt8) s = false ∧ begins Ascii.isHexDigit s = false ∧
      begins Ascii.isOctalDigit s = false := by
  rcases s with _ | ⟨b, s⟩
  · exact ⟨rfl, rfl, rfl⟩
  · obtain ⟨hmark, hhex⟩ := Bool.or_eq_false_iff.mp hs
    refine ⟨hmark, hhex, ?_⟩
    rw [begins_cons, Bool.eq_false_iff]
    intro hoctal
    rw [Bool.eq_false_iff, Ne, Ascii.isHexDigit_iff] at hhex
    rw [Ascii.isOctalDigit_iff] at hoctal
    omega

/-- A mark is no digit. -/
theorem not_begins_mark {digits : List Char} (hdigits : ∀ c ∈ digits, isHex c = true)
    (hs : begins (· == 'u'.toUInt8) s = false) :
    begins (· == 'u'.toUInt8) (digits.flatMap String.utf8EncodeChar ++ s) = false := by
  rcases digits with _ | ⟨c, digits⟩
  · exact hs
  · rw [List.flatMap_cons, List.append_assoc, asciiClass_mark.begins_append, beq_eq_false_iff_ne]
    rintro rfl
    cases hdigits 'u' List.mem_cons_self

theorem characterEscape_mark (hs : begins (· == 'u'.toUInt8) s = true) :
    characterEscape s = dropUpTo Ascii.isHexDigit 4 (s.dropWhile (· == 'u'.toUInt8)) := by
  rw [characterEscape, if_pos hs, ← dropWhile_of_begins hs]

theorem characterEscape_octal (hmark : begins (· == 'u'.toUInt8) s = false)
    (hs : begins Ascii.isOctalDigit s = true) :
    characterEscape s = dropUpTo Ascii.isOctalDigit 3 s := by
  have hfirst : dropUpTo Ascii.isOctalDigit 3 s = dropUpTo Ascii.isOctalDigit 2 (s.drop 1) :=
    if_pos hs
  rw [characterEscape, hmark, if_neg Bool.false_ne_true, if_pos hs, hfirst]

theorem characterEscape_escaped (hmark : begins (· == 'u'.toUInt8) s = false)
    (hs : begins Ascii.isOctalDigit s = false) : characterEscape s = dropEscaped s := by
  rw [characterEscape, hmark, hs, if_neg Bool.false_ne_true, if_neg Bool.false_ne_true]

/-- Reading goes over a body before anything with which it does not go on. -/
theorem characterBody_append (hbody : IsCharacterBody body) (hs : begins goesOn s = false) :
    characterBody (body.flatMap String.utf8EncodeChar ++ s) = s := by
  obtain ⟨hmark, hhex, hoctal⟩ := not_begins_of_goesOn hs
  have hescape (cs : List Char) :
      characterBody (('\\' :: cs).flatMap String.utf8EncodeChar ++ s) =
        characterEscape (cs.flatMap String.utf8EncodeChar ++ s) := rfl
  cases hbody with
  | @plain c hquote hescape hc =>
    have hplain : begins (· == '\\'.toUInt8) (String.utf8EncodeChar c ++ s) = false := by
      rw [asciiClass_backslash.begins_append]
      exact beq_eq_false_iff_ne.mpr hescape
    rw [List.flatMap_singleton, characterBody, hplain, if_neg Bool.false_ne_true,
      dropEscaped_append hc]
  | @unicode marks digits hne hmarks hlength hdigits =>
    have hmarks' := (asciiClass_mark.flatMap_of_all hmarks).1
    obtain ⟨hdigits', hlength'⟩ := asciiClass_isHex.flatMap_of_all hdigits
    have hstart : begins (· == 'u'.toUInt8) (marks.flatMap String.utf8EncodeChar) = true := by
      obtain ⟨c, marks, rfl⟩ := List.exists_cons_of_ne_nil hne
      rw [asciiClass_mark.begins_flatMap]
      exact hmarks c List.mem_cons_self
    rw [hescape, List.flatMap_append, List.append_assoc,
      characterEscape_mark (begins_append hstart _),
      dropWhile_append_of_all hmarks' (not_begins_mark hdigits hmark)]
    exact dropUpTo_append_of_all hdigits' (by omega) hhex
  | @octal digits hne hlength hdigits =>
    obtain ⟨hdigits', hlength'⟩ := asciiClass_isOctal.flatMap_of_all hdigits
    have hstart : begins Ascii.isOctalDigit (digits.flatMap String.utf8EncodeChar) = true := by
      obtain ⟨c, digits, rfl⟩ := List.exists_cons_of_ne_nil hne
      rw [asciiClass_isOctal.begins_flatMap]
      exact hdigits c List.mem_cons_self
    have hnone := not_begins_mark (fun c hc => isHex_of_isOctal (hdigits c hc)) hmark
    rw [hescape, characterEscape_octal hnone (begins_append hstart s)]
    exact dropUpTo_append_of_all hdigits' (by omega) hoctal
  | @escaped c hu hdigit hc =>
    have hnone : begins (· == 'u'.toUInt8) (String.utf8EncodeChar c ++ s) = false := by
      rw [asciiClass_mark.begins_append]
      exact beq_eq_false_iff_ne.mpr hu
    rw [hescape, List.flatMap_singleton, characterEscape_escaped hnone, dropEscaped_append hc]
    rw [asciiClass_isOctal.begins_append, hdigit]

theorem dropEscaped_of_lineEnds (h : LineEnds cs) :
    dropEscaped (cs.flatMap String.utf8EncodeChar) = cs.flatMap String.utf8EncodeChar :=
  (stringRest_of_lineEnds h).2

/-- What is taken behind a backslash is the rest of a body, or nothing where the line ends. -/
theorem exists_characterEscape (cs : List Char) : ∃ u t, cs = u ++ t ∧
    characterEscape (cs.flatMap String.utf8EncodeChar) = t.flatMap String.utf8EncodeChar ∧
    (IsCharacterBody ('\\' :: u) ∨ u = [] ∧ LineEnds t) := by
  have hmark := asciiClass_mark.begins_flatMap cs
  have hoctal := asciiClass_isOctal.begins_flatMap cs
  rcases cs with _ | ⟨c, cs⟩
  · exact ⟨[], [], rfl, rfl, .inr ⟨rfl, nofun⟩⟩
  rw [List.head?_cons, Option.any_some] at hmark hoctal
  -- the cases in the order in which reading asks for them: marks, octal digits, one character
  by_cases hu : (c == 'u') = true
  · obtain ⟨digits, t, htail, hlength, hdigits, hdrop⟩ :=
      asciiClass_isHex.exists_dropUpTo 4 ((c :: cs).dropWhile (· == 'u'))
    refine ⟨(c :: cs).takeWhile (· == 'u') ++ digits, t, ?_, ?_,
      .inl (.unicode ?_ ?_ hlength hdigits)⟩
    · rw [List.append_assoc, ← htail, List.takeWhile_append_dropWhile]
    · rw [characterEscape_mark (hmark.trans hu), asciiClass_mark.dropWhile_flatMap, hdrop]
    · have hmarks : (c :: cs).takeWhile (· == 'u') = c :: cs.takeWhile (· == 'u') :=
        List.takeWhile_cons_of_pos hu
      rw [hmarks]
      exact List.cons_ne_nil _ _
    · intro d hd
      exact List.mem_takeWhile_imp (p := (· == 'u')) hd
  rw [Bool.not_eq_true] at hu
  by_cases hdigit : isOctal c = true
  · obtain ⟨b, hb, hp⟩ := asciiClass_isOctal.exists_byte hdigit
    obtain ⟨digits, t, rfl, hlength, hdigits, hdrop⟩ := asciiClass_isOctal.exists_dropUpTo 2 cs
    refine ⟨c :: digits, t, rfl, ?_, .inl (.octal (List.cons_ne_nil _ _) (Nat.succ_le_succ hlength)
      (List.forall_mem_cons.mpr ⟨hdigit, hdigits⟩))⟩
    rw [characterEscape_octal (hmark.trans hu) (hoctal.trans hdigit), List.flatMap_cons, hb,
      List.singleton_append, dropUpTo, begins_cons, if_pos hp]
    exact hdrop
  rw [Bool.not_eq_true] at hdigit
  rw [characterEscape_escaped (hmark.trans hu) (hoctal.trans hdigit)]
  by_cases hline : endsLine c = true
  · have hend := lineEnds_cons hline cs
    exact ⟨[], c :: cs, rfl, dropEscaped_of_lineEnds hend, .inr ⟨rfl, hend⟩⟩
  · rw [Bool.not_eq_true] at hline
    refine ⟨[c], cs, rfl, ?_, .inl (.escaped (beq_eq_false_iff_ne.mp hu) hdigit hline)⟩
    rw [List.flatMap_cons, dropEscaped_append hline]

/-- What is taken behind the opening quote is a body, or no more than a backslash where the line
ends. -/
theorem exists_characterBody (hquote : cs.head?.any (· == '\'') = false) : ∃ u t, cs = u ++ t ∧
    characterBody (cs.flatMap String.utf8EncodeChar) = t.flatMap String.utf8EncodeChar ∧
    (IsCharacterBody u ∨ (u = [] ∨ u = ['\\']) ∧ LineEnds t) := by
  have hbackslash := asciiClass_backslash.begins_flatMap cs
  rcases cs with _ | ⟨c, cs⟩
  · exact ⟨[], [], rfl, rfl, .inr ⟨.inl rfl, nofun⟩⟩
  rw [List.head?_cons, Option.any_some] at hquote hbackslash
  by_cases hescape : (c == '\\') = true
  · obtain rfl := eq_of_beq hescape
    obtain ⟨u, t, rfl, htaken, hbody⟩ := exists_characterEscape cs
    refine ⟨'\\' :: u, t, rfl, htaken, hbody.imp_right ?_⟩
    rintro ⟨rfl, hend⟩
    exact ⟨.inr rfl, hend⟩
  rw [Bool.not_eq_true] at hescape
  rw [characterBody, hbackslash, hescape, if_neg Bool.false_ne_true]
  by_cases hline : endsLine c = true
  · have hend := lineEnds_cons hline cs
    exact ⟨[], c :: cs, rfl, dropEscaped_of_lineEnds hend, .inr ⟨.inl rfl, hend⟩⟩
  · rw [Bool.not_eq_true] at hline
    refine ⟨[c], cs, rfl, ?_, .inl (.plain (beq_eq_false_iff_ne.mp hquote)
      (beq_eq_false_iff_ne.mp hescape) hline)⟩
    rw [List.flatMap_cons, dropEscaped_append hline]

/-- A body does not begin with a quote, so the literal is not taken for the empty one. -/
theorem character_append (hbody : IsCharacterBody body) (s : List UInt8) :
    character (body.flatMap String.utf8EncodeChar ++ s) =
      closeCharacter (characterBody (body.flatMap String.utf8EncodeChar ++ s)) := by
  obtain ⟨c, cs, rfl, hc⟩ := hbody.exists_cons
  rw [character, List.flatMap_cons, List.append_assoc, asciiClass_quote.begins_append, hc,
    if_neg Bool.false_ne_true]

/-- The quote behind a body closes the literal. -/
theorem character_of_isCharacterBody (hbody : IsCharacterBody body) (s : List UInt8) :
    character (body.flatMap String.utf8EncodeChar ++ '\''.toUInt8 :: s) = ⟨.character, s⟩ := by
  rw [character_append hbody, characterBody_append hbody rfl]
  rfl

/-- What a body begins with is read to its end, and left open. -/
theorem character_of_prefix {p : List Char} (hp : p <+: body) (hbody : IsCharacterBody body) :
    character (p.flatMap String.utf8EncodeChar) = ⟨.defect .openCharacter, []⟩ := by
  rcases hbody.prefix_cases hp with rfl | rfl | hp
  · rfl
  · rfl
  · have hread := character_append hp []
    rw [characterBody_append hp rfl, List.append_nil] at hread
    exact hread

end Cut

/-! ## Texts -/

open Literal

variable {w v : String} {k : Terminal} {cs : List Char}

theorem eq_nil_of_flatMap (h : cs.flatMap String.utf8EncodeChar = []) : cs = [] := by
  rw [List.flatMap_eq_nil_iff] at h
  refine List.eq_nil_iff_forall_not_mem.mpr ?_
  intro c hc
  exact utf8EncodeChar_ne_nil c (h c hc)

theorem first_of_quote (hw : w.toList = '\'' :: cs) :
    Cut.first (bytes w) = Cut.character (cs.flatMap String.utf8EncodeChar) := by
  rw [bytes, hw]
  rfl

/-- A literal that a text begins with is the first lexeme. -/
theorem first_of_isCharacterLiteral (hw : IsCharacterLiteral w) (v : String) :
    Cut.first (bytes (w ++ v)) = ⟨.character, bytes v⟩ := by
  obtain ⟨body, htext, hbody⟩ := hw
  have hread : (w ++ v).toList = '\'' :: (body ++ '\'' :: v.toList) := by
    rw [String.toList_append, htext, List.cons_append, List.append_assoc]
    rfl
  rw [first_of_quote hread, List.flatMap_append]
  exact Cut.character_of_isCharacterBody hbody (bytes v)

/-- Of the empty literal both quotes are taken. -/
theorem first_of_empty (x : String) :
    Cut.first (bytes ("''" ++ x)) = ⟨.defect .openCharacter, bytes x⟩ := by
  rw [bytes_append]
  rfl

theorem first_of_isOpening (hw : IsOpening w) :
    Cut.first (bytes w) = ⟨.defect .openCharacter, []⟩ := by
  obtain ⟨p, body, htext, hp, hbody⟩ := hw
  rw [first_of_quote htext, Cut.character_of_prefix hp hbody]

/-- A text with a quote in front that is one lexeme is a literal, or it is the empty one or the
beginning of one, and open. -/
theorem cases_of_first_quote (hw : w.toList = '\'' :: cs) (h : Cut.first (bytes w) = ⟨k, []⟩) :
    k = .character ∧ IsCharacterLiteral w ∨
      k = .defect .openCharacter ∧ (w = "''" ∨ IsOpening w) := by
  rw [first_of_quote hw, Cut.character, asciiClass_quote.begins_flatMap] at h
  have hquote {ds : List Char} (hds : ds.head?.any (· == '\'') = true) : ∃ es, ds = '\'' :: es := by
    obtain ⟨c, hhead, hc⟩ := (Option.any_eq_true _ _).mp hds
    obtain rfl := eq_of_beq hc
    exact List.head?_eq_some_iff.mp hhead
  split at h
  · next hempty =>
    obtain ⟨ds, rfl⟩ := hquote hempty
    obtain ⟨rfl, hrest⟩ := Cut.mk.inj h
    obtain rfl : ds = [] := eq_nil_of_flatMap hrest
    exact .inr ⟨rfl, .inl (String.toList_inj.mp hw)⟩
  · next hempty =>
    rw [Bool.not_eq_true] at hempty
    obtain ⟨u, t, rfl, htaken, hbody⟩ := Cut.exists_characterBody hempty
    rw [htaken, Cut.closeCharacter, asciiClass_quote.begins_flatMap] at h
    split at h
    · next hclose =>
      obtain ⟨es, rfl⟩ := hquote hclose
      obtain ⟨rfl, hrest⟩ := Cut.mk.inj h
      obtain rfl : es = [] := eq_nil_of_flatMap hrest
      refine .inl ⟨rfl, u, hw, hbody.resolve_right ?_⟩
      -- a body that stops short does so at the end of the line, and not before a quote
      rintro ⟨-, hend⟩
      cases hend '\'' rfl
    · obtain ⟨rfl, hrest⟩ := Cut.mk.inj h
      obtain rfl := eq_nil_of_flatMap hrest
      rw [List.append_nil] at hw
      refine .inr ⟨rfl, .inr ?_⟩
      -- a quote and a backslash by themselves are the beginning of any literal with an escape
      have hescaped : IsCharacterBody ['\\', 'n'] := .escaped (by decide) rfl rfl
      rcases hbody with hbody | ⟨rfl | rfl, -⟩
      · exact ⟨u, u, hw, List.prefix_refl u, hbody⟩
      · exact ⟨_, _, hw, List.nil_prefix, hescaped⟩
      · exact ⟨_, _, hw, ⟨['n'], rfl⟩, hescaped⟩

theorem endsLine_eq_false_of_isOpening (hw : IsOpening w) : ∀ c ∈ w.toList, endsLine c = false := by
  obtain ⟨p, body, htext, hp, hbody⟩ := hw
  rw [htext, List.forall_mem_cons]
  exact ⟨rfl, fun c hc => hbody.endsLine_eq_false c (hp.subset hc)⟩

/-- The first lexeme of a text that begins with a quote is a character of as many bytes as the
literal takes with which the text begins.  If there is none, that lexeme is an open character within
the line, which is the empty literal, or the longest beginning of a literal. -/
theorem ofText_character (text : String) (hsize : text.utf8ByteSize ≤ maxOffset)
    (hquote : text.toList.head? = some '\'') :
    ∃ (l : Lexeme) (lexemes : List Lexeme),
      Lexeme.ofText (PaddedText.ofString text) = .ok (l :: lexemes) ∧
      (∀ n, l = ⟨.character, n⟩ ↔
        ∃ w v : String, text = w ++ v ∧ IsCharacterLiteral w ∧ w.utf8ByteSize = n) ∧
      ((¬ ∃ w v : String, text = w ++ v ∧ IsCharacterLiteral w) →
        ∃ w v : String, text = w ++ v ∧ l = ⟨.defect .openCharacter, w.utf8ByteSize⟩ ∧
          (∀ c ∈ w.toList, endsLine c = false) ∧
          ((∃ x, text = "''" ++ x) → w = "''") ∧
          ((¬ ∃ x, text = "''" ++ x) → IsLongestPrefix IsOpening w text)) := by
  have hne : text.toList ≠ [] := by
    intro hnil
    rw [hnil] at hquote
    cases hquote
  obtain ⟨w, v, k, lexemes, rfl, hw, hfirst, halone, hread⟩ := exists_ofText_first hsize hne
  obtain ⟨cs, hcs⟩ : ∃ cs, w.toList = '\'' :: cs := by
    obtain ⟨c, cs, hcs⟩ := List.exists_cons_of_ne_nil hw
    rw [String.toList_append, hcs, List.cons_append, List.head?_cons, Option.some.injEq] at hquote
    exact ⟨cs, hquote ▸ hcs⟩
  have hcases := cases_of_first_quote hcs halone
  refine ⟨_, lexemes, hread, ?_, ?_⟩
  · intro n
    rw [Lexeme.mk.injEq]
    constructor
    · rintro ⟨rfl, hn⟩
      rcases hcases with ⟨-, hliteral⟩ | ⟨hk, -⟩
      · exact ⟨w, v, rfl, hliteral, hn⟩
      · cases hk
    · rintro ⟨u, x, htext, hu, hn⟩
      obtain ⟨rfl, rfl⟩ := eq_of_first htext (first_of_isCharacterLiteral hu x) hfirst
      exact ⟨rfl, hn⟩
  · intro hnone
    obtain ⟨rfl, hopen⟩ := hcases.resolve_left fun h => hnone ⟨w, v, rfl, h.2⟩
    refine ⟨w, v, rfl, rfl, ?_, ?_, ?_⟩
    · rcases hopen with rfl | hopen
      · show ∀ c ∈ ['\'', '\''], endsLine c = false
        exact List.forall_mem_cons.mpr ⟨rfl, List.forall_mem_singleton.mpr rfl⟩
      · exact endsLine_eq_false_of_isOpening hopen
    · rintro ⟨x, htext⟩
      exact (eq_of_first htext (first_of_empty x) hfirst).2.symm
    · intro hempty
      have hopening : IsOpening w := by
        refine hopen.resolve_left ?_
        rintro rfl
        exact hempty ⟨v, rfl⟩
      refine isLongestPrefix_of_first ?_ hopening hfirst
      intro u hu
      exact ⟨_, first_of_isOpening hu⟩

/-- Any number of marks is in a literal, while a fourth octal digit is in none, and leaves it open
behind the third. -/
theorem ofText_character_escapes :
    (∃ w v : String, "'\\uu00e9'x" = w ++ v ∧ IsCharacterLiteral w ∧ w.utf8ByteSize = 9) ∧
      ∃ w, IsLongestPrefix IsOpening w "'\\1234'" ∧ w.utf8ByteSize = 5 := by
  constructor
  · obtain ⟨l, lexemes, hread, hclosed, -⟩ := ofText_character "'\\uu00e9'x" (by decide) (by decide)
    have hlexemes : (Lexeme.ofText (PaddedText.ofString "'\\uu00e9'x")).toOption =
        some [⟨.character, 9⟩, ⟨.word, 1⟩] := by
      decide +kernel
    rw [hread] at hlexemes
    obtain rfl : l = ⟨.character, 9⟩ := (List.cons.inj (Option.some.inj hlexemes)).1
    exact (hclosed 9).mp rfl
  · obtain ⟨l, lexemes, hread, hclosed, hopen⟩ :=
      ofText_character "'\\1234'" (by decide) (by decide)
    have hlexemes : (Lexeme.ofText (PaddedText.ofString "'\\1234'")).toOption =
        some [⟨.defect .openCharacter, 5⟩, ⟨.numeral .decimal, 1⟩,
          ⟨.defect .openCharacter, 1⟩] := by
      decide +kernel
    rw [hread] at hlexemes
    obtain rfl : l = ⟨.defect .openCharacter, 5⟩ := (List.cons.inj (Option.some.inj hlexemes)).1
    have hnone : ¬ ∃ w v : String, "'\\1234'" = w ++ v ∧ IsCharacterLiteral w := by
      rintro ⟨w, v, htext, hw⟩
      cases (hclosed _).mpr ⟨w, v, htext, hw, rfl⟩
    obtain ⟨w, v, -, hl, -, -, hlongest⟩ := hopen hnone
    refine ⟨w, hlongest ?_, (Lexeme.mk.inj hl).2.symm⟩
    rintro ⟨x, htext⟩
    have hchars := congrArg String.toList htext
    rw [String.toList_append] at hchars
    cases hchars

end JavaTokens
