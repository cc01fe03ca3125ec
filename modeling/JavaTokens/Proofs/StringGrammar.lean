import JavaTokens.Proofs.AsciiClasses
import JavaTokens.Proofs.Partition

/-!
# The grammar of string literals

A string literal by its characters: quotes around characters that stand for themselves and escaped
ones, all within a line.  Bytes, the searches for the next byte of interest and the end of the text
make no difference to what is read.

    reading goes over a body, whatever stands behind it               (stringRest_body)
    a text is a body up to its closing quote, or none is closed       (exists_body)
    a text is read as a string if it begins with a literal            (ofText_string)
-/

namespace JavaTokens

open Text Ascii

namespace Literal

/-! ## Literals by their characters -/

def endsLine (c : Char) : Bool := c == '\n' || c == '\r'

theorem asciiClass_endsLine : AsciiClass isLineEnd endsLine :=
  .or (.beq (d := '\n') rfl (by decide)) (.beq (d := '\r') rfl (by decide))

/-- What may stand between the quotes. -/
inductive IsBody : List Char → Prop
  | nil : IsBody []
  | plain {c : Char} {cs : List Char} : c ≠ '"' → c ≠ '\\' → endsLine c = false → IsBody cs →
      IsBody (c :: cs)
  | escaped {c : Char} {cs : List Char} : endsLine c = false → IsBody cs → IsBody ('\\' :: c :: cs)

/-- A body in quotes. -/
def IsStringLiteral (text : String) : Prop :=
  ∃ body, text.toList = '"' :: (body ++ ['"']) ∧ IsBody body

/-- The text before its first line end. -/
def firstLine (text : String) : String := .ofList (text.toList.takeWhile fun c => !endsLine c)

variable {c : Char} {cs body tail : List Char}

/-- Nothing, or a line end in front. -/
def LineEnds (cs : List Char) : Prop := ∀ c ∈ cs.head?, endsLine c = true

theorem lineEnds_cons (hc : endsLine c = true) (cs : List Char) : LineEnds (c :: cs) := by
  intro d hd
  obtain rfl : c = d := by simpa using hd
  exact hc

theorem IsBody.endsLine_eq_false (h : IsBody body) : ∀ c ∈ body, endsLine c = false := by
  induction h with
  | nil => exact nofun
  | plain _ _ hc _ ih =>
    rw [List.forall_mem_cons]
    exact ⟨hc, ih⟩
  | escaped hc _ ih =>
    rw [List.forall_mem_cons, List.forall_mem_cons]
    exact ⟨rfl, hc, ih⟩

/-- A body goes on up to a quote, a line end, or a backslash with no character to escape. -/
theorem exists_body (cs : List Char) : ∃ body tail, cs = body ++ tail ∧ IsBody body ∧
    ((∃ rest, tail = '"' :: rest) ∨ LineEnds tail ∨
      ∃ rest, tail = '\\' :: rest ∧ LineEnds rest) := by
  -- on the length, as an escape takes two characters
  induction hn : cs.length using Nat.strongRecOn generalizing cs with
  | ind n ih =>
    rcases cs with _ | ⟨c, cs⟩
    · exact ⟨[], [], rfl, .nil, .inr (.inl nofun)⟩
    have hlength : cs.length < n := by
      rw [← hn, List.length_cons]
      omega
    by_cases hline : endsLine c = true
    · exact ⟨[], c :: cs, rfl, .nil, .inr (.inl (lineEnds_cons hline cs))⟩
    rw [Bool.not_eq_true] at hline
    by_cases hquote : c = '"'
    · subst hquote
      exact ⟨[], '"' :: cs, rfl, .nil, .inl ⟨cs, rfl⟩⟩
    by_cases hescape : c = '\\'
    · subst hescape
      rcases cs with _ | ⟨d, cs⟩
      · exact ⟨[], ['\\'], rfl, .nil, .inr (.inr ⟨[], rfl, nofun⟩)⟩
      · by_cases hend : endsLine d = true
        · exact ⟨[], '\\' :: d :: cs, rfl, .nil, .inr (.inr ⟨d :: cs, rfl, lineEnds_cons hend cs⟩)⟩
        · rw [Bool.not_eq_true] at hend
          rw [List.length_cons] at hlength
          obtain ⟨body, tail, rfl, hbody, htail⟩ := ih cs.length (by omega) cs rfl
          exact ⟨'\\' :: d :: body, tail, rfl, .escaped hend hbody, htail⟩
    · obtain ⟨body, tail, rfl, hbody, htail⟩ := ih cs.length hlength cs rfl
      exact ⟨c :: body, tail, rfl, .plain hquote hescape hline hbody, htail⟩

end Literal

/-! ## Reading -/

namespace Cut

open Literal

variable {b : UInt8} {u s : List UInt8} {c : Char} {cs body tail : List Char}

theorem isLineEnd_of_mem (hc : endsLine c = false) (h : b ∈ String.utf8EncodeChar c) :
    isLineEnd b = false :=
  asciiClass_endsLine.not_mem_class hc b h

theorem isStringStop_of_mem (hquote : c ≠ '"') (hescape : c ≠ '\\') (hc : endsLine c = false)
    (h : b ∈ String.utf8EncodeChar c) : isStringStop b = false := by
  have hmark {d : Char} (hd : AsciiClass (· == d.toUInt8) (· == d)) (hne : c ≠ d) :
      (b == d.toUInt8) = false :=
    hd.not_mem_class (beq_eq_false_iff_ne.mpr hne) b h
  rw [isStringStop, isLineEnd_of_mem hc h, hmark (.beq rfl (by decide)) hquote,
    hmark (.beq rfl (by decide)) hescape]
  rfl

theorem stringRest_append_of_all (hu : ∀ b ∈ u, isStringStop b = false) (s : List UInt8) :
    stringRest (u ++ s) = stringRest s := by
  induction u with
  | nil => rfl
  | cons b u ih =>
    rw [List.forall_mem_cons] at hu
    rw [List.cons_append, stringRest_of_not_isStringStop hu.1, ih hu.2]

theorem dropEscaped_append (hc : endsLine c = false) (s : List UInt8) :
    dropEscaped (String.utf8EncodeChar c ++ s) = s := by
  obtain ⟨b, t, hshape, -⟩ := utf8EncodeChar_shape c
  have hb : isLineEnd b = false := isLineEnd_of_mem hc (by simp [hshape])
  rw [dropEscaped, hshape, List.cons_append, begins_cons, hb, if_neg Bool.false_ne_true,
    ← List.cons_append, ← hshape, dropChar_append]

/-- Reading goes over a body, whatever stands behind it. -/
theorem stringRest_body (hbody : IsBody body) (s : List UInt8) :
    stringRest (body.flatMap String.utf8EncodeChar ++ s) = stringRest s := by
  induction hbody with
  | nil => rfl
  | plain hquote hescape hc _ ih =>
    rw [List.flatMap_cons, List.append_assoc,
      stringRest_append_of_all fun b hb => isStringStop_of_mem hquote hescape hc hb, ih]
  | @escaped c cs hc _ ih =>
    rw [List.flatMap_cons, List.flatMap_cons, List.append_assoc, List.append_assoc]
    show stringRest ('\\'.toUInt8 :: (String.utf8EncodeChar c ++ (_ ++ s))) = _
    rw [stringRest_backslash, dropEscaped_append hc, ih]

theorem stringRest_of_lineEnds (h : LineEnds cs) :
    stringRest (cs.flatMap String.utf8EncodeChar) =
        ⟨.defect .openString, cs.flatMap String.utf8EncodeChar⟩ ∧
      dropEscaped (cs.flatMap String.utf8EncodeChar) = cs.flatMap String.utf8EncodeChar := by
  rcases cs with _ | ⟨c, cs⟩
  · constructor
    · rw [List.flatMap_nil, stringRest]
    · rfl
  · have hc := h c rfl
    rw [endsLine, Bool.or_eq_true, beq_iff_eq, beq_iff_eq] at hc
    have hbegins : begins isLineEnd ((c :: cs).flatMap String.utf8EncodeChar) = true := by
      rcases hc with rfl | rfl
      · rfl
      · rfl
    constructor
    · exact stringRest_of_begins hbegins
    · rw [dropEscaped, if_pos hbegins]

theorem dropWhile_of_lineEnds (h : LineEnds cs) : cs.dropWhile (fun c => !endsLine c) = cs := by
  rcases cs with _ | ⟨c, cs⟩
  · rfl
  · refine List.dropWhile_cons_of_neg ?_
    rw [h c rfl]
    decide

/-- A body is closed by the quote behind it, and otherwise the line is read to its end. -/
theorem stringRest_chars (cs : List Char) :
    (∃ body rest, cs = body ++ '"' :: rest ∧ IsBody body ∧
      stringRest (cs.flatMap String.utf8EncodeChar) =
        ⟨.string, rest.flatMap String.utf8EncodeChar⟩) ∨
      stringRest (cs.flatMap String.utf8EncodeChar) = ⟨.defect .openString,
        (cs.dropWhile fun c => !endsLine c).flatMap String.utf8EncodeChar⟩ := by
  obtain ⟨body, tail, rfl, hbody, htail⟩ := exists_body cs
  have hline : (body ++ tail).dropWhile (fun c => !endsLine c) =
      tail.dropWhile fun c => !endsLine c := by
    refine List.dropWhile_append_of_pos fun c hc => ?_
    rw [hbody.endsLine_eq_false c hc]
    rfl
  rw [hline, List.flatMap_append, stringRest_body hbody]
  rcases htail with ⟨rest, rfl⟩ | hend | ⟨rest, rfl, hend⟩
  · exact .inl ⟨body, rest, rfl, hbody, stringRest_quote _⟩
  · right
    rw [(stringRest_of_lineEnds hend).1, dropWhile_of_lineEnds hend]
  · right
    obtain ⟨hread, hescape⟩ := stringRest_of_lineEnds hend
    have hdrop : ('\\' :: rest).dropWhile (fun c => !endsLine c) = rest := by
      rw [List.dropWhile_cons_of_pos rfl, dropWhile_of_lineEnds hend]
    rw [hdrop]
    show stringRest ('\\'.toUInt8 :: rest.flatMap String.utf8EncodeChar) = _
    rw [stringRest_backslash, hescape, hread]

theorem stringRest_of_isBody (hbody : IsBody body) (rest : List Char) :
    stringRest ((body ++ '"' :: rest).flatMap String.utf8EncodeChar) =
      ⟨.string, rest.flatMap String.utf8EncodeChar⟩ := by
  rw [List.flatMap_append, stringRest_body hbody]
  exact stringRest_quote _

end Cut

/-! ## Texts -/

open Literal

/-- A literal that a text begins with is the first lexeme. -/
theorem first_of_isStringLiteral {w : String} (hw : IsStringLiteral w) (v : String) :
    Cut.first (bytes (w ++ v)) = ⟨.string, bytes v⟩ := by
  obtain ⟨body, htext, hbody⟩ := hw
  have hread : Cut.first (bytes (w ++ v)) =
      Cut.stringRest ((body ++ '"' :: v.toList).flatMap String.utf8EncodeChar) := by
    rw [bytes, String.toList_append, htext, List.cons_append, List.append_assoc]
    rfl
  rw [hread, Cut.stringRest_of_isBody hbody]
  rfl

/-- A text begins with at most one literal. -/
theorem eq_of_isStringLiteral {w v w' v' : String} (hw : IsStringLiteral w)
    (hw' : IsStringLiteral w') (h : w ++ v = w' ++ v') : w = w' :=
  (eq_of_first h (first_of_isStringLiteral hw' v') (first_of_isStringLiteral hw v)).2.symm

/-- The lexeme of a literal has the size of the literal. -/
theorem ofText_of_isStringLiteral {w v : String} (hw : IsStringLiteral w)
    (hsize : (w ++ v).utf8ByteSize ≤ maxOffset) :
    ∃ lexemes, Lexeme.ofText (PaddedText.ofString (w ++ v)) =
      .ok (⟨.string, w.utf8ByteSize⟩ :: lexemes) := by
  have hne : bytes w ≠ [] := by
    obtain ⟨body, htext, -⟩ := hw
    rw [bytes, htext, List.flatMap_cons]
    exact List.append_ne_nil_of_left_ne_nil (utf8EncodeChar_ne_nil _) _
  have hread := exists_ofText_cons hsize hne (bytes_append w v) (first_of_isStringLiteral hw v)
  rwa [length_bytes] at hread

theorem bytes_firstLine_append (text : String) : bytes text = bytes (firstLine text) ++
    (text.toList.dropWhile fun c => !endsLine c).flatMap String.utf8EncodeChar := by
  rw [bytes, bytes, firstLine, String.toList_ofList, ← List.flatMap_append,
    List.takeWhile_append_dropWhile]

/-- A text with a quote in front begins with a literal, or it is read as open to the end of its
first line. -/
theorem ofText_of_quote {text : String} (hsize : text.utf8ByteSize ≤ maxOffset)
    (hquote : text.toList.head? = some '"') :
    (∃ w v : String, text = w ++ v ∧ IsStringLiteral w) ∨
      ∃ lexemes, Lexeme.ofText (PaddedText.ofString text) =
        .ok (⟨.defect .openString, (firstLine text).utf8ByteSize⟩ :: lexemes) := by
  obtain ⟨cs, htext⟩ : ∃ cs, text.toList = '"' :: cs := List.head?_eq_some_iff.mp hquote
  have hfirst : Cut.first (bytes text) = Cut.stringRest (cs.flatMap String.utf8EncodeChar) := by
    rw [bytes, htext]
    rfl
  rcases Cut.stringRest_chars cs with ⟨body, rest, hcs, hbody, -⟩ | hopen
  · refine .inl ⟨.ofList ('"' :: (body ++ ['"'])), .ofList rest, ?_, body, ?_, hbody⟩
    · rw [← String.ofList_append, ← String.ofList_toList (s := text), htext, hcs]
      simp
    · rw [String.toList_ofList]
  · right
    have hne : bytes (firstLine text) ≠ [] := by
      rw [bytes, firstLine, String.toList_ofList, htext, List.takeWhile_cons_of_pos rfl,
        List.flatMap_cons]
      exact List.append_ne_nil_of_left_ne_nil (utf8EncodeChar_ne_nil _) _
    have hsplit := bytes_firstLine_append text
    rw [htext, List.dropWhile_cons_of_pos rfl] at hsplit
    have hread := exists_ofText_cons hsize hne hsplit (hfirst.trans hopen)
    rwa [length_bytes] at hread

/-- The first lexeme of a text that begins with a quote is a string of as many bytes as the literal
takes with which the text begins; there is at most one.  If there is none, that lexeme is an open
string, which ends before the first line end, or with the text. -/
theorem ofText_string (text : String) (hsize : text.utf8ByteSize ≤ maxOffset)
    (hquote : text.toList.head? = some '"') :
    ∃ (l : Lexeme) (lexemes : List Lexeme),
      Lexeme.ofText (PaddedText.ofString text) = .ok (l :: lexemes) ∧
      (∀ n, l = ⟨.string, n⟩ ↔
        ∃ w v : String, text = w ++ v ∧ IsStringLiteral w ∧ w.utf8ByteSize = n) ∧
      (∀ w v w' v' : String, text = w ++ v → IsStringLiteral w → text = w' ++ v' →
        IsStringLiteral w' → w = w') ∧
      ((¬ ∃ w v : String, text = w ++ v ∧ IsStringLiteral w) →
        l = ⟨.defect .openString, (firstLine text).utf8ByteSize⟩) := by
  have hunique (w v w' v' : String) (h : text = w ++ v) (hw : IsStringLiteral w)
      (h' : text = w' ++ v') (hw' : IsStringLiteral w') : w = w' :=
    eq_of_isStringLiteral hw hw' (h.symm.trans h')
  by_cases hclosed : ∃ w v : String, text = w ++ v ∧ IsStringLiteral w
  · obtain ⟨w, v, rfl, hw⟩ := hclosed
    obtain ⟨lexemes, hread⟩ := ofText_of_isStringLiteral hw hsize
    refine ⟨_, lexemes, hread, ?_, hunique, fun hnone => absurd ⟨w, v, rfl, hw⟩ hnone⟩
    intro n
    rw [Lexeme.mk.injEq]
    constructor
    · rintro ⟨-, hn⟩
      exact ⟨w, v, rfl, hw, hn⟩
    · rintro ⟨w', v', htext, hw', hn⟩
      rw [hunique w v w' v' rfl hw htext hw']
      exact ⟨rfl, hn⟩
  · obtain ⟨lexemes, hread⟩ := (ofText_of_quote hsize hquote).resolve_left hclosed
    refine ⟨_, lexemes, hread, ?_, hunique, fun _ => rfl⟩
    intro n
    constructor
    · intro h
      cases (Lexeme.mk.inj h).1
    · rintro ⟨w, v, htext, hw, -⟩
      exact absurd ⟨w, v, htext, hw⟩ hclosed

/-- A quote that is escaped, a character of two bytes and a zero byte are all in the literal; a
backslash before a line end escapes nothing, and the literal is open. -/
theorem ofText_string_escapes :
    (∃ w v : String, "\"\\\"é\x00\"b" = w ++ v ∧ IsStringLiteral w ∧ w.utf8ByteSize = 7) ∧
      (¬ ∃ w v : String, "\"a\\\r\"" = w ++ v ∧ IsStringLiteral w) ∧
      ∃ lexemes, Lexeme.ofText (PaddedText.ofString "\"a\\\r\"") =
        .ok (⟨.defect .openString, (firstLine "\"a\\\r\"").utf8ByteSize⟩ :: lexemes) := by
  constructor
  · obtain ⟨l, lexemes, hread, hclosed, -⟩ := ofText_string "\"\\\"é\x00\"b" (by decide) (by decide)
    have hlexemes : (Lexeme.ofText (PaddedText.ofString "\"\\\"é\x00\"b")).toOption =
        some [⟨.string, 7⟩, ⟨.word, 1⟩] := by
      decide +kernel
    rw [hread] at hlexemes
    obtain rfl : l = ⟨.string, 7⟩ := (List.cons.inj (Option.some.inj hlexemes)).1
    exact (hclosed 7).mp rfl
  · obtain ⟨l, lexemes, hread, hclosed, -, hopen⟩ :=
      ofText_string "\"a\\\r\"" (by decide) (by decide)
    have hlexemes : (Lexeme.ofText (PaddedText.ofString "\"a\\\r\"")).toOption =
        some [⟨.defect .openString, 3⟩, ⟨.trivia .lineEnd, 1⟩, ⟨.defect .openString, 1⟩] := by
      decide +kernel
    rw [hread] at hlexemes
    have hl : l = ⟨.defect .openString, 3⟩ := (List.cons.inj (Option.some.inj hlexemes)).1
    have hnone : ¬ ∃ w v : String, "\"a\\\r\"" = w ++ v ∧ IsStringLiteral w := by
      rintro ⟨w, v, htext, hw⟩
      have hstring := (hclosed w.utf8ByteSize).mpr ⟨w, v, htext, hw, rfl⟩
      rw [hl] at hstring
      cases (Lexeme.mk.inj hstring).1
    refine ⟨hnone, lexemes, ?_⟩
    rw [hread, hopen hnone]

end JavaTokens
