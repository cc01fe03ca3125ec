import JavaTokens.Proofs.Kind.Literal
import JavaTokens.Proofs.CharacterGrammar

/-!
# Normal texts of literals

What is read of a literal is told by its grammar, and so it is told whether its normal text is a
literal of the same sort.  A tab is spelled as an escape whatever stands before it.  In a string
that is harmless, even behind a backslash; in a character literal the escape of a tab becomes two
characters, of which one is too many.

    a text is one literal if the grammar has it                       (first_string_iff)
    normal texts are literals, but for one character literal          (ofText_normalText)
-/

namespace JavaTokens

open Text

/-! ## Literals by their grammar -/

namespace Literal

variable {w : String} {c : Char} {cs body : List Char} {limit : Nat}

theorem first_string_iff : Cut.first (bytes w) = ⟨.string, []⟩ ↔ IsStringLiteral w := by
  constructor
  · intro h
    obtain ⟨cs, hcs⟩ : ∃ cs, w.toList = '"' :: cs :=
      List.head?_eq_some_iff.mp (isQuoted_iff.mp (isString_of_first h)).2.1
    have hread : Cut.first (bytes w) = Cut.stringRest (cs.flatMap String.utf8EncodeChar) := by
      rw [bytes, hcs]
      rfl
    rw [hread] at h
    rcases Cut.stringRest_chars cs with ⟨body, rest, rfl, hbody, hclosed⟩ | hopen
    · rw [hclosed, Cut.mk.injEq] at h
      obtain rfl := eq_nil_of_flatMap h.2
      exact ⟨body, hcs, hbody⟩
    · rw [hopen] at h
      cases (Cut.mk.inj h).1
  · intro h
    have hfirst := first_of_isStringLiteral h ""
    rwa [String.append_empty] at hfirst

theorem first_character_iff : Cut.first (bytes w) = ⟨.character, []⟩ ↔ IsCharacterLiteral w := by
  constructor
  · intro h
    obtain ⟨cs, hcs⟩ : ∃ cs, w.toList = '\'' :: cs :=
      List.head?_eq_some_iff.mp (isQuoted_iff.mp (isCharacter_of_first h)).2.1
    rcases cases_of_first_quote hcs h with ⟨-, hliteral⟩ | ⟨hk, -⟩
    · exact hliteral
    · cases hk
  · intro h
    have hfirst := first_of_isCharacterLiteral h ""
    rwa [String.append_empty] at hfirst

/-! ## Bodies with their tabs spelled as escapes -/

theorem flatMap_escapeChar (h : ∀ c ∈ cs, isEscaped c = false) : cs.flatMap escapeChar = cs := by
  induction cs with
  | nil => rfl
  | cons c cs ih =>
    rw [List.forall_mem_cons] at h
    rw [List.flatMap_cons, escapeChar_of_not_isEscaped h.1, ih h.2, List.singleton_append]

/-- Within a line, tabs are the only characters to be escaped. -/
theorem escapeChar_cases (hc : endsLine c = false) :
    c = '\t' ∧ escapeChar c = ['\\', 't'] ∨ isEscaped c = false ∧ escapeChar c = [c] := by
  by_cases htab : c = '\t'
  · subst htab
    exact .inl ⟨rfl, rfl⟩
  · have hescaped : isEscaped c = false := by
      show (endsLine c || c == '\t') = false
      rw [hc, Bool.false_or, beq_eq_false_iff_ne]
      exact htab
    exact .inr ⟨hescaped, escapeChar_of_not_isEscaped hescaped⟩

/-- An escaped tab becomes an escaped backslash and a character that stands for itself. -/
theorem IsBody.flatMap_escapeChar (h : IsBody body) : IsBody (body.flatMap escapeChar) := by
  induction h with
  | nil => exact .nil
  | plain hquote hescape hc _ ih =>
    rw [List.flatMap_cons]
    rcases escapeChar_cases hc with ⟨-, hspelled⟩ | ⟨-, hspelled⟩
    · rw [hspelled]
      exact .escaped rfl ih
    · rw [hspelled]
      exact .plain hquote hescape hc ih
  | escaped hc _ ih =>
    have hbackslash : escapeChar '\\' = ['\\'] := rfl
    rw [List.flatMap_cons, List.flatMap_cons, hbackslash]
    -- of a tab behind the backslash, the new backslash is escaped and the letter is left
    rcases escapeChar_cases hc with ⟨-, hspelled⟩ | ⟨-, hspelled⟩
    · rw [hspelled]
      exact .escaped rfl (.plain (by decide) (by decide) rfl ih)
    · rw [hspelled]
      exact .escaped hc ih

theorem isEscaped_eq_false_of_isHex (h : isHex c = true) : isEscaped c = false := by
  rcases escapeChar_cases (endsLine_eq_false_of_isHex h) with ⟨rfl, -⟩ | ⟨hescaped, -⟩
  · cases h
  · exact hescaped

theorem IsCharacterBody.flatMap_escapeChar (h : IsCharacterBody body) (htab : body ≠ ['\\', '\t']) :
    IsCharacterBody (body.flatMap escapeChar) := by
  have hbody := h
  cases h with
  | plain hquote hescape hc =>
    rw [List.flatMap_singleton]
    rcases escapeChar_cases hc with ⟨-, hspelled⟩ | ⟨-, hspelled⟩
    · rw [hspelled]
      exact .escaped (by decide) rfl rfl
    · rw [hspelled]
      exact hbody
  | unicode _ hmarks _ hdigits =>
    rw [Literal.flatMap_escapeChar]
    · exact hbody
    · rw [List.forall_mem_cons, List.forall_mem_append]
      refine ⟨rfl, ?_, fun c hc => isEscaped_eq_false_of_isHex (hdigits c hc)⟩
      intro c hc
      rw [eq_of_beq (hmarks c hc)]
      rfl
  | octal _ _ hdigits =>
    rw [Literal.flatMap_escapeChar]
    · exact hbody
    · rw [List.forall_mem_cons]
      exact ⟨rfl, fun c hc => isEscaped_eq_false_of_isHex (isHex_of_isOctal (hdigits c hc))⟩
  | @escaped c _ _ hc =>
    rcases escapeChar_cases hc with ⟨rfl, -⟩ | ⟨hescaped, -⟩
    · exact absurd rfl htab
    · rw [Literal.flatMap_escapeChar]
      · exact hbody
      · rw [List.forall_mem_cons, List.forall_mem_singleton]
        exact ⟨rfl, hescaped⟩

/-! ## Normal texts -/

/-- A normal text is the collapsed one, or the text with its characters spelled one by one. -/
theorem toList_normalText (limit : Nat) (text : String) :
    text.toList.head? = some '"' ∧ normalText limit text = collapsedText ∨
      (normalText limit text).toList = text.toList.flatMap escapeChar := by
  unfold normalText normalize
  split
  · next h =>
    rw [Bool.and_eq_true, beq_iff_eq] at h
    exact .inl ⟨h.1, rfl⟩
  · right
    cases hescape : escape? text with
    | some escaped => exact eq_of_escape? hescape
    | none =>
      unfold escape? at hescape
      split at hescape
      · cases hescape
      · next hany =>
        rw [flatMap_escapeChar]
        · rfl
        · intro c hc
          rw [Bool.eq_false_iff]
          intro hescaped
          exact hany (List.any_eq_true.mpr ⟨c, hc, hescaped⟩)

/-- What is escaped between quotes is what stands between them. -/
theorem flatMap_escapeChar_quoted {quote : Char} (hquote : isEscaped quote = false)
    (body : List Char) : (quote :: (body ++ [quote])).flatMap escapeChar =
      quote :: (body.flatMap escapeChar ++ [quote]) := by
  rw [List.flatMap_cons, List.flatMap_append, List.flatMap_singleton,
    escapeChar_of_not_isEscaped hquote, List.singleton_append]

theorem IsStringLiteral.normalText (h : IsStringLiteral w) (limit : Nat) :
    IsStringLiteral (normalText limit w) := by
  obtain ⟨body, htext, hbody⟩ := h
  rcases toList_normalText limit w with ⟨-, hcollapsed⟩ | hspelled
  · rw [hcollapsed]
    exact ⟨[], rfl, .nil⟩
  · rw [htext, flatMap_escapeChar_quoted rfl] at hspelled
    exact ⟨_, hspelled, hbody.flatMap_escapeChar⟩

/-- The normal text of a character literal is one, unless it is that of an escaped tab. -/
theorem isCharacterLiteral_normalText_iff (h : IsCharacterLiteral w) (limit : Nat) :
    IsCharacterLiteral (normalText limit w) ↔ w ≠ "'\\\t'" := by
  obtain ⟨body, htext, hbody⟩ := h
  have hspelled : (Literal.normalText limit w).toList =
      '\'' :: (body.flatMap escapeChar ++ ['\'']) := by
    rcases toList_normalText limit w with ⟨hhead, -⟩ | hspelled
    · rw [htext] at hhead
      cases hhead
    · rw [hspelled, htext, flatMap_escapeChar_quoted rfl]
  constructor
  · rintro hliteral rfl
    have hnormal : Literal.normalText limit "'\\\t'" = "'\\\\t'" := by
      obtain rfl : ['\\', '\t'] = body := (List.append_left_inj ['\'']).mp (List.cons.inj htext).2
      exact String.toList_inj.mp hspelled
    rw [hnormal, ← first_character_iff] at hliteral
    cases hliteral
  · intro htab
    refine ⟨_, hspelled, hbody.flatMap_escapeChar ?_⟩
    rintro rfl
    exact htab (String.toList_inj.mp htext)

/-- The normal text of what is read as a literal is read as a literal of the same sort, unless it is
that of an escaped tab. -/
theorem first_normalText_iff {k : Terminal} (h : Cut.first (bytes w) = ⟨k, []⟩)
    (hk : k.isLiteralText = true) (limit : Nat) :
    Cut.first (bytes (normalText limit w)) = ⟨k, []⟩ ↔ w ≠ "'\\\t'" := by
  cases k with
  | string =>
    rw [first_string_iff] at h ⊢
    refine iff_of_true (h.normalText limit) ?_
    rintro rfl
    obtain ⟨body, htext, -⟩ := h
    cases htext
  | character =>
    rw [first_character_iff] at h ⊢
    exact isCharacterLiteral_normalText_iff h limit
  | _ => cases hk

end Literal

/-! ## Texts -/

open Literal

/-- A literal has its quotes at both ends. -/
theorem asciiEnds_of_first {w : List UInt8} {k : Terminal} (h : Cut.first w = ⟨k, []⟩)
    (hk : k.isLiteralText = true) : AsciiEnds w := by
  have hquoted {q : UInt8} (hq : q < 0x80) (s : List UInt8) : AsciiEnds (q :: (s ++ [q])) :=
    ⟨⟨q, rfl, hq⟩, q, by rw [← List.cons_append, List.getLast?_concat], hq⟩
  have htoken : k.isToken = true := by
    cases k with
    | string | character => rfl
    | _ => cases hk
  obtain ⟨b, s, r, rfl, hleads, hreads, hcut⟩ := Cut.exists_rule_of_isToken h htoken
  cases k with
  | string =>
    cases r with
    | string =>
      obtain rfl := eq_of_beq hleads
      obtain ⟨u, rfl⟩ := Cut.eq_append_of_stringRest hcut
      exact hquoted (by decide) u
    | _ => cases hreads
  | character =>
    cases r with
    | character =>
      obtain rfl := eq_of_beq hleads
      obtain ⟨u, -, rfl⟩ := Cut.eq_append_of_character hcut
      exact hquoted (by decide) u
    | _ => cases hreads
  | _ => cases hk

/-- The normal text of every literal of a text, whatever the limit, is one literal of the same sort
if it is not cut, unless the literal is a tab behind a backslash. -/
theorem ofText_normalText (text : String) :
    (text.utf8ByteSize ≤ maxOffset → ∃ lexemes,
      Lexeme.ofText (PaddedText.ofString text) = .ok lexemes) ∧
      ∀ lexemes, Lexeme.ofText (PaddedText.ofString text) = .ok lexemes →
        ∀ (i : Nat) (l : Lexeme), lexemes[i]? = some l → l.terminal.isLiteralText = true →
          ∃ u w v : String, text = u ++ w ++ v ∧
            u.utf8ByteSize = ((lexemes.take i).map Lexeme.length).sum ∧
            w.utf8ByteSize = l.length ∧
            ∀ limit, Lexeme.ofText (PaddedText.ofString (normalText limit w)) =
                .ok [⟨l.terminal, (normalText limit w).utf8ByteSize⟩] ↔
              (normalText limit w).utf8ByteSize ≤ maxOffset ∧ w ≠ "'\\\t'" := by
  constructor
  · intro hsize
    exact ⟨_, ofText_ofString hsize⟩
  · intro lexemes hread i l hl hliteral
    obtain ⟨u, w, v, htext, hu, hw, hfirst⟩ :=
      exists_slice_of_ofText hread hl fun w hw => asciiEnds_of_first hw hliteral
    have hk : l.terminal ≠ .finish := by
      intro hfinish
      rw [hfinish] at hliteral
      cases hliteral
    refine ⟨u, w, v, htext, hu, hw, ?_⟩
    intro limit
    rw [← first_normalText_iff hfirst hliteral limit]
    exact ofText_eq_singleton_iff hk

/-- In a string a tab behind a backslash is harmless. -/
theorem ofText_normalText_string :
    Lexeme.ofText (PaddedText.ofString (normalText defaultLimit "\"\\\t\"")) =
      .ok [⟨.string, 5⟩] := by
  obtain ⟨hsome, hall⟩ := ofText_normalText "\"\\\t\""
  obtain ⟨lexemes, hread⟩ := hsome (by decide)
  have hlexemes : (Lexeme.ofText (PaddedText.ofString "\"\\\t\"")).toOption =
      some [⟨.string, 4⟩] := by
    decide +kernel
  rw [hread] at hlexemes
  obtain rfl := Option.some.inj hlexemes
  obtain ⟨u, w, v, htext, hu, hw, hnormal⟩ := hall _ hread 0 _ rfl rfl
  have hsizes := congrArg String.utf8ByteSize htext
  rw [String.utf8ByteSize_append, String.utf8ByteSize_append, hw, hu] at hsizes
  change 4 = 0 + 4 + v.utf8ByteSize at hsizes
  obtain rfl : u = "" := String.utf8ByteSize_eq_zero_iff.mp hu
  obtain rfl : v = "" := String.utf8ByteSize_eq_zero_iff.mp (by omega)
  rw [String.empty_append, String.append_empty] at htext
  rw [← htext] at hnormal
  exact (hnormal defaultLimit).mpr ⟨by decide, by decide⟩

/-- In a character literal it is not: the escape of the tab is read as an escaped backslash with
another character behind it. -/
theorem ofText_normalText_escapedTab :
    (Lexeme.ofText (PaddedText.ofString "'\\\t'")).toOption = some [⟨.character, 4⟩] ∧
      (Lexeme.ofText (PaddedText.ofString (normalText defaultLimit "'\\\t'"))).toOption =
        some [⟨.defect .openCharacter, 3⟩, ⟨.word, 1⟩, ⟨.defect .openCharacter, 1⟩] := by
  constructor
  · decide +kernel
  · decide +kernel

end JavaTokens
