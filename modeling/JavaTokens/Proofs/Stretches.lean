import JavaTokens.Proofs.Relexing

/-!
# Stretches of tokens

Where a text is known piece by piece, so are its tokens: stretches that are read one behind the
other put their tokens one behind the other.

    Puts texts s t : from `s` on tokens with these texts are put, and `t` is left
    Puts texts s t → Puts texts' t u → Puts (texts ++ texts') s u     (Puts.trans)
-/

namespace JavaTokens

open Text Cut

/-- Between `s` and the rest `t` of it stand tokens only, and these put the given texts, whatever
stands before. -/
def Puts (texts : List String) (s t : List UInt8) : Prop :=
  ∃ ps : List Piece, pieces s = ps ++ pieces t ∧ (∀ p ∈ ps, p.terminal.isToken = true) ∧
    ∀ (settings : Settings) (before : List String),
      settings.textsOnto before ps = texts.reverse ++ before

variable {s t u : List UInt8} {texts texts' : List String}

theorem Puts.refl (s : List UInt8) : Puts [] s s := ⟨[], rfl, nofun, fun _ _ => rfl⟩

theorem Puts.trans (h : Puts texts s t) (h' : Puts texts' t u) : Puts (texts ++ texts') s u := by
  obtain ⟨ps, hps, htoken, honto⟩ := h
  obtain ⟨qs, hqs, htoken', honto'⟩ := h'
  refine ⟨ps ++ qs, by rw [hps, hqs, List.append_assoc], ?_, ?_⟩
  · intro p hp
    exact (List.mem_append.mp hp).elim (htoken p) (htoken' p)
  · intro settings before
    rw [textsOnto_append, honto, honto', List.reverse_append, List.append_assoc]

/-- A token that is no literal in quotes and no run of closers puts its text. -/
theorem puts_of_first {k : Terminal} {text : String} (h : first (bytes text ++ t) = ⟨k, t⟩)
    (htoken : k.isToken = true) (hliteral : k.isLiteralText = false)
    (hrun : TypeArguments.isCloserRun text = false) : Puts [text] (bytes text ++ t) t := by
  have hne : bytes text ≠ [] := by
    intro hnil
    rw [hnil, List.nil_append] at h
    rcases t with _ | ⟨b, t⟩
    · cases h
      cases htoken
    · have hlt := length_first_lt (List.cons_ne_nil b t)
      rw [h] at hlt
      exact Nat.lt_irrefl _ hlt
  refine ⟨[⟨k, bytes text⟩], pieces_cons hne h, by simpa using htoken, ?_⟩
  intro settings before
  have htext : (Piece.mk k (bytes text)).text? = some text := text?_of_isToken htoken rfl
  have htexts : settings.texts before k text = [text] := by
    rw [Settings.texts, hliteral, hrun, Bool.and_false, Bool.false_and]
    rfl
  rw [Settings.textsOnto, htext]
  show settings.texts before k text ++ before = _
  rw [htexts]
  rfl

/-- A text of tokens only leads to no diagnostics. -/
theorem Puts.diagnosticsOf_eq_nil (h : Puts texts s []) : diagnosticsOf s = [] := by
  obtain ⟨ps, hps, htoken, -⟩ := h
  rw [pieces_nil, List.append_nil] at hps
  refine JavaTokens.diagnosticsOf_eq_nil ?_
  intro p hp
  rw [hps] at hp
  exact Terminal.defect?_of_isToken (htoken p hp)

theorem Puts.map_text_tokensOf (h : Puts texts s []) (settings : Settings) :
    (tokensOf settings s).map Token.text = texts := by
  obtain ⟨ps, hps, -, honto⟩ := h
  rw [pieces_nil, List.append_nil] at hps
  rw [JavaTokens.map_text_tokensOf, hps, honto, List.append_nil, List.reverse_reverse]

/-- A text of which tokens only are read has the listing of these, and nothing is left out. -/
theorem Puts.exists_listing_of_take {settings : Settings} {text w : String}
    (h : Puts texts (bytes w) []) (hw : bytes w = (bytes (settings.source text)).take maxOffset) :
    ∃ listing : Listing, lex settings text = .ok listing ∧ listing.diagnostics = [] ∧
      listing.tokens.toList.map Token.text = texts :=
  ⟨_, lex_of_take hw, h.diagnosticsOf_eq_nil, h.map_text_tokensOf settings⟩

theorem Puts.exists_listing {settings : Settings} {text : String} (h : Puts texts s [])
    (hs : bytes (settings.source text) = s) (hsize : text.utf8ByteSize ≤ maxOffset) :
    ∃ listing : Listing, lex settings text = .ok listing ∧ listing.diagnostics = [] ∧
      listing.tokens.toList.map Token.text = texts := by
  subst hs
  exact h.exists_listing_of_take
    (PaddedText.bytes_ofString (settings.utf8ByteSize_source_le hsize)).symm

end JavaTokens
