import JavaTokens.Proofs.Emission

/-!
# Reading the texts of tokens again

The texts of the tokens of a text, joined by single spaces, are read back as they are.  A token
stays the same before a space, its normal text is normal, and a run of closers is split or kept by
the same texts before it.

    the texts of tokens, joined by spaces, are read again             (lex_intercalate)
    joined texts that are cut lose a token                            (lex_intercalate_overlong)
-/

namespace JavaTokens

open Text Cut

/-! ## Joined pieces -/

/-- A piece that is a token and reads as such. -/
def Piece.IsToken (p : Piece) : Prop :=
  p.terminal.isToken = true ∧ first p.bytes = ⟨p.terminal, []⟩

def blankPiece : Piece := ⟨.trivia .blanks, [' '.toUInt8]⟩

/-- The bytes of pieces with single spaces between them. -/
def joinedBytes : List Piece → List UInt8
  | [] => []
  | [p] => p.bytes
  | p :: q :: ps => p.bytes ++ ' '.toUInt8 :: joinedBytes (q :: ps)

theorem Piece.IsToken.isToken_first {p : Piece} (h : p.IsToken) :
    (first p.bytes).terminal.isToken = true := by
  rw [h.2]
  exact h.1

theorem Piece.IsToken.bytes_ne_nil {p : Piece} (h : p.IsToken) : p.bytes ≠ [] := by
  intro hnil
  have htoken := h.isToken_first
  rw [hnil] at htoken
  cases htoken

/-- No token begins with a blank. -/
theorem first_space_cons {p : Piece} (hp : p.IsToken) (s : List UInt8) :
    first (' '.toUInt8 :: (p.bytes ++ s)) = ⟨.trivia .blanks, p.bytes ++ s⟩ := by
  obtain ⟨b, t, hbytes⟩ := List.exists_cons_of_ne_nil hp.bytes_ne_nil
  have hb : ¬ Ascii.isBlank b = true := by
    intro hblank
    have htoken := hp.isToken_first
    rw [hbytes, first_cons, ofByte_of_isBlank hblank] at htoken
    cases htoken
  rw [hbytes, List.cons_append, first_cons, ofByte_of_isBlank (b := ' '.toUInt8) rfl]
  show Cut.mk _ ((b :: (t ++ s)).dropWhile Ascii.isBlank) = _
  rw [List.dropWhile_cons_of_neg hb]

theorem joinedBytes_cons (p : Piece) (ps : List Piece) :
    ∃ s, joinedBytes (p :: ps) = p.bytes ++ s := by
  rcases ps with _ | ⟨q, ps⟩
  · exact ⟨[], (List.append_nil _).symm⟩
  · exact ⟨_, rfl⟩

/-- Joined tokens are read one by one, with blanks between them. -/
theorem pieces_joinedBytes {ps : List Piece} (hps : ∀ p ∈ ps, p.IsToken) :
    pieces (joinedBytes ps) = ps.intersperse blankPiece := by
  fun_induction joinedBytes ps with
  | case1 => exact pieces_nil
  | case2 p =>
    have hp := hps p List.mem_cons_self
    have hfirst : first (p.bytes ++ []) = ⟨p.terminal, []⟩ := by
      rw [List.append_nil]
      exact hp.2
    have hpieces := pieces_cons hp.bytes_ne_nil hfirst
    rwa [List.append_nil, pieces_nil] at hpieces
  | case3 p q ps ih =>
    rw [List.forall_mem_cons] at hps
    have hfirst : first (p.bytes ++ ' '.toUInt8 :: joinedBytes (q :: ps)) =
        ⟨p.terminal, ' '.toUInt8 :: joinedBytes (q :: ps)⟩ := by
      rw [first_append_space hps.1.isToken_first, hps.1.2]
      rfl
    have hblank : first ([' '.toUInt8] ++ joinedBytes (q :: ps)) =
        ⟨.trivia .blanks, joinedBytes (q :: ps)⟩ := by
      obtain ⟨s, hs⟩ := joinedBytes_cons q ps
      rw [hs]
      exact first_space_cons (hps.2 q List.mem_cons_self) s
    rw [pieces_cons hps.1.bytes_ne_nil hfirst]
    have hrest := pieces_cons (List.cons_ne_nil _ _) hblank
    rw [List.singleton_append, ih hps.2] at hrest
    rw [hrest, List.intersperse_cons_cons]
    rfl

theorem bytes_intercalate {ps : List Piece} {ts : List String}
    (h : ps.map Piece.bytes = ts.map Text.bytes) :
    Text.bytes (" ".intercalate ts) = joinedBytes ps := by
  induction ps generalizing ts with
  | nil =>
    obtain rfl : ts = [] := by simpa using h.symm
    rfl
  | cons p ps ih =>
    rcases ts with _ | ⟨t, ts⟩
    · cases h
    rw [List.map_cons, List.map_cons, List.cons.injEq] at h
    rcases ps with _ | ⟨q, ps⟩
    · obtain rfl : ts = [] := by simpa using h.2.symm
      rw [String.intercalate_singleton]
      exact h.1.symm
    · rcases ts with _ | ⟨u, ts⟩
      · cases h.2
      · rw [String.intercalate_cons_cons, bytes_append, bytes_append, ih h.2, ← h.1]
        simp only [joinedBytes, List.append_assoc]
        rfl

theorem textsOnto_intersperse (settings : Settings) (before : List String) (ps : List Piece) :
    settings.textsOnto before (ps.intersperse blankPiece) = settings.textsOnto before ps := by
  induction ps generalizing before with
  | nil => rfl
  | cons p ps ih =>
    rcases ps with _ | ⟨q, ps⟩
    · rfl
    · have hblank : blankPiece.text? = none := rfl
      rw [List.intersperse_cons_cons]
      simp only [Settings.textsOnto, hblank, ih]

/-! ## Normal texts -/

/-- A text on one line and without tabs is escaped nowhere. -/
theorem escape?_eq_none {text : String} (h : ∀ c ∈ text.toList, Literal.isEscaped c = false) :
    Literal.escape? text = none := by
  refine if_neg ?_
  rw [List.any_eq_true]
  rintro ⟨c, hc, hescaped⟩
  rw [h c hc] at hescaped
  cases hescaped

theorem normalText_cases (limit : Nat) {text : String}
    (h : ∀ c ∈ text.toList, Literal.isEscaped c = false) :
    Literal.normalText limit text = Literal.collapsedText ∨
      Literal.normalText limit text = text := by
  unfold Literal.normalText Literal.normalize
  rw [escape?_eq_none h]
  split
  · exact .inl rfl
  · exact .inr rfl

/-- Whether it is short enough or not, a collapsed text is normal. -/
theorem normalText_collapsedText (limit : Nat) :
    Literal.normalText limit Literal.collapsedText = Literal.collapsedText := by
  have hplain : ∀ c ∈ Literal.collapsedText.toList, Literal.isEscaped c = false := by
    intro c hc
    have hquotes : Literal.collapsedText.toList = List.replicate 2 '"' := rfl
    rw [hquotes] at hc
    rw [List.eq_of_mem_replicate hc]
    rfl
  unfold Literal.normalText Literal.normalize
  rw [escape?_eq_none hplain]
  split <;> rfl

/-- The characters of a token that holds no tab are spelled as they are. -/
theorem isEscaped_of_isToken {p : Piece} {text : String} (hp : p.IsToken)
    (htext : p.bytes = bytes text) (htab : '\t'.toUInt8 ∉ p.bytes) :
    ∀ c ∈ text.toList, Literal.isEscaped c = false := by
  have hline : InLine p.bytes (first p.bytes).rest :=
    inLine_of_isToken (htext ▸ isUtf8_bytes text) hp.isToken_first
  obtain ⟨u, hu, hin⟩ := hline.takes
  rw [hp.2, List.append_nil] at hu
  intro c hc
  have hne {d : Char} (hd : String.utf8EncodeChar d = [d.toUInt8]) (hascii : d.toUInt8 < 0x80)
      (hnot : d.toUInt8 ∉ p.bytes) : c ≠ d := by
    rintro rfl
    rw [htext, mem_bytes_iff hd hascii] at hnot
    exact hnot hc
  have hend {b : UInt8} (hb : isInLine b = false) : b ∉ p.bytes := by
    intro hmem
    rw [hu] at hmem
    rw [hin b hmem] at hb
    cases hb
  have h1 : c ≠ '\n' := hne rfl (by decide) (hend rfl)
  have h2 : c ≠ '\r' := hne rfl (by decide) (hend rfl)
  have h3 : c ≠ '\t' := hne rfl (by decide) htab
  simp [Literal.isEscaped, h1, h2, h3]

/-! ## Tokens again -/

theorem textsOnto_append (settings : Settings) (before : List String) (ps qs : List Piece) :
    settings.textsOnto before (ps ++ qs) =
      settings.textsOnto (settings.textsOnto before ps) qs := by
  induction ps generalizing before with
  | nil => rfl
  | cons p ps ih =>
    rw [List.cons_append, Settings.textsOnto, Settings.textsOnto]
    split
    · exact ih _
    · exact ih _

theorem text?_of_isToken {p : Piece} {text : String} (hp : p.terminal.isToken = true)
    (h : p.bytes = bytes text) : p.text? = some text := by
  rw [Piece.text?, if_pos hp, h, decode?_bytes]

/-- A token that puts its own text, whatever stands before, puts it as often as it comes. -/
theorem textsOnto_replicate {settings : Settings} {p : Piece} {text : String}
    (hp : p.text? = some text) (h : ∀ before, settings.texts before p.terminal text = [text])
    (before : List String) (n : Nat) :
    settings.textsOnto before (List.replicate n p) = List.replicate n text ++ before := by
  induction n generalizing before with
  | zero => rfl
  | succ n ih =>
    rw [List.replicate_succ, Settings.textsOnto, hp]
    show settings.textsOnto (settings.texts before p.terminal text ++ before) _ = _
    rw [h, ih, List.replicate_succ', List.append_assoc]

/-- One closer, as it is put for a run of them. -/
def closerPiece : Piece := ⟨.symbol .greater, bytes ">"⟩

theorem textsOnto_closers (settings : Settings) (before : List String) (n : Nat) :
    settings.textsOnto before (List.replicate n closerPiece) =
      List.replicate n ">" ++ before :=
  textsOnto_replicate (text?_of_isToken rfl rfl) (fun _ => rfl) before n

/-- A collapsed string, as it is put for a longer one. -/
def collapsedPiece : Piece := ⟨.string, bytes Literal.collapsedText⟩

theorem isToken_collapsedPiece : collapsedPiece.IsToken := by
  refine ⟨rfl, ?_⟩
  show stringRest ['"'.toUInt8] = ⟨.string, []⟩
  rw [stringRest]
  rfl

theorem textsOnto_collapsed (settings : Settings) (before : List String) :
    settings.textsOnto before [collapsedPiece] = Literal.collapsedText :: before := by
  have htext : collapsedPiece.text? = some Literal.collapsedText := text?_of_isToken rfl rfl
  have htexts : settings.texts before .string Literal.collapsedText =
      [Literal.normalText settings.collapseLimit Literal.collapsedText] := if_pos rfl
  rw [Settings.textsOnto, htext]
  show settings.texts before .string Literal.collapsedText ++ before = _
  rw [htexts, normalText_collapsedText]
  rfl

/-- The texts that are put for a token are texts of tokens, for which the same texts are put where
the same ones stand before. -/
theorem exists_retokens (settings : Settings) (before : List String) {p : Piece} {text : String}
    (hp : p.IsToken) (htext : p.bytes = bytes text) (htab : '\t'.toUInt8 ∉ p.bytes) :
    ∃ qs : List Piece, (∀ q ∈ qs, q.IsToken) ∧
      qs.map Piece.bytes = (settings.texts before p.terminal text).map bytes ∧
      settings.textsOnto before qs = settings.texts before p.terminal text ++ before := by
  have hself : settings.textsOnto before [p] = settings.texts before p.terminal text ++ before := by
    simp only [Settings.textsOnto, text?_of_isToken hp.1 htext]
  unfold Settings.texts at *
  split
  · next hliteral =>
    rw [if_pos hliteral] at hself
    rcases normalText_cases settings.collapseLimit (isEscaped_of_isToken hp htext htab) with
      hnormal | hnormal
    · rw [hnormal]
      refine ⟨[collapsedPiece], ?_, rfl, textsOnto_collapsed settings before⟩
      intro q hq
      rw [List.mem_singleton.mp hq]
      exact isToken_collapsedPiece
    · refine ⟨[p], by simpa using hp, ?_, hself⟩
      simp [hnormal, htext]
  · next hliteral =>
    rw [if_neg hliteral] at hself
    split
    · refine ⟨List.replicate text.utf8ByteSize closerPiece, ?_, ?_, textsOnto_closers _ _ _⟩
      · intro q hq
        rw [List.eq_of_mem_replicate hq]
        exact ⟨rfl, rfl⟩
      · simp [closerPiece]
    · next hcloses =>
      rw [if_neg hcloses] at hself
      refine ⟨[p], by simpa using hp, ?_, hself⟩
      simp [htext]

/-- All that is put for some pieces is put again for tokens of the same texts. -/
theorem exists_retokens_of_pieces (settings : Settings) {ps : List Piece}
    (hps : ∀ p ∈ ps, first p.bytes = ⟨p.terminal, []⟩ ∧ '\t'.toUInt8 ∉ p.bytes)
    (before : List String) :
    ∃ (qs : List Piece) (ts : List String), (∀ q ∈ qs, q.IsToken) ∧
      qs.map Piece.bytes = ts.map bytes ∧
      settings.textsOnto before qs = ts.reverse ++ before ∧
      settings.textsOnto before ps = ts.reverse ++ before := by
  induction ps generalizing before with
  | nil => exact ⟨[], [], nofun, rfl, rfl, rfl⟩
  | cons p ps ih =>
    rw [List.forall_mem_cons] at hps
    obtain ⟨⟨hfirst, htab⟩, hps⟩ := hps
    cases htext : p.text? with
    | none =>
      obtain ⟨qs, ts, hqs, hbytes, hagain, honto⟩ := ih hps before
      refine ⟨qs, ts, hqs, hbytes, hagain, ?_⟩
      rw [Settings.textsOnto, htext]
      exact honto
    | some text =>
      have htext' := htext
      unfold Piece.text? at htext'
      split at htext'
      · next htoken =>
        obtain ⟨qs, hqs, hbytes, honto⟩ := exists_retokens settings before ⟨htoken, hfirst⟩
          (eq_bytes_of_decode? htext') htab
        obtain ⟨qs', ts, hqs', hbytes', hagain', honto'⟩ :=
          ih hps (settings.texts before p.terminal text ++ before)
        refine ⟨qs ++ qs', settings.texts before p.terminal text ++ ts, ?_, ?_, ?_, ?_⟩
        · intro q hq
          rcases List.mem_append.mp hq with hq | hq
          · exact hqs q hq
          · exact hqs' q hq
        · rw [List.map_append, List.map_append, hbytes, hbytes']
        · rw [textsOnto_append, honto, hagain', List.reverse_append, Settings.texts_reverse,
            List.append_assoc]
        · rw [Settings.textsOnto, htext]
          show settings.textsOnto (settings.texts before p.terminal text ++ before) ps = _
          rw [honto', List.reverse_append, Settings.texts_reverse, List.append_assoc]
      · cases htext'

theorem mem_intersperse {p : Piece} {ps : List Piece} (h : p ∈ ps.intersperse blankPiece) :
    p ∈ ps ∨ p = blankPiece := by
  induction ps with
  | nil => exact .inl h
  | cons q ps ih =>
    rcases ps with _ | ⟨q', ps⟩
    · exact .inl h
    · rw [List.intersperse_cons_cons] at h
      rcases List.mem_cons.mp h with rfl | h
      · exact .inl List.mem_cons_self
      · rcases List.mem_cons.mp h with rfl | h
        · exact .inr rfl
        · exact (ih h).imp_left (List.mem_cons_of_mem q)

/-- Joined tokens are no defects. -/
theorem diagnosticsOf_joinedBytes {ps : List Piece} (hps : ∀ p ∈ ps, p.IsToken) :
    diagnosticsOf (joinedBytes ps) = [] := by
  refine diagnosticsOf_eq_nil ?_
  intro p hp
  rw [pieces_joinedBytes hps] at hp
  rcases mem_intersperse hp with hp | rfl
  · exact Terminal.defect?_of_isToken (hps p hp).1
  · rfl

/-- A text that holds no tab is read without one. -/
theorem tab_not_mem_of_mem_pieces {settings : Settings} {text : String}
    (htab : '\t' ∉ text.toList) :
    ∀ p ∈ pieces (PaddedText.ofString (settings.source text)).bytes, '\t'.toUInt8 ∉ p.bytes := by
  intro p hp hmem
  have hsource : '\t' ∉ (settings.source text).toList := by
    unfold Settings.source
    split
    · exact fun h => htab (Numeral.mem_of_mem_plain h)
    · exact htab
  have hbytes : '\t'.toUInt8 ∈ (pieces (PaddedText.ofString (settings.source text)).bytes).flatMap
      Piece.bytes := List.mem_flatMap.mpr ⟨p, hp, hmem⟩
  rw [flatMap_pieces] at hbytes
  exact hsource ((mem_bytes_iff rfl (by decide)).mp (List.mem_of_mem_take hbytes))

/-! ## Relexing -/

/-- The token texts of a text without tabs, joined by single spaces, have themselves as token texts
and no diagnostics.  The joined text must not be so long that it is cut, and where numerals are made
plain, it has to be plain already. -/
theorem lex_intercalate (settings : Settings) (text : String) (htab : '\t' ∉ text.toList) :
    (text.utf8ByteSize ≤ maxOffset → ∃ listing, lex settings text = .ok listing) ∧
    ∀ listing, lex settings text = .ok listing →
      let texts := listing.tokens.toList.map Token.text
      let joined := " ".intercalate texts
      joined.utf8ByteSize ≤ maxOffset →
      settings.plainNumerals = false ∨ Numeral.plain joined = joined →
      ∃ relisting, lex settings joined = .ok relisting ∧
        relisting.tokens.toList.map Token.text = texts ∧ relisting.diagnostics = [] := by
  refine ⟨fun hsize => ⟨_, lex_eq (settings.utf8ByteSize_source_le hsize)⟩, ?_⟩
  intro listing hlex texts joined hsize hplain
  have hlisting := eq_of_lex hlex
  obtain ⟨qs, ts, hqs, hbytes, hagain, honto⟩ := exists_retokens_of_pieces settings
    (fun p hp => ⟨first_of_mem p hp, tab_not_mem_of_mem_pieces htab p hp⟩) []
  have htexts : texts = ts := by
    show listing.tokens.toList.map Token.text = ts
    rw [hlisting]
    show (tokensOf _ _).toArray.toList.map Token.text = ts
    rw [map_text_tokensOf, honto, List.append_nil, List.reverse_reverse]
  have hjoined : bytes joined = joinedBytes qs := by
    show bytes (" ".intercalate texts) = _
    rw [htexts, bytes_intercalate hbytes]
  have hsource : settings.source joined = joined := by
    unfold Settings.source
    rcases hplain with hplain | hplain
    · rw [hplain]
      rfl
    · rw [hplain, ite_self]
  refine ⟨_, lex_eq (by rwa [hsource]), ?_, ?_⟩
  · rw [hsource, hjoined, htexts]
    show (tokensOf _ _).toArray.toList.map Token.text = ts
    rw [map_text_tokensOf, pieces_joinedBytes hqs, textsOnto_intersperse, hagain, List.append_nil,
      List.reverse_reverse]
  · rw [hsource, hjoined]
    exact diagnosticsOf_joinedBytes hqs

/-- Two closers that were split and a string that collapsed. -/
theorem lex_intercalate_closers : ∃ relisting,
    lex ⟨3, false, true⟩ "A < B < C > > s = \"\"" = .ok relisting ∧
      relisting.tokens.toList.map Token.text =
        ["A", "<", "B", "<", "C", ">", ">", "s", "=", "\"\""] ∧
      relisting.diagnostics = [] := by
  obtain ⟨hok, h⟩ := lex_intercalate ⟨3, false, true⟩ "A<B<C>> s=\"long\"" (by decide)
  obtain ⟨listing, hlex⟩ := hok (by decide)
  have htexts : (lex ⟨3, false, true⟩ "A<B<C>> s=\"long\"").toOption.map (fun l =>
      l.tokens.toList.map Token.text) =
        some ["A", "<", "B", "<", "C", ">", ">", "s", "=", "\"\""] := by
    decide +kernel
  rw [hlex] at htexts
  have htexts' : listing.tokens.toList.map Token.text =
      ["A", "<", "B", "<", "C", ">", ">", "s", "=", "\"\""] := Option.some.inj htexts
  have hagain := h listing hlex
  rw [htexts'] at hagain
  exact hagain (by decide) (.inl rfl)

/-! ## Joined texts that are cut -/

theorem joinedBytes_concat {ps : List Piece} (hps : ps ≠ []) (q : Piece) :
    joinedBytes (ps ++ [q]) = joinedBytes ps ++ ' '.toUInt8 :: q.bytes := by
  fun_induction joinedBytes ps with
  | case1 => exact absurd rfl hps
  | case2 p => rfl
  | case3 p q' ps ih =>
    have hjoined : joinedBytes (p :: q' :: ps ++ [q]) =
        p.bytes ++ ' '.toUInt8 :: joinedBytes (q' :: ps ++ [q]) := rfl
    rw [hjoined, ih (List.cons_ne_nil q' ps), List.append_assoc, List.cons_append]

def semicolonPiece : Piece := ⟨.symbol .semicolon, bytes ";"⟩

def semicolons (n : Nat) : String := String.ofList (List.replicate n ';')

theorem tab_not_mem_semicolons (n : Nat) : '\t' ∉ (semicolons n).toList := by
  rw [semicolons, String.toList_ofList]
  intro hmem
  cases List.eq_of_mem_replicate hmem

theorem isToken_semicolonPiece (n : Nat) :
    ∀ p ∈ List.replicate n semicolonPiece, p.IsToken := by
  intro p hp
  rw [List.eq_of_mem_replicate hp]
  exact ⟨rfl, rfl⟩

theorem pieces_semicolons (n : Nat) :
    pieces (bytes (semicolons n)) = List.replicate n semicolonPiece := by
  rw [semicolons, bytes_replicate (b := ';'.toUInt8) rfl]
  induction n with
  | zero => exact pieces_nil
  | succ n ih =>
    have hcons := pieces_cons (w := bytes ";") (t := List.replicate n ';'.toUInt8)
      (k := .symbol .semicolon) (List.cons_ne_nil _ _) rfl
    rw [ih] at hcons
    exact hcons

theorem bytes_intercalate_semicolons (n : Nat) :
    bytes (" ".intercalate (List.replicate n ";")) =
      joinedBytes (List.replicate n semicolonPiece) :=
  bytes_intercalate (by rw [List.map_replicate, List.map_replicate]; rfl)

/-- A space and a semicolon more. -/
theorem joinedBytes_semicolons (n : Nat) :
    joinedBytes (List.replicate (n + 2) semicolonPiece) =
      joinedBytes (List.replicate (n + 1) semicolonPiece) ++ [' '.toUInt8, ';'.toUInt8] := by
  rw [List.replicate_succ', joinedBytes_concat (by simp)]
  rfl

theorem length_joinedBytes_semicolons (n : Nat) :
    (joinedBytes (List.replicate (n + 1) semicolonPiece)).length = 2 * n + 1 := by
  induction n with
  | zero => rfl
  | succ n ih =>
    rw [joinedBytes_semicolons, List.length_append, ih]
    rfl

section

variable {settings : Settings} (hplain : settings.plainNumerals = false)
include hplain

/-- Of a text, also of one that is cut, whose tokens are semicolons, these are listed. -/
theorem lex_of_semicolons {text w : String} {n : Nat}
    (hw : bytes w = (bytes text).take maxOffset)
    (h : settings.textsOnto [] (pieces (bytes w)) =
      settings.textsOnto [] (List.replicate n semicolonPiece)) :
    ∃ listing : Listing, lex settings text = .ok listing ∧
      listing.tokens.toList.map Token.text = List.replicate n ";" := by
  have hsource : settings.source text = text := by
    rw [Settings.source, hplain]
    rfl
  rw [← hsource] at hw
  refine ⟨_, lex_of_take hw, ?_⟩
  show (tokensOf _ _).map Token.text = _
  rw [map_text_tokensOf, h, textsOnto_replicate (text?_of_isToken rfl rfl) fun _ => rfl,
    List.append_nil, List.reverse_replicate]

theorem lex_semicolons {n : Nat} (hn : n ≤ maxOffset) :
    ∃ listing : Listing, lex settings (semicolons n) = .ok listing ∧
      listing.tokens.toList.map Token.text = List.replicate n ";" := by
  refine lex_of_semicolons hplain (w := semicolons n) ?_ (by rw [pieces_semicolons])
  rw [semicolons, bytes_replicate rfl, List.take_of_length_le (by simpa using hn)]

/-- Of joined semicolons that have two bytes too many, the last space and semicolon are cut off. -/
theorem lex_intercalate_semicolons {n : Nat} (h : 2 * n = maxOffset + 1) :
    ∃ listing : Listing,
      lex settings (" ".intercalate (List.replicate (n + 1) ";")) = .ok listing ∧
        listing.tokens.toList.map Token.text = List.replicate n ";" := by
  obtain ⟨m, rfl⟩ : ∃ m, n = m + 1 := ⟨n - 1, by omega⟩
  refine lex_of_semicolons hplain (w := " ".intercalate (List.replicate (m + 1) ";")) ?_ ?_
  · have hcut : (joinedBytes (List.replicate (m + 1) semicolonPiece)).length = maxOffset := by
      rw [length_joinedBytes_semicolons]
      omega
    rw [bytes_intercalate_semicolons, bytes_intercalate_semicolons, joinedBytes_semicolons,
      List.take_left' hcut]
  · rw [bytes_intercalate_semicolons, pieces_joinedBytes (isToken_semicolonPiece _),
      textsOnto_intersperse]

end

/-- A joined text that is too long is cut: of `2 ^ 31 + 1` semicolons, with spaces between them, all
but the last one are read again. -/
theorem lex_intercalate_overlong :
    let settings : Settings := ⟨Literal.defaultLimit, false, true⟩
    let text := semicolons (2 ^ 31 + 1)
    '\t' ∉ text.toList ∧ ∃ listing relisting : Listing, lex settings text = .ok listing ∧
      let texts := listing.tokens.toList.map Token.text
      lex settings (" ".intercalate texts) = .ok relisting ∧
        relisting.tokens.toList.map Token.text ≠ texts := by
  intro settings text
  have hplain : settings.plainNumerals = false := rfl
  obtain ⟨listing, hlex, htexts⟩ := lex_semicolons hplain (n := 2 ^ 31 + 1) (by decide)
  obtain ⟨relisting, hrelex, hretexts⟩ := lex_intercalate_semicolons hplain (n := 2 ^ 31) (by decide)
  refine ⟨tab_not_mem_semicolons _, listing, relisting, hlex, ?_⟩
  rw [htexts, hretexts]
  refine ⟨hrelex, ?_⟩
  intro hsame
  have hlength := congrArg List.length hsame
  rw [List.length_replicate, List.length_replicate] at hlength
  exact absurd hlength (by decide)

end JavaTokens
