import JavaTokens.Proofs.AsciiClasses
import JavaTokens.Proofs.Context

/-!
# Longest symbols

Symbols are read by rules of their own, with one byte or two looked at behind the first.  Together
the rules come to one table: a text that begins with a spelling, and neither with a comment nor with
a fraction, is read as the longest one that it begins with.  No lexeme of a symbol is anything but
its spelling.

    where a spelling begins, a symbol is read                         (isSymbol_first)
    what is read is the longest spelling, and no symbol is another    (ofText_symbol)
-/

namespace JavaTokens

open Lexeme Text Ascii

/-! ## Spellings in front of a text -/

/-- Whether the text begins with `//`, with `/*`, or with a dot and a digit. -/
def Symbol.isForestalled (text : String) : Bool :=
  match text.toList with
  | '/' :: cs => cs.head?.any fun c => c == '/' || c == '*'
  | '.' :: cs => cs.head?.any Char.isDigit
  | _ => false

/-- The spelling of `k` is the longest of those that the text begins with, and only `k` has it. -/
structure Terminal.IsLongest (k : Terminal) (spelling text : String) : Prop where
  spelling_eq : k.spelling? = some spelling
  unique : ∀ k' : Terminal, k'.spelling? = some spelling → k' = k
  isLongest : IsLongestPrefix (fun s => ∃ k' : Terminal, k'.spelling? = some s) spelling text

namespace Cut

/-- The rules that read symbols, some of them other lexemes as well. -/
def readsSymbol : Rule → Bool
  | .slash | .single _ | .assignable _ _ | .doubling _ _ _ | .less | .greater | .dot => true
  | _ => false

variable {b : UInt8} {s : List UInt8}

theorem begins_spelling (sym : Symbol) :
    begins (fun b => readsSymbol (Rule.ofByte b)) (bytes sym.spelling) = true := by
  cases sym <;> decide +kernel

/-- A spelling alone is read as its symbol. -/
theorem first_spelling (sym : Symbol) : first (bytes sym.spelling) = ⟨.symbol sym, []⟩ := by
  cases sym <;> decide +kernel

theorem isSymbol_slash (hline : begins (· == '/'.toUInt8) s = false)
    (hblock : begins (· == '*'.toUInt8) s = false) : (slash s).terminal.isSymbol = true := by
  rw [slash, hline, hblock, if_neg Bool.false_ne_true, if_neg Bool.false_ne_true]
  split
  · rfl
  · rfl

theorem isSymbol_ofRule {r : Rule} (hleads : leads b r = true) (hr : readsSymbol r = true)
    (hcomment : r = .slash → begins (fun c => c == '/'.toUInt8 || c == '*'.toUInt8) s = false)
    (hfraction : r = .dot → begins isDigit s = false) :
    (ofRule b s r).terminal.isSymbol = true := by
  cases r with
  | single sym => rfl
  | assignable bare assigned =>
    simp only [leads, Bool.and_eq_true, beq_iff_eq] at hleads
    exact (completes_assignable hleads.1 hleads.2 s).isSymbol
  | doubling twice bare assigned =>
    simp only [leads, Bool.and_eq_true, beq_iff_eq] at hleads
    exact (completes_doubling hleads.1.1 hleads.1.2 hleads.2 s).isSymbol
  | less => exact (completes_less s).isSymbol
  | greater => exact (completes_greater s).isSymbol
  | dot =>
    show (if begins isDigit s then fraction (s.drop 1) else dots s).terminal.isSymbol = true
    rw [hfraction rfl, if_neg Bool.false_ne_true]
    exact (completes_dots s).isSymbol
  | slash =>
    have hnone := hcomment rfl
    rcases s with _ | ⟨c, s⟩
    · rfl
    · rw [begins_cons, Bool.or_eq_false_iff] at hnone
      exact isSymbol_slash hnone.1 hnone.2
  | _ => cases hr

end Cut

/-! ## Texts -/

open Cut

/-- A text that is not forestalled begins with no comment and no fraction. -/
theorem Symbol.not_begins_of_not_isForestalled {text : String} {b : UInt8} {s : List UInt8}
    (h : isForestalled text = false) (hbytes : bytes text = b :: s) :
    (b = '/'.toUInt8 → begins (fun c => c == '/'.toUInt8 || c == '*'.toUInt8) s = false) ∧
      (b = '.'.toUInt8 → begins isDigit s = false) := by
  have hrest {c : Char} (hc : String.utf8EncodeChar c = [b]) (hb : b < 0x80) :
      ∃ cs, text.toList = c :: cs ∧ s = cs.flatMap String.utf8EncodeChar := by
    have hhead : text.toList.head? = some c := head?_of_head?_bytes hc hb (by rw [hbytes]; rfl)
    obtain ⟨cs, htext⟩ := List.head?_eq_some_iff.mp hhead
    rw [bytes, htext, List.flatMap_cons, hc, List.singleton_append, List.cons.injEq] at hbytes
    exact ⟨cs, htext, hbytes.2.symm⟩
  constructor
  · rintro rfl
    obtain ⟨cs, htext, rfl⟩ := hrest (c := '/') rfl (by decide)
    have hmarks := (AsciiClass.beq (d := '/') rfl (by decide)).or
      (AsciiClass.beq (d := '*') rfl (by decide))
    rw [hmarks.begins_flatMap]
    rwa [isForestalled, htext] at h
  · rintro rfl
    obtain ⟨cs, htext, rfl⟩ := hrest (c := '.') rfl (by decide)
    rw [asciiClass_isDigit.begins_flatMap]
    rwa [isForestalled, htext] at h

theorem Terminal.exists_symbol {k : Terminal} {s : String} (h : k.spelling? = some s) :
    ∃ sym : Symbol, k = .symbol sym ∧ s = sym.spelling := by
  cases k with
  | symbol sym => exact ⟨sym, rfl, (Option.some.inj h).symm⟩
  | _ => cases h

/-- Where a text begins with a spelling, and it is not forestalled, its first lexeme is a symbol. -/
theorem isSymbol_first {sym : Symbol} {v : String}
    (h : Symbol.isForestalled (sym.spelling ++ v) = false) :
    (first (bytes (sym.spelling ++ v))).terminal.isSymbol = true := by
  obtain ⟨b, s, hb, hr⟩ := exists_cons_of_begins (begins_spelling sym)
  have hbytes : bytes (sym.spelling ++ v) = b :: (s ++ bytes v) := by
    rw [bytes_append, hb, List.cons_append]
  obtain ⟨hcomment, hfraction⟩ := Symbol.not_begins_of_not_isForestalled h hbytes
  have hleads := leads_ofByte b
  rw [hbytes, first_cons]
  refine isSymbol_ofRule hleads hr ?_ ?_
  · intro hslash
    rw [hslash] at hleads
    exact hcomment (eq_of_beq hleads)
  · intro hdot
    rw [hdot] at hleads
    exact hfraction (eq_of_beq hleads)

theorem Symbol.spelling_inj {sym sym' : Symbol} (h : sym.spelling = sym'.spelling) :
    sym = sym' := by
  have hfirst := first_spelling sym
  rw [h, first_spelling sym', Cut.mk.injEq, Terminal.symbol.injEq] at hfirst
  exact hfirst.1.symm

/-- What is read of a symbol is the longest spelling in front of the text. -/
theorem Terminal.isLongest_of_first {w v : String} {sym : Symbol}
    (h : first (bytes (w ++ v)) = ⟨.symbol sym, bytes v⟩) :
    Terminal.IsLongest (.symbol sym) w (w ++ v) := by
  obtain rfl : w = sym.spelling := by
    have hspelling := eq_spelling_of_first h
    rw [bytes_append] at hspelling
    exact bytes_inj (List.append_cancel_right hspelling)
  refine ⟨rfl, ?_, isLongestPrefix_of_first ?_ ⟨.symbol sym, rfl⟩ h⟩
  · intro k hk
    obtain ⟨sym', rfl, hsame⟩ := Terminal.exists_symbol hk
    rw [Symbol.spelling_inj hsame]
  · rintro s ⟨k, hk⟩
    obtain ⟨sym', rfl, rfl⟩ := Terminal.exists_symbol hk
    exact ⟨_, first_spelling sym'⟩

theorem Symbol.ascii_spelling (sym : Symbol) : ∀ b ∈ bytes sym.spelling, b < 0x80 := by
  cases sym <;> decide +kernel

/-- Every lexeme of a symbol is a stretch of the text that is its spelling. -/
theorem exists_spelling_of_getElem? {text : String} {lexemes : List Lexeme}
    (hread : Lexeme.ofText (PaddedText.ofString text) = .ok lexemes) {i : Nat} {l : Lexeme}
    {spelling : String} (hl : lexemes[i]? = some l)
    (hspelling : l.terminal.spelling? = some spelling) :
    ∃ u v : String, text = u ++ spelling ++ v ∧
      u.utf8ByteSize = ((lexemes.take i).map Lexeme.length).sum ∧
      l.length = spelling.utf8ByteSize := by
  obtain ⟨sym, hsym, rfl⟩ := Terminal.exists_symbol hspelling
  have hspelled {w : List UInt8} (hw : first w = ⟨l.terminal, []⟩) : w = bytes sym.spelling := by
    rw [hsym] at hw
    rw [eq_spelling_of_first hw, List.append_nil]
  have hends (w : List UInt8) (hw : first w = ⟨l.terminal, []⟩) : AsciiEnds w := by
    obtain ⟨b, s, hb, -⟩ := exists_cons_of_begins (begins_spelling sym)
    rw [hspelled hw]
    exact .of_all (by simp [hb]) sym.ascii_spelling
  obtain ⟨u, w, v, htext, hu, hw, hfirst⟩ := exists_slice_of_ofText hread hl hends
  obtain rfl := bytes_inj (hspelled hfirst)
  exact ⟨u, v, htext, hu, hw.symm⟩

/-- A text that begins with a spelling, and neither with a comment nor with a fraction, has the
symbol of the longest spelling in front of it as its first lexeme.  In any text, also one that is
cut, a lexeme of a symbol is its spelling and nothing else. -/
theorem ofText_symbol (text : String) :
    (text.utf8ByteSize ≤ maxOffset → ∃ lexemes,
      Lexeme.ofText (PaddedText.ofString text) = .ok lexemes ∧
        (Symbol.isForestalled text = false →
          (∃ (k : Terminal) (s v : String), k.spelling? = some s ∧ text = s ++ v) →
          ∃ (k : Terminal) (spelling : String), Terminal.IsLongest k spelling text ∧
            lexemes.head? = some ⟨k, spelling.utf8ByteSize⟩)) ∧
      ∀ lexemes, Lexeme.ofText (PaddedText.ofString text) = .ok lexemes →
        ∀ (i : Nat) (l : Lexeme) (spelling : String), lexemes[i]? = some l →
          l.terminal.spelling? = some spelling →
          ∃ u v : String, text = u ++ spelling ++ v ∧
            u.utf8ByteSize = ((lexemes.take i).map Lexeme.length).sum ∧
            l.length = spelling.utf8ByteSize := by
  constructor
  · intro hsize
    refine ⟨_, ofText_ofString hsize, ?_⟩
    rintro hforestalled ⟨k, s, x, hs, htext⟩
    obtain ⟨sym, rfl, rfl⟩ := Terminal.exists_symbol hs
    have hsymbol : (first (bytes text)).terminal.isSymbol = true := by
      rw [htext] at hforestalled ⊢
      exact isSymbol_first hforestalled
    have hne : text.toList ≠ [] := by
      intro hnil
      rw [bytes, hnil] at hsymbol
      cases hsymbol
    obtain ⟨w, v, k, lexemes, rfl, -, hfirst, -, hread⟩ := exists_ofText_first hsize hne
    rw [hfirst] at hsymbol
    cases k with
    | symbol sym' =>
      rw [ofText_ofString hsize, Except.ok.injEq] at hread
      exact ⟨_, w, Terminal.isLongest_of_first hfirst, by rw [hread]; rfl⟩
    | _ => cases hsymbol
  · intro lexemes hread i l spelling hl hspelling
    exact exists_spelling_of_getElem? hread hl hspelling

/-- Two dots are read one by one, as no spelling has just two, and what stands behind them is one
symbol of four characters. -/
theorem ofText_symbol_dots : Terminal.IsLongest (.symbol .dot) "." "..>>>=" ∧
    ∃ u v : String, "..>>>=" = u ++ ">>>=" ++ v ∧ u.utf8ByteSize = 2 := by
  obtain ⟨hfirst, hspelled⟩ := ofText_symbol "..>>>="
  obtain ⟨lexemes, hread, hlongest⟩ := hfirst (by decide)
  have hlexemes : (Lexeme.ofText (PaddedText.ofString "..>>>=")).toOption =
      some [⟨.symbol .dot, 1⟩, ⟨.symbol .dot, 1⟩, ⟨.symbol .shiftRightZeroAssign, 4⟩] := by
    decide +kernel
  rw [hread] at hlexemes
  obtain rfl := Option.some.inj hlexemes
  constructor
  · obtain ⟨k, spelling, hlongest, hhead⟩ :=
      hlongest (by decide) ⟨.symbol .dot, ".", ".>>>=", rfl, by decide⟩
    obtain rfl : .symbol .dot = k := (Lexeme.mk.inj (Option.some.inj hhead)).1
    obtain rfl : "." = spelling := Option.some.inj hlongest.spelling_eq
    exact hlongest
  · obtain ⟨u, v, htext, hsize, -⟩ := hspelled _ hread 2 _ ">>>=" rfl rfl
    exact ⟨u, v, htext, hsize⟩

end JavaTokens
