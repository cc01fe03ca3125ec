import JavaTokens.Proofs.Splitting
import JavaTokens.Proofs.Stretches

/-!
# Closers of nested type arguments

A type that is nested to some depth ends in as many closers.  Reading takes them three by three, and
of these runs only the first one is split: looking back from the next one, the search ends at a
closer.

    the closers of a type of depth n                                  (lex_nestedType)
    each one is a token of its own exactly if n ≤ 4
-/

namespace JavaTokens

open Text Cut

/-! ## Names of types -/

theorem isUpper_iff {c : Char} : c.isUpper = true ↔ 65 ≤ c.toNat ∧ c.toNat ≤ 90 := by
  have hupper : c.isUpper = decide (65 ≤ c.val ∧ c.val ≤ 90) := rfl
  rw [hupper, decide_eq_true_eq, UInt32.le_iff_toNat_le, UInt32.le_iff_toNat_le]
  exact Iff.rfl

/-- What is needed of the capital letters of ASCII. -/
theorem capital_of_isUpper {c : Char} (h : c.isUpper = true) :
    Word.isStart c = true ∧ Unicode.isUppercase c = true ∧ c.isLower = false ∧
      c.isDigit = false ∧ c ≠ '>' := by
  have hall : ∀ n, n < 91 → (Char.ofNat n).isUpper = true →
      Word.isStart (Char.ofNat n) = true ∧ (Char.ofNat n).isLower = false ∧
        (Char.ofNat n).isDigit = false ∧ Char.ofNat n ≠ '>' := by
    decide +kernel
  obtain ⟨hle, hge⟩ := isUpper_iff.mp h
  have hcapital := hall c.toNat (by omega)
  rw [Char.ofNat_toNat] at hcapital
  obtain ⟨hstart, hother⟩ := hcapital h
  exact ⟨hstart, (Unicode.isUppercase_iff_of_le hge).mpr hle, hother⟩

/-- An identifier that begins with a capital letter of ASCII. -/
structure TypeName where
  text : String
  isIdentifier : Word.isIdentifier text = true
  isCapital : text.toList.head?.any Char.isUpper = true

namespace TypeName

variable (n : TypeName)

theorem isWord : Word.isWord n.text = true := by
  have hword := n.isIdentifier
  rw [Word.isIdentifier, Bool.and_eq_true] at hword
  exact hword.1

theorem exists_cons : ∃ c cs, n.text.toList = c :: cs ∧ c.isUpper = true ∧
    cs.all Word.isPart = true := by
  have hword := n.isWord
  have hcapital := n.isCapital
  unfold Word.isWord at hword
  cases htext : n.text.toList with
  | nil =>
    rw [htext] at hcapital
    cases hcapital
  | cons c cs =>
    rw [htext] at hcapital hword
    exact ⟨c, cs, rfl, hcapital, (Bool.and_eq_true_iff.mp hword).2⟩

/-- A name keeps its first letter when it is made plain. -/
theorem exists_cons_plain : ∃ c cs, (Numeral.plain n.text).toList = c :: cs ∧ c.isUpper = true ∧
    cs.all Word.isPart = true := by
  obtain ⟨c, cs, htext, hc, hcs⟩ := n.exists_cons
  have hdigit := (capital_of_isUpper hc).2.2.2.1
  have hzero : c ≠ '0' := by
    rintro rfl
    cases hdigit
  have hstays : ∀ b d, Numeral.dropsMiddle c b d = false := by
    simp [Numeral.dropsMiddle, hdigit, hzero]
  refine ⟨c, Numeral.plainChars cs, ?_, hc, ?_⟩
  · rw [Numeral.plain_eq, String.toList_ofList, htext, Numeral.plainChars_cons hstays]
  · rw [List.all_eq_true] at hcs ⊢
    exact fun d hd => hcs d ((Numeral.plainChars_sublist cs).subset hd)

theorem isIdentifier_of_cons {text : String} {c : Char} {cs : List Char}
    (htext : text.toList = c :: cs) (hc : c.isUpper = true) (hcs : cs.all Word.isPart = true) :
    Word.isIdentifier text = true := by
  obtain ⟨hstart, -, hlower, -⟩ := capital_of_isUpper hc
  have hword : Word.isWord text = true := by
    simp only [Word.isWord, htext, hstart, hcs, Bool.and_self]
  have hreserved : Word.isReserved text = false := by
    simp only [Word.isReserved, htext, List.head?_cons, Option.any_some, hlower, Bool.and_false,
      Bool.false_and]
  rw [Word.isIdentifier, hword, hreserved]
  rfl

/-- The name as it is read. -/
def plain : TypeName where
  text := Numeral.plain n.text
  isIdentifier := by
    obtain ⟨c, cs, htext, hc, hcs⟩ := n.exists_cons_plain
    exact isIdentifier_of_cons htext hc hcs
  isCapital := by
    obtain ⟨c, cs, htext, hc, -⟩ := n.exists_cons_plain
    rw [htext]
    exact hc

theorem bytes_plain : bytes n.plain.text = Numeral.plainBytes (bytes n.text) :=
  Numeral.bytes_plain n.text

theorem isPart_text : TypeArguments.isPart n.text = true := by
  obtain ⟨c, cs, htext, hc, -⟩ := n.exists_cons
  rw [TypeArguments.isPart, htext, List.head?_cons, Option.any_some, (capital_of_isUpper hc).2.1,
    Bool.or_true]

theorem not_isCloserRun_text : TypeArguments.isCloserRun n.text = false := by
  obtain ⟨c, cs, htext, hc, -⟩ := n.exists_cons
  rw [TypeArguments.isCloserRun, htext, List.all_cons,
    beq_eq_false_iff_ne.mpr (capital_of_isUpper hc).2.2.2.2, Bool.false_and, Bool.and_false]

end TypeName

/-! ## Types -/

/-- A name, or a name applied to type arguments of which only the last one is applied in turn. -/
inductive NestedType
  | name (n : TypeName)
  | applied (n : TypeName) (others : List TypeName) (last : NestedType)

namespace NestedType

/-- The type as it is written, without blanks. -/
def text : NestedType → String
  | name n => n.text
  | applied n others last =>
    n.text ++ "<" ++ String.join (others.map fun o => o.text ++ ",") ++ last.text ++ ">"

/-- How often a name is applied in the last argument of another. -/
def depth : NestedType → Nat
  | name _ => 0
  | applied _ _ last => last.depth + 1

/-- The type as it is read. -/
def plain : NestedType → NestedType
  | name n => name n.plain
  | applied n others last => applied n.plain (others.map TypeName.plain) last.plain

@[simp] theorem depth_plain (T : NestedType) : T.plain.depth = T.depth := by
  induction T with
  | name n => rfl
  | applied n others last ih => rw [plain, depth, depth, ih]

theorem bytes_text_applied (n : TypeName) (others : List TypeName) (last : NestedType) :
    bytes (applied n others last).text = bytes n.text ++ (bytes "<" ++
      ((others.flatMap fun o => bytes o.text ++ bytes ",") ++ (bytes last.text ++ bytes ">"))) := by
  have hothers : bytes (String.join (others.map fun o => o.text ++ ",")) =
      others.flatMap fun o => bytes o.text ++ bytes "," := by
    simp [bytes, String.toList_join, List.flatMap_map, List.flatMap_assoc]
  simp only [text, bytes_append, hothers, List.append_assoc]

theorem plainBytes_others (others : List TypeName) (s : List UInt8) :
    Numeral.plainBytes ((others.flatMap fun o => bytes o.text ++ bytes ",") ++ s) =
      ((others.map TypeName.plain).flatMap fun o => bytes o.text ++ bytes ",") ++
        Numeral.plainBytes s := by
  induction others with
  | nil => rfl
  | cons o others ih =>
    have hcomma := Numeral.plainBytes_append_cons (b := ','.toUInt8) rfl (bytes o.text)
      ((others.flatMap fun o => bytes o.text ++ bytes ",") ++ s)
    rw [ih, ← o.bytes_plain] at hcomma
    simp only [List.map_cons, List.flatMap_cons, List.append_assoc]
    exact hcomma

/-- Making numerals plain goes name by name. -/
theorem plain_text (T : NestedType) : Numeral.plain T.text = T.plain.text := by
  apply bytes_inj
  rw [Numeral.bytes_plain]
  induction T with
  | name n => exact n.bytes_plain.symm
  | applied n others last ih =>
    have hless := Numeral.plainBytes_append_cons (b := '<'.toUInt8) rfl (bytes n.text)
      ((others.flatMap fun o => bytes o.text ++ bytes ",") ++ (bytes last.text ++ bytes ">"))
    have hgreater := Numeral.plainBytes_append_cons (b := '>'.toUInt8) rfl (bytes last.text) []
    rw [ih] at hgreater
    rw [plainBytes_others, ← n.bytes_plain] at hless
    rw [plain, bytes_text_applied, bytes_text_applied]
    exact hless.trans (congrArg (fun s => _ ++ '<'.toUInt8 :: (_ ++ s)) hgreater)

/-- The tokens of the type before its closers. -/
def opening : NestedType → List String
  | name n => [n.text]
  | applied n others last =>
    [n.text, "<"] ++ (others.flatMap fun o => [o.text, ","]) ++ last.opening

end NestedType

/-! ## Openings -/

variable {t : List UInt8}

theorem puts_name (n : TypeName) (ht : wordPart? t = none) : Puts [n.text] (bytes n.text ++ t) t :=
  puts_of_first (first_append_of_isWord n.isWord ht) rfl rfl n.not_isCloserRun_text

theorem puts_comma (t : List UInt8) : Puts [","] (bytes "," ++ t) t :=
  puts_of_first (k := .symbol .comma) rfl rfl rfl rfl

/-- Whether a name can begin. -/
def beginsWord (s : List UInt8) : Bool :=
  begins (fun b => Ascii.isWordStart b || isBeyondAscii b) s

theorem beginsWord_name (n : TypeName) (t : List UInt8) : beginsWord (bytes n.text ++ t) = true :=
  begins_append (Word.begins_of_isWord n.isWord) t

theorem beginsWord_text (T : NestedType) (t : List UInt8) :
    beginsWord (bytes T.text ++ t) = true := by
  cases T with
  | name n => exact beginsWord_name n t
  | applied n others last =>
    rw [NestedType.bytes_text_applied, List.append_assoc]
    exact beginsWord_name n _

/-- Before a name, a `<` is a symbol of its own. -/
theorem puts_less (h : beginsWord t = true) : Puts ["<"] (bytes "<" ++ t) t := by
  obtain ⟨b, u, rfl, hb⟩ := exists_cons_of_begins h
  have hne {c : UInt8} (hc : (Ascii.isWordStart c || isBeyondAscii c) = false) :
      begins (· == c) (b :: u) = false := by
    rw [begins_cons, beq_eq_false_iff_ne]
    rintro rfl
    rw [hc] at hb
    cases hb
  have hfirst : first (bytes "<" ++ b :: u) = ⟨.symbol .less, b :: u⟩ := by
    show less (b :: u) = _
    rw [less, hne rfl, if_neg Bool.false_ne_true, assignable, hne rfl, if_neg Bool.false_ne_true]
  exact puts_of_first hfirst rfl rfl rfl

theorem puts_others (others : List TypeName) (t : List UInt8) :
    Puts (others.flatMap fun o => [o.text, ","])
      ((others.flatMap fun o => bytes o.text ++ bytes ",") ++ t) t := by
  induction others with
  | nil => exact Puts.refl t
  | cons o others ih =>
    have hcomma := (puts_comma _).trans ih
    have hname := (puts_name o (t := bytes "," ++ _) rfl).trans hcomma
    rw [List.flatMap_cons, List.flatMap_cons, List.append_assoc, List.append_assoc]
    exact hname

/-- Before its closers, a type puts its opening. -/
theorem puts_opening (T : NestedType) (ht : wordPart? t = none) :
    Puts T.opening (bytes T.text ++ t) (List.replicate T.depth '>'.toUInt8 ++ t) := by
  induction T generalizing t with
  | name n => exact puts_name n ht
  | applied n others last ih =>
    have hlast := ih (t := bytes ">" ++ t) rfl
    have hclosers : List.replicate last.depth '>'.toUInt8 ++ (bytes ">" ++ t) =
        List.replicate (last.depth + 1) '>'.toUInt8 ++ t := by
      rw [List.replicate_succ', List.append_assoc]
      rfl
    rw [hclosers] at hlast
    have hothers := (puts_others others _).trans hlast
    have hless : beginsWord ((others.flatMap fun o => bytes o.text ++ bytes ",") ++
        (bytes last.text ++ (bytes ">" ++ t))) = true := by
      rcases others with _ | ⟨o, others⟩
      · exact beginsWord_text last _
      · rw [List.flatMap_cons, List.append_assoc, List.append_assoc]
        exact beginsWord_name o _
    have hall := (puts_name n (t := bytes "<" ++ _) rfl).trans ((puts_less hless).trans hothers)
    rw [NestedType.bytes_text_applied]
    simp only [List.append_assoc]
    exact hall

theorem closes_append_of_isPart {parts before : List String}
    (h : ∀ t ∈ parts, TypeArguments.isPart t = true) :
    TypeArguments.closes (parts ++ before) = TypeArguments.closes before := by
  induction parts with
  | nil => rfl
  | cons t parts ih =>
    rw [List.forall_mem_cons] at h
    have hcons := TypeArguments.openIn_cons id t (parts ++ before)
    rw [show TypeArguments.isPart (id t) = true from h.1, if_pos rfl] at hcons
    exact hcons.trans (ih h.2)

/-- Behind the opening of a type that is applied, type arguments are open. -/
theorem closes_opening (T : NestedType) {before : List String}
    (h : TypeArguments.closes before = true ∨ 0 < T.depth) :
    TypeArguments.closes (T.opening.reverse ++ before) = true := by
  induction T generalizing before with
  | name n =>
    rw [NestedType.opening, List.reverse_singleton, closes_append_of_isPart]
    · exact h.resolve_right (Nat.lt_irrefl 0)
    · simpa using n.isPart_text
  | applied n others last ih =>
    have hparts : ∀ t ∈ (others.flatMap fun o => [o.text, ","]).reverse,
        TypeArguments.isPart t = true := by
      intro t ht
      obtain ⟨o, -, ht⟩ := List.mem_flatMap.mp (List.mem_reverse.mp ht)
      rcases List.mem_pair.mp ht with rfl | rfl
      · exact o.isPart_text
      · rfl
    have hopen : TypeArguments.closes ("<" :: n.text :: before) = true := by
      have hcons := TypeArguments.openIn_cons id "<" (n.text :: before)
      rw [show TypeArguments.isPart (id "<") = false from TypeArguments.not_isPart_opening] at hcons
      exact hcons
    rw [NestedType.opening, List.reverse_append, List.reverse_append, List.append_assoc,
      List.append_assoc]
    refine ih (.inl ?_)
    rw [closes_append_of_isPart hparts]
    exact hopen

/-! ## Closers -/

/-- The tokens of closers of which none are split: three by three, and what is left. -/
def closerRuns : Nat → List String
  | 0 => []
  | 1 => [">"]
  | 2 => [">>"]
  | n + 3 => ">>>" :: closerRuns n

def closerPieces : Nat → List Piece
  | 0 => []
  | 1 => [⟨.symbol .greater, bytes ">"⟩]
  | 2 => [⟨.symbol .shiftRight, bytes ">>"⟩]
  | n + 3 => ⟨.symbol .shiftRightZero, bytes ">>>"⟩ :: closerPieces n

theorem pieces_replicate (n : Nat) : pieces (List.replicate n '>'.toUInt8) = closerPieces n := by
  fun_induction closerPieces n with
  | case1 => exact pieces_nil
  | case2 =>
    have hpieces := pieces_cons (w := bytes ">") (t := []) (k := .symbol .greater)
      (List.cons_ne_nil _ _) rfl
    rwa [pieces_nil] at hpieces
  | case3 =>
    have hpieces := pieces_cons (w := bytes ">>") (t := []) (k := .symbol .shiftRight)
      (List.cons_ne_nil _ _) rfl
    rwa [pieces_nil] at hpieces
  | case4 n ih =>
    have hfirst : first (bytes ">>>" ++ List.replicate n '>'.toUInt8) =
        ⟨.symbol .shiftRightZero, List.replicate n '>'.toUInt8⟩ := by
      cases n <;> rfl
    rw [← ih]
    exact pieces_cons (w := bytes ">>>") (List.cons_ne_nil _ _) hfirst

variable (settings : Settings) {before : List String}

theorem textsOnto_symbol {sym : Symbol} {text : String} (ps : List Piece) :
    settings.textsOnto before (⟨.symbol sym, bytes text⟩ :: ps) =
      settings.textsOnto (settings.texts before (.symbol sym) text ++ before) ps := by
  have htext : (Piece.mk (.symbol sym) (bytes text)).text? = some text := text?_of_isToken rfl rfl
  rw [Settings.textsOnto, htext]

/-- Where no type arguments are open, no run of closers is split, and none are open behind it. -/
theorem textsOnto_closerPieces (n : Nat) (h : TypeArguments.closes before = false) :
    settings.textsOnto before (closerPieces n) = (closerRuns n).reverse ++ before := by
  have hwhole (before : List String) (h : TypeArguments.closes before = false) (sym : Symbol)
      (text : String) : settings.texts before (.symbol sym) text = [text] := by
    rw [Settings.texts, h, Bool.and_false]
    rfl
  fun_induction closerPieces n generalizing before with
  | case1 => rfl
  | case2 =>
    rw [textsOnto_symbol, hwhole before h]
    rfl
  | case3 =>
    rw [textsOnto_symbol, hwhole before h]
    rfl
  | case4 n ih =>
    rw [textsOnto_symbol, hwhole before h, List.singleton_append,
      ih (TypeArguments.openIn_closerRun rfl before), closerRuns, List.reverse_cons, List.append_assoc]
    rfl

/-- Where type arguments are open, the first run of closers is split and no other one is. -/
theorem textsOnto_closerPieces_of_closes (hsplit : settings.splitClosers = true) (n : Nat)
    (h : TypeArguments.closes before = true) :
    settings.textsOnto before (closerPieces n) =
      (List.replicate (min n 3) ">" ++ closerRuns (n - 3)).reverse ++ before := by
  have hcloses (text : String) (hrun : TypeArguments.isCloserRun text = true)
      (hlen : 1 < text.utf8ByteSize) (sym : Symbol) :
      settings.texts before (.symbol sym) text = List.replicate text.utf8ByteSize ">" := by
    rw [Settings.texts, h, hsplit, hrun, decide_eq_true hlen]
    rfl
  rcases n with _ | _ | _ | n
  · rfl
  · have hone : settings.texts before (.symbol .greater) ">" = [">"] := rfl
    rw [closerPieces, textsOnto_symbol, hone]
    rfl
  · rw [closerPieces, textsOnto_symbol, hcloses ">>" rfl (by decide)]
    rfl
  · have hbehind : TypeArguments.closes (">" :: ">" :: ">" :: before) = false :=
      TypeArguments.openIn_closerRun rfl _
    rw [closerPieces, textsOnto_symbol, hcloses ">>>" rfl (by decide)]
    show settings.textsOnto (">" :: ">" :: ">" :: before) (closerPieces n) = _
    have hrest : n + 1 + 1 + 1 - 3 = n := rfl
    rw [textsOnto_closerPieces settings n hbehind, Nat.min_eq_right (Nat.le_add_left 3 n), hrest,
      List.reverse_append, List.reverse_replicate, List.append_assoc]
    rfl

/-! ## Types as they are read -/

theorem not_isCloserRun_opening (T : NestedType) :
    ∀ t ∈ T.opening, TypeArguments.isCloserRun t = false := by
  induction T with
  | name n =>
    rw [NestedType.opening, List.forall_mem_singleton]
    exact n.not_isCloserRun_text
  | applied n others last ih =>
    intro t ht
    rcases List.mem_append.mp ht with ht | ht
    · rcases List.mem_append.mp ht with ht | ht
      · rcases List.mem_pair.mp ht with rfl | rfl
        · exact n.not_isCloserRun_text
        · rfl
      · obtain ⟨o, -, ht⟩ := List.mem_flatMap.mp ht
        rcases List.mem_pair.mp ht with rfl | rfl
        · exact o.not_isCloserRun_text
        · rfl
    · exact ih t ht

theorem isCloserRun_closerRuns (n : Nat) :
    ∀ t ∈ closerRuns n, TypeArguments.isCloserRun t = true := by
  fun_induction closerRuns n with
  | case1 => exact nofun
  | case2 => decide
  | case3 => decide
  | case4 n ih =>
    rw [List.forall_mem_cons]
    exact ⟨rfl, ih⟩

/-- The tokens of a type are its opening, and its closers with the first run of them split. -/
theorem texts_of_nestedType (T : NestedType) (hsplit : settings.splitClosers = true) :
    (tokensOf settings (bytes T.text)).map Token.text =
      T.opening ++ (List.replicate (min T.depth 3) ">" ++ closerRuns (T.depth - 3)) := by
  obtain ⟨ps, hps, -, honto⟩ := puts_opening T (t := []) rfl
  rw [List.append_nil, List.append_nil, pieces_replicate] at hps
  rw [map_text_tokensOf, hps, textsOnto_append, honto]
  have hclosers : settings.textsOnto (T.opening.reverse ++ []) (closerPieces T.depth) =
      (List.replicate (min T.depth 3) ">" ++ closerRuns (T.depth - 3)).reverse ++
        (T.opening.reverse ++ []) := by
    rcases Nat.eq_zero_or_pos T.depth with hzero | hpos
    · rw [hzero]
      rfl
    · exact textsOnto_closerPieces_of_closes settings hsplit _ (closes_opening T (.inr hpos))
  rw [hclosers, List.append_nil, List.reverse_append, List.reverse_reverse, List.reverse_reverse]

/-- Of up to four closers each one is a token of its own: the fourth is left alone behind the run
that is split. -/
theorem each_closer_iff (n : Nat) :
    let closers := List.replicate (min n 3) ">" ++ closerRuns (n - 3)
    (closers.count ">" = n ∧ ">>" ∉ closers ∧ ">>>" ∉ closers) ↔ n ≤ 4 := by
  intro closers
  constructor
  · rintro ⟨-, htwo, hthree⟩
    rw [← Nat.not_lt]
    intro hlt
    obtain ⟨m, rfl⟩ : ∃ m, n = m + 5 := ⟨n - 5, by omega⟩
    have hmin : min (m + 5) 3 = 3 := Nat.min_eq_right (by omega)
    cases m with
    | zero => exact htwo (by simp [closers, closerRuns])
    | succ m => exact hthree (by simp [closers, closerRuns])
  · intro hle
    have hall : ∀ n, n < 5 →
        (List.replicate (min n 3) ">" ++ closerRuns (n - 3)).count ">" = n ∧
          ">>" ∉ List.replicate (min n 3) ">" ++ closerRuns (n - 3) ∧
          ">>>" ∉ List.replicate (min n 3) ">" ++ closerRuns (n - 3) := by
      decide
    exact hall n (Nat.lt_succ_of_le hle)

/-- The closers of a type that is nested to some depth are tokens of their own up to the third one,
and behind it runs of three and what is left.  So each one is a token of its own exactly up to depth
four. -/
theorem lex_nestedType (T : NestedType) (hsize : T.text.utf8ByteSize ≤ maxOffset) :
    ∃ listing : Listing, lex {} T.text = .ok listing ∧
      let texts := listing.tokens.toList.map Token.text
      texts.filter TypeArguments.isCloserRun =
        List.replicate (min T.depth 3) ">" ++ closerRuns (T.depth - 3) ∧
      ((texts.count ">" = T.depth ∧ ">>" ∉ texts ∧ ">>>" ∉ texts) ↔ T.depth ≤ 4) := by
  have hsource : Settings.source {} T.text = T.plain.text := T.plain_text
  have htexts : (tokensOf {} (bytes (Settings.source {} T.text))).map Token.text =
      T.plain.opening ++ (List.replicate (min T.depth 3) ">" ++ closerRuns (T.depth - 3)) := by
    rw [hsource, texts_of_nestedType {} T.plain rfl, T.depth_plain]
  refine ⟨_, lex_eq (Settings.utf8ByteSize_source_le {} hsize), ?_⟩
  intro texts
  have hopening : T.plain.opening.filter TypeArguments.isCloserRun = [] := by
    rw [List.filter_eq_nil_iff]
    intro t ht hrun
    rw [not_isCloserRun_opening T.plain t ht] at hrun
    cases hrun
  have hclosers : texts.filter TypeArguments.isCloserRun =
      List.replicate (min T.depth 3) ">" ++ closerRuns (T.depth - 3) := by
    rw [show texts = _ from htexts, List.filter_append, hopening, List.nil_append,
      List.filter_eq_self]
    intro t ht
    rcases List.mem_append.mp ht with ht | ht
    · rw [List.eq_of_mem_replicate ht]
      rfl
    · exact isCloserRun_closerRuns _ t ht
  refine ⟨hclosers, ?_⟩
  have hcount : texts.count ">" = (texts.filter TypeArguments.isCloserRun).count ">" :=
    (List.count_filter rfl).symm
  have hmem (run : String) (hrun : TypeArguments.isCloserRun run = true) :
      run ∈ texts ↔ run ∈ texts.filter TypeArguments.isCloserRun := by
    rw [List.mem_filter, hrun, and_iff_left rfl]
  rw [hcount, hmem ">>" rfl, hmem ">>>" rfl, hclosers]
  exact each_closer_iff T.depth

/-- At depth four with further arguments, the closer behind the first three is on its own. -/
theorem lex_nestedType_four : ∃ T : NestedType, T.text = "Map<K,V_1,List<Set<Set<A>>>>" ∧
    ∃ listing : Listing, lex {} T.text = .ok listing ∧
      let texts := listing.tokens.toList.map Token.text
      texts.count ">" = 4 ∧ ">>" ∉ texts ∧ ">>>" ∉ texts := by
  let name (text : String) (h : Word.isIdentifier text = true)
    (hc : text.toList.head?.any Char.isUpper = true) : TypeName := ⟨text, h, hc⟩
  let A := name "A" rfl (by decide)
  let K := name "K" rfl (by decide)
  let V := name "V_1" rfl (by decide)
  let Map := name "Map" rfl (by decide)
  let List := name "List" rfl (by decide)
  let Set := name "Set" rfl (by decide)
  let T : NestedType :=
    .applied Map [K, V] (.applied List [] (.applied Set [] (.applied Set [] (.name A))))
  obtain ⟨listing, hlex, -, hiff⟩ := lex_nestedType T (by decide)
  exact ⟨T, rfl, listing, hlex, hiff.mpr (by decide)⟩

/-- At depth five the last two closers stay one token, as looking back from them meets the third. -/
theorem lex_nestedType_five : ∃ T : NestedType, T.text = "A<A<A<A<A<A>>>>>" ∧ T.depth = 5 ∧
    ∃ listing : Listing, lex {} T.text = .ok listing ∧
      let texts := listing.tokens.toList.map Token.text
      texts = ["A", "<", "A", "<", "A", "<", "A", "<", "A", "<", "A", ">", ">", ">", ">>"] ∧
      ¬ (texts.count ">" = T.depth ∧ ">>" ∉ texts ∧ ">>>" ∉ texts) := by
  let A : TypeName := ⟨"A", rfl, by decide⟩
  let T : NestedType := .applied A [] (.applied A [] (.applied A [] (.applied A []
    (.applied A [] (.name A)))))
  have htexts : (lex {} "A<A<A<A<A<A>>>>>").toOption.map (fun l => l.tokens.toList.map Token.text) =
      some ["A", "<", "A", "<", "A", "<", "A", "<", "A", "<", "A", ">", ">", ">", ">>"] := by
    decide +kernel
  cases hlex : lex {} "A<A<A<A<A<A>>>>>" with
  | error fault =>
    rw [hlex] at htexts
    cases htexts
  | ok listing =>
    rw [hlex] at htexts
    have hlisting : listing.tokens.toList.map Token.text = _ := Option.some.inj htexts
    refine ⟨T, rfl, rfl, listing, hlex, hlisting, ?_⟩
    rw [hlisting]
    rintro ⟨-, hshift, -⟩
    exact hshift (by decide)

end JavaTokens
