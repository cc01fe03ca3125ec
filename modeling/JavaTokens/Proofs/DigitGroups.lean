import JavaTokens.Proofs.AsciiClasses
import JavaTokens.Proofs.Context
import JavaTokens.Proofs.NumeralTexts

/-!
# Digits in groups

A separator between two digits is left out, and both of them are used up: the next one needs a digit
of its own before it.  So all groups are joined if every group between two others has two digits or
more.  A single digit there keeps a separator, and the numeral ends before the first one kept.

    groups of two digits or more are joined                           (plainBytes_separated)
    a single digit between two groups keeps a separator               (separator_mem_plainBytes)
    whether digits in groups are one token                            (lex_digitGroups)
    groups so long that they are cut                                  (lex_digitGroups_overlong)
-/

namespace JavaTokens

open Text Ascii

namespace Numeral

variable {b : UInt8} {g : List UInt8} {gs : List (List UInt8)}

/-! ## Groups made plain -/

/-- Groups of digits with a separator before each of them. -/
def separated (gs : List (List UInt8)) : List UInt8 := gs.flatMap fun g => '_'.toUInt8 :: g

/-- One digit or more. -/
structure IsDigitBytes (g : List UInt8) : Prop where
  ne_nil : g ≠ []
  isDigit : ∀ b ∈ g, isDigit b = true

theorem plainBytes_of_isDigit (h : ∀ b ∈ g, isDigit b = true) : plainBytes g = g := by
  refine plainBytes_eq_self ?_
  intro b hb
  have hdigit := h b hb
  constructor
  · rintro rfl
    cases hdigit
  · rintro rfl
    cases hdigit

/-- Between two digits a separator is left out, and both digits are used up. -/
theorem plainBytes_append_separator (hg : IsDigitBytes g) (hb : isDigit b = true)
    (s : List UInt8) : plainBytes (g ++ '_'.toUInt8 :: b :: s) = g ++ b :: plainBytes s := by
  obtain ⟨hne, hdigits⟩ := hg
  induction g with
  | nil => exact absurd rfl hne
  | cons a g ih =>
    rw [List.forall_mem_cons] at hdigits
    rcases g with _ | ⟨c, g⟩
    · have hdrops : dropsMiddleByte a '_'.toUInt8 b = true := by
        rw [dropsMiddleByte, hdigits.1, hb]
        rfl
      show plainBytes (a :: '_'.toUInt8 :: b :: s) = a :: b :: plainBytes s
      rw [plainBytes, if_pos hdrops]
    · have hc : isDigit c = true := hdigits.2 c List.mem_cons_self
      have hrest := ih (List.cons_ne_nil c g) hdigits.2
      rw [List.cons_append, List.cons_append, plainBytes_cons (dropsNextByte_of_isDigit hc a _)]
      exact congrArg (a :: ·) hrest

/-- The digits of the first group are used up, and one of the next group. -/
theorem plainBytes_separated_cons (hg : IsDigitBytes g) (hb : isDigit b = true)
    (h : List UInt8) (gs : List (List UInt8)) :
    plainBytes (g ++ separated ((b :: h) :: gs)) = g ++ b :: plainBytes (h ++ separated gs) :=
  plainBytes_append_separator hg hb (h ++ separated gs)

/-- All digits of the first group stay. -/
theorem exists_plainBytes_separated (hg : IsDigitBytes g) (hgs : ∀ h ∈ gs, IsDigitBytes h) :
    ∃ s, plainBytes (g ++ separated gs) = g ++ s := by
  rcases gs with _ | ⟨h, gs⟩
  · refine ⟨[], ?_⟩
    show plainBytes (g ++ []) = g ++ []
    rw [List.append_nil, plainBytes_of_isDigit hg.isDigit]
  · have hh := hgs h List.mem_cons_self
    obtain ⟨b, h, rfl⟩ := List.exists_cons_of_ne_nil hh.ne_nil
    exact ⟨_, plainBytes_separated_cons hg (hh.isDigit b List.mem_cons_self) h gs⟩

/-- Groups with digits for both sides are joined. -/
theorem plainBytes_separated (hg : IsDigitBytes g) (hgs : ∀ h ∈ gs, IsDigitBytes h)
    (hlong : ∀ h ∈ gs.dropLast, 2 ≤ h.length) :
    plainBytes (g ++ separated gs) = g ++ gs.flatten := by
  induction gs generalizing g with
  | nil =>
    show plainBytes (g ++ []) = g ++ []
    rw [List.append_nil, plainBytes_of_isDigit hg.isDigit]
  | cons h gs ih =>
    rw [List.forall_mem_cons] at hgs
    obtain ⟨b, h, rfl⟩ := List.exists_cons_of_ne_nil hgs.1.ne_nil
    have hdigits := hgs.1.isDigit
    rw [List.forall_mem_cons] at hdigits
    rw [plainBytes_separated_cons hg hdigits.1, List.flatten_cons, List.cons_append]
    rcases gs with _ | ⟨k, gs⟩
    · show g ++ b :: plainBytes (h ++ []) = g ++ b :: (h ++ [])
      rw [List.append_nil, plainBytes_of_isDigit hdigits.2]
    · rw [List.dropLast_cons_cons, List.forall_mem_cons] at hlong
      have hne : h ≠ [] := by
        rintro rfl
        exact absurd hlong.1 (Nat.not_succ_le_self 1)
      rw [ih ⟨hne, hdigits.2⟩ hgs.2 hlong.2]

/-- A group with one digit between two others keeps a separator. -/
theorem separator_mem_plainBytes (hg : IsDigitBytes g) (hgs : ∀ h ∈ gs, IsDigitBytes h)
    (hshort : ∃ h ∈ gs.dropLast, ¬ 2 ≤ h.length) :
    '_'.toUInt8 ∈ plainBytes (g ++ separated gs) := by
  induction gs generalizing g with
  | nil =>
    obtain ⟨h, hh, -⟩ := hshort
    cases hh
  | cons h gs ih =>
    rw [List.forall_mem_cons] at hgs
    obtain ⟨b, h, rfl⟩ := List.exists_cons_of_ne_nil hgs.1.ne_nil
    have hdigits := hgs.1.isDigit
    rw [List.forall_mem_cons] at hdigits
    rw [plainBytes_separated_cons hg hdigits.1]
    refine List.mem_append_right g (List.mem_cons_of_mem b ?_)
    obtain ⟨k, hk, hlength⟩ := hshort
    rcases gs with _ | ⟨h', gs⟩
    · cases hk
    · rw [List.dropLast_cons_cons, List.mem_cons] at hk
      rcases h with _ | ⟨c, h⟩
      · have hstays : plainBytes (separated (h' :: gs)) = '_'.toUInt8 :: plainBytes _ :=
          plainBytes_cons (dropsNextByte_of_not_isDigit rfl (h' ++ separated gs))
        rw [List.nil_append, hstays]
        exact List.mem_cons_self
      · refine ih ⟨List.cons_ne_nil c h, hdigits.2⟩ hgs.2 ⟨k, hk.resolve_left ?_, hlength⟩
        rintro rfl
        exact hlength (Nat.le_add_left 2 h.length)

/-- No separator is left if every group between two others has two digits or more, and only then. -/
theorem separator_not_mem_plainBytes_iff (hg : IsDigitBytes g) (hgs : ∀ h ∈ gs, IsDigitBytes h) :
    '_'.toUInt8 ∉ plainBytes (g ++ separated gs) ↔ ∀ h ∈ gs.dropLast, 2 ≤ h.length := by
  constructor
  · intro hnone
    by_contra hshort
    simp only [not_forall, exists_prop] at hshort
    exact hnone (separator_mem_plainBytes hg hgs hshort)
  · intro hlong hmem
    rw [plainBytes_separated hg hgs hlong, List.mem_append, List.mem_flatten] at hmem
    rcases hmem with hmem | ⟨h, hh, hmem⟩
    · cases hg.isDigit _ hmem
    · cases (hgs h hh).isDigit _ hmem

theorem isGroups_separated (hg : IsDigitBytes g) (hgs : ∀ h ∈ gs, IsDigitBytes h) :
    Cut.IsGroups isDigit (g ++ separated gs) where
  begins := by
    obtain ⟨b, g, rfl⟩ := List.exists_cons_of_ne_nil hg.ne_nil
    exact hg.isDigit b List.mem_cons_self
  mem b hb := by
    rcases List.mem_append.mp hb with hb | hb
    · exact .inl (hg.isDigit b hb)
    · obtain ⟨h, hh, hb⟩ := List.mem_flatMap.mp hb
      rcases List.mem_cons.mp hb with rfl | hb
      · exact .inr rfl
      · exact .inl ((hgs h hh).isDigit b hb)

/-! ## Groups by their characters -/

/-- One decimal digit or more. -/
structure IsDigits (g : String) : Prop where
  ne_empty : g ≠ ""
  isDigit : ∀ c ∈ g.toList, c.isDigit = true

instance (g : String) : Decidable (IsDigits g) :=
  decidable_of_iff (g ≠ "" ∧ g.toList.all Char.isDigit = true)
    ⟨fun h => ⟨h.1, List.all_eq_true.mp h.2⟩, fun h => ⟨h.ne_empty, List.all_eq_true.mpr h.isDigit⟩⟩

/-- What may stand behind the digits of a decimal numeral. -/
def decimalSuffixes : List String := ["", "l", "L", "f", "F", "d", "D"]

theorem IsDigits.bytes {g : String} (h : IsDigits g) :
    IsDigitBytes (bytes g) ∧ (bytes g).length = g.length := by
  obtain ⟨hdigit, hlength⟩ := asciiClass_isDigit.flatMap_of_all h.isDigit
  refine ⟨⟨?_, hdigit⟩, hlength.trans String.length_toList⟩
  intro hnil
  exact h.ne_empty (bytes_inj hnil)

theorem bytes_intercalate_separator (g : String) (gs : List String) :
    Text.bytes ("_".intercalate (g :: gs)) = Text.bytes g ++ separated (gs.map Text.bytes) := by
  induction gs generalizing g with
  | nil =>
    rw [String.intercalate_singleton, List.map_nil, separated, List.flatMap_nil, List.append_nil]
  | cons h gs ih =>
    rw [String.intercalate_cons_cons, bytes_append, bytes_append, ih, List.append_assoc]
    rfl

theorem bytes_join (gs : List String) :
    Text.bytes (String.join gs) = (gs.map Text.bytes).flatten := by
  induction gs with
  | nil => rfl
  | cons g gs ih => rw [String.join_cons, bytes_append, ih, List.map_cons, List.flatten_cons]

end Numeral

/-! ## Reading -/

namespace Cut

open Numeral

variable {g e : List UInt8} {n : Nat}

theorem IsGroups.take {p : UInt8 → Bool} (hg : IsGroups p g) (hn : 0 < n) :
    IsGroups p (g.take n) where
  begins := by
    obtain ⟨b, t, rfl, hb⟩ := exists_cons_of_begins hg.begins
    obtain ⟨n, rfl⟩ := Nat.exists_eq_add_of_le' hn
    exact hb
  mem b hb := hg.mem b (List.mem_of_mem_take hb)

theorem isSuffix_take {q : UInt8 → Bool} (he : isSuffix q e = true) (n : Nat) :
    isSuffix q (e.take n) = true := by
  rcases isSuffix_iff.mp he with rfl | ⟨b, rfl, hb⟩
  · rw [List.take_nil]
    rfl
  · rcases n with _ | n
    · rfl
    · rwa [List.take_succ_cons, List.take_nil]

theorem IsGroups.ascii_append (hg : IsGroups isDigit g) (he : isSuffix isNumberSuffix e = true) :
    ∀ b ∈ g ++ e, b < 0x80 := by
  have hdigit {b : UInt8} (hb : isDigit b = true) : b < 0x80 := asciiClass_isDigit.ascii b hb
  intro b hb
  rcases List.mem_append.mp hb with hb | hb
  · rcases hg.mem b hb with hb | rfl
    · exact hdigit hb
    · decide
  · rcases isSuffix_iff.mp he with rfl | ⟨c, rfl, hc⟩
    · cases hb
    · obtain rfl := List.mem_singleton.mp hb
      rw [isNumberSuffix_iff] at hc
      rw [UInt8.lt_iff_toNat_lt]
      show b.toNat < 128
      omega

theorem StopsAtSeparator.ne_nil {s : List UInt8} (h : StopsAtSeparator s) : s ≠ [] := by
  rintro rfl
  obtain ⟨shape, hfirst⟩ := h.first
  cases hfirst

/-- A decimal numeral that is cut is read up to its first separator as well. -/
theorem stopsAtSeparator_take (hg : IsGroups isDigit g) (he : isSuffix isNumberSuffix e = true)
    (hn : 0 < n) : StopsAtSeparator ((g ++ e).take n) := by
  rw [List.take_append]
  exact stopsAtSeparator_of_decimal (hg.take hn) (isSuffix_take he _)

end Cut

open Numeral

variable {w : String}

/-- Where a text is read as a numeral up to its first separator, it is one token if it has none, and
otherwise two. -/
theorem puts_of_stopsAtSeparator (h : Cut.StopsAtSeparator (bytes w)) :
    Puts (if '_' ∈ w.toList then [beforeSeparator w, fromSeparator w] else [w]) (bytes w) [] := by
  have hbefore := (puts_beforeSeparator h).1
  split
  · next hmem => exact hbefore.trans (puts_fromSeparator h hmem).1
  · next hmem =>
    obtain ⟨hall, hnothing⟩ := fromSeparator_of_not_mem hmem
    rwa [hall, hnothing] at hbefore

theorem kind_of_stopsAtSeparator (h : Cut.StopsAtSeparator (bytes w)) (hw : '_' ∉ w.toList) :
    Kind.ofText w = .numeral := by
  have hkind := (puts_beforeSeparator h).2
  rwa [(fromSeparator_of_not_mem hw).1] at hkind

section

variable {g suffix : String} {gs : List String} (hg : IsDigits g) (hgs : ∀ h ∈ gs, IsDigits h)
  (hsuffix : suffix ∈ decimalSuffixes)

include hsuffix in
theorem isSuffix_of_mem_decimalSuffixes : isSuffix isNumberSuffix (bytes suffix) = true := by
  have hall : ∀ w ∈ decimalSuffixes, isSuffix isNumberSuffix (bytes w) = true := by decide
  exact hall suffix hsuffix

include hsuffix in
/-- Of digits in groups the groups are made plain. -/
theorem bytes_plain_groups :
    bytes (plain ("_".intercalate (g :: gs) ++ suffix)) =
      plainBytes (bytes g ++ separated (gs.map bytes)) ++ bytes suffix := by
  rw [bytes_plain, bytes_append, bytes_intercalate_separator,
    Cut.plainBytes_append_suffix (isSuffix_of_mem_decimalSuffixes hsuffix)]

include hg hgs

theorem isDigitBytes_map : IsDigitBytes (bytes g) ∧ ∀ h ∈ gs.map bytes, IsDigitBytes h := by
  refine ⟨hg.bytes.1, ?_⟩
  intro h hh
  obtain ⟨h, hmem, rfl⟩ := List.mem_map.mp hh
  exact (hgs h hmem).bytes.1

theorem isGroups_plainBytes :
    Cut.IsGroups isDigit (plainBytes (bytes g ++ separated (gs.map bytes))) := by
  obtain ⟨hfirst, hrest⟩ := isDigitBytes_map hg hgs
  exact (isGroups_separated hfirst hrest).plainBytes

include hsuffix in
/-- What is read of digits in groups is a text, and a numeral up to the first separator. -/
theorem exists_text_of_groups : ∃ w : String,
    bytes w = (bytes (plain ("_".intercalate (g :: gs) ++ suffix))).take maxOffset ∧
      Cut.StopsAtSeparator (bytes w) := by
  have he := isSuffix_of_mem_decimalSuffixes hsuffix
  have hgroups := isGroups_plainBytes hg hgs
  have hread := Cut.stopsAtSeparator_take hgroups he (n := maxOffset) (by decide)
  have hascii := hgroups.ascii_append he
  rw [← bytes_plain_groups hsuffix] at hread hascii
  have hends := AsciiEnds.of_all hread.ne_nil fun b hb => hascii b (List.mem_of_mem_take hb)
  have hsplit := (List.nil_append _).trans (List.take_append_drop maxOffset
    (bytes (plain ("_".intercalate (g :: gs) ++ suffix))))
  obtain ⟨-, w, -, -, hw, -⟩ := hends.exists_texts hsplit.symm
  refine ⟨w, hw.symm, ?_⟩
  rwa [← hw]

include hsuffix in
/-- Digits in groups are listed, as one token or as two. -/
theorem exists_listing_of_groups : ∃ (w : String) (listing : Listing),
    bytes w = (bytes (plain ("_".intercalate (g :: gs) ++ suffix))).take maxOffset ∧
      Cut.StopsAtSeparator (bytes w) ∧
      lex {} ("_".intercalate (g :: gs) ++ suffix) = .ok listing ∧ listing.diagnostics = [] ∧
      listing.tokens.toList.map Token.text =
        if '_' ∈ w.toList then [beforeSeparator w, fromSeparator w] else [w] := by
  obtain ⟨w, hw, hread⟩ := exists_text_of_groups hg hgs hsuffix
  have hsource : bytes w =
      (bytes (Settings.source {} ("_".intercalate (g :: gs) ++ suffix))).take maxOffset := hw
  obtain ⟨listing, hlex, hnone, htexts⟩ :=
    (puts_of_stopsAtSeparator hread).exists_listing_of_take hsource
  exact ⟨w, listing, hw, hread, hlex, hnone, htexts⟩

omit hg in
theorem two_le_length_iff :
    (∀ h ∈ (gs.map bytes).dropLast, 2 ≤ h.length) ↔ ∀ h ∈ gs.dropLast, 2 ≤ h.length := by
  have hlength : ∀ h ∈ gs.dropLast, 2 ≤ (bytes h).length ↔ 2 ≤ h.length := by
    intro h hh
    rw [(hgs h ((List.dropLast_sublist gs).subset hh)).bytes.2]
  rw [← List.map_dropLast, List.forall_mem_map]
  exact forall₂_congr hlength

include hsuffix in
theorem separator_not_mem_plain_iff :
    '_' ∉ (plain ("_".intercalate (g :: gs) ++ suffix)).toList ↔
      ∀ h ∈ gs.dropLast, 2 ≤ h.length := by
  obtain ⟨hfirst, hrest⟩ := isDigitBytes_map hg hgs
  have he : '_'.toUInt8 ∉ bytes suffix := by
    have hall : ∀ w ∈ decimalSuffixes, '_'.toUInt8 ∉ bytes w := by decide
    exact hall suffix hsuffix
  rw [← mem_bytes_iff (b := '_'.toUInt8) rfl (by decide), bytes_plain_groups hsuffix,
    List.mem_append, or_iff_left he, separator_not_mem_plainBytes_iff hfirst hrest,
    two_le_length_iff hgs]

include hsuffix in
theorem plain_groups (hlong : ∀ h ∈ gs.dropLast, 2 ≤ h.length) :
    plain ("_".intercalate (g :: gs) ++ suffix) = String.join (g :: gs) ++ suffix := by
  obtain ⟨hfirst, hrest⟩ := isDigitBytes_map hg hgs
  apply bytes_inj
  rw [bytes_plain_groups hsuffix,
    plainBytes_separated hfirst hrest ((two_le_length_iff hgs).mpr hlong), bytes_append, bytes_join,
    List.map_cons, List.flatten_cons]

end

/-- Digits in groups with a suffix lead to no diagnostics.  Where the plain text is not cut, they are
one token just if every group between two others has two digits or more, and then a numeral of all
the digits and the suffix. -/
theorem lex_digitGroups (groups : List String) (suffix : String) (hne : groups ≠ [])
    (hgroups : ∀ g ∈ groups, IsDigits g) (hsuffix : suffix ∈ decimalSuffixes) :
    ∃ listing : Listing, lex {} ("_".intercalate groups ++ suffix) = .ok listing ∧
      listing.diagnostics = [] ∧
      ((plain ("_".intercalate groups ++ suffix)).utf8ByteSize ≤ maxOffset →
        (listing.tokens.size = 1 ↔ ∀ g ∈ groups.tail.dropLast, 2 ≤ g.length) ∧
        ((∀ g ∈ groups.tail.dropLast, 2 ≤ g.length) →
          listing.tokens.toList.map (fun t => (t.text, t.kind)) =
            [(String.join groups ++ suffix, .numeral)])) := by
  obtain ⟨g, gs, rfl⟩ := List.exists_cons_of_ne_nil hne
  obtain ⟨hg, hgs⟩ := List.forall_mem_cons.mp hgroups
  obtain ⟨w, listing, hw, hread, hlex, hnone, htexts⟩ := exists_listing_of_groups hg hgs hsuffix
  refine ⟨listing, hlex, hnone, ?_⟩
  intro hsize
  obtain rfl : w = plain ("_".intercalate (g :: gs) ++ suffix) := by
    rw [List.take_of_length_le (by rwa [length_bytes])] at hw
    exact bytes_inj hw
  have hiff := separator_not_mem_plain_iff hg hgs hsuffix
  rw [List.tail_cons, ← hiff]
  constructor
  · rw [← Array.length_toList, ← List.length_map (f := Token.text), htexts]
    split
    · next hmem => exact iff_of_false (by simp) (fun hnot => hnot hmem)
    · next hmem => exact iff_of_true rfl hmem
  · intro hmem
    have hkinds : listing.tokens.toList.map (fun t => (t.text, t.kind)) =
        (listing.tokens.toList.map Token.text).map fun text => (text, Kind.ofText text) := by
      rw [List.map_map]
      rfl
    rw [hkinds, htexts, if_neg hmem, List.map_singleton, kind_of_stopsAtSeparator hread hmem,
      plain_groups hg hgs hsuffix (hiff.mp hmem)]

/-- Two digits between others are joined with these, and a single one is not. -/
theorem lex_digitGroups_inner :
    (∃ listing : Listing, lex {} "1_00_2L" = .ok listing ∧ listing.diagnostics = [] ∧
      listing.tokens.toList.map (fun t => (t.text, t.kind)) = [("1002L", .numeral)]) ∧
    ∃ listing : Listing, lex {} "1_0_2L" = .ok listing ∧ listing.diagnostics = [] ∧
      listing.tokens.size ≠ 1 := by
  constructor
  · obtain ⟨listing, hlex, hnone, hlisting⟩ :=
      lex_digitGroups ["1", "00", "2"] "L" (by decide) (by decide) (by decide)
    exact ⟨listing, hlex, hnone, (hlisting (by decide)).2 (by decide)⟩
  · obtain ⟨listing, hlex, hnone, hlisting⟩ :=
      lex_digitGroups ["1", "0", "2"] "L" (by decide) (by decide) (by decide)
    exact ⟨listing, hlex, hnone, (hlisting (by decide)).1.not.mpr (by decide)⟩

/-! ## Groups that are cut -/

section

variable {g suffix : String} {gs : List String} (hg : IsDigits g) (hgs : ∀ h ∈ gs, IsDigits h)
  (hsuffix : suffix ∈ decimalSuffixes)

include hg hgs hsuffix

/-- A token of all the digits would be longer than what is read. -/
theorem exists_listing_of_overlong
    (hsize : maxOffset < (String.join (g :: gs) ++ suffix).utf8ByteSize) :
    ∃ listing : Listing, lex {} ("_".intercalate (g :: gs) ++ suffix) = .ok listing ∧
      listing.tokens.toList.map Token.text ≠ [String.join (g :: gs) ++ suffix] := by
  obtain ⟨w, listing, hw, -, hlex, -, htexts⟩ := exists_listing_of_groups hg hgs hsuffix
  refine ⟨listing, hlex, ?_⟩
  rw [htexts]
  split
  · simp
  · rintro ⟨⟩
    have hlength := congrArg List.length hw
    rw [List.length_take, length_bytes] at hlength
    omega

/-- Behind a first group that is too long, no separator is read. -/
theorem exists_listing_of_overlong_first (hsize : maxOffset ≤ g.utf8ByteSize) :
    ∃ listing : Listing, lex {} ("_".intercalate (g :: gs) ++ suffix) = .ok listing ∧
      listing.tokens.size = 1 := by
  obtain ⟨w, listing, hw, -, hlex, -, htexts⟩ := exists_listing_of_groups hg hgs hsuffix
  refine ⟨listing, hlex, ?_⟩
  obtain ⟨hfirst, hrest⟩ := isDigitBytes_map hg hgs
  obtain ⟨s, hs⟩ := exists_plainBytes_separated hfirst hrest
  have hnone : '_' ∉ w.toList := by
    rw [← mem_bytes_iff (b := '_'.toUInt8) rfl (by decide), hw, bytes_plain_groups hsuffix, hs,
      List.append_assoc, List.take_append_of_le_length (by rwa [length_bytes])]
    intro hmem
    cases hfirst.isDigit _ (List.mem_of_mem_take hmem)
  rw [← Array.length_toList, ← List.length_map (f := Token.text), htexts, if_neg hnone]
  rfl

end

def zeros (n : Nat) : String := String.ofList (List.replicate n '0')

theorem utf8ByteSize_zeros (n : Nat) : (zeros n).utf8ByteSize = n := by
  rw [← length_bytes, zeros, bytes_replicate (b := '0'.toUInt8) rfl, List.length_replicate]

theorem isDigits_zeros {n : Nat} (hn : 0 < n) : IsDigits (zeros n) where
  ne_empty := by
    intro hempty
    have hsize := utf8ByteSize_zeros n
    rw [hempty] at hsize
    exact Nat.ne_of_lt hn hsize
  isDigit c hc := by
    rw [zeros, String.toList_ofList] at hc
    rw [List.eq_of_mem_replicate hc]
    rfl

/-- Two groups of which the second one is too long are no token of all their digits.  Three groups of
which the first one is too long are one token, also with a single digit between the others. -/
theorem lex_digitGroups_overlong :
    IsDigits "1" ∧ IsDigits (zeros (2 ^ 32)) ∧
      (let groups := ["1", zeros (2 ^ 32)]
      groups.tail.dropLast = [] ∧
        ∃ listing : Listing, lex {} ("_".intercalate groups ++ "") = .ok listing ∧
          listing.tokens.toList.map Token.text ≠ [String.join groups ++ ""]) ∧
      let groups := [zeros (2 ^ 32), "1", "1"]
      groups.tail.dropLast = ["1"] ∧
        ∃ listing : Listing, lex {} ("_".intercalate groups ++ "") = .ok listing ∧
          listing.tokens.size = 1 := by
  have hsize : maxOffset < 2 ^ 32 := by decide
  generalize 2 ^ 32 = n at hsize ⊢
  have hone : IsDigits "1" := by decide
  have hzeros : IsDigits (zeros n) := isDigits_zeros (by omega)
  have hsuffix : "" ∈ decimalSuffixes := by decide
  refine ⟨hone, hzeros, ⟨rfl, ?_⟩, rfl, ?_⟩
  · refine exists_listing_of_overlong hone (by simpa using hzeros) hsuffix ?_
    have hlength : n ≤ (String.join ["1", zeros n] ++ "").utf8ByteSize := by
      rw [← length_bytes, bytes_append, bytes_join]
      simp [length_bytes, utf8ByteSize_zeros]
    exact Nat.lt_of_lt_of_le hsize hlength
  · refine exists_listing_of_overlong_first hzeros (by simpa using hone) hsuffix ?_
    rw [utf8ByteSize_zeros]
    exact hsize.le

end JavaTokens
