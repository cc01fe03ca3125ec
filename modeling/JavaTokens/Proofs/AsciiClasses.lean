import JavaTokens.Proofs.PlainBytes

/-!
# Classes of ASCII characters

A class of ASCII bytes is met in a text just where its characters stand, so what is told by bytes
can be said of characters.

    AsciiClass p q : the characters of q begin with the bytes of p, and are those bytes
    begins p (bytes of cs) = cs.head?.any q                           (begins_flatMap)
    dropUpTo p n takes characters of q only                           (exists_dropUpTo)
-/

namespace JavaTokens

open Text Ascii

/-- The ASCII bytes `p` are the characters `q`. -/
structure AsciiClass (p : UInt8 → Bool) (q : Char → Bool) : Prop where
  ascii : ∀ b, p b = true → b < 0x80
  first_eq : ∀ {c : Char} {b : UInt8} {t : List UInt8}, String.utf8EncodeChar c = b :: t → p b = q c

namespace AsciiClass

variable {p p' : UInt8 → Bool} {q q' : Char → Bool} {c : Char} {cs : List Char}

/-! ## Classes -/

theorem beq {d : Char} (hd : String.utf8EncodeChar d = [d.toUInt8]) (hascii : d.toUInt8 < 0x80) :
    AsciiClass (· == d.toUInt8) (· == d) where
  ascii _ hb := eq_of_beq hb ▸ hascii
  first_eq hc := Numeral.beq_of_utf8EncodeChar hc hd hascii

theorem or (h : AsciiClass p q) (h' : AsciiClass p' q') :
    AsciiClass (fun b => p b || p' b) (fun c => q c || q' c) where
  ascii b hb := ((Bool.or_eq_true _ _).mp hb).elim (h.ascii b) (h'.ascii b)
  first_eq hc := by rw [h.first_eq hc, h'.first_eq hc]

/-- A range of characters. -/
theorem between {lo hi : Char} (hlo : lo.toNat < 0x80) (hhi : hi.toNat < 0x80) :
    AsciiClass (fun b => lo.toUInt8 ≤ b && b ≤ hi.toUInt8) (fun c => lo ≤ c && c ≤ hi) := by
  have hnat {d : Char} (hd : d.toNat < 0x80) : d.toUInt8.toNat = d.toNat := by
    show d.toNat % 256 = d.toNat
    omega
  have hbyte (b : UInt8) : (decide (lo.toUInt8 ≤ b) && decide (b ≤ hi.toUInt8)) = true ↔
      lo.toNat ≤ b.toNat ∧ b.toNat ≤ hi.toNat := by
    rw [Bool.and_eq_true, decide_eq_true_eq, decide_eq_true_eq, UInt8.le_iff_toNat_le,
      UInt8.le_iff_toNat_le, hnat hlo, hnat hhi]
  have hchar (c : Char) : (decide (lo ≤ c) && decide (c ≤ hi)) = true ↔
      lo.toNat ≤ c.toNat ∧ c.toNat ≤ hi.toNat := by
    rw [Bool.and_eq_true, decide_eq_true_eq, decide_eq_true_eq]
    exact Iff.rfl
  constructor
  · intro b hb
    rw [hbyte] at hb
    rw [UInt8.lt_iff_toNat_lt]
    show b.toNat < 128
    omega
  · intro c b t hc
    rw [Bool.eq_iff_iff, hbyte, hchar]
    rcases utf8EncodeChar_cases c with ⟨hlt, hone⟩ | ⟨hle, hbeyond⟩
    · rw [hc, List.cons.injEq] at hone
      rw [hone.1, UInt8.toNat_ofNat']
      omega
    · rw [hc, begins_cons, isBeyondAscii_iff] at hbeyond
      omega

/-! ## Bytes of characters in a class -/

/-- A character of the class is a byte of it. -/
theorem exists_byte (h : AsciiClass p q) (hc : q c = true) :
    ∃ b, String.utf8EncodeChar c = [b] ∧ p b = true := by
  obtain ⟨b, t, hb, -⟩ := utf8EncodeChar_shape c
  have hp : p b = true := by rw [h.first_eq hb, hc]
  obtain rfl := utf8EncodeChar_of_ascii hb (h.ascii b hp)
  exact ⟨b, hb, hp⟩

theorem flatMap_of_all (h : AsciiClass p q) (hcs : ∀ c ∈ cs, q c = true) :
    (∀ b ∈ cs.flatMap String.utf8EncodeChar, p b = true) ∧
      (cs.flatMap String.utf8EncodeChar).length = cs.length := by
  induction cs with
  | nil => exact ⟨nofun, rfl⟩
  | cons c cs ih =>
    rw [List.forall_mem_cons] at hcs
    obtain ⟨b, hb, hp⟩ := h.exists_byte hcs.1
    obtain ⟨hall, hlength⟩ := ih hcs.2
    rw [List.flatMap_cons, hb, List.singleton_append, List.forall_mem_cons, List.length_cons,
      List.length_cons, hlength]
    exact ⟨⟨hp, hall⟩, rfl⟩

/-! ## Steps over characters of a class -/

theorem begins_append (h : AsciiClass p q) (c : Char) (s : List UInt8) :
    begins p (String.utf8EncodeChar c ++ s) = q c := by
  obtain ⟨b, t, hb, -⟩ := utf8EncodeChar_shape c
  rw [hb, List.cons_append, begins_cons, h.first_eq hb]

theorem begins_flatMap (h : AsciiClass p q) (cs : List Char) :
    begins p (cs.flatMap String.utf8EncodeChar) = cs.head?.any q := by
  rcases cs with _ | ⟨c, cs⟩
  · rfl
  · rw [List.flatMap_cons, h.begins_append]
    rfl

theorem dropWhile_flatMap (h : AsciiClass p q) (cs : List Char) :
    (cs.flatMap String.utf8EncodeChar).dropWhile p =
      (cs.dropWhile q).flatMap String.utf8EncodeChar := by
  induction cs with
  | nil => rfl
  | cons c cs ih =>
    rw [List.flatMap_cons, List.dropWhile_cons]
    split
    · next hc =>
      obtain ⟨b, hb, hp⟩ := h.exists_byte hc
      rw [hb, List.singleton_append, List.dropWhile_cons_of_pos hp, ih]
    · next hc =>
      rw [dropWhile_of_not_begins, List.flatMap_cons]
      rw [h.begins_append]
      exact Bool.eq_false_iff.mpr hc

/-- No byte of a character that is not in the class is in it. -/
theorem not_mem_class (h : AsciiClass p q) (hc : q c = false) :
    ∀ b ∈ String.utf8EncodeChar c, p b = false := by
  intro b hb
  obtain ⟨a, t, hshape, -, -, ht⟩ := utf8EncodeChar_shape c
  rw [hshape] at hb
  rcases List.mem_cons.mp hb with rfl | hb
  · rw [h.first_eq hshape, hc]
  · rw [Bool.eq_false_iff]
    intro hp
    have hcont := ht b hb
    rw [isContinuation_of_ascii (h.ascii b hp)] at hcont
    cases hcont

/-- Up to the first byte of the class a text goes to its first character of it. -/
theorem dropWhile_not_flatMap (h : AsciiClass p q) (cs : List Char) :
    (cs.flatMap String.utf8EncodeChar).dropWhile (fun b => !p b) =
      (cs.dropWhile fun c => !q c).flatMap String.utf8EncodeChar := by
  induction cs with
  | nil => rfl
  | cons c cs ih =>
    cases hc : q c with
    | true =>
      obtain ⟨b, hb, hp⟩ := h.exists_byte hc
      rw [List.dropWhile_cons_of_neg (by simp [hc]), List.flatMap_cons, hb, List.singleton_append,
        List.dropWhile_cons_of_neg (by simp [hp])]
    | false =>
      rw [List.dropWhile_cons_of_pos (by simp [hc]), List.flatMap_cons, List.dropWhile_append_of_pos,
        ih]
      intro b hb
      rw [h.not_mem_class hc b hb]
      rfl

/-- What is taken of a text in at most `n` bytes of the class is as many characters of it. -/
theorem exists_dropUpTo (h : AsciiClass p q) (n : Nat) (cs : List Char) :
    ∃ u t, cs = u ++ t ∧ u.length ≤ n ∧ (∀ c ∈ u, q c = true) ∧
      dropUpTo p n (cs.flatMap String.utf8EncodeChar) = t.flatMap String.utf8EncodeChar := by
  induction n generalizing cs with
  | zero => exact ⟨[], cs, rfl, Nat.le_refl 0, nofun, rfl⟩
  | succ n ih =>
    rw [dropUpTo, h.begins_flatMap]
    split
    · next hc =>
      rcases cs with _ | ⟨c, cs⟩
      · cases hc
      · obtain ⟨b, hb, -⟩ := h.exists_byte hc
        obtain ⟨u, t, rfl, hlength, hall, hdrop⟩ := ih cs
        refine ⟨c :: u, t, rfl, Nat.succ_le_succ hlength, List.forall_mem_cons.mpr ⟨hc, hall⟩, ?_⟩
        rw [List.flatMap_cons, hb, List.singleton_append, List.drop_succ_cons, List.drop_zero,
          hdrop]
    · exact ⟨[], cs, rfl, Nat.zero_le _, nofun, rfl⟩

end AsciiClass

theorem asciiClass_isDigit : AsciiClass isDigit Char.isDigit where
  ascii b hb := by
    rw [isDigit_iff] at hb
    exact Nat.lt_of_le_of_lt hb.2 (by decide)
  first_eq := Numeral.isDigit_of_utf8EncodeChar

end JavaTokens
