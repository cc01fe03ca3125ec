import JavaTokens.Text.Ascii
import JavaTokens.Proofs.Plain
import JavaTokens.Proofs.Kind.Word

/-!
# Plain texts by their bytes

What is left out of a text is an ASCII character between two others.  So the bytes of a plain text
are found among those of the text in one walk, and with them the offsets at which they stood.

    bytes (plain text) = plainBytes (bytes text)                      (bytes_plain)
    plain (s ++ "\n" ++ t) = plain s ++ "\n" ++ plain t               (plain_append_lineFeed)
    at the offsets that are kept stand the bytes of the plain text    (map_getElem?_keptOffsets)
-/

namespace JavaTokens.Numeral

open Text Ascii

/-! ## Bytes left out -/

/-- Whether the middle one of three bytes is left out. -/
def dropsMiddleByte (a b c : UInt8) : Bool :=
  (isDigit a && b == '_'.toUInt8 && isDigit c) ||
    (a == '0'.toUInt8 && b == 'b'.toUInt8 && isBinaryDigit c)

/-- The bytes of a text made plain. -/
def plainBytes : List UInt8 → List UInt8
  | a :: b :: c :: rest =>
    if dropsMiddleByte a b c then a :: c :: plainBytes rest else a :: plainBytes (b :: c :: rest)
  | s => s

/-- Whether the byte behind `a` is left out. -/
def dropsNextByte (a : UInt8) : List UInt8 → Bool
  | b :: c :: _ => dropsMiddleByte a b c
  | _ => false

variable {a b c x y z : UInt8} {s t : List UInt8}

theorem dropsMiddleByte_cases (h : dropsMiddleByte a b c = true) :
    isDigit a = true ∧ (b = '_'.toUInt8 ∨ b = 'b'.toUInt8) ∧ isDigit c = true := by
  simp only [dropsMiddleByte, Bool.or_eq_true, Bool.and_eq_true, beq_iff_eq] at h
  rcases h with ⟨⟨ha, hb⟩, hc⟩ | ⟨⟨rfl, hb⟩, hc⟩
  · exact ⟨ha, .inl hb, hc⟩
  · rw [isBinaryDigit_iff] at hc
    refine ⟨rfl, .inr hb, ?_⟩
    rw [isDigit_iff]
    omega

theorem not_isDigit_of_dropsMiddleByte (h : dropsMiddleByte a b c = true) : isDigit b = false := by
  rcases (dropsMiddleByte_cases h).2.1 with rfl | rfl
  · rfl
  · rfl

theorem plainBytes_cons (h : dropsNextByte a s = false) :
    plainBytes (a :: s) = a :: plainBytes s := by
  rcases s with _ | ⟨b, _ | ⟨c, s⟩⟩
  · rfl
  · rfl
  · change dropsMiddleByte a b c = false at h
    rw [plainBytes, h, if_neg Bool.false_ne_true]

theorem dropsNextByte_of_not_isDigit (h : isDigit a = false) (s : List UInt8) :
    dropsNextByte a s = false := by
  rcases s with _ | ⟨b, _ | ⟨c, s⟩⟩
  · rfl
  · rfl
  · rw [dropsNextByte, Bool.eq_false_iff]
    intro hdrops
    rw [(dropsMiddleByte_cases hdrops).1] at h
    cases h

theorem dropsNextByte_of_ne (hb : b ≠ '_'.toUInt8) (hb' : b ≠ 'b'.toUInt8) (a : UInt8)
    (s : List UInt8) : dropsNextByte a (b :: s) = false := by
  rcases s with _ | ⟨c, s⟩
  · rfl
  · rw [dropsNextByte, Bool.eq_false_iff]
    intro hdrops
    rcases (dropsMiddleByte_cases hdrops).2.1 with h | h
    · exact hb h
    · exact hb' h

/-- A digit is not left out. -/
theorem dropsNextByte_of_isDigit (h : isDigit b = true) (a : UInt8) (s : List UInt8) :
    dropsNextByte a (b :: s) = false := by
  refine dropsNextByte_of_ne ?_ ?_ a s
  · rintro rfl
    cases h
  · rintro rfl
    cases h

theorem plainBytes_eq_self (h : ∀ b ∈ s, b ≠ '_'.toUInt8 ∧ b ≠ 'b'.toUInt8) :
    plainBytes s = s := by
  induction s with
  | nil => rfl
  | cons a s ih =>
    rw [List.forall_mem_cons] at h
    have hstays : dropsNextByte a s = false := by
      rcases s with _ | ⟨b, s⟩
      · rfl
      · have hb := h.2 b List.mem_cons_self
        exact dropsNextByte_of_ne hb.1 hb.2 a s
    rw [plainBytes_cons hstays, ih h.2]

theorem plainBytes_append_of_not_isDigit (h : ∀ b ∈ s, isDigit b = false) (t : List UInt8) :
    plainBytes (s ++ t) = s ++ plainBytes t := by
  induction s with
  | nil => rfl
  | cons b s ih =>
    rw [List.forall_mem_cons] at h
    rw [List.cons_append, plainBytes_cons (dropsNextByte_of_not_isDigit h.1 _), ih h.2,
      List.cons_append]

/-- Whether a byte is neither left out nor next to one that is. -/
def isSeparate (b : UInt8) : Bool := !isDigit b && b != '_'.toUInt8 && b != 'b'.toUInt8

/-- What stands before such a byte and what stands behind it are made plain on their own. -/
theorem plainBytes_append_cons (hb : isSeparate b = true) (s t : List UInt8) :
    plainBytes (s ++ b :: t) = plainBytes s ++ b :: plainBytes t := by
  simp only [isSeparate, Bool.and_eq_true, Bool.not_eq_true', bne_iff_ne] at hb
  obtain ⟨⟨hdigit, hseparator⟩, hmark⟩ := hb
  have hfirst : plainBytes (b :: t) = b :: plainBytes t :=
    plainBytes_cons (dropsNextByte_of_not_isDigit hdigit t)
  have hmiddle (a : UInt8) : dropsNextByte a (b :: t) = false :=
    dropsNextByte_of_ne hseparator hmark a t
  fun_induction plainBytes s with
  | case1 x y z rest h ih =>
    rw [List.cons_append, List.cons_append, List.cons_append, plainBytes, if_pos h, ih]
    rfl
  | case2 x y z rest h ih =>
    rw [List.cons_append, List.cons_append, List.cons_append, plainBytes, if_neg h]
    exact congrArg (x :: ·) ih
  | case3 s hs =>
    rcases s with _ | ⟨x, _ | ⟨y, _ | ⟨z, rest⟩⟩⟩
    · exact hfirst
    · show plainBytes (x :: b :: t) = x :: b :: plainBytes t
      rw [plainBytes_cons (hmiddle x), hfirst]
    · have hlast : dropsNextByte x (y :: b :: t) = false := by
        rw [dropsNextByte, Bool.eq_false_iff]
        intro hdrops
        rw [(dropsMiddleByte_cases hdrops).2.2] at hdigit
        cases hdigit
      show plainBytes (x :: y :: b :: t) = x :: y :: b :: plainBytes t
      rw [plainBytes_cons hlast, plainBytes_cons (hmiddle y), hfirst]
    · exact absurd rfl (hs x y z rest)

theorem head?_plainBytes (s : List UInt8) : (plainBytes s).head? = s.head? := by
  fun_cases plainBytes s <;> rfl

theorem plainBytes_sublist (s : List UInt8) : (plainBytes s).Sublist s := by
  fun_induction plainBytes s with
  | case1 a b c rest h ih => exact ((ih.cons_cons c).cons b).cons_cons a
  | case2 a b c rest h ih => exact ih.cons_cons a
  | case3 s h => exact .refl s

/-! ## Bytes of characters -/

theorem isDigit_ofNat {n : Nat} (h : n < 0x80) :
    isDigit (UInt8.ofNat n) = (Char.ofNat n).isDigit := by
  have hall : ∀ n, n < 0x80 → isDigit (UInt8.ofNat n) = (Char.ofNat n).isDigit := by
    decide +kernel
  exact hall n h

theorem not_isDigit_of_isBeyondAscii (h : isBeyondAscii a = true) : isDigit a = false := by
  rw [isBeyondAscii_iff] at h
  rw [Bool.eq_false_iff, Ne, isDigit_iff]
  omega

/-- A character is a digit if its first byte is one. -/
theorem isDigit_of_utf8EncodeChar {c : Char} (h : String.utf8EncodeChar c = a :: t) :
    isDigit a = c.isDigit := by
  rcases utf8EncodeChar_cases c with ⟨hlt, hone⟩ | ⟨hle, hbeyond⟩
  · have hdigit := isDigit_ofNat hlt
    rw [Char.ofNat_toNat] at hdigit
    rw [h, List.cons.injEq] at hone
    rw [hone.1, hdigit]
  · rw [h, begins_cons] at hbeyond
    rw [not_isDigit_of_isBeyondAscii hbeyond, eq_comm, Bool.eq_false_iff]
    intro hdigit
    have hlt := Word.lt_of_ascii (c := c) (by simp [Char.isAlphanum, hdigit])
    omega

/-- A character is a given one of ASCII if its first byte is that one. -/
theorem beq_of_utf8EncodeChar {c d : Char} (hc : String.utf8EncodeChar c = a :: t)
    (hd : String.utf8EncodeChar d = [d.toUInt8]) (hascii : d.toUInt8 < 0x80) :
    (a == d.toUInt8) = (c == d) := by
  rw [Bool.eq_iff_iff, beq_iff_eq, beq_iff_eq]
  constructor
  · rintro rfl
    obtain rfl := utf8EncodeChar_of_ascii hc hascii
    exact eq_of_utf8EncodeChar_eq (hc.trans hd.symm)
  · rintro rfl
    exact (List.cons.inj (hc.symm.trans hd)).1

/-- The first bytes of three characters tell whether the middle one is left out. -/
theorem dropsMiddleByte_eq {c d e : Char} {u v w : List UInt8}
    (hc : String.utf8EncodeChar c = x :: u) (hd : String.utf8EncodeChar d = y :: v)
    (he : String.utf8EncodeChar e = z :: w) : dropsMiddleByte x y z = dropsMiddle c d e := by
  rw [dropsMiddleByte, dropsMiddle, isBinaryDigit, isDigit_of_utf8EncodeChar hc,
    isDigit_of_utf8EncodeChar he, beq_of_utf8EncodeChar (d := '_') hd rfl (by decide),
    beq_of_utf8EncodeChar (d := '0') hc rfl (by decide),
    beq_of_utf8EncodeChar (d := 'b') hd rfl (by decide),
    beq_of_utf8EncodeChar (d := '0') he rfl (by decide),
    beq_of_utf8EncodeChar (d := '1') he rfl (by decide)]

/-- No byte is left out behind a character of one byte if no character is. -/
theorem dropsNextByte_flatMap {c : Char} (hc : String.utf8EncodeChar c = [x]) {cs : List Char}
    (h : ∀ d e ds, cs = d :: e :: ds → dropsMiddle c d e = false) :
    dropsNextByte x (cs.flatMap String.utf8EncodeChar) = false := by
  rcases cs with _ | ⟨d, cs⟩
  · rfl
  · obtain ⟨y, v, hd, -⟩ := utf8EncodeChar_shape d
    rcases utf8EncodeChar_cases d with ⟨-, hone⟩ | ⟨-, hbeyond⟩
    · obtain ⟨rfl, rfl⟩ := List.cons.inj (hd.symm.trans hone)
      rcases cs with _ | ⟨e, ds⟩
      · rw [List.flatMap_singleton, hd]
        rfl
      · obtain ⟨z, w, he, -⟩ := utf8EncodeChar_shape e
        rw [List.flatMap_cons, List.flatMap_cons, hd, he]
        show dropsMiddleByte x _ z = false
        rw [dropsMiddleByte_eq hc hd he]
        exact h d e ds rfl
    · rw [hd, begins_cons] at hbeyond
      rw [List.flatMap_cons, hd, List.cons_append]
      refine dropsNextByte_of_ne ?_ ?_ x _
      · rintro rfl
        cases hbeyond
      · rintro rfl
        cases hbeyond

/-- The bytes of a character stay as they are if no character behind it is left out. -/
theorem plainBytes_utf8EncodeChar {c : Char} {cs : List Char}
    (h : ∀ d e ds, cs = d :: e :: ds → dropsMiddle c d e = false) :
    plainBytes (String.utf8EncodeChar c ++ cs.flatMap String.utf8EncodeChar) =
      String.utf8EncodeChar c ++ plainBytes (cs.flatMap String.utf8EncodeChar) := by
  rcases utf8EncodeChar_cases c with ⟨-, hone⟩ | ⟨-, hbeyond⟩
  · rw [hone, List.singleton_append, List.singleton_append,
      plainBytes_cons (dropsNextByte_flatMap hone h)]
  · refine plainBytes_append_of_not_isDigit ?_ _
    intro b hb
    obtain ⟨u, hu, hall⟩ := takes_dropChar (charAt?_append c []) (by rwa [List.append_nil])
    rw [dropChar_append, List.append_nil, List.append_nil] at hu
    exact not_isDigit_of_isBeyondAscii (hall b (hu ▸ hb))

/-- What is left out, and what stands next to it, is ASCII. -/
theorem utf8EncodeChar_of_dropsMiddle {c d e : Char} (h : dropsMiddle c d e = true) :
    ∃ x y z, String.utf8EncodeChar c = [x] ∧ String.utf8EncodeChar d = [y] ∧
      String.utf8EncodeChar e = [z] ∧ dropsMiddleByte x y z = true := by
  obtain ⟨x, u, hc, -⟩ := utf8EncodeChar_shape c
  obtain ⟨y, v, hd, -⟩ := utf8EncodeChar_shape d
  obtain ⟨z, w, he, -⟩ := utf8EncodeChar_shape e
  have hbytes : dropsMiddleByte x y z = true := by rw [dropsMiddleByte_eq hc hd he, h]
  have hdigit {b : UInt8} (hb : isDigit b = true) : b < 0x80 := by
    rw [isDigit_iff] at hb
    exact Nat.lt_of_le_of_lt hb.2 (by decide)
  obtain ⟨hx, hy, hz⟩ := dropsMiddleByte_cases hbytes
  obtain rfl := utf8EncodeChar_of_ascii hc (hdigit hx)
  obtain rfl := utf8EncodeChar_of_ascii he (hdigit hz)
  have hy' : y < 0x80 := by
    rcases hy with rfl | rfl
    · decide
    · decide
  obtain rfl := utf8EncodeChar_of_ascii hd hy'
  exact ⟨x, y, z, hc, hd, he, hbytes⟩

theorem flatMap_plainChars (cs : List Char) :
    (plainChars cs).flatMap String.utf8EncodeChar =
      plainBytes (cs.flatMap String.utf8EncodeChar) := by
  fun_induction plainChars cs with
  | case1 a b c rest h ih =>
    obtain ⟨x, y, z, ha, hb, hc, hdrops⟩ := utf8EncodeChar_of_dropsMiddle h
    simp only [List.flatMap_cons, ha, hb, hc, ih, List.singleton_append]
    rw [plainBytes, if_pos hdrops]
  | case2 a b c rest h ih =>
    have hstays : ∀ d e ds, b :: c :: rest = d :: e :: ds → dropsMiddle a d e = false := by
      rintro d e ds ⟨⟩
      exact Bool.eq_false_iff.mpr h
    have hfirst := plainBytes_utf8EncodeChar hstays
    rw [List.flatMap_cons, ih, ← hfirst]
    rfl
  | case3 cs h =>
    rcases cs with _ | ⟨a, _ | ⟨b, _ | ⟨c, rest⟩⟩⟩
    · rfl
    · have hlast : ∀ d e ds, [] = d :: e :: ds → dropsMiddle a d e = false := by simp
      exact (plainBytes_utf8EncodeChar hlast).symm
    · have hshort : ∀ d e ds, [b] = d :: e :: ds → dropsMiddle a d e = false := by simp
      have hlast : ∀ d e ds, [] = d :: e :: ds → dropsMiddle b d e = false := by simp
      have hfirst := plainBytes_utf8EncodeChar hshort
      have hsecond := plainBytes_utf8EncodeChar hlast
      rw [List.flatMap_singleton, ← List.append_nil (String.utf8EncodeChar b)] at hfirst
      exact (hfirst.trans (congrArg _ hsecond)).symm
    · exact absurd rfl (h a b c rest)

/-- The bytes of a plain text are those of the text made plain. -/
theorem bytes_plain (text : String) : bytes (plain text) = plainBytes (bytes text) := by
  rw [plain_eq, bytes, bytes, String.toList_ofList, flatMap_plainChars]

/-- Texts are made plain line by line. -/
theorem plain_append_lineFeed (s t : String) :
    plain (s ++ "\n" ++ t) = plain s ++ "\n" ++ plain t := by
  apply bytes_inj
  rw [bytes_plain, bytes_append, bytes_append, bytes_append, bytes_append, bytes_plain, bytes_plain,
    List.append_assoc, List.append_assoc]
  exact plainBytes_append_cons rfl (bytes s) (bytes t)

/-! ## Offsets that are kept -/

/-- The offsets of the bytes that are not left out of a text at some offset. -/
def keptOffsets : List UInt8 → (offset : Nat) → List Nat
  | a :: b :: c :: rest, offset =>
    if dropsMiddleByte a b c then offset :: (offset + 2) :: keptOffsets rest (offset + 3)
    else offset :: keptOffsets (b :: c :: rest) (offset + 1)
  | s, offset => List.range' offset s.length

theorem mem_keptOffsets {offset i : Nat} (h : i ∈ keptOffsets s offset) :
    offset ≤ i ∧ i < offset + s.length := by
  fun_induction keptOffsets s offset with
  | case1 a b c rest offset hdrops ih =>
    simp only [List.mem_cons, List.length_cons] at h ⊢
    rcases h with rfl | rfl | h
    · omega
    · omega
    · have hbounds := ih h
      omega
  | case2 a b c rest offset hdrops ih =>
    simp only [List.mem_cons, List.length_cons] at h ih ⊢
    rcases h with rfl | h
    · omega
    · have hbounds := ih h
      omega
  | case3 s offset hs =>
    rw [List.mem_range'_1] at h
    exact h

theorem pairwise_keptOffsets (s : List UInt8) (offset : Nat) :
    (keptOffsets s offset).Pairwise (· < ·) := by
  fun_induction keptOffsets s offset with
  | case1 a b c rest offset hdrops ih =>
    have hbehind : ∀ i ∈ keptOffsets rest (offset + 3), offset + 3 ≤ i :=
      fun i hi => (mem_keptOffsets hi).1
    refine .cons ?_ (.cons ?_ ih)
    · intro i hi
      rcases List.mem_cons.mp hi with rfl | hi
      · omega
      · have hle := hbehind i hi
        omega
    · intro i hi
      have hle := hbehind i hi
      omega
  | case2 a b c rest offset hdrops ih =>
    refine .cons ?_ ih
    intro i hi
    have hbounds := mem_keptOffsets hi
    omega
  | case3 s offset hs => exact List.pairwise_lt_range'

/-- At the offsets that are kept stand the bytes of the plain text. -/
theorem map_getElem?_keptOffsets (u s : List UInt8) :
    (keptOffsets s u.length).map ((u ++ s)[·]?) = (plainBytes s).map some := by
  have hat (u : List UInt8) (a : UInt8) (s : List UInt8) : (u ++ a :: s)[u.length]? = some a := by
    simp
  fun_induction plainBytes s generalizing u with
  | case1 a b c rest hdrops ih =>
    have hthird := hat (u ++ [a, b]) c rest
    have hrest := ih (u ++ [a, b, c])
    rw [List.append_assoc] at hthird hrest
    rw [keptOffsets, if_pos hdrops, List.map_cons, List.map_cons, List.map_cons, List.map_cons, hat,
      ← hrest, ← hthird]
    simp
  | case2 a b c rest hdrops ih =>
    have hrest := ih (u ++ [a])
    rw [List.append_assoc, List.length_append] at hrest
    rw [keptOffsets, if_neg hdrops, List.map_cons, List.map_cons, hat, ← hrest]
    rfl
  | case3 s hs =>
    rcases s with _ | ⟨a, _ | ⟨b, _ | ⟨c, rest⟩⟩⟩
    · rfl
    · exact congrArg (fun x => [x]) (hat u a [])
    · have hsecond := hat (u ++ [a]) b []
      rw [List.append_assoc, List.length_append] at hsecond
      exact congrArg₂ (fun x y => [x, y]) (hat u a [b]) hsecond
    · exact absurd rfl (hs a b c rest)

theorem getElem?_plainBytes {i j : Nat} (h : (keptOffsets s 0)[j]? = some i) :
    (plainBytes s)[j]? = s[i]? := by
  have hmap := congrArg (·[j]?) (map_getElem?_keptOffsets [] s)
  simp only [List.nil_append, List.getElem?_map] at hmap
  change ((keptOffsets s 0)[j]?).map _ = _ at hmap
  rw [h, Option.map_some] at hmap
  cases hj : (plainBytes s)[j]? with
  | none =>
    rw [hj] at hmap
    cases hmap
  | some b =>
    rw [hj, Option.map_some, Option.some.injEq] at hmap
    exact hmap.symm

end JavaTokens.Numeral
