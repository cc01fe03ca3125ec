import JavaTokens.Proofs.PlainBytes

/-!
# Places of what is left out

A place is an offset with three bytes of which the middle one is left out when the text is made
plain.  Places are taken from left to right, and one that begins with the last byte of a taken one
is not.  So it takes a second time to leave out what stays at such places, and no third one.

    a place is taken unless the one two bytes before it is            (isGreedy_iff)
    the middle bytes of the places taken are left out, and no others  (plainBytes_eq_keptBytes)
    no two places of a plain text share a byte                        (not_isPlace_of_isPlace)
    a text without such places has none when it is made plain         (isPlace_plainBytes)
-/

namespace JavaTokens.Numeral

open Text Ascii

variable {a b c : UInt8} {s t : List UInt8} {i n : Nat}

/-! ## Places -/

/-- Whether the byte behind the offset can be left out. -/
def isPlace (s : List UInt8) (i : Nat) : Bool :=
  match s[i]?, s[i + 1]?, s[i + 2]? with
  | some a, some b, some c => dropsMiddleByte a b c
  | _, _, _ => false

theorem isPlace_cons_zero (a : UInt8) (s : List UInt8) : isPlace (a :: s) 0 = dropsNextByte a s := by
  rcases s with _ | ⟨b, _ | ⟨c, s⟩⟩
  · rfl
  · rfl
  · rfl

theorem isPlace_cons_succ (a : UInt8) (s : List UInt8) (i : Nat) :
    isPlace (a :: s) (i + 1) = isPlace s i := rfl

theorem isPlace_cons_of_not_isDigit (h : isDigit a = false) (s : List UInt8) :
    isPlace (a :: s) 0 = false := by
  rw [isPlace_cons_zero, dropsNextByte_of_not_isDigit h]

theorem isPlace_of_short (hs : ∀ a b c t, s = a :: b :: c :: t → False) (i : Nat) :
    isPlace s i = false := by
  rcases s with _ | ⟨a, _ | ⟨b, _ | ⟨c, t⟩⟩⟩
  · rfl
  · rcases i with _ | i
    · rfl
    · rfl
  · rcases i with _ | _ | i
    · rfl
    · rfl
    · rfl
  · exact absurd rfl (hs a b c t)

theorem length_plainBytes_lt (h : dropsMiddleByte a b c = true) (s : List UInt8) :
    (plainBytes (a :: b :: c :: s)).length < (a :: b :: c :: s).length := by
  have hle := (plainBytes_sublist s).length_le
  rw [plainBytes, if_pos h]
  simp only [List.length_cons]
  omega

/-- A text without places is plain, and a plain one has none. -/
theorem plainBytes_eq_self_iff (s : List UInt8) :
    plainBytes s = s ↔ ∀ i, isPlace s i = false := by
  fun_induction plainBytes s with
  | case1 a b c rest h ih =>
    constructor
    · intro hsame
      have hlt := length_plainBytes_lt h rest
      rw [plainBytes, if_pos h, hsame] at hlt
      exact absurd hlt (Nat.lt_irrefl _)
    · intro hnone
      have hplace : isPlace (a :: b :: c :: rest) 0 = true := h
      rw [hnone 0] at hplace
      cases hplace
  | case2 a b c rest h ih =>
    rw [List.cons.injEq, and_iff_right rfl, ih]
    constructor
    · intro hnone i
      rcases i with _ | i
      · exact Bool.eq_false_iff.mpr h
      · exact hnone i
    · intro hnone i
      exact hnone (i + 1)
  | case3 s hs => exact ⟨fun _ => isPlace_of_short hs, fun _ => rfl⟩

theorem plain?_eq_none_iff_places (text : String) :
    plain? text = none ↔ ∀ i, isPlace (bytes text) i = false := by
  rw [plain?_eq_none_iff, ← plainBytes_eq_self_iff, ← bytes_plain]
  exact ⟨congrArg bytes, bytes_inj⟩

/-! ## Places that are taken -/

/-- Whether the byte behind the offset is left out. -/
def isTaken (s : List UInt8) : Nat → Bool
  | 0 => isPlace s 0
  | 1 => isPlace s 1
  | i + 2 => isPlace s (i + 2) && !isTaken s i

/-- A choice of places, in which each one is taken unless the one two bytes before it is. -/
def IsGreedy (s : List UInt8) (taken : Nat → Bool) : Prop :=
  ∀ i, taken i = true ↔ isPlace s i = true ∧ ¬ (2 ≤ i ∧ taken (i - 2) = true)

/-- Just one choice of places is greedy. -/
theorem isGreedy_iff (s : List UInt8) (taken : Nat → Bool) :
    IsGreedy s taken ↔ taken = isTaken s := by
  constructor
  · intro h
    funext i
    -- two bytes at a time, as places are compared
    fun_induction isTaken s i with
    | case1 => simpa using h 0
    | case2 => simpa using h 1
    | case3 i ih =>
      have hi := h (i + 2)
      rw [Nat.add_sub_cancel, ih] at hi
      rw [Bool.eq_iff_iff, hi]
      simp
  · rintro rfl i
    rcases i with _ | _ | i
    · simp [isTaken]
    · simp [isTaken]
    · simp [isTaken]

/-- Of three places in a row, the middle one shares a byte with either of the others. -/
example : (List.range 7).filter (isTaken (bytes "0b1_0_1")) = [0, 4] := by decide

/-- Places are taken in a text behind some bytes as in the text alone, if that is so for its first
two offsets. -/
theorem isTaken_add (hplace : ∀ i, isPlace s (i + n) = isPlace t i)
    (hzero : isTaken s n = isTaken t 0) (hone : isTaken s (n + 1) = isTaken t 1) (i : Nat) :
    isTaken s (i + n) = isTaken t i := by
  induction i using isTaken.induct with
  | case1 => rwa [Nat.zero_add]
  | case2 => rwa [Nat.add_comm]
  | case3 i ih =>
    have hi : i + 2 + n = i + n + 2 := by omega
    have hp := hplace (i + 2)
    rw [hi] at hp ⊢
    rw [isTaken, isTaken, hp, ih]

/-- Behind a byte that begins no place. -/
theorem isTaken_cons (h : dropsNextByte a s = false) (i : Nat) :
    isTaken (a :: s) (i + 1) = isTaken s i := by
  have hfirst : isTaken (a :: s) 0 = false := by rw [isTaken, isPlace_cons_zero, h]
  refine isTaken_add (n := 1) (fun _ => rfl) rfl ?_ i
  show (isPlace s 1 && !isTaken (a :: s) 0) = isPlace s 1
  rw [hfirst, Bool.not_false, Bool.and_true]

theorem isTaken_third (h : dropsMiddleByte a b c = true) (s : List UInt8) :
    isTaken (a :: b :: c :: s) 2 = false := by
  show (_ && !dropsMiddleByte a b c) = false
  rw [h, Bool.not_true, Bool.and_false]

/-- Behind the bytes of a place. -/
theorem isTaken_of_dropsMiddleByte (h : dropsMiddleByte a b c = true) (s : List UInt8) (i : Nat) :
    isTaken (a :: b :: c :: s) (i + 3) = isTaken s i := by
  have hsecond : isTaken (a :: b :: c :: s) 1 = false :=
    isPlace_cons_of_not_isDigit (not_isDigit_of_dropsMiddleByte h) (c :: s)
  refine isTaken_add (n := 3) (fun _ => rfl) ?_ ?_ i
  · show (isPlace s 0 && !isTaken (a :: b :: c :: s) 1) = isPlace s 0
    rw [hsecond, Bool.not_false, Bool.and_true]
  · show (isPlace s 1 && !isTaken (a :: b :: c :: s) 2) = isPlace s 1
    rw [isTaken_third h, Bool.not_false, Bool.and_true]

theorem isTaken_eq_false (h : ∀ i, isPlace s i = false) (i : Nat) : isTaken s i = false := by
  rcases i with _ | _ | i
  · exact h 0
  · exact h 1
  · rw [isTaken, h, Bool.false_and]

/-! ## Bytes that stay -/

/-- Whether the byte at the offset is the middle one of a place that is taken. -/
def isLeftOut (taken : Nat → Bool) : Nat → Bool
  | 0 => false
  | i + 1 => taken i

/-- The bytes that are not left out, in their order. -/
def keptBytes (out : Nat → Bool) (s : List UInt8) : List UInt8 :=
  (s.zipIdx.filter fun p => !out p.2).map Prod.fst

theorem keptBytes_cons (out : Nat → Bool) (a : UInt8) (s : List UInt8) :
    keptBytes out (a :: s) =
      (if out 0 then [] else [a]) ++ keptBytes (fun i => out (i + 1)) s := by
  unfold keptBytes
  rw [List.zipIdx_cons, List.zipIdx_succ, List.filter_cons, List.filter_map]
  split
  · next hkept =>
    rw [if_neg (by simpa using hkept), List.map_cons, List.map_map]
    rfl
  · next hout =>
    rw [if_pos (by simpa using hout), List.map_map]
    rfl

theorem keptBytes_eq_self {out : Nat → Bool} (h : ∀ i, out i = false) (s : List UInt8) :
    keptBytes out s = s := by
  have hall : (s.zipIdx.filter fun p => !out p.2) = s.zipIdx := by
    rw [List.filter_eq_self]
    intro p hp
    rw [h]
    rfl
  rw [keptBytes, hall, List.zipIdx_map_fst]

/-- Of the bytes of a place the middle one is left out. -/
theorem keptBytes_of_dropsMiddleByte (h : dropsMiddleByte a b c = true) (s : List UInt8) :
    keptBytes (isLeftOut (isTaken (a :: b :: c :: s))) (a :: b :: c :: s) =
      a :: c :: keptBytes (isLeftOut (isTaken s)) s := by
  have hmiddle : isLeftOut (isTaken (a :: b :: c :: s)) 1 = true := h
  have hlast : isLeftOut (isTaken (a :: b :: c :: s)) 2 = false :=
    isPlace_cons_of_not_isDigit (not_isDigit_of_dropsMiddleByte h) (c :: s)
  have hbehind : (fun i => isLeftOut (isTaken (a :: b :: c :: s)) (i + 3)) =
      isLeftOut (isTaken s) := by
    funext i
    rcases i with _ | i
    · exact isTaken_third h s
    · exact isTaken_of_dropsMiddleByte h s i
  rw [keptBytes_cons, keptBytes_cons, keptBytes_cons]
  show [a] ++ ((if isLeftOut _ 1 then [] else [b]) ++ ((if isLeftOut _ 2 then [] else [c]) ++
    keptBytes (fun i => isLeftOut _ (i + 3)) s)) = _
  rw [hmiddle, hlast, hbehind, if_pos rfl, if_neg Bool.false_ne_true]
  rfl

/-- A byte that begins no place stays, and so does the one behind it. -/
theorem keptBytes_of_not_dropsNextByte (h : dropsNextByte a s = false) :
    keptBytes (isLeftOut (isTaken (a :: s))) (a :: s) =
      a :: keptBytes (isLeftOut (isTaken s)) s := by
  have hbehind : (fun i => isLeftOut (isTaken (a :: s)) (i + 1)) = isLeftOut (isTaken s) := by
    funext i
    rcases i with _ | i
    · show isPlace (a :: s) 0 = false
      rw [isPlace_cons_zero, h]
    · exact isTaken_cons h i
  rw [keptBytes_cons, hbehind]
  rfl

/-- Bytes made plain are those without the middle ones of the places that are taken. -/
theorem plainBytes_eq_keptBytes (s : List UInt8) :
    plainBytes s = keptBytes (isLeftOut (isTaken s)) s := by
  fun_induction plainBytes s with
  | case1 a b c rest h ih => rw [keptBytes_of_dropsMiddleByte h, ih]
  | case2 a b c rest h ih =>
    have hstays : dropsNextByte a (b :: c :: rest) = false := Bool.eq_false_iff.mpr h
    rw [keptBytes_of_not_dropsNextByte hstays, ih]
  | case3 s hs =>
    rw [keptBytes_eq_self]
    intro i
    rcases i with _ | i
    · rfl
    · exact isTaken_eq_false (isPlace_of_short hs) i

/-- A text made plain is the text without the middle bytes of the places that are taken, and that is
a text.  Which places are taken is told by what they have to do with each other.  The same text is
given back if it has no place, and only then. -/
theorem plain_leavesOut (text : String) :
    (∀ taken, IsGreedy (bytes text) taken ↔ taken = isTaken (bytes text)) ∧
      bytes (plain text) = keptBytes (isLeftOut (isTaken (bytes text))) (bytes text) ∧
      IsUtf8 (keptBytes (isLeftOut (isTaken (bytes text))) (bytes text)) ∧
      (plain? text = none ↔ ∀ i, isPlace (bytes text) i = false) := by
  have hbytes : bytes (plain text) = keptBytes (isLeftOut (isTaken (bytes text))) (bytes text) := by
    rw [bytes_plain, plainBytes_eq_keptBytes]
  refine ⟨isGreedy_iff _, hbytes, ?_, plain?_eq_none_iff_places text⟩
  rw [← hbytes]
  exact isUtf8_bytes (plain text)

/-! ## Making plain twice -/

/-- Whether a place begins in front does not depend on the places behind it. -/
theorem dropsNextByte_plainBytes (a : UInt8) (s : List UInt8) :
    dropsNextByte a (plainBytes s) = dropsNextByte a s := by
  rcases s with _ | ⟨b, s⟩
  · rfl
  cases hb : isDigit b with
  | true =>
    obtain ⟨t, ht⟩ : ∃ t, plainBytes (b :: s) = b :: t :=
      List.head?_eq_some_iff.mp (head?_plainBytes (b :: s))
    rw [ht, dropsNextByte_of_isDigit hb, dropsNextByte_of_isDigit hb]
  | false =>
    rw [plainBytes_cons (dropsNextByte_of_not_isDigit hb s)]
    -- behind a separator just the next byte is looked at
    have hhead := head?_plainBytes s
    rcases s with _ | ⟨c, s⟩
    · rfl
    · obtain ⟨t, ht⟩ : ∃ t, plainBytes (c :: s) = c :: t := List.head?_eq_some_iff.mp hhead
      rw [ht]
      rfl

/-- No place is left in front of a text that is made plain. -/
theorem isPlace_plainBytes_zero (s : List UInt8) : isPlace (plainBytes s) 0 = false := by
  fun_cases plainBytes s with
  | case1 a b c rest h =>
    rw [isPlace_cons_zero, dropsNextByte_of_isDigit (dropsMiddleByte_cases h).2.2]
  | case2 a b c rest h =>
    rw [isPlace_cons_zero, dropsNextByte_plainBytes]
    exact Bool.eq_false_iff.mpr h
  | case3 _ hs => exact isPlace_of_short hs 0

/-- Behind a place in front of a text that is plain, the next byte but one begins none. -/
theorem isPlace_plainBytes_one (h : dropsNextByte c (plainBytes s) = true) :
    isPlace (plainBytes s) 1 = false := by
  rw [dropsNextByte_plainBytes] at h
  rcases s with _ | ⟨b, _ | ⟨d, s⟩⟩
  · rfl
  · cases h
  · have hb : isDigit b = false := not_isDigit_of_dropsMiddleByte h
    rw [plainBytes_cons (dropsNextByte_of_not_isDigit hb _), isPlace_cons_succ,
      isPlace_plainBytes_zero]

/-- No two places of a plain text share a byte. -/
theorem not_isPlace_of_isPlace (h : isPlace (plainBytes s) i = true) :
    isPlace (plainBytes s) (i + 2) = false := by
  fun_induction plainBytes s generalizing i with
  | case1 a b c rest hdrops ih =>
    have hc := (dropsMiddleByte_cases hdrops).2.2
    rcases i with _ | _ | i
    · rw [isPlace_cons_zero, dropsNextByte_of_isDigit hc] at h
      cases h
    · rw [isPlace_cons_succ, isPlace_cons_zero] at h
      exact isPlace_plainBytes_one h
    · exact ih h
  | case2 a b c rest hdrops ih =>
    rcases i with _ | i
    · rw [isPlace_cons_zero, dropsNextByte_plainBytes] at h
      exact absurd h hdrops
    · exact ih h
  | case3 s hs =>
    rw [isPlace_of_short hs] at h
    cases h

/-- If no two places share a byte, none is left when they are made plain. -/
theorem isPlace_plainBytes (h : ∀ i, isPlace s i = true → isPlace s (i + 2) = false) (i : Nat) :
    isPlace (plainBytes s) i = false := by
  fun_induction plainBytes s generalizing i with
  | case1 a b c rest hdrops ih =>
    have hc := (dropsMiddleByte_cases hdrops).2.2
    rcases i with _ | _ | i
    · rw [isPlace_cons_zero, dropsNextByte_of_isDigit hc]
    · rw [isPlace_cons_succ, isPlace_cons_zero, dropsNextByte_plainBytes, ← isPlace_cons_zero]
      exact h 0 hdrops
    · exact ih (fun j => h (j + 3)) i
  | case2 a b c rest hdrops ih =>
    rcases i with _ | i
    · rw [isPlace_cons_zero, dropsNextByte_plainBytes]
      exact Bool.eq_false_iff.mpr hdrops
    · exact ih (fun j => h (j + 1)) i
  | case3 s hs => exact isPlace_of_short hs i

/-- Made plain twice, a text has no place, so a third time gives the same text back.  Once is not
enough. -/
theorem plain?_plain_plain :
    (∀ text, (∀ i, isPlace (bytes (plain (plain text))) i = false) ∧
      plain? (plain (plain text)) = none ∧
      plain (plain (plain text)) = plain (plain text)) ∧
    ∃ text, plain? (plain text) ≠ none ∧ plain (plain text) ≠ plain text := by
  constructor
  · intro text
    have hnone (i : Nat) : isPlace (bytes (plain (plain text))) i = false := by
      rw [bytes_plain, bytes_plain]
      exact isPlace_plainBytes (fun _ => not_isPlace_of_isPlace) i
    have hsame := (plain?_eq_none_iff_places _).mpr hnone
    exact ⟨hnone, hsame, (plain?_eq_none_iff _).mp hsame⟩
  · exact ⟨"1_0_0", by decide, by decide⟩

end JavaTokens.Numeral
