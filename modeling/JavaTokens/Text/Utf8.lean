/-!
# Texts as UTF-8 bytes

A text is read as its UTF-8 bytes.  `leadWidth` tells from one byte how far its character reaches,
without looking at the rest; `firstChar?` and `decode?` do look, and refuse what is not UTF-8.

    decode? (bytes text) = some text                                  (decode?_bytes)
-/

namespace JavaTokens.Text

/-- The UTF-8 encoding of a text. -/
def bytes (text : String) : List UInt8 := text.toList.flatMap String.utf8EncodeChar

/-- The length of the encoding that a lead byte announces.  A byte that leads nothing counts as one,
so a step by widths always moves. -/
def leadWidth (b : UInt8) : Nat :=
  if 0xF0 ≤ b && b ≤ 0xF7 then 4
  else if 0xE0 ≤ b && b ≤ 0xEF then 3
  else if 0xC0 ≤ b && b ≤ 0xDF then 2
  else 1

/-- The character that begins the given bytes, if they begin with a whole and valid encoding. -/
def firstChar? (bytes : List UInt8) : Option Char := bytes.toByteArray.utf8DecodeChar? 0

/-- The text that the given bytes encode, if they are valid UTF-8. -/
def decode? (bytes : List UInt8) : Option String := String.fromUTF8? bytes.toByteArray

theorem leadWidth_pos (b : UInt8) : 0 < leadWidth b := by
  unfold leadWidth
  repeat' split
  all_goals decide

theorem bytes_append (s t : String) : bytes (s ++ t) = bytes s ++ bytes t := by
  simp [bytes]

/-- A character of one byte, repeated. -/
theorem bytes_replicate {c : Char} {b : UInt8} (hc : String.utf8EncodeChar c = [b]) (n : Nat) :
    bytes (String.ofList (List.replicate n c)) = List.replicate n b := by
  rw [bytes, String.toList_ofList, List.flatMap_replicate, hc, List.flatten_replicate_singleton]

theorem firstChar?_utf8EncodeChar (c : Char) : firstChar? (String.utf8EncodeChar c) = some c := by
  have h := List.utf8DecodeChar?_utf8Encode_cons (l := []) (c := c)
  simpa [firstChar?, List.utf8Encode] using h

theorem toByteArray_bytes (text : String) : (bytes text).toByteArray = text.toByteArray := by
  simpa [bytes, List.utf8Encode] using text.utf8Encode_toList

theorem length_bytes (text : String) : (bytes text).length = text.utf8ByteSize := by
  rw [← String.size_toByteArray, ← toByteArray_bytes, List.size_toByteArray]

/-- Every text is read back from its bytes. -/
theorem decode?_bytes (text : String) : decode? (bytes text) = some text := by
  simp only [decode?, String.fromUTF8?, toByteArray_bytes, text.isValidUTF8, dite_true]
  rfl

/-- Bytes that are read as a text are the bytes of it. -/
theorem eq_bytes_of_decode? {s : List UInt8} {text : String} (h : decode? s = some text) :
    s = bytes text := by
  unfold decode? String.fromUTF8? at h
  split at h
  · next hvalid =>
    cases h
    have hsame : (bytes (String.fromUTF8 s.toByteArray hvalid)).toByteArray = s.toByteArray :=
      toByteArray_bytes _
    have hdata := congrArg (fun b : ByteArray => b.data.toList) hsame
    simpa using hdata.symm
  · cases h

theorem bytes_inj {s t : String} (h : bytes s = bytes t) : s = t := by
  have hs := decode?_bytes s
  rw [h, decode?_bytes, Option.some.injEq] at hs
  exact hs.symm

end JavaTokens.Text
