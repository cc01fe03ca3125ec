import JavaTokens.Text.Utf8

/-!
# Padded texts

A text to be read is followed by at least three zero bytes, up to a whole number of blocks.  The
first of them marks its end, and the other two can be looked at from there.

    3 ≤ t.paddedSize - t.size                                         (size_add_le_paddedSize)
-/

namespace JavaTokens

/-- The greatest offset: offsets are numbers of 32 bits. -/
def maxOffset : Nat := UInt32.size - 1

/-- The bytes of a text whose every offset, that of its end included, is an offset of 32 bits. -/
structure PaddedText where
  bytes : List UInt8
  length_le : bytes.length ≤ maxOffset

namespace PaddedText

/-- A text of more than `maxOffset` bytes is cut at that length. -/
def ofString (text : String) : PaddedText where
  bytes := (Text.bytes text).take maxOffset
  length_le := List.length_take_le _ _

def size (t : PaddedText) : Nat := t.bytes.length

def isEmpty (t : PaddedText) : Bool := t.bytes.isEmpty

/-- The least multiple of 64 that leaves room for three zero bytes. -/
def paddedSize (t : PaddedText) : Nat := (t.size + 3 + 63) / 64 * 64

/-- The text and the zero bytes behind it. -/
def padded (t : PaddedText) : List UInt8 := t.bytes ++ List.replicate (t.paddedSize - t.size) 0

theorem size_add_le_paddedSize (t : PaddedText) : t.size + 3 ≤ t.paddedSize := by
  unfold paddedSize
  omega

end PaddedText

end JavaTokens
