import JavaTokens.Unicode.Alphabetic
import JavaTokens.Unicode.Number
import JavaTokens.Unicode.Uppercase

/-!
# Character properties

The three properties of characters on which Java words and type names depend.

    among the first characters, uppercase ones are capital letters    (isUppercase_iff_of_le)
-/

namespace JavaTokens.Unicode

def isAlphabetic (c : Char) : Bool := alphabetic.contains c.toNat

/-- Alphabetic, or a number of any script. -/
def isAlphanumeric (c : Char) : Bool := isAlphabetic c || number.contains c.toNat

def isUppercase (c : Char) : Bool := uppercase.contains c.toNat

/-- Up to `Z`, the uppercase characters are the capital letters of ASCII. -/
theorem isUppercase_iff_of_le {c : Char} (h : c.toNat ≤ 0x5A) :
    isUppercase c = true ↔ 0x41 ≤ c.toNat := by
  have hcapitals : uppercase.runs[0]? = some (0x41, 0x5A) := by decide +kernel
  exact uppercase.contains_iff_of_le c.toNat hcapitals h

end JavaTokens.Unicode
