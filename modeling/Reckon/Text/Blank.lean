/-
  Blank characters: the code points with the Unicode property White_Space.

  * `isBlank` tests one character, by the ranges of the property;
  * `trim` cuts the blanks off both ends of a text.
-/
import Reckon.Text.Range

namespace Reckon.Text

/-- The ranges of the property White_Space, both ends included. -/
def blankRanges : List (Nat × Nat) :=
  [(0x09, 0x0D), (0x20, 0x20), (0x85, 0x85), (0xA0, 0xA0), (0x1680, 0x1680), (0x2000, 0x200A),
   (0x2028, 0x2029), (0x202F, 0x202F), (0x205F, 0x205F), (0x3000, 0x3000)]

/-- Whether a character is white space in the sense of Unicode. -/
def isBlank (c : Char) : Bool := inRanges blankRanges c.toNat

/-- A text without the blanks at its two ends. -/
def trimChars (cs : List Char) : List Char :=
  ((cs.dropWhile isBlank).reverse.dropWhile isBlank).reverse

/-- A string without the blanks at its two ends. -/
def trim (s : String) : String := String.ofList (trimChars s.toList)

end Reckon.Text
