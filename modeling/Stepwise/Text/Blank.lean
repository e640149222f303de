/-!
# `Stepwise.Text.Blank`: blank characters

Which characters separate tokens, and how blanks are trimmed from the ends of a text. The class is
the White_Space property of Unicode, which is larger than the blanks that core's `Char.isWhitespace` knows.
-/

set_option autoImplicit false

namespace Stepwise.Text

/-- A blank is a character with the Unicode property White_Space. -/
def isBlank (c : Char) : Bool :=
  let n := c.toNat
  (0x09 ≤ n && n ≤ 0x0D) || n == 0x20 || n == 0x85 || n == 0xA0 || n == 0x1680 ||
    (0x2000 ≤ n && n ≤ 0x200A) || n == 0x2028 || n == 0x2029 || n == 0x202F || n == 0x205F ||
    n == 0x3000

/-- Drops the blanks at both ends of a text. -/
def trimChars (cs : List Char) : List Char :=
  ((cs.dropWhile isBlank).reverse.dropWhile isBlank).reverse

end Stepwise.Text
