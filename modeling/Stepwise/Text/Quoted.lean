import Stepwise.Text.PrintTable
import Stepwise.Text.Range

/-!
# `Stepwise.Text.Quoted`: a text between double quotes

The double quote and the backslash get a backslash in front, and a character that does not show on its
own is written as an escape: by a letter if it has one, and else by its code point.
-/

set_option autoImplicit false

namespace Stepwise.Text

/-- Whether a character shows on its own. -/
def shows (c : Char) : Bool :=
  let n := c.toNat
  if n < 0x80 then 0x20 ≤ n && n < 0x7F
  else !inRanges shapelessRanges n && !inRanges extendingRanges n

/-- The characters that stand for a character between double quotes. -/
def escape (c : Char) : List Char :=
  if c = '"' ∨ c = '\\' then ['\\', c]
  else if c = '\n' then ['\\', 'n']
  else if c = '\t' then ['\\', 't']
  else if c = '\r' then ['\\', 'r']
  else if c = '\x00' then ['\\', '0']
  else if shows c then [c]
  else '\\' :: 'u' :: '\x7b' :: (Nat.toDigits 16 c.toNat ++ ['\x7d'])

/-- A text between double quotes, escaped where needed. -/
def doubleQuoted (s : String) : String :=
  String.ofList ('"' :: (s.toList.flatMap escape ++ ['"']))

end Stepwise.Text
