import Stepwise.Text.Blank

/-!
# `Stepwise.Text.Lines`: the lines of a text

A line ends at a line feed, and what follows the last line feed is a line only if it is not empty.
`lineAt?` is the trimmed text that an error shows below its message; trimming also removes the
carriage return of a line that ends in one.
-/

set_option autoImplicit false

namespace Stepwise.Text

/-- Cuts a text at its line feeds; the last piece is what follows the last line feed. -/
def splitLines : List Char → List (List Char)
  | [] => [[]]
  | c :: cs =>
    if c = '\n' then
      [] :: splitLines cs
    else
      match splitLines cs with
      | [] => [[c]]
      | line :: rest => (c :: line) :: rest

/-- The lines of a text without their line feeds. -/
def lines (cs : List Char) : List (List Char) :=
  let pieces := splitLines cs
  if pieces.getLast? = some [] then pieces.dropLast else pieces

/-- The trimmed text of the line with a given number, counted from zero. -/
def lineAt? (source : String) (line : Nat) : Option String :=
  (lines source.toList)[line]?.map fun cs => String.ofList (trimChars cs)

end Stepwise.Text
