/-!
# `Stepwise.Text.Search`: finding and replacing text

Positions count characters. `findFrom?` gives the first place where a text occurs, and `replaceAll`
replaces the occurrences from left to right, each one after the end of the last. The empty text occurs
at the start, between any two characters and at the end.
-/

set_option autoImplicit false

namespace Stepwise.Text

/-- The first position, counted from `i`, at which `needle` occurs. -/
def findFrom? (needle : List Char) : List Char → Nat → Option Nat
  | [], i => if needle.isEmpty then some i else none
  | c :: cs, i => if needle.isPrefixOf (c :: cs) then some i else findFrom? needle cs (i + 1)

/-- Replaces every occurrence of a text that is not empty. -/
def replaceChars (pattern replacement : List Char) (cs : List Char) : List Char :=
  match cs with
  | [] => []
  | c :: cs =>
    if pattern.isPrefixOf (c :: cs) then
      replacement ++ replaceChars pattern replacement (cs.drop (pattern.length - 1))
    else c :: replaceChars pattern replacement cs
termination_by cs.length
decreasing_by
  · simp only [List.length_drop, List.length_cons]
    omega
  · simp

/-- Replaces every occurrence of a text. -/
def replaceAll (s pattern replacement : String) : String :=
  let cs := s.toList
  if pattern.isEmpty then
    String.ofList (replacement.toList ++ cs.flatMap fun c => c :: replacement.toList)
  else
    String.ofList (replaceChars pattern.toList replacement.toList cs)

end Stepwise.Text
