import Stepwise.Text.CaseTable
import Stepwise.Text.Range

/-!
# `Stepwise.Text.Case`: upper and lower case of a text

Each character is replaced by its full case mapping, which may be several characters. The lowercase of
the capital sigma depends on its place: at the end of a word it is the final sigma. It ends a word if a
character with a case comes before it and none after it, characters that are case-ignorable passed
over.
-/

set_option autoImplicit false

namespace Stepwise.Text

/-- The image of a character under a table of runs and a table of special cases. -/
def mapCase (runs : List CaseRun) (special : List (Nat × List Nat)) (c : Char) : List Char :=
  let n := c.toNat
  match special.lookup n with
  | some image => image.map Char.ofNat
  | none =>
    match runs.find? fun r => r.first ≤ n && n ≤ r.last && (n - r.first) % r.step == 0 with
    | some r => [Char.ofNat ((n : Int) + r.delta).toNat]
    | none => [c]

/-- The uppercase of a character. -/
def upperChar (c : Char) : List Char :=
  -- Most text is ASCII; the tables say the same about it.
  if c.toNat < 0x80 then [c.toUpper] else mapCase upperRuns upperSpecial c

/-- The lowercase of a character wherever it stands. -/
def lowerChar (c : Char) : List Char :=
  if c.toNat < 0x80 then [c.toLower] else mapCase lowerRuns lowerSpecial c

/-- Whether the first character that is not case-ignorable has a case. -/
def startsCased (cs : List Char) : Bool :=
  match cs.dropWhile fun c => inRanges caseIgnorableRanges c.toNat with
  | [] => false
  | c :: _ => inRanges casedRanges c.toNat

/-- The lowercase of a list of characters; `before` are the characters in front of it, the nearest
first. -/
def lowerChars (before : List Char) : List Char → List Char
  | [] => []
  | c :: cs =>
    let image :=
      if c = 'Σ' then
        if startsCased before && !startsCased cs then ['ς'] else ['σ']
      else lowerChar c
    image ++ lowerChars (c :: before) cs

/-- The uppercase of a text. -/
def upper (s : String) : String :=
  String.ofList (s.toList.flatMap upperChar)

/-- The lowercase of a text. -/
def lower (s : String) : String :=
  String.ofList (lowerChars [] s.toList)

end Stepwise.Text
