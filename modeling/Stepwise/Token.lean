import Stepwise.Number.Layout
import Stepwise.Number.Checked
import Stepwise.Symbol

/-!
# `Stepwise.Token`: tokens of a script

A token is a lexeme with the line on which it starts, counted from zero. `Lexeme.describe` is the
phrase by which an error message names a lexeme.
-/

set_option autoImplicit false

namespace Stepwise

/-- The three kinds of brackets. -/
inductive Bracket where
  | round
  | square
  | curly
deriving DecidableEq, Repr, Inhabited

namespace Bracket

/-- The opening character of a bracket. -/
def openChar : Bracket → Char
  | round => '('
  | square => '['
  | curly => '\x7b'

/-- The closing character of a bracket. -/
def closeChar : Bracket → Char
  | round => ')'
  | square => ']'
  | curly => '\x7d'

/-- The bracket that a character opens. -/
def ofOpen? : Char → Option Bracket
  | '(' => some round
  | '[' => some square
  | '\x7b' => some curly
  | _ => none

/-- The bracket that a character closes. -/
def ofClose? : Char → Option Bracket
  | ')' => some round
  | ']' => some square
  | '\x7d' => some curly
  | _ => none

end Bracket

/-- What a token says. -/
inductive Lexeme where
  | int (n : Int64)
  | float (x : Float)
  | str (s : String)
  /-- A dotted path, from the global scope or from the current one. -/
  | path (global : Bool) (names : List String)
  | word (w : String)
  | symbol (s : Symbol)
  | opening (b : Bracket)
  | closing (b : Bracket)
  | comma
  | semicolon
deriving Inhabited

/-- Puts a text between single quotes. -/
def quoted (s : String) : String :=
  "'" ++ s ++ "'"

/-- The phrase by which an error message names a lexeme. -/
def Lexeme.describe : Lexeme → String
  | int n => quoted (Number.writeInt n)
  | float x => quoted (Number.plainFloat x)
  | str _ => "string literal"
  | path _ names => "variable " ++ quoted ("." ++ ".".intercalate names)
  | word w => quoted w
  | symbol s => quoted s.text
  | opening b => quoted (String.singleton b.openChar)
  | closing b => quoted (String.singleton b.closeChar)
  | comma => quoted ","
  | semicolon => quoted ";"

/-- A lexeme and the line on which it starts. -/
structure Token where
  lexeme : Lexeme
  line : Nat
deriving Inhabited

end Stepwise
