import Stepwise.Operation

/-!
# `Stepwise.Symbol`: operator symbols

The symbols that stand for operators in a script. `Symbol.all` lists every longer symbol before the
symbols it starts with, so the first one that a text starts with is also the longest one.
-/

set_option autoImplicit false

namespace Stepwise

/-- An operator symbol. -/
inductive Symbol where
  | arith (a : Arith)
  | update (a : Arith)
  | compare (c : Comparison)
  | equal
  | differ
  | assign
  | colon
  | arrow
  | andAlso
  | orElse
  | bang
  | increment
  | decrement
  | invert
deriving DecidableEq, Repr, Inhabited

namespace Symbol

/-- The characters of a symbol. -/
def text : Symbol → String
  | arith a => a.name
  | update a => a.name ++ "="
  | compare c => c.name
  | equal => "=="
  | differ => "!="
  | assign => "="
  | colon => ":"
  | arrow => "->"
  | andAlso => "&&"
  | orElse => "||"
  | bang => "!"
  | increment => "++"
  | decrement => "--"
  | invert => "!!"

/-- Every symbol, longer ones first. -/
def all : List Symbol :=
  [update .pow, update .intDiv, arith .pow, arith .intDiv, compare .le, compare .ge, equal, differ,
    andAlso, orElse, update .add, update .sub, update .mul, update .div, update .mod, increment,
    decrement, invert, arrow, arith .add, arith .sub, arith .mul, arith .div, arith .mod,
    compare .gt, compare .lt, assign, bang, colon]

/-- The symbol with a given text. -/
def ofText? (s : String) : Option Symbol :=
  all.find? fun symbol => symbol.text == s

/-- The operation of a symbol between two operands; the short-circuit and call symbols build
their own trees. -/
def binaryOp? : Symbol → Option Op
  | arith a => some (.arith a)
  | update a => some (.update a)
  | compare c => some (.compare c)
  | equal => some .equal
  | differ => some .differ
  | assign => some .assign
  | colon => some .index
  | _ => none

/-- The operation of a symbol in front of one operand. -/
def unaryOp? : Symbol → Option Op
  | arith .sub => some .neg
  | bang => some .not
  | increment => some .increment
  | decrement => some .decrement
  | invert => some .invert
  | _ => none

/-- The operation of an assignment symbol. -/
def assignOp? : Symbol → Option Op
  | assign => some .assign
  | update a => some (.update a)
  | _ => none

end Symbol

end Stepwise
