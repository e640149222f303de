import Stepwise.Kind

/-!
# `Stepwise.Operation`: operations and what they demand of their arguments

An operation is an operator or a built-in of the language. Each one lists a `Demand` per argument,
in source order; the length of that list is its arity. `Op.name` is the word or symbol that error
messages use, and `Op.builtin?` finds a built-in by its word.
-/

set_option autoImplicit false

namespace Stepwise

/-- The arithmetic operators. -/
inductive Arith where
  | add
  | sub
  | mul
  | div
  | intDiv
  | mod
  | pow
deriving DecidableEq, Repr, Inhabited

/-- The symbol of an arithmetic operator. -/
def Arith.name : Arith → String
  | .add => "+"
  | .sub => "-"
  | .mul => "*"
  | .div => "/"
  | .intDiv => "//"
  | .mod => "%"
  | .pow => "**"

/-- The order comparisons. -/
inductive Comparison where
  | gt
  | lt
  | ge
  | le
deriving DecidableEq, Repr, Inhabited

/-- The symbol of an order comparison. -/
def Comparison.name : Comparison → String
  | .gt => ">"
  | .lt => "<"
  | .ge => ">="
  | .le => "<="

/-- The operations of the language. -/
inductive Op where
  /-- A binary arithmetic operator. -/
  | arith (a : Arith)
  /-- An order comparison. -/
  | compare (c : Comparison)
  | equal
  | differ
  | index
  | assign
  /-- A compound assignment. -/
  | update (a : Arith)
  | neg
  | not
  | increment
  | decrement
  | invert
  | print
  | localScope
  | globalScope
  | returnValue
  | breakLoop
  | continueLoop
  | throwValue
  | len
  | slice
  | sliceAfter
  | find
  | replace
  | upper
  | lower
  | merge
  | pop
  | push
  | range
  | rangeStep
  | keys
  | values
  | max
  | min
  | abs
  | floor
  | ceil
  | round
  | sqrt
  | log
  | sin
  | cos
  | tan
  | pi
  | random
  | randomInt
  | str
  | int
  | float
  | type
deriving DecidableEq, Repr, Inhabited

namespace Op

/-- The name of an operation: the symbol of an operator, the word of a built-in. A compound
assignment has the name of its arithmetic operator. -/
def name : Op → String
  | arith a | update a => a.name
  | compare c => c.name
  | equal => "=="
  | differ => "!="
  | index => ":"
  | assign => "="
  | neg => "-"
  | not => "!"
  | increment => "++"
  | decrement => "--"
  | invert => "!!"
  | print => "print"
  | localScope => "local"
  | globalScope => "global"
  | returnValue => "return"
  | breakLoop => "break"
  | continueLoop => "continue"
  | throwValue => "throw"
  | len => "len"
  | slice => "slice"
  | sliceAfter => "slice_after"
  | find => "find"
  | replace => "replace"
  | upper => "upper"
  | lower => "lower"
  | merge => "merge"
  | pop => "pop"
  | push => "push"
  | range => "range"
  | rangeStep => "range_step"
  | keys => "keys"
  | values => "values"
  | max => "max"
  | min => "min"
  | abs => "abs"
  | floor => "floor"
  | ceil => "ceil"
  | round => "round"
  | sqrt => "sqrt"
  | log => "log"
  | sin => "sin"
  | cos => "cos"
  | tan => "tan"
  | pi => "pi"
  | random => "random"
  | randomInt => "random_int"
  | str => "str"
  | int => "int"
  | float => "float"
  | type => "type"

/-- The operations that a script calls by a word. -/
def builtins : List Op :=
  [print, localScope, globalScope, returnValue, breakLoop, continueLoop, throwValue, len, slice,
    sliceAfter, find, replace, upper, lower, merge, pop, push, range, rangeStep, keys, values, max,
    min, abs, floor, ceil, round, sqrt, log, sin, cos, tan, pi, random, randomInt, str, int, float,
    type]

/-- The built-in with a given word. -/
def builtin? (word : String) : Option Op :=
  builtins.find? fun op => op.name == word

/-- The demands on the arguments of an operation, in source order. -/
def demands : Op → List Demand
  | arith .add | equal | differ | index | find => [.any, .any]
  | arith _ | compare _ | max | min => [.value .numeric, .value .numeric]
  | assign | update .add => [.target, .any]
  | update _ => [.target, .value .numeric]
  | not | print | returnValue | throwValue | len | str | int | float | type => [.any]
  | neg | abs | floor | ceil | round | sqrt | log | sin | cos | tan => [.value .numeric]
  | increment | decrement | invert => [.target]
  | localScope | globalScope | breakLoop | continueLoop | pi | random => []
  | slice => [.any, .value .integral, .value .integral]
  | sliceAfter => [.any, .value .integral]
  | replace => [.value .string, .value .string, .value .string]
  | upper | lower => [.value .string]
  | merge => [.value .list, .value .list]
  | pop => [.value .container, .any]
  | push => [.value .list, .any]
  | range => [.value .integral]
  | rangeStep => [.value .integral, .value .integral, .value .integral]
  | keys | values => [.value .object]
  | randomInt => [.value .integral, .value .integral]

/-- The number of arguments of an operation. -/
def arity (op : Op) : Nat :=
  op.demands.length

end Op

end Stepwise
