import Stepwise.Kind
import Stepwise.Tree

/-!
# `Stepwise.Value`: values

A value is a scalar, a handle of a list or an object in the heap, a function, or a reference to a
slot. Handles are positions in the heap. Functions and references carry an identity number, and so do
the cells of the heap; the numbers come from a generator, and two generators may hand out the same
number.
-/

set_option autoImplicit false

namespace Stepwise

/-- The handle of a list. -/
structure ListRef where
  index : Nat
deriving DecidableEq, Repr, Inhabited

/-- The handle of an object. -/
structure ObjectRef where
  index : Nat
deriving DecidableEq, Repr, Inhabited

/-- A list or an object. -/
inductive Container where
  | list (r : ListRef)
  | object (r : ObjectRef)
deriving DecidableEq, Repr, Inhabited

/-- What selects a slot in a container: a name in an object, an index in a list. -/
inductive Key where
  | name (s : String)
  | index (i : Int64)
deriving DecidableEq, Repr, Inhabited

/-- A reference to a slot of a container. The slot may not exist yet. -/
structure Reference where
  id : Nat
  container : Container
  key : Key
deriving DecidableEq, Repr, Inhabited

/-- A function: its parameters and the block it runs. -/
structure Function where
  id : Nat
  params : List String
  body : Block
deriving Inhabited

/-- The number of parameters of a function. -/
def Function.arity (f : Function) : Nat :=
  f.params.length

/-- A value of the language. -/
inductive Value where
  | null
  | bool (b : Bool)
  | int (n : Int64)
  | float (x : Float)
  | str (s : String)
  | list (r : ListRef)
  | object (r : ObjectRef)
  | function (f : Function)
  | reference (r : Reference)
deriving Inhabited

/-- A number: a script integer or a float. -/
inductive Numeric where
  | int (n : Int64)
  | float (x : Float)
deriving Inhabited

/-- The float nearest to a script integer: the one nearest to its absolute value, with its sign. -/
def floatOfInt (n : Int64) : Float :=
  let size := n.toInt.natAbs.toUInt64.toFloat
  if n.toInt < 0 then -size else size

/-- The float of a number. -/
def Numeric.toFloat : Numeric → Float
  | int n => floatOfInt n
  | float x => x

/-- The script integer of a truth value. -/
def intOfBool (b : Bool) : Int64 :=
  if b then 1 else 0

namespace Value

/-- The kind of a value. -/
def kind : Value → Kind
  | null => .null
  | bool _ => .bool
  | int _ => .int
  | float _ => .float
  | str _ => .string
  | list _ => .list
  | object _ => .object
  | function _ => .function
  | reference _ => .reference

/-- Whether a value is as wanted. -/
def meets (v : Value) (want : Want) : Bool :=
  want.covers v.kind

/-- The script integer of a value; a truth value counts as zero or one. -/
def int? : Value → Option Int64
  | bool b => some (intOfBool b)
  | int n => some n
  | _ => none

/-- The number of a value; a truth value counts as zero or one. -/
def numeric? : Value → Option Numeric
  | bool b => some (.int (intOfBool b))
  | int n => some (.int n)
  | float x => some (.float x)
  | _ => none

end Value

end Stepwise
