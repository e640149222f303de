import Stepwise.Heap.Display

/-!
# `Stepwise.Heap.Cast`: values as what a consumer needs

Each function takes a value apart, and fails with the want that the value does not meet. A truth value
counts as the integer zero or one.
-/

set_option autoImplicit false

namespace Stepwise

namespace Heap

/-- The number of a value. -/
def asNumeric (h : Heap) (v : Value) : Except Fault Numeric :=
  match v.numeric? with
  | some n => .ok n
  | none => .error (h.wantFault .numeric v)

/-- The script integer of a value. -/
def asInt (h : Heap) (v : Value) : Except Fault Int64 :=
  match v.int? with
  | some n => .ok n
  | none => .error (h.wantFault .integral v)

/-- The number of a value as a float. -/
def asFloat (h : Heap) (v : Value) : Except Fault Float :=
  (h.asNumeric v).map Numeric.toFloat

/-- The text of a string. -/
def asStr (h : Heap) : Value → Except Fault String
  | .str s => .ok s
  | v => .error (h.wantFault .string v)

/-- The handle of a list. -/
def asList (h : Heap) : Value → Except Fault ListRef
  | .list r => .ok r
  | v => .error (h.wantFault .list v)

/-- The handle of an object. -/
def asObject (h : Heap) : Value → Except Fault ObjectRef
  | .object r => .ok r
  | v => .error (h.wantFault .object v)

/-- The function of a value. -/
def asFunction (h : Heap) : Value → Except Fault Function
  | .function f => .ok f
  | v => .error (h.wantFault .function v)

/-- The reference of a value. -/
def asReference (h : Heap) : Value → Except Fault Reference
  | .reference r => .ok r
  | v => .error (h.wantFault .reference v)

/-- Makes a value fit a demand: a reference is read if the demand says so, and the outcome must be as
wanted. -/
def finalize (h : Heap) (d : Demand) (v : Value) : Except Fault Value := do
  let v ← if d.deref then h.deref v else .ok v
  if v.meets d.want then .ok v else .error (h.wantFault d.want v)

end Heap

end Stepwise
