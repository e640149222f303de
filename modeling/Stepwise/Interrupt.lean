import Stepwise.Heap.Equality

/-!
# `Stepwise.Interrupt`: interrupts

An interrupt is a signal on its way down the stack, with the line where it was raised. A returned or
thrown value travels with it.
-/

set_option autoImplicit false

namespace Stepwise

/-- What a script does when it leaves what it was doing. -/
inductive Exit where
  | returned (v : Value)
  | broke
  | continued
  | thrown (v : Value)
deriving Inhabited

/-- The signal of an exit. -/
def Exit.signal : Exit → Signal
  | returned _ => .returned
  | broke => .broke
  | continued => .continued
  | thrown _ => .thrown

/-- An exit and the line where it was raised. -/
structure Interrupt where
  exit : Exit
  line : Nat
deriving Inhabited

namespace Interrupt

/-- The signal of an interrupt. -/
def signal (i : Interrupt) : Signal :=
  i.exit.signal

/-- The fault of an interrupt that nothing answers. -/
def unhandled (i : Interrupt) (h : Heap) : Fault :=
  match i.exit with
  | .thrown v => .uncaughtException (h.display v) i.line
  | exit => .unhandledInterrupt exit.signal i.line

/-- Whether two interrupts are the same exit, with equal values, raised on the same line. -/
def equal (h : Heap) (i j : Interrupt) : Bool :=
  let exits := match i.exit, j.exit with
    | .returned v, .returned w => h.equal v w
    | .thrown v, .thrown w => h.equal v w
    | .broke, .broke => true
    | .continued, .continued => true
    | _, _ => false
  exits && i.line == j.line

end Interrupt

end Stepwise
