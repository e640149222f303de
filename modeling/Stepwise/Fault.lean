import Stepwise.Number.Checked
import Stepwise.Operation
import Stepwise.Report

/-!
# `Stepwise.Fault`: what goes wrong in a run

A fault is the cause of a failed step. Three causes are catchable: a script that is inside the body of
a `try` gets them as an exception. `Fault.message` has all the wording, and `Fault.report` is what a
reader sees.
-/

set_option autoImplicit false

namespace Stepwise

/-- The four ways in which a script leaves what it is doing. -/
inductive Signal where
  | returned
  | broke
  | continued
  | thrown
deriving DecidableEq, Repr, Inhabited

/-- The word of a signal. -/
def Signal.name : Signal → String
  | returned => "return"
  | broke => "break"
  | continued => "continue"
  | thrown => "throw"

/-- A fault that a script can catch. -/
inductive Catchable where
  | zeroDivision
  /-- A function of mathematics outside its domain. -/
  | mathDomain (text : String)
  | invalidIndex (text : String)
deriving DecidableEq, Repr, Inhabited

namespace Catchable

/-- The word by which a script tells catchable faults apart. -/
def tag : Catchable → String
  | zeroDivision => "zero_division"
  | mathDomain _ => "math_domain"
  | invalidIndex _ => "invalid_index"

/-- The explanation that goes with the tag. -/
def text : Catchable → String
  | zeroDivision => "division by zero"
  | mathDomain text => text
  | invalidIndex text => text

end Catchable

/-- An argument that an operation cannot use although its kind is right. -/
inductive Misuse where
  | length (kind : Kind)
  | slice (kind : Kind)
  | find (kind : Kind)
  | zeroStep
  | emptyRandomRange (low high : Int64)
  | intLiteral (text : String)
  | floatLiteral (text : String)
  /-- A float that is no script integer when cut to a whole number. -/
  | floatAsInt (text : String)
  | kindAsInt (kind : Kind)
deriving DecidableEq, Repr, Inhabited

namespace Misuse

/-- The message of a misuse. -/
def message : Misuse → String
  | length kind => "len() is not defined for " ++ kind.name
  | slice kind => "Cannot slice a value of type " ++ kind.name
  | find kind => "find() is not defined for " ++ kind.name
  | zeroStep => "range_step() step must not be zero"
  | emptyRandomRange low high =>
    "random_int() range is empty: " ++ Number.writeInt low ++ " > " ++ Number.writeInt high
  | intLiteral text => "Invalid integer literal: '" ++ text ++ "'"
  | floatLiteral text => "Invalid float literal: '" ++ text ++ "'"
  | floatAsInt text => "Cannot convert " ++ text ++ " to an integer"
  | kindAsInt kind => "Cannot convert " ++ kind.name ++ " to int"

end Misuse

/-- Why a step failed. -/
inductive Fault where
  /-- A value, shown as text, is not what was wanted. -/
  | typeAssertion (want : Want) (shown : String)
  | unsupportedOperands (op : Op) (left right : Kind)
  | indexOutOfBounds (index : Int64) (len : Nat)
  | missingKey (name : String)
  | arityMismatch (expected got : Nat)
  | recursionLimit (max : Nat)
  /-- A signal that nothing on the stack answers, raised on its own line. -/
  | unhandledInterrupt (signal : Signal) (line : Nat)
  | invalidInterrupt (signal : Signal)
  | catchable (cause : Catchable)
  /-- A thrown value, shown as text, that nothing on the stack catches. -/
  | uncaughtException (shown : String) (line : Nat)
  | overflow (op : Op)
  | invalid (misuse : Misuse)
  /-- The sink refused what was printed. -/
  | output (text : String)
  /-- The machine is in a state that no script leads to. -/
  | internal (text : String)
deriving DecidableEq, Repr, Inhabited

namespace Fault

/-- The message of a fault. -/
def message : Fault → String
  | typeAssertion want shown =>
    "Type assertion of type " ++ want.name ++ " failed for value: " ++ shown
  | unsupportedOperands op left right =>
    "Unsupported operand types for '" ++ op.name ++ "': " ++ left.name ++ " and " ++ right.name
  | indexOutOfBounds index len =>
    "Index " ++ Number.writeInt index ++ " out of bounds for length " ++ toString len
  | missingKey name => "Invalid variable '" ++ name ++ "'"
  | arityMismatch expected got =>
    "Wrong number of arguments for function call: expected " ++ toString expected ++ ", got " ++
      toString got
  | recursionLimit max => "Maximum recursion depth of " ++ toString max ++ " exceeded"
  | unhandledInterrupt signal _ => "Unhandled interrupt: " ++ signal.name
  | invalidInterrupt signal => "Invalid use of " ++ signal.name
  | catchable cause => cause.tag ++ ": " ++ cause.text
  | uncaughtException shown _ => "Uncaught exception: " ++ shown
  | overflow op => "Integer overflow in '" ++ op.name ++ "'"
  | invalid misuse => misuse.message
  | output text => "Output error: " ++ text
  | internal text => "Internal error: " ++ text

/-- The stage of a fault: the sink and the machine itself are not the script's doing. -/
def stage : Fault → Stage
  | output _ | internal _ => .misc
  | _ => .runtime

/-- The line that a fault brings along. -/
def line? : Fault → Option Nat
  | unhandledInterrupt _ line | uncaughtException _ line => some line
  | _ => none

/-- The report of a fault; `line` is used when the fault has no line of its own. -/
def report (f : Fault) (line : Nat) : Report :=
  .onLine f.stage f.message (f.line?.getD line)

end Fault

end Stepwise
