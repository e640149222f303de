import Stepwise.Value

/-!
# `Stepwise.Machine.Frame`: the frames of the stack

A frame is a value that was produced, or work that is under way. Work waits for the values that are
produced above it. A control frame is a construct with several parts, and its phase says which part it
waits for.
-/

set_option autoImplicit false

namespace Stepwise

/-- How far a condition with one part after it has come. -/
inductive BranchPhase where
  | start
  | condition
  | body
deriving DecidableEq, Repr, Inhabited

/-- How far a `while` has come. -/
inductive WhilePhase where
  | check
  | condition
  | body
  | broken
deriving DecidableEq, Repr, Inhabited

/-- How far a `for` has come. -/
inductive ForPhase where
  | start
  | target
  | source (target : Reference)
  /-- A body runs; these are the elements after it. -/
  | iterate (target : Reference) (left : List Value)
  | broken
deriving Inhabited

/-- How far a call has come. -/
inductive CallPhase where
  | start
  | callee
  | args (f : Function)
  /-- The body runs in a scope of its own, and may have returned a value. -/
  | body (returned : Option Value)
deriving Inhabited

/-- How far an object literal has come. -/
inductive ObjectPhase where
  | start
  /-- The body runs in the scope that becomes the object. -/
  | body (scope : ObjectRef)
deriving DecidableEq, Repr, Inhabited

/-- How far a `try` has come. -/
inductive TryPhase where
  | start
  | body
  | caught
  | handler
deriving DecidableEq, Repr, Inhabited

/-- A construct with several parts. -/
inductive Control where
  | ifThen (phase : BranchPhase) (cond : Node) (body : Block)
  /-- Two operands of which the second is skipped if the truth of the first is `stop`. -/
  | shortCircuit (stop : Bool) (phase : BranchPhase) (left right : Node)
  /-- A loop; `ran` says whether its body has run. -/
  | whileDo (phase : WhilePhase) (ran : Bool) (cond : Node) (body : Block)
  /-- A loop over a list; `ran` says whether its body has run. -/
  | forEach (phase : ForPhase) (ran : Bool) (target source : Node) (body : Block)
  | call (phase : CallPhase) (callee args : Node)
  | object (phase : ObjectPhase) (body : Block)
  | tryCatch (phase : TryPhase) (body : Block) (name : String) (handler : Block)

instance : Inhabited Control := ⟨.object .start default⟩

/-- A frame of the stack. -/
inductive Frame where
  | value (v : Value)
  /-- A node to be evaluated. -/
  | request (node : Node) (demand : Demand)
  /-- A node whose value is produced above, to be made to fit the demand. -/
  | finish (demand : Demand)
  | operation (op : Op) (args : List Node) (line : Nat)
  | list (items : List Node)
  /-- The statements that are still to be run. -/
  | block (statements : List Node)
  | control (line : Nat) (c : Control)
deriving Inhabited

end Stepwise
