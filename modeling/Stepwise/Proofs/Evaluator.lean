import Stepwise.Machine

/-!
# `Stepwise.Proofs.Evaluator`: a script by recursion

The machine runs a script by small steps on a stack. This module says what the script means without a
stack: `eval` goes by recursion over the tree, and an interrupt is one of the ways in which an evaluation
can end. `Stepwise.Proofs.Refinement` proves that the two agree.

An evaluation ends with a value, with an interrupt that leaves the construct, or with a fault that ends
the run (`Ending`). A loop or a call may never end, so `eval` counts its nesting down from a bound, and
`none` stands for a bound that was too small. The constructs take the evaluator of their parts as a
parameter `ev`: each of them is a plain function, and only `eval` ties the knot.

The line of the state is what an interrupt carries away, so the constructs here put it where the machine
does: on a node when its evaluation starts, and back on the construct when a part of it has ended.
-/

set_option autoImplicit false

namespace Stepwise

/-- How an evaluation ends. -/
inductive Ending (α : Type) where
  | value (a : α)
  /-- An interrupt leaves what was evaluated. -/
  | interrupt (i : Interrupt)
  /-- The run is over. -/
  | fault (f : Fault)

/-- An ending and the state that it leaves; nothing if the bound on the nesting was too small. -/
abbrev Evaluation (α : Type) := Option (Ending α × State)

namespace Evaluation

/-- Goes on after a value or an interrupt. A fault cannot be handled. -/
def handle {α β : Type} (e : Evaluation α) (onValue : α → State → Evaluation β)
    (onInterrupt : Interrupt → State → Evaluation β) : Evaluation β :=
  match e with
  | none => none
  | some (.value a, st) => onValue a st
  | some (.interrupt i, st) => onInterrupt i st
  | some (.fault f, st) => some (.fault f, st)

/-- Goes on after a value; an interrupt passes through. -/
def andThen {α β : Type} (e : Evaluation α) (k : α → State → Evaluation β) : Evaluation β :=
  e.handle k fun i st => some (.interrupt i, st)

end Evaluation

namespace State

/-- The state at a line. -/
def atLine (st : State) (line : Nat) : State :=
  { st with line := line }

/-- Ends with a value. -/
def yield {α : Type} (st : State) (a : α) : Evaluation α :=
  some (.value a, st)

/-- Ends with a fault. A catchable one is an exception while the body of some `try` is running. -/
def fail {α : Type} (st : State) (f : Fault) : Evaluation α :=
  match f with
  | .catchable cause =>
    if 0 < st.guards then
      let (payload, st) := st.exceptionPayload cause
      some (.interrupt ⟨.thrown payload, st.line⟩, st)
    else some (.fault (.catchable cause), st)
  | f => some (.fault f, st)

/-- Goes on with a result that was computed in a state, or fails. -/
def attempt {α β : Type} (st : State) (r : Except Fault α) (k : α → Evaluation β) : Evaluation β :=
  match r with
  | .ok a => k a
  | .error f => st.fail f

/-- Applies an operation at its line. One that sets an interrupt off ends with that interrupt. -/
def applied (st : State) (op : Op) (args : List Value) : Evaluation Value :=
  match st.apply op args with
  | (.error f, st) => st.fail f
  | (.ok v, st) =>
    match st.pending with
    | none => st.yield v
    | some i => some (.interrupt i, { st with pending := none })

end State

/-- What evaluates a node against a demand. -/
abbrev Evaluator := Node → Demand → State → Evaluation Value

/-! ### Constructs over an evaluator of their parts -/

section Constructs

variable (ev : Evaluator)

/-- Nodes from left to right, each against its own demand. -/
def evalAll : List (Node × Demand) → State → Evaluation (List Value)
  | [], st => st.yield []
  | (node, demand) :: rest, st =>
    (ev node demand st).andThen fun v st =>
      (evalAll rest st).andThen fun vs st => st.yield (v :: vs)

/-- Statements in order; their values are dropped. -/
def evalBlock : List Node → State → Evaluation Value
  | [], st => st.yield .null
  | s :: rest, st => (ev s .any (st.atLine s.line)).andThen fun _ st => evalBlock rest st

/-- An operation on its arguments. -/
def evalOperation (op : Op) (args : List Node) (line : Nat) (st : State) : Evaluation Value :=
  (evalAll ev (args.zip op.demands) st).andThen fun vs st =>
    if vs.length < op.arity then st.fail (.internal "operation without argument")
    else (st.atLine line).applied op vs

/-- A list literal. -/
def evalList (items : List Node) (st : State) : Evaluation Value :=
  (evalAll ev (items.map fun node => (node, .any)) st).andThen fun vs st =>
    let (v, st) := st.makeList vs.toArray
    st.yield v

/-- Yields whether the body ran. -/
def evalIf (cond : Node) (body : Block) (line : Nat) (st : State) : Evaluation Value :=
  (ev cond .any (st.atLine line)).andThen fun v st =>
    if st.heap.truthy v then
      (evalBlock ev body.statements (st.atLine line)).andThen fun _ st =>
        (st.atLine line).yield (.bool true)
    else (st.atLine line).yield (.bool false)

/-- The second operand is skipped if the truth of the first one is `stop`. -/
def evalShortCircuit (stop : Bool) (left right : Node) (line : Nat) (st : State) :
    Evaluation Value :=
  (ev left .any (st.atLine line)).andThen fun v st =>
    if st.heap.truthy v = stop then (st.atLine line).yield (.bool stop)
    else
      (ev right .any (st.atLine line)).andThen fun v st =>
        (st.atLine line).yield (.bool (st.heap.truthy v))

/-- What a loop does with an interrupt of one of its parts: a break ends it, a continue goes on with
`again`, and the others leave it. -/
def loopExit (line : Nat) (ran : Bool) (again : State → Evaluation Value) (i : Interrupt)
    (st : State) : Evaluation Value :=
  match i.exit with
  | .broke => (st.atLine line).yield (.bool ran)
  | .continued => again st
  | _ => some (.interrupt i, st)

/-- A `while` of at most `n` rounds. It yields whether its body ran. -/
def evalWhile (cond : Node) (body : Block) (line : Nat) : Nat → Bool → State → Evaluation Value
  | 0, _, _ => none
  | n + 1, ran, st =>
    (ev cond .any (st.atLine line)).handle
      (fun v st =>
        if st.heap.truthy v then
          (evalBlock ev body.statements (st.atLine line)).handle
            (fun _ st => evalWhile cond body line n true st)
            (loopExit line true (evalWhile cond body line n true))
        else (st.atLine line).yield (.bool ran))
      (loopExit line ran (evalWhile cond body line n ran))

/-- The rounds of a `for` over the elements that are left. Each element is written to the slot before
the body runs. -/
def evalElements (slot : Reference) (body : Block) (line : Nat) :
    List Value → Bool → State → Evaluation Value
  | [], ran, st => (st.atLine line).yield (.bool ran)
  | v :: left, _, st =>
    (st.atLine line).attempt (st.heap.write slot v) fun heap =>
      (evalBlock ev body.statements { st.atLine line with heap := heap }).handle
        (fun _ st => evalElements slot body line left true st)
        (loopExit line true (evalElements slot body line left true))

/-- A `for` that is started at most `n` times. The elements are those that the list has when its
evaluation ends; a continue before that starts the loop anew. -/
def evalFor (target source : Node) (body : Block) (line : Nat) : Nat → State → Evaluation Value
  | 0, _ => none
  | n + 1, st =>
    (ev target .target (st.atLine line)).handle
      (fun t st =>
        (st.atLine line).attempt (st.heap.asReference t) fun slot =>
          (ev source (.value .list) (st.atLine line)).handle
            (fun s st =>
              (st.atLine line).attempt (st.heap.asList s) fun r =>
                evalElements ev slot body line (st.heap.items r).toList false st)
            (loopExit line false (evalFor target source body line n)))
      (loopExit line false (evalFor target source body line n))

/-- Runs a body in a scope that is on top, and takes the scope off when the body has ended. A return
ends the body; a break or a continue may not leave it. -/
def evalInScope (body : Block) (line : Nat) (onReturn : Option Value → Value) (st : State) :
    Evaluation Value :=
  (evalBlock ev body.statements st).handle
    (fun _ st => (st.atLine line).popScope.yield (onReturn none))
    (fun i st =>
      match i.exit with
      | .returned v => (st.atLine line).popScope.yield (onReturn (some v))
      | .thrown _ => some (.interrupt i, st.popScope)
      | _ => st.fail (.invalidInterrupt i.signal))

/-- A call. The body runs in a fresh scope with the arguments under the names of the parameters, and
the call yields what the body returns, or null. -/
def evalCall (callee args : Node) (line : Nat) (st : State) : Evaluation Value :=
  (ev callee (.value .function) (st.atLine line)).andThen fun v st =>
    (st.atLine line).attempt (st.heap.asFunction v) fun f =>
      (ev args (.value .list) (st.atLine line)).andThen fun v st =>
        (st.atLine line).attempt (st.heap.asList v) fun r =>
          let values := st.heap.items r
          if values.size ≠ f.arity then
            (st.atLine line).fail (.arityMismatch f.arity values.size)
          else
            match (st.atLine line).pushScope with
            | (.error fault, st) => st.fail fault
            | (.ok scope, st) =>
              let heap := Control.bind st.heap scope f.params values.toList
              evalInScope ev f.body line (fun v => v.getD .null) { st with heap := heap }

/-- An object literal: its body runs in a fresh scope, and that scope is the object. -/
def evalObject (body : Block) (line : Nat) (st : State) : Evaluation Value :=
  match (st.atLine line).pushScope with
  | (.error fault, st) => st.fail fault
  | (.ok scope, st) => evalInScope ev body line (fun _ => .object scope) st

/-- Runs a body under a guard. An exception that leaves it is bound to a name in the current scope, and
the handler runs. It yields whether the handler ran. -/
def evalTry (body : Block) (name : String) (handler : Block) (line : Nat) (st : State) :
    Evaluation Value :=
  (evalBlock ev body.statements { st.atLine line with guards := st.guards + 1 }).handle
    (fun _ st => { st.atLine line with guards := st.guards - 1 }.yield (.bool false))
    (fun i st =>
      let st := { st with guards := st.guards - 1 }
      match i.exit with
      | .thrown v =>
        let heap := st.heap.objectSet st.scopes.current name v
        (evalBlock ev handler.statements { st.atLine line with heap := heap }).andThen fun _ st =>
          (st.atLine line).yield (.bool true)
      | _ => some (.interrupt i, st))

/-- What a node says, before it is made to fit a demand; loops have at most `n` rounds. -/
def evalForm (n : Nat) (node : Node) (st : State) : Evaluation Value :=
  match node.form with
  | .null => st.yield .null
  | .bool b => st.yield (.bool b)
  | .int i => st.yield (.int i)
  | .float x => st.yield (.float x)
  | .str s => st.yield (.str s)
  | .path global names =>
    let (r, st) := st.resolve global names
    st.attempt r st.yield
  | .list items => evalList ev items st
  | .block body => evalBlock ev body.statements st
  | .function params body =>
    let (v, st) := st.makeFunction params body
    st.yield v
  | .op op args => evalOperation ev op args node.line st
  | .ifThen cond body => evalIf ev cond body node.line st
  | .whileDo cond body => evalWhile ev cond body node.line n false st
  | .forEach target source body => evalFor ev target source body node.line n st
  | .call callee args => evalCall ev callee args node.line st
  | .object body => evalObject ev body node.line st
  | .andAlso left right => evalShortCircuit ev false left right node.line st
  | .orElse left right => evalShortCircuit ev true left right node.line st
  | .tryCatch body name handler => evalTry ev body name handler node.line st

end Constructs

/-- Evaluates a node against a demand, with a bound on the nesting and on the rounds of each loop. -/
def eval : Nat → Evaluator
  | 0, _, _, _ => none
  | n + 1, node, demand, st =>
    (evalForm (eval n) n node (st.atLine node.line)).andThen fun v st =>
      st.attempt (st.heap.finalize demand v) st.yield

end Stepwise
