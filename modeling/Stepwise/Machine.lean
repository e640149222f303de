import Stepwise.Machine.Control
import Stepwise.Operation.Effect

/-!
# `Stepwise.Machine`: one step at a time

The machine has a stack of frames, the top one first, and the state that they share. `Machine.step` does
one small piece of work and returns, so that a host can stop between any two of them. The frame that
works is the topmost one that is not a value; the values above it are what it has produced so far.

An interrupt under way is offered to the top frame instead, one frame in each step, until one of them
takes it. A catchable fault becomes such an interrupt while some `try` is running its body.
-/

set_option autoImplicit false

namespace Stepwise

/-- The stack, the top frame first, and the state that its frames share. -/
structure Machine where
  stack : List Frame
  state : State
deriving Inhabited

/-- What a node gives at once: a value, or a frame that will produce it. -/
inductive Produced where
  | value (v : Value)
  | frame (f : Frame)

/-- Starts the evaluation of a node. -/
def State.produce (st : State) (node : Node) : Except Fault Produced × State :=
  match node.form with
  | .null => (.ok (.value .null), st)
  | .bool b => (.ok (.value (.bool b)), st)
  | .int n => (.ok (.value (.int n)), st)
  | .float x => (.ok (.value (.float x)), st)
  | .str s => (.ok (.value (.str s)), st)
  | .path global names =>
    match st.resolve global names with
    | (.ok v, st) => (.ok (.value v), st)
    | (.error f, st) => (.error f, st)
  | .list [] =>
    let (v, st) := st.makeList #[]
    (.ok (.value v), st)
  | .list items => (.ok (.frame (.list items)), st)
  | .block body => (.ok (.frame (.block body.statements)), st)
  | .function params body =>
    let (v, st) := st.makeFunction params body
    (.ok (.value v), st)
  | .op op args => (.ok (.frame (.operation op args node.line)), st)
  | .ifThen cond body => construct (.ifThen .start cond body)
  | .whileDo cond body => construct (.whileDo .check false cond body)
  | .forEach target source body => construct (.forEach .start false target source body)
  | .call callee args => construct (.call .start callee args)
  | .object body => construct (.object .start body)
  | .andAlso left right => construct (.shortCircuit false .start left right)
  | .orElse left right => construct (.shortCircuit true .start left right)
  | .tryCatch body name handler => construct (.tryCatch .start body name handler)
where
  /-- The frame of a construct before its first part. -/
  construct (c : Control) : Except Fault Produced × State :=
    (.ok (.frame (.control node.line c)), st)

namespace Machine

/-- A machine that is about to run a script. -/
def start (root : Block) (limit : Nat) (seed : Seed) (sink : Sink) : Machine :=
  let (global, heap) := Heap.empty.newObject 1 .empty
  { stack := [.block root.statements]
    state :=
      { heap := heap
        scopes := .ofGlobal global limit
        nextId := 2
        random := .ofSeed seed
        pending := none
        sink := sink
        line := root.line
        guards := 0 } }

/-- Whether work remains: an interrupt is under way, or the stack is more than one value. -/
def hasWork (m : Machine) : Bool :=
  m.state.pending.isSome ||
    match m.stack with
    | [] | [.value _] => false
    | _ => true

/-- The number of frames. -/
def depth (m : Machine) : Nat :=
  m.stack.length

/-- The value that is left when the stack is just that. -/
def result? (m : Machine) : Option Value :=
  match m.stack with
  | [.value v] => some v
  | _ => none

/-- The fields of the global scope. -/
def globals (m : Machine) : Fields :=
  m.state.heap.fields m.state.scopes.global

/-- Takes the values off the top of a stack, in the order in which they were produced, in front of
`produced`. -/
def takeValues (produced : List Value) : List Frame → List Value × List Frame
  | .value v :: frames => takeValues (v :: produced) frames
  | frames => (produced, frames)

/-- The fault of a frame with a wrong number of values above it. -/
def countFault (expected found : Nat) : Fault :=
  .internal ("expected " ++ toString expected ++ " produced values, found " ++ toString found)

/-- The outcome of some work on a machine. -/
abbrev Outcome := Except Fault Unit × Machine

/-- Works on a node to be evaluated; `above` are the frames above it and `below` those below it. -/
def stepRequest (node : Node) (demand : Demand) (above below : List Frame) (st : State) : Outcome :=
  let here := above ++ .request node demand :: below
  match { st with line := node.line }.produce node with
  -- A node that fails stays on the stack as a request.
  | (.error f, st) => (.error f, ⟨here, st⟩)
  | (.ok (.frame f), st) => (.ok (), ⟨f :: (above ++ .finish demand :: below), st⟩)
  | (.ok (.value v), st) =>
    match st.heap.finalize demand v with
    | .error f => (.error f, ⟨here, st⟩)
    | .ok v => (.ok (), ⟨above ++ .value v :: below, st⟩)

/-- Makes a produced value fit its demand. -/
def stepFinish (demand : Demand) (values : List Value) (stack below : List Frame) (st : State) :
    Outcome :=
  match values with
  | [v] =>
    match st.heap.finalize demand v with
    | .error f => (.error f, ⟨.finish demand :: below, st⟩)
    | .ok v => (.ok (), ⟨.value v :: below, st⟩)
  | values => (.error (countFault 1 values.length), ⟨stack, st⟩)

/-- Asks for the next argument of an operation, or applies it when all are there. The operation is
gone from the stack when it is applied, whether it succeeds or not. -/
def stepOperation (op : Op) (args : List Node) (line : Nat) (values : List Value)
    (stack below : List Frame) (st : State) : Outcome :=
  if values.length < op.arity then
    match args[values.length]?, op.demands[values.length]? with
    | some node, some demand => (.ok (), ⟨.request node demand :: stack, st⟩)
    | _, _ => (.error (.internal "operation without argument"), ⟨stack, st⟩)
  else if values.length = op.arity then
    -- The arguments may have moved the line; the operation is blamed on its own.
    match { st with line := line }.apply op values with
    | (.ok v, st) => (.ok (), ⟨.value v :: below, st⟩)
    | (.error f, st) => (.error f, ⟨below, st⟩)
  else (.error (countFault op.arity values.length), ⟨stack, st⟩)

/-- Asks for the next element of a list, or makes it when all are there. -/
def stepList (items : List Node) (values : List Value) (stack below : List Frame) (st : State) :
    Outcome :=
  match items[values.length]? with
  | some node => (.ok (), ⟨.request node .any :: stack, st⟩)
  | none =>
    if values.length = items.length then
      let (v, st) := st.makeList values.toArray
      (.ok (), ⟨.value v :: below, st⟩)
    else (.error (countFault items.length values.length), ⟨stack, st⟩)

/-- Starts the next statement of a block; the value of the last one is dropped. -/
def stepBlock (statements : List Node) (below : List Frame) (st : State) : Outcome :=
  match statements with
  | [] => (.ok (), ⟨.value .null :: below, st⟩)
  | s :: rest => (.ok (), ⟨.request s .any :: .block rest :: below, { st with line := s.line }⟩)

/-- Continues a construct with the value that was produced above it, if there is one. -/
def stepControl (line : Nat) (c : Control) (values : List Value) (stack below : List Frame)
    (st : State) : Outcome :=
  match values with
  | _ :: _ :: _ => (.error (countFault 1 values.length), ⟨stack, st⟩)
  | values =>
    let r := c.resume values.head? { st with line := line }
    let here := Frame.control line r.control :: below
    match r.move with
    | .error f => (.error f, ⟨here, r.state⟩)
    | .ok (.eval node demand) => (.ok (), ⟨.request node demand :: here, r.state⟩)
    | .ok (.run body) => (.ok (), ⟨.block body.statements :: here, r.state⟩)
    | .ok (.done v) => (.ok (), ⟨.value v :: below, r.state⟩)

/-- Lets the topmost frame that is not a value do one piece of work. -/
def work (m : Machine) : Outcome :=
  let ⟨stack, st⟩ := m
  let (values, frames) := takeValues [] stack
  match frames with
  | [] | .value _ :: _ => (.error (.internal "no frame to advance"), ⟨stack, st⟩)
  | .request node demand :: below =>
    stepRequest node demand (values.reverse.map Frame.value) below st
  | .finish demand :: below => stepFinish demand values stack below st
  | .operation op args line :: below => stepOperation op args line values stack below st
  | .list items :: below => stepList items values stack below st
  | .block statements :: below => stepBlock statements below st
  | .control line c :: below => stepControl line c values stack below st

/-- Goes on with an interrupt after a frame has let it pass. If that was the last frame, nothing answers
the interrupt. -/
def unwind (i : Interrupt) (below : List Frame) (st : State) : Outcome :=
  match below with
  | [] => (.error (i.unhandled st.heap), ⟨[], st⟩)
  | below => (.ok (), ⟨below, { st with pending := some i }⟩)

/-- Offers an interrupt to the top frame. -/
def dispatch (i : Interrupt) (stack : List Frame) (st : State) : Outcome :=
  match stack with
  | [] => (.error (i.unhandled st.heap), ⟨[], st⟩)
  | .control line c :: below =>
    match c.answer i st with
    | .handled c st => (.ok (), ⟨.control line c :: below, st⟩)
    | .rejected f => (.error f, ⟨.control line c :: below, st⟩)
    -- What the construct holds is released before the next frame is asked.
    | .passed => unwind i below (c.discard st)
  | _ :: below => unwind i below st

/-- Turns a catchable fault into an exception under way. -/
def throwCatchable (cause : Catchable) (m : Machine) : Outcome :=
  let (payload, st) := m.state.exceptionPayload cause
  match st.raise (.thrown payload) with
  | (r, st) => (r, ⟨m.stack, st⟩)

/-- The answer of a step: whether work remains. -/
def finishStep (o : Outcome) : Except Fault Bool × Machine :=
  match o with
  | (.ok (), m) => (.ok m.hasWork, m)
  | (.error f, m) => (.error f, m)

/-- Does one step and says whether work remains. -/
def step (m : Machine) : Except Fault Bool × Machine :=
  let ⟨stack, st⟩ := m
  match st.pending with
  -- An interrupt under way comes before any work.
  | some i => finishStep (dispatch i stack { st with pending := none })
  | none =>
    if hasWork ⟨stack, st⟩ then
      match work ⟨stack, st⟩ with
      | (.error (.catchable cause), m) =>
        -- Without a `try` that could take it the fault is reported as it is.
        if 0 < m.state.guards then finishStep (throwCatchable cause m)
        else (.error (.catchable cause), m)
      | o => finishStep o
    else (.ok false, ⟨stack, st⟩)

end Machine

end Stepwise
