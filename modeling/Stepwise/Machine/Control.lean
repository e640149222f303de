import Stepwise.Machine.Frame
import Stepwise.State

/-!
# `Stepwise.Machine.Control`: how constructs go on

`Control.resume` continues a construct, with the value of the part that it waited for, and says what
comes next. `Control.answer` offers it an interrupt, and `Control.discard` releases what it holds when
an interrupt removes it.

A call and an object literal hold a scope while their body runs, and a `try` counts as a guard while its
body runs.
-/

set_option autoImplicit false

namespace Stepwise

/-- What a construct does next. -/
inductive Move where
  /-- Evaluates a node. -/
  | eval (node : Node) (demand : Demand)
  /-- Runs a block. -/
  | run (body : Block)
  /-- Is done and yields a value. -/
  | done (v : Value)
deriving Inhabited

/-- A construct after it went on, and what it does next; after a fault it is where it was left. -/
structure Resumed where
  control : Control
  state : State
  move : Except Fault Move

namespace Control

/-- The value that a construct waited for. -/
def expectValue (incoming : Option Value) (who : String) : Except Fault Value :=
  match incoming with
  | some v => .ok v
  | none => .error (.internal (who ++ " resumed without a value"))

/-- Continues an `if`. It yields whether its body ran. -/
def resumeIf (phase : BranchPhase) (cond : Node) (body : Block) (incoming : Option Value)
    (st : State) : Resumed :=
  match phase with
  | .start => ⟨.ifThen .condition cond body, st, .ok (.eval cond .any)⟩
  | .condition =>
    match expectValue incoming "if" with
    | .error f => ⟨.ifThen phase cond body, st, .error f⟩
    | .ok v =>
      if st.heap.truthy v then ⟨.ifThen .body cond body, st, .ok (.run body)⟩
      else ⟨.ifThen phase cond body, st, .ok (.done (.bool false))⟩
  | .body => ⟨.ifThen phase cond body, st, .ok (.done (.bool true))⟩

/-- Continues a conjunction or a disjunction. It yields a truth value. -/
def resumeShortCircuit (stop : Bool) (phase : BranchPhase) (left right : Node)
    (incoming : Option Value) (st : State) : Resumed :=
  let who := if stop then "||" else "&&"
  match phase with
  | .start => ⟨.shortCircuit stop .condition left right, st, .ok (.eval left .any)⟩
  | .condition =>
    match expectValue incoming who with
    | .error f => ⟨.shortCircuit stop phase left right, st, .error f⟩
    | .ok v =>
      if st.heap.truthy v = stop then
        ⟨.shortCircuit stop phase left right, st, .ok (.done (.bool stop))⟩
      else ⟨.shortCircuit stop .body left right, st, .ok (.eval right .any)⟩
  | .body =>
    match expectValue incoming who with
    | .error f => ⟨.shortCircuit stop phase left right, st, .error f⟩
    | .ok v =>
      ⟨.shortCircuit stop phase left right, st, .ok (.done (.bool (st.heap.truthy v)))⟩

/-- Continues a `while`. It yields whether its body ran. -/
def resumeWhile (phase : WhilePhase) (ran : Bool) (cond : Node) (body : Block)
    (incoming : Option Value) (st : State) : Resumed :=
  match phase with
  | .check | .body => ⟨.whileDo .condition ran cond body, st, .ok (.eval cond .any)⟩
  | .condition =>
    match expectValue incoming "while" with
    | .error f => ⟨.whileDo phase ran cond body, st, .error f⟩
    | .ok v =>
      if st.heap.truthy v then ⟨.whileDo .body true cond body, st, .ok (.run body)⟩
      else ⟨.whileDo phase ran cond body, st, .ok (.done (.bool ran))⟩
  | .broken => ⟨.whileDo phase ran cond body, st, .ok (.done (.bool ran))⟩

/-- Goes on to the next element of a `for`: writes it to the target and runs the body. -/
def nextElement (ran : Bool) (target source : Node) (body : Block) (slot : Reference)
    (left : List Value) (st : State) : Resumed :=
  match left with
  | [] => ⟨.forEach .broken ran target source body, st, .ok (.done (.bool ran))⟩
  | v :: left =>
    match st.heap.writable slot with
    | .error f => ⟨.forEach .broken ran target source body, st, .error f⟩
    | .ok () =>
      ⟨.forEach (.iterate slot left) true target source body,
        { st with heap := st.heap.put slot v }, .ok (.run body)⟩

/-- Continues a `for`. The elements are those that the list had when the loop began. It yields whether
its body ran; after a fault it counts as broken. -/
def resumeFor (phase : ForPhase) (ran : Bool) (target source : Node) (body : Block)
    (incoming : Option Value) (st : State) : Resumed :=
  let broken := Control.forEach .broken ran target source body
  match phase with
  | .start => ⟨.forEach .target ran target source body, st, .ok (.eval target .target)⟩
  | .target =>
    match expectValue incoming "for" >>= st.heap.asReference with
    | .error f => ⟨broken, st, .error f⟩
    | .ok slot =>
      ⟨.forEach (.source slot) ran target source body, st, .ok (.eval source (.value .list))⟩
  | .source slot =>
    match expectValue incoming "for" >>= st.heap.asList with
    | .error f => ⟨broken, st, .error f⟩
    -- The elements are taken here, once: later changes of the list are not seen.
    | .ok r => nextElement ran target source body slot (st.heap.items r).toList st
  | .iterate slot left => nextElement ran target source body slot left st
  | .broken => ⟨broken, st, .ok (.done (.bool ran))⟩

/-- Binds parameters to arguments in a scope, in order. -/
def bind (h : Heap) (scope : ObjectRef) : List String → List Value → Heap
  | name :: names, v :: vs => bind (h.objectSet scope name v) scope names vs
  | _, _ => h

/-- Enters the body of a function. -/
def enter (f : Function) (args : Array Value) (callee argNode : Node) (st : State) : Resumed :=
  -- The number of arguments is checked before the scope is pushed, so a mismatch leaves no scope behind.
  if args.size ≠ f.arity then
    ⟨.call .start callee argNode, st, .error (.arityMismatch f.arity args.size)⟩
  else
    match st.pushScope with
    | (.error f, st) => ⟨.call .start callee argNode, st, .error f⟩
    | (.ok scope, st) =>
      ⟨.call (.body none) callee argNode,
        { st with heap := bind st.heap scope f.params args.toList }, .ok (.run f.body)⟩

/-- Continues a call. It yields what the body returned, or null; after a fault it is back at its
start. -/
def resumeCall (phase : CallPhase) (callee args : Node) (incoming : Option Value) (st : State) :
    Resumed :=
  let start := Control.call .start callee args
  match phase with
  | .start => ⟨.call .callee callee args, st, .ok (.eval callee (.value .function))⟩
  | .callee =>
    match expectValue incoming "call" >>= st.heap.asFunction with
    | .error f => ⟨start, st, .error f⟩
    | .ok f => ⟨.call (.args f) callee args, st, .ok (.eval args (.value .list))⟩
  | .args f =>
    match expectValue incoming "call" >>= st.heap.asList with
    | .error f => ⟨start, st, .error f⟩
    | .ok r => enter f (st.heap.items r) callee args st
  | .body returned => ⟨start, st.popScope, .ok (.done (returned.getD .null))⟩

/-- Continues an object literal. It yields the scope of its body as an object. -/
def resumeObject (phase : ObjectPhase) (body : Block) (st : State) : Resumed :=
  match phase with
  | .start =>
    match st.pushScope with
    | (.error f, st) => ⟨.object phase body, st, .error f⟩
    | (.ok scope, st) => ⟨.object (.body scope) body, st, .ok (.run body)⟩
  | .body scope => ⟨.object phase body, st.popScope, .ok (.done (.object scope))⟩

/-- Continues a `try`. It yields whether its handler ran. -/
def resumeTry (phase : TryPhase) (body : Block) (name : String) (handler : Block) (st : State) :
    Resumed :=
  match phase with
  | .start =>
    ⟨.tryCatch .body body name handler, { st with guards := st.guards + 1 }, .ok (.run body)⟩
  | .body =>
    ⟨.tryCatch phase body name handler, { st with guards := st.guards - 1 },
      .ok (.done (.bool false))⟩
  | .caught => ⟨.tryCatch .handler body name handler, st, .ok (.run handler)⟩
  | .handler => ⟨.tryCatch phase body name handler, st, .ok (.done (.bool true))⟩

/-- Continues a construct with the value of the part that it waited for. -/
def resume (c : Control) (incoming : Option Value) (st : State) : Resumed :=
  match c with
  | ifThen phase cond body => resumeIf phase cond body incoming st
  | shortCircuit stop phase left right => resumeShortCircuit stop phase left right incoming st
  | whileDo phase ran cond body => resumeWhile phase ran cond body incoming st
  | forEach phase ran target source body => resumeFor phase ran target source body incoming st
  | call phase callee args => resumeCall phase callee args incoming st
  | object phase body => resumeObject phase body st
  | tryCatch phase body name handler => resumeTry phase body name handler st

/-! ### Interrupts -/

/-- What a frame does with an interrupt. -/
inductive Answer where
  /-- It lets the interrupt pass and is removed. -/
  | passed
  /-- It takes the interrupt and goes on. -/
  | handled (c : Control) (st : State)
  /-- The interrupt is not allowed here. -/
  | rejected (f : Fault)

/-- Offers an interrupt to a construct. -/
def answer (c : Control) (i : Interrupt) (st : State) : Answer :=
  match c, i.exit with
  | whileDo _ ran cond body, .broke => .handled (.whileDo .broken ran cond body) st
  | whileDo _ ran cond body, .continued => .handled (.whileDo .check ran cond body) st
  | forEach _ ran target source body, .broke =>
    .handled (.forEach .broken ran target source body) st
  | forEach phase ran target source body, .continued =>
    -- An iteration already points at the next element; before the first one the loop starts anew.
    let phase := match phase with
      | .target | .source _ => .start
      | phase => phase
    .handled (.forEach phase ran target source body) st
  | call (.body _) callee args, .returned v => .handled (.call (.body (some v)) callee args) st
  | call (.body _) _ _, .broke | call (.body _) _ _, .continued =>
    .rejected (.invalidInterrupt i.signal)
  | object (.body scope) body, .returned _ => .handled (.object (.body scope) body) st
  | object (.body _) _, .broke | object (.body _) _, .continued =>
    .rejected (.invalidInterrupt i.signal)
  | tryCatch .body body name handler, .thrown v =>
    .handled (.tryCatch .caught body name handler)
      { st with
        guards := st.guards - 1
        heap := st.heap.objectSet st.scopes.current name v }
  | _, _ => .passed

/-- Releases what a construct holds when an interrupt removes it. -/
def discard (c : Control) (st : State) : State :=
  match c with
  | call (.body _) _ _ => st.popScope
  | object (.body _) _ => st.popScope
  | tryCatch .body _ _ _ => { st with guards := st.guards - 1 }
  | _ => st

end Control

end Stepwise
