import Stepwise.Proofs.Resuming

/-!
# `Stepwise.Proofs.Parts`: what a construct goes on with

The parts of a construct are the nodes and blocks that it is made of. They never change: a construct that goes
on, or that takes an interrupt, only changes its phase. What it does next is to evaluate one of its nodes or to
run one of its blocks, and the one exception is a call, which runs the body of the function that it has
taken from memory (`Control.Resumes.parts`). Whatever holds of the parts of a node and of the functions in memory
is therefore found again in what comes on the stack. The line of the state stays as it is.
-/

set_option autoImplicit false

namespace Stepwise

namespace Control

/-- The nodes of a construct. -/
def nodes : Control → List Node
  | ifThen _ cond _ | whileDo _ _ cond _ => [cond]
  | shortCircuit _ _ left right => [left, right]
  | forEach _ _ target source _ => [target, source]
  | call _ callee args => [callee, args]
  | object _ _ | tryCatch _ _ _ _ => []

/-- The blocks of a construct. -/
def blocks : Control → List Block
  | ifThen _ _ body | whileDo _ _ _ body | forEach _ _ _ _ body | object _ body => [body]
  | tryCatch _ body _ handler => [body, handler]
  | shortCircuit _ _ _ _ | call _ _ _ => []

/-- A construct runs a body: one of its own, or that of the function that it calls, in a scope of its own. -/
inductive Runs (c : Control) : Control → Block → Prop where
  | own {c' : Control} {body : Block} (h : body ∈ c.blocks) : Runs c c' body
  | called {f : Function} {callee args : Node} (h : c = .call (.args f) callee args) :
      Runs c (.call (.body none) callee args) f.body

/-- A construct that goes on keeps its parts and the line, and it goes on with one of its parts. -/
structure Parts (c : Control) (st : State) (r : Resumed) : Prop where
  nodes : r.control.nodes = c.nodes
  blocks : r.control.blocks = c.blocks
  line : r.state.line = st.line
  move : match r.move with
    | .ok (.eval node _) => node ∈ c.nodes
    | .ok (.run body) => c.Runs r.control body
    | _ => True

section Resuming

variable {incoming : Option Value} {h : Heap} {c c' : Control} {body : Block}

theorem afterFault_parts (c : Control) : c.afterFault.nodes = c.nodes ∧ c.afterFault.blocks = c.blocks := by
  cases c <;> exact ⟨rfl, rfl⟩

theorem Asks.parts {node : Node} {demand : Demand} (hasks : Asks incoming h c c' node demand) :
    c'.nodes = c.nodes ∧ c'.blocks = c.blocks ∧ node ∈ c.nodes := by
  cases hasks <;> simp [nodes, blocks]

theorem Starts.parts (hstarts : Starts incoming h c c' body) :
    c'.nodes = c.nodes ∧ c'.blocks = c.blocks ∧ body ∈ c.blocks := by
  cases hstarts <;> simp [nodes, blocks]

theorem Settles.parts {b : Bool} (hsettles : Settles incoming h c c' b) :
    c'.nodes = c.nodes ∧ c'.blocks = c.blocks := by
  cases hsettles <;> exact ⟨rfl, rfl⟩

/-- Whatever a construct does next is one of its parts or the body of the function that it calls. -/
theorem Resumes.parts {st : State} {r : Resumed} (hresumes : Resumes incoming st c r) : Parts c st r := by
  cases hresumes with
  | impeded _ => exact ⟨c.afterFault_parts.1, c.afterFault_parts.2, rfl, trivial⟩
  | asks hasks => exact ⟨hasks.parts.1, hasks.parts.2.1, rfl, hasks.parts.2.2⟩
  | starts hstarts => exact ⟨hstarts.parts.1, hstarts.parts.2.1, rfl, .own hstarts.parts.2.2⟩
  | settles hsettles => exact ⟨hsettles.parts.1, hsettles.parts.2, rfl, trivial⟩
  | element _ _ => exact ⟨rfl, rfl, rfl, .own (List.mem_singleton_self _)⟩
  | refused _ _ => exact ⟨c.afterFault_parts.1, c.afterFault_parts.2, rfl, trivial⟩
  | called _ _ _ => exact ⟨rfl, rfl, rfl, .called rfl⟩
  | opened _ => exact ⟨rfl, rfl, rfl, .own (List.mem_singleton_self _)⟩
  | guarded => exact ⟨rfl, rfl, rfl, .own List.mem_cons_self⟩
  | _ => exact ⟨rfl, rfl, rfl, trivial⟩

end Resuming

/-- A construct that takes an interrupt keeps its parts, the line and what is under way. -/
theorem Handles.parts {c c' : Control} {exit : Exit} {st st' : State} (h : Handles st c exit c' st') :
    c'.nodes = c.nodes ∧ c'.blocks = c.blocks ∧ st'.line = st.line ∧ st'.pending = st.pending := by
  cases h <;> exact ⟨rfl, rfl, rfl, rfl⟩

theorem discard_line (c : Control) (st : State) :
    (c.discard st).line = st.line ∧ (c.discard st).pending = st.pending := by
  unfold discard
  split <;> exact ⟨rfl, rfl⟩

end Control

end Stepwise
