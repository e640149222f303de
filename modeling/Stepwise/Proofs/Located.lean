import Stepwise.Proofs.Catching
import Stepwise.Proofs.Parts
import Stepwise.Proofs.References
import Stepwise.Proofs.Regular

/-!
# `Stepwise.Proofs.Located`: the lines that a run comes through

A run is always at a line of its script. The line of the state is set whenever a node is started, a statement
begins, an operation is applied or a construct goes on, and an interrupt takes along the line at which it was
set off. All these lines are lines of nodes or of frames made of them, so the invariant says of all nodes on
the stack, and of the bodies of all functions in memory, that their lines pass a test, and the same of the
line of the state and of the interrupt under way (`Machine.Located`). Every step keeps it (`Located.step`).

Nodes come on the stack as parts of other nodes. `Control.Resumes.parts` says so of constructs: what a
construct does next is one of its parts, or the body of the function that it calls, which memory held
(`Value.Located`, with the invariant of `Stepwise.Proofs.References`).
-/

set_option autoImplicit false

namespace Stepwise

open Value (Durable)

/-! ### Nodes and values -/

/-- A node as it is read from a text, on lines that pass a test. -/
abbrev Node.Located (line : Nat → Bool) (n : Node) : Prop :=
  n.isRegular isName line = true

/-- A block as it is read from a text, on lines that pass a test. -/
abbrev Block.Located (line : Nat → Bool) (b : Block) : Prop :=
  b.isRegular isName line = true

section

variable {line : Nat → Bool}

theorem Node.Located.passes {n : Node} (h : n.Located line) : line n.line = true := by
  obtain ⟨l, form⟩ := n
  simp only [Node.Located, Node.isRegular, Bool.and_eq_true] at h
  exact h.1

theorem Block.Located.statements {b : Block} (h : b.Located line) :
    ∀ n ∈ b.statements, n.Located line := by
  obtain ⟨l, statements⟩ := b
  simp only [Block.Located, Block.isRegular, Bool.and_eq_true] at h
  exact Node.allRegular_iff.mp h.2

end

/-- A value that memory may hold: no reference, and no function whose body has a line that does not pass. -/
def Value.Located (line : Nat → Bool) : Value → Prop
  | .reference _ => False
  | .function f => f.body.Located line
  | _ => True

theorem Value.durable_located (line : Nat → Bool) : Durable (Located line) where
  inert v hv := by
    cases v with
    | function f => exact hv.elim
    | reference r => exact hv.elim
    | _ => trivial
  reference r hr := hr

/-- The body of a function that a node makes is part of the node. -/
theorem Node.Located.makes {line : Nat → Bool} {node : Node} (h : node.Located line) :
    node.Makes (Value.Located line) := by
  intro id params body hform
  obtain ⟨l, form⟩ := node
  cases hform
  show body.Located line
  simp only [Node.Located, Node.isRegular, Form.isRegular, Bool.and_eq_true] at h
  exact h.2.2

/-! ### States -/

namespace State

/-- The line of a state passes a test, and so does the line of the interrupt under way. -/
structure Located (line : Nat → Bool) (st : State) : Prop where
  current : line st.line = true
  pending : ∀ i ∈ st.pending, line i.line = true

/-- The state in which an interrupt is offered has none under way. -/
theorem Located.cleared {line : Nat → Bool} {st : State} (hst : st.Located line) :
    State.Located line { st with pending := none } :=
  ⟨hst.current, fun i hi => by cases hi⟩

/-- Two states on one line: an interrupt that is under way only in the second was set off on that line. -/
def SameLine (st st' : State) : Prop :=
  st'.line = st.line ∧ ∀ i ∈ st'.pending, i ∈ st.pending ∨ i.line = st.line

theorem SameLine.of_eq {st st' : State} (hline : st'.line = st.line)
    (hpending : st'.pending = st.pending) : SameLine st st' := by
  refine ⟨hline, ?_⟩
  intro i hi
  rw [hpending] at hi
  exact Or.inl hi

theorem SameLine.located {line : Nat → Bool} {st st' : State} (h : SameLine st st')
    (hst : st.Located line) : st'.Located line where
  current := by
    rw [h.1]
    exact hst.current
  pending := by
    intro i hi
    rcases h.2 i hi with hi | hline
    · exact hst.pending i hi
    · rw [hline]
      exact hst.current

/-- An interrupt is set off on the line of the state. -/
theorem raise_sameLine (st : State) (exit : Exit) : SameLine st (st.raise exit).2 := by
  simp only [raise]
  split
  · exact .of_eq rfl rfl
  · refine ⟨rfl, ?_⟩
    intro i hi
    cases hi
    exact Or.inr rfl

/-- An operation leaves the line as it is. -/
theorem apply_sameLine (st : State) (op : Op) (args : List Value) :
    SameLine st (st.apply op args).2 := by
  obtain ⟨heap, nextId, random, sink, pending, happly, hpending⟩ := st.apply_touches op args
  rw [happly]
  refine ⟨rfl, ?_⟩
  intro i hi
  rcases hpending with rfl | ⟨exit, rfl⟩
  · exact Or.inl hi
  · cases hi
    exact Or.inr rfl

/-- Starting a node leaves the line as it is. -/
theorem produce_sameLine (st : State) (node : Node) : SameLine st (st.produce node).2 := by
  obtain ⟨heap, nextId, hmade⟩ := st.produce_touches node
  rw [hmade]
  exact .of_eq rfl rfl

end State

/-! ### Frames -/

/-- The nodes of a frame have lines that pass a test, and so has the frame if it has a line. -/
def Frame.Located (line : Nat → Bool) : Frame → Prop
  | .value _ | .finish _ => True
  | .request node _ => node.Located line
  | .operation _ args l => line l = true ∧ ∀ n ∈ args, n.Located line
  | .list nodes | .block nodes => ∀ n ∈ nodes, n.Located line
  | .control l c =>
    line l = true ∧ (∀ n ∈ c.nodes, n.Located line) ∧ ∀ b ∈ c.blocks, b.Located line

/-- Only the parts of a construct matter, not its phase. -/
theorem Frame.Located.of_parts {line : Nat → Bool} {l : Nat} {c c' : Control}
    (h : (Frame.control l c).Located line) (hnodes : c'.nodes = c.nodes) (hblocks : c'.blocks = c.blocks) :
    (Frame.control l c').Located line := by
  show line l = true ∧ (∀ n ∈ c'.nodes, n.Located line) ∧ ∀ b ∈ c'.blocks, b.Located line
  rw [hnodes, hblocks]
  exact h

/-- The frame of a node has the parts of the node and its line. -/
theorem State.located_of_produce {line : Nat → Bool} {st : State} {node : Node} {f : Frame}
    (hnode : node.Located line) (h : (st.produce node).1 = .ok (.frame f)) : f.Located line := by
  obtain ⟨l, form⟩ := node
  simp only [Node.Located, Node.isRegular, Bool.and_eq_true] at hnode
  obtain ⟨hl, hform⟩ := hnode
  cases form with
  | path global names =>
      simp only [State.produce, Node.form] at h
      split at h <;> cases h
  | list items =>
      cases items with
      | nil => cases h
      | cons item items =>
          cases h
          exact Node.allRegular_iff.mp hform
  | block body =>
      cases h
      exact Block.Located.statements hform
  -- An operation keeps the line of its node, to fail on it.
  | op op args =>
      cases h
      simp only [Form.isRegular, Bool.and_eq_true] at hform
      exact ⟨hl, Node.allRegular_iff.mp hform.2⟩
  | null => cases h
  | bool b => cases h
  | int n => cases h
  | float x => cases h
  | str s => cases h
  | function params body => cases h
  | _ =>
      cases h
      simp only [Form.isRegular, Bool.and_eq_true] at hform
      exact ⟨hl, by simp [Control.nodes, Node.Located, hform],
        by simp [Control.blocks, Block.Located, hform]⟩

namespace Machine

open List (forall_mem_append forall_mem_cons)
open Stepwise.Frame (values)

/-- The invariant of a run: all lines on the stack and in the state pass a test. -/
structure Located (line : Nat → Bool) (m : Machine) : Prop where
  frames : ∀ f ∈ m.stack, f.Located line
  state : m.state.Located line

section Work

variable {line : Nat → Bool} {st : State} {vs : List Value} {below : List Frame}

theorem stepRequest_located {node : Node} {demand : Demand} (hst : st.Located line)
    (h : ∀ g ∈ values vs ++ .request node demand :: below, g.Located line) :
    Located line (stepRequest node demand (values vs) below st).2 := by
  obtain ⟨hvalues, hrest⟩ := forall_mem_append.mp h
  obtain ⟨hnode, hbelow⟩ := forall_mem_cons.mp hrest
  have hplace {f : Frame} (hf : f.Located line) : ∀ g ∈ values vs ++ f :: below, g.Located line :=
    forall_mem_append.mpr ⟨hvalues, forall_mem_cons.mpr ⟨hf, hbelow⟩⟩
  -- From here on the state is on the line of the node.
  have hline : State.Located line { st with line := node.line } :=
    ⟨Node.Located.passes hnode, hst.pending⟩
  have hst' := (State.produce_sameLine { st with line := node.line } node).located hline
  have hframe (f : Frame) (hf : (({ st with line := node.line } : State).produce node).1 = .ok (.frame f)) :
      f.Located line := State.located_of_produce hnode hf
  simp only [stepRequest]
  cases hproduce : ({ st with line := node.line } : State).produce node with
  | mk r st' =>
      rw [hproduce] at hst' hframe
      cases r with
      | error f => exact ⟨h, hst'⟩
      | ok x =>
          cases x with
          | frame f => exact ⟨forall_mem_cons.mpr ⟨hframe f rfl, hplace trivial⟩, hst'⟩
          | value v =>
              dsimp only
              cases st'.heap.finalize demand v with
              | error f => exact ⟨h, hst'⟩
              | ok w => exact ⟨hplace trivial, hst'⟩

theorem stepFinish_located {demand : Demand} (hst : st.Located line)
    (h : ∀ g ∈ values vs ++ .finish demand :: below, g.Located line) :
    Located line (stepFinish demand vs (values vs ++ .finish demand :: below) below st).2 := by
  obtain ⟨hfinish, hbelow⟩ := forall_mem_cons.mp (forall_mem_append.mp h).2
  unfold stepFinish
  split
  · split
    · exact ⟨forall_mem_cons.mpr ⟨hfinish, hbelow⟩, hst⟩
    · exact ⟨forall_mem_cons.mpr ⟨trivial, hbelow⟩, hst⟩
  · exact ⟨h, hst⟩

theorem stepOperation_located {op : Op} {args : List Node} {l : Nat} (hst : st.Located line)
    (h : ∀ g ∈ values vs ++ .operation op args l :: below, g.Located line) :
    Located line (stepOperation op args l vs (values vs ++ .operation op args l :: below) below st).2 := by
  obtain ⟨⟨hl, hargs⟩, hbelow⟩ := forall_mem_cons.mp (forall_mem_append.mp h).2
  unfold stepOperation
  split
  · split
    · rename_i node demand hnode _
      -- The argument that is asked for next is one of the nodes of the operation.
      exact ⟨forall_mem_cons.mpr ⟨hargs node (List.mem_of_getElem? hnode), h⟩, hst⟩
    · exact ⟨h, hst⟩
  · split
    · -- The operation is applied on its own line, not on that of its last argument.
      have hline : State.Located line { st with line := l } := ⟨hl, hst.pending⟩
      have hst' := (State.apply_sameLine { st with line := l } op vs).located hline
      cases happly : ({ st with line := l } : State).apply op vs with
      | mk r st' =>
          rw [happly] at hst'
          cases r with
          | error f => exact ⟨hbelow, hst'⟩
          | ok v => exact ⟨forall_mem_cons.mpr ⟨trivial, hbelow⟩, hst'⟩
    · exact ⟨h, hst⟩

theorem stepList_located {items : List Node} (hst : st.Located line)
    (h : ∀ g ∈ values vs ++ .list items :: below, g.Located line) :
    Located line (stepList items vs (values vs ++ .list items :: below) below st).2 := by
  obtain ⟨hitems, hbelow⟩ := forall_mem_cons.mp (forall_mem_append.mp h).2
  unfold stepList
  split
  · rename_i node hnode
    exact ⟨forall_mem_cons.mpr ⟨hitems node (List.mem_of_getElem? hnode), h⟩, hst⟩
  · split
    · exact ⟨forall_mem_cons.mpr ⟨trivial, hbelow⟩, hst.current, hst.pending⟩
    · exact ⟨h, hst⟩

theorem stepBlock_located {statements : List Node} (hst : st.Located line)
    (h : ∀ g ∈ .block statements :: below, g.Located line) :
    Located line (stepBlock statements below st).2 := by
  obtain ⟨hstatements, hbelow⟩ := forall_mem_cons.mp h
  cases statements with
  | nil => exact ⟨forall_mem_cons.mpr ⟨trivial, hbelow⟩, hst⟩
  | cons s rest =>
      obtain ⟨hs, hrest⟩ := forall_mem_cons.mp hstatements
      have hblock : ∀ g ∈ .block rest :: below, g.Located line := forall_mem_cons.mpr ⟨hrest, hbelow⟩
      exact ⟨forall_mem_cons.mpr ⟨hs, hblock⟩, Node.Located.passes hs, hst.pending⟩

/-- The body that a construct runs has lines that pass: it is a part of the construct, or that of a function
which memory held. -/
theorem located_of_runs {l : Nat} {c c' : Control} {body : Block} (hruns : c.Runs c' body)
    (hc : (Frame.control l c).Located line) (hkeeps : c.Keeps (Value.Located line)) :
    body.Located line := by
  cases hruns with
  | own hbody => exact hc.2.2 body hbody
  | called hcall =>
      subst hcall
      exact hkeeps

theorem stepControl_located {l : Nat} {c : Control} (hst : st.Located line)
    (hkeeps : c.Keeps (Value.Located line))
    (h : ∀ g ∈ values vs ++ .control l c :: below, g.Located line) :
    Located line (stepControl l c vs (values vs ++ .control l c :: below) below st).2 := by
  obtain ⟨hc, hbelow⟩ := forall_mem_cons.mp (forall_mem_append.mp h).2
  have hline : State.Located line { st with line := l } := ⟨hc.1, hst.pending⟩
  unfold stepControl
  split
  · exact ⟨h, hst⟩
  -- The parts of a construct stay, so a body that it runs or a node that it asks for is located with it.
  · obtain ⟨hnodes, hblocks, hresumed, hmove⟩ := (c.resumes vs.head? { st with line := l }).parts
    have hpending := (c.resumes vs.head? { st with line := l }).mild.1
    have hst' := (State.SameLine.of_eq hresumed hpending).located hline
    generalize c.resume vs.head? { st with line := l } = r at *
    obtain ⟨c', st', move⟩ := r
    have hhere : ∀ g ∈ .control l c' :: below, g.Located line :=
      forall_mem_cons.mpr ⟨Frame.Located.of_parts hc hnodes hblocks, hbelow⟩
    cases move with
    | error f => exact ⟨hhere, hst'⟩
    | ok move =>
        cases move with
        | eval node demand =>
            have hnode : node.Located line := hc.2.1 node hmove
            exact ⟨forall_mem_cons.mpr ⟨hnode, hhere⟩, hst'⟩
        | run body =>
            have hbody : body.Located line := located_of_runs hmove hc hkeeps
            exact ⟨forall_mem_cons.mpr ⟨hbody.statements, hhere⟩, hst'⟩
        | done v => exact ⟨forall_mem_cons.mpr ⟨trivial, hbelow⟩, hst'⟩

end Work

variable {line : Nat → Bool}

/-- The work of the top frame keeps the lines. -/
theorem Located.work {m : Machine} (hm : m.Located line) (hkeeps : m.Keeps (Value.Located line)) :
    m.work.2.Located line := by
  obtain ⟨stack, st⟩ := m
  obtain ⟨hframes, hst⟩ := hm
  rcases exists_values_append stack with ⟨vs, rfl⟩ | ⟨vs, f, below, hf, rfl⟩
  · rw [work_values]
    exact ⟨hframes, hst⟩
  · rw [work_values_append vs f below st hf]
    cases f with
    | value v => cases hf
    | request node demand => exact stepRequest_located hst hframes
    | finish demand => exact stepFinish_located hst hframes
    | operation op args l => exact stepOperation_located hst hframes
    | list items => exact stepList_located hst hframes
    | block statements => exact stepBlock_located hst (forall_mem_append.mp hframes).2
    | control l c => exact stepControl_located hst (hkeeps.laid.of_values.keeps rfl) hframes

/-! ### Interrupts -/

section Interrupts

variable {i : Interrupt} {st : State}

theorem unwind_located (hi : line i.line = true) (hst : st.Located line) {below : List Frame}
    (h : ∀ g ∈ below, g.Located line) : Located line (unwind i below st).2 := by
  cases below with
  | nil => exact ⟨h, hst⟩
  | cons f below => exact ⟨h, hst.current, fun j hj => by cases hj; exact hi⟩

theorem dispatch_located (hi : line i.line = true) (hst : st.Located line) {stack : List Frame}
    (h : ∀ g ∈ stack, g.Located line) : Located line (dispatch i stack st).2 := by
  cases stack with
  | nil => exact ⟨h, hst⟩
  | cons f below =>
      obtain ⟨hf, hbelow⟩ := forall_mem_cons.mp h
      cases f with
      | control l c =>
          simp only [dispatch]
          cases hanswer : c.answer i st with
          | passed =>
              obtain ⟨hline, hpending⟩ := c.discard_line st
              exact unwind_located hi ((State.SameLine.of_eq hline hpending).located hst) hbelow
          | handled c' st' =>
              -- A construct that takes the interrupt keeps its nodes, whatever phase it goes to.
              obtain ⟨hnodes, hblocks, hline, hpending⟩ := (Control.handles hanswer).parts
              have hc' : (Frame.control l c').Located line := Frame.Located.of_parts hf hnodes hblocks
              exact ⟨forall_mem_cons.mpr ⟨hc', hbelow⟩, (State.SameLine.of_eq hline hpending).located hst⟩
          | rejected f => exact ⟨h, hst⟩
      | _ => exact unwind_located hi hst hbelow

/-- An exception for a catchable fault is set off on the line of the fault. -/
theorem throwCatchable_located {m : Machine} (hm : m.Located line) (cause : Catchable) :
    Located line (throwCatchable cause m).2 := by
  have hmade : (m.state.exceptionPayload cause).2.Located line := ⟨hm.state.current, hm.state.pending⟩
  exact ⟨hm.frames, (State.raise_sameLine _ _).located hmade⟩

end Interrupts

/-! ### Steps -/

/-- Every step keeps the lines, also one that fails. -/
theorem Located.step {m : Machine} (hm : m.Located line) (hkeeps : m.Keeps (Value.Located line)) :
    m.step.2.Located line := by
  rcases step_cases m with ⟨-, -, hstep⟩ | ⟨i, hi, hstep⟩ | ⟨-, -, hstep, -⟩ |
    ⟨-, -, cause, m', hm', -, hstep⟩
  · rw [hstep]
    exact hm
  · rw [hstep, finishStep_snd]
    exact dispatch_located (hm.state.pending i hi) hm.state.cleared hm.frames
  · rw [hstep, finishStep_snd]
    exact hm.work hkeeps
  · have hwork := hm.work hkeeps
    rw [hm'] at hwork
    rw [hstep, finishStep_snd]
    exact throwCatchable_located hwork cause

/-- The functions that the script makes have lines that pass. -/
theorem Located.makes {m : Machine} (hm : m.Located line) : m.Makes (Value.Located line) := by
  intro vs node demand below hstack
  have hnode : (Frame.request node demand).Located line := by
    refine hm.frames _ ?_
    rw [hstack]
    simp
  exact Node.Located.makes hnode

/-- The lines pass in every state that a run comes through. -/
theorem Located.after {m : Machine} (hm : m.Located line) (hkeeps : m.Keeps (Value.Located line))
    (n : Nat) : (m.after n).Located line ∧ (m.after n).Keeps (Value.Located line) := by
  induction n with
  | zero => exact ⟨hm, hkeeps⟩
  | succ n ih =>
      obtain ⟨hm, hkeeps⟩ := ih
      exact ⟨hm.step hkeeps, hkeeps.step (Value.durable_located line) hm.makes⟩

end Machine

end Stepwise
