import Stepwise.Proofs.Refinement

/-!
# `Stepwise.Proofs.Branching`: which parts of a condition run

A `Trace` is a run of the machine above a stack, seen from some nodes of a tree: the steps that the frames of
these nodes take themselves, and between them the evaluations of other nodes, each from its request to its
value and listed as a whole. So a trace says which parts were evaluated and in which order, and that nothing
else was started.

The nodes are those of conditions and disjunctions. `Skips` says of one that its parts were evaluated and that
it yields false without having run a block. `StartsBlock` says that a block was started after some parts, and that
nothing else is when that block has ended. One lemma for each node says how these come about from its operands.
-/

set_option autoImplicit false

namespace Stepwise

/-- The line of the state is put on a node before anything else, so an evaluation does not depend on it. -/
theorem eval_atLine (n : Nat) (node : Node) (demand : Demand) (st : State) (line : Nat) :
    eval n node demand (st.atLine line) = eval n node demand st := by
  cases n with
  | zero => rfl
  | succ n => rfl

/-- A frame that some nodes have put on the stack: of an `if` or a disjunction among them, or a request for
one of them. Values, and frames that make a value fit, carry no node. -/
def Frame.Belongs (nodes : List Node) : Frame → Prop
  | .value _ | .finish _ => True
  | .request node _ => node ∈ nodes
  | .control line (.ifThen _ cond body) => Node.mk line (.ifThen cond body) ∈ nodes
  | .control line (.shortCircuit true _ left right) => Node.mk line (.orElse left right) ∈ nodes
  | _ => False

namespace Machine

open Stepwise.Frame (values)

/-- A run above a stack, seen from some nodes. Each step is one of their own frames, or it is part of the
evaluation of a node, and these are listed in their order. -/
inductive Trace (nodes : List Node) (base : List Frame) : List Node → Machine → Machine → Prop where
  | refl (m : Machine) : Trace nodes base [] m m
  | step {parts : List Node} {above : List Frame} {st : State} {next last : Machine} (hne : above ≠ [])
      (hown : ∀ f ∈ above, f.Belongs nodes) (hstep : step ⟨above ++ base, st⟩ = (.ok true, next))
      (h : Trace nodes base parts next last) : Trace nodes base parts ⟨above ++ base, st⟩ last
  | part {parts : List Node} {above : List Frame} {node : Node} {k : Nat} {v : Value} {st st' : State}
      {last : Machine} (hown : ∀ f ∈ above, f.Belongs nodes)
      (hruns : Runs (above ++ base) k ⟨.request node .any :: (above ++ base), st⟩
        ⟨.value v :: (above ++ base), st'⟩)
      (h : Trace nodes base parts ⟨.value v :: (above ++ base), st'⟩ last) :
      Trace nodes base (node :: parts) ⟨.request node .any :: (above ++ base), st⟩ last

section Traces

variable {nodes parts more : List Node} {base above : List Frame} {st : State} {m next last : Machine}

theorem Trace.trans (h : Trace nodes base parts m next) (h' : Trace nodes base more next last) :
    Trace nodes base (parts ++ more) m last := by
  induction h with
  | refl m => exact h'
  | step hne hown hstep _ ih => exact .step hne hown hstep (ih h')
  | part hown hruns _ ih => exact .part hown hruns (ih h')

/-- Steps that evaluate no part add none. -/
theorem Trace.quietly (h : Trace nodes base parts m next) (h' : Trace nodes base [] next last) :
    Trace nodes base parts m last := by
  have hall := h.trans h'
  rwa [List.append_nil] at hall

theorem belongs_append {top : List Frame} (htop : ∀ f ∈ top, f.Belongs nodes)
    (habove : ∀ f ∈ above, f.Belongs nodes) : ∀ f ∈ top ++ above, f.Belongs nodes := by
  intro f hf
  rcases List.mem_append.mp hf with hf | hf
  · exact htop f hf
  · exact habove f hf

/-- Frames of the nodes themselves can be counted to what stands above the stack. -/
theorem Trace.lower (habove : ∀ f ∈ above, f.Belongs nodes) (h : Trace nodes (above ++ base) parts m last) :
    Trace nodes base parts m last := by
  induction h with
  | refl m => exact .refl m
  | @step _ top _ _ _ hne hown hstep _ ih =>
      rw [← List.append_assoc] at hstep ⊢
      exact .step (by simp [hne]) (belongs_append hown habove) hstep ih
  | @part _ top _ _ _ _ _ _ hown hruns _ ih =>
      rw [← List.append_assoc] at hruns ih ⊢
      exact .part (belongs_append hown habove) hruns ih

/-- The work of one of the frames, with values on top of it. -/
theorem Trace.of_work (vs : List Value) {f : Frame} (hf : f.isValue = false)
    (hown : ∀ g ∈ f :: above, g.Belongs nodes) (hp : st.pending = none)
    (hwork : work ⟨values vs ++ f :: (above ++ base), st⟩ = (.ok (), next))
    (hlen : 2 ≤ next.stack.length) (h : Trace nodes base parts next last) :
    Trace nodes base parts ⟨values vs ++ f :: (above ++ base), st⟩ last := by
  have hbusy := busy_values_append vs (above ++ base) st hf
  have hstep := step_of_work hp hbusy.hasWork hwork
  rw [hasWork_of_length hlen] at hstep
  have hstack : values vs ++ f :: (above ++ base) = (values vs ++ f :: above) ++ base := by simp
  rw [hstack] at hstep ⊢
  have hvalues : ∀ g ∈ values vs, g.Belongs nodes := by
    intro g hg
    obtain ⟨v, -, rfl⟩ := List.mem_map.mp hg
    trivial
  exact .step (by simp) (belongs_append hvalues hown) hstep h

/-- A request for one of the nodes, which puts the frame of its construct on the stack. -/
theorem Trace.of_request {node : Node} {f : Frame} (hmem : node ∈ nodes) (hp : st.pending = none)
    (hproduce : (st.atLine node.line).produce node = (.ok (.frame f), st.atLine node.line))
    (h : Trace nodes base parts ⟨f :: .finish .any :: base, st.atLine node.line⟩ last) :
    Trace nodes base parts ⟨.request node .any :: base, st⟩ last := by
  have hown : ∀ g ∈ [Frame.request node .any], g.Belongs nodes := by simpa [Frame.Belongs] using hmem
  have hwork := work_values_append [] (.request node .any) base st rfl
  have hline : { st with line := node.line } = st.atLine node.line := rfl
  simp only [stepRequest, hline, hproduce] at hwork
  exact Trace.of_work [] rfl hown hp hwork (by simp) h

/-- A construct of one of the nodes goes on. -/
theorem Trace.of_resume (incoming : Option Value) {line : Nat} {c : Control}
    (hown : ∀ g ∈ .control line c :: above, g.Belongs nodes) (hp : st.pending = none)
    (hresume : resumedOutcome line (above ++ base) (c.resume incoming (st.atLine line)) = (.ok (), next))
    (hlen : 2 ≤ next.stack.length) (h : Trace nodes base parts next last) :
    Trace nodes base parts ⟨values incoming.toList ++ .control line c :: (above ++ base), st⟩ last :=
  Trace.of_work _ rfl hown hp (by rw [work_control, hresume]) hlen h

/-- A value that fits every demand for a value is passed on. -/
theorem trace_finish (hbase : base ≠ []) {v : Value} (hv : st.heap.finalize .any v = .ok v)
    (hp : st.pending = none) :
    Trace nodes base [] ⟨.value v :: .finish .any :: base, st⟩ ⟨.value v :: base, st⟩ := by
  have hlen : 0 < base.length := List.length_pos_iff.mpr hbase
  have hwork := work_values_append [v] (.finish .any) base st rfl
  simp only [stepFinish, hv] at hwork
  have hown : ∀ g ∈ [Frame.finish .any], g.Belongs nodes := by simp [Frame.Belongs]
  exact Trace.of_work [v] rfl hown hp hwork (by simp; omega) (.refl _)

/-- None of the frames takes an interrupt, so one that is under way above them leaves them all. -/
theorem trace_interrupt (hbase : base ≠ []) (hown : ∀ f ∈ above, f.Belongs nodes) {i : Interrupt}
    (hp : st.pending = none) :
    Trace nodes base [] ⟨above ++ base, { st with pending := some i }⟩ ⟨base, { st with pending := some i }⟩ := by
  induction above with
  | nil => exact .refl _
  | cons f above ih =>
      -- One frame at a time. A frame of the chain is no loop, call or `try`, so it passes whatever the
      -- interrupt is.
      have hf : f.Belongs nodes := hown f (by simp)
      have hpass : dispatch i (f :: (above ++ base)) st = unwind i (above ++ base) st := by
        cases f with
        | control line c =>
            cases c with
            | ifThen phase cond body => rfl
            | shortCircuit stop phase left right => rfl
            | _ => exact False.elim hf
        | _ => rfl
      -- The base is not empty, so there is a frame to offer the interrupt to next.
      have hunwind : unwind i (above ++ base) st = (.ok (), ⟨above ++ base, { st with pending := some i }⟩) := by
        cases hbelow : above ++ base with
        | nil => exact absurd (List.append_eq_nil_iff.mp hbelow).2 hbase
        | cons g below => rfl
      have hclear : { st with pending := none } = st := by rw [← hp]
      have hstep : step ⟨f :: above ++ base, { st with pending := some i }⟩
          = (.ok true, ⟨above ++ base, { st with pending := some i }⟩) := by
        simp only [step, hclear, List.cons_append, hpass, hunwind, finishStep, hasWork, Option.isSome_some,
          Bool.true_or]
      exact .step (by simp) hown hstep (ih fun g hg => hown g (by simp [hg]))

/-! ### Conditions and disjunctions -/

/-- A node evaluates some parts, starts no block and yields false. -/
structure Skips (nodes : List Node) (node : Node) (parts : List Node) (st st' : State) : Prop where
  pending : st'.pending = none
  trace : ∀ (base : List Frame) (line : Nat), base ≠ [] → ∃ line',
    Trace nodes base parts ⟨.request node .any :: base, st.atLine line⟩
      ⟨.value (.bool false) :: base, st'.atLine line'⟩

/-- A node evaluates some parts and starts a block. When the block has ended, it yields a value without
anything else. -/
structure StartsBlock (nodes : List Node) (node : Node) (parts : List Node) (body : Block) (v : Value)
    (st st' : State) : Prop where
  pending : st'.pending = none
  trace : ∀ (base : List Frame) (line : Nat), base ≠ [] → ∃ (above : List Frame) (line' : Nat),
    (∀ f ∈ above, f.Belongs nodes) ∧
    Trace nodes base parts ⟨.request node .any :: base, st.atLine line⟩
      ⟨.block body.statements :: (above ++ base), st'.atLine line'⟩ ∧
    ∀ st, st.pending = none → ∃ line'',
      Trace nodes base [] ⟨.value .null :: (above ++ base), st⟩ ⟨.value v :: base, st.atLine line''⟩

section Nodes

variable {line n : Nat} {cond left right : Node} {body : Block} {v : Value} {st' st'' : State}

theorem belongs_if (hmem : .mk line (.ifThen cond body) ∈ nodes) (phase : BranchPhase) :
    ∀ f ∈ [Frame.control line (.ifThen phase cond body), .finish .any], f.Belongs nodes := by
  simpa [Frame.Belongs] using hmem

theorem belongs_or (hmem : .mk line (.orElse left right) ∈ nodes) (phase : BranchPhase) :
    ∀ f ∈ [Frame.control line (.shortCircuit true phase left right), .finish .any], f.Belongs nodes := by
  simpa [Frame.Belongs] using hmem

/-- An `if` evaluates its condition first. -/
theorem trace_condition (hmem : .mk line (.ifThen cond body) ∈ nodes) (hp : st.pending = none)
    (heval : eval n cond .any st = some (.value v, st')) (base : List Frame) (line₀ : Nat) :
    Trace nodes base [cond] ⟨.request (.mk line (.ifThen cond body)) .any :: base, st.atLine line₀⟩
      ⟨.value v :: .control line (.ifThen .condition cond body) :: .finish .any :: base, st'⟩ := by
  have hown := belongs_if hmem
  have hshown := shown_eval n cond .any (st.atLine line)
    (.control line (.ifThen .condition cond body) :: .finish .any :: base) (by simp) hp
  rw [eval_atLine, heval] at hshown
  obtain ⟨-, k, hruns⟩ := hshown
  refine Trace.of_request hmem hp rfl ?_
  refine Trace.of_resume none (hown .start) hp rfl (by simp) ?_
  exact .part (hown .condition) hruns (.refl _)

theorem pending_of_eval (hp : st.pending = none) (heval : eval n cond .any st = some (.value v, st')) :
    st'.pending = none := by
  have hshown := shown_eval n cond .any st [.block []] (by simp) hp
  rw [heval] at hshown
  exact hshown.1

theorem skips_if (hmem : .mk line (.ifThen cond body) ∈ nodes) (hp : st.pending = none)
    (heval : eval n cond .any st = some (.value v, st')) (hfalse : st'.heap.truthy v = false) :
    Skips nodes (.mk line (.ifThen cond body)) [cond] st st' := by
  have hp' : st'.pending = none := pending_of_eval hp heval
  refine ⟨hp', ?_⟩
  intro base line₀ hbase
  have hown := belongs_if hmem .condition
  refine ⟨line, (trace_condition hmem hp heval base line₀).quietly ?_⟩
  have hresume : (Control.ifThen .condition cond body).resume (some v) (st'.atLine line)
      = ⟨.ifThen .condition cond body, st'.atLine line, .ok (.done (.bool false))⟩ :=
    Control.resume_eq_iff.mpr (.settles (.skipped rfl hfalse))
  refine Trace.of_resume (some v) hown hp' (by rw [hresume]; rfl) (by simp) ?_
  exact trace_finish hbase rfl hp'

theorem starts_if (hmem : .mk line (.ifThen cond body) ∈ nodes) (hp : st.pending = none)
    (heval : eval n cond .any st = some (.value v, st')) (htrue : st'.heap.truthy v = true) :
    StartsBlock nodes (.mk line (.ifThen cond body)) [cond] body (.bool true) st st' := by
  have hp' : st'.pending = none := pending_of_eval hp heval
  refine ⟨hp', ?_⟩
  intro base line₀ hbase
  have hown := belongs_if hmem
  refine ⟨[.control line (.ifThen .body cond body), .finish .any], line, hown .body, ?_, ?_⟩
  · have hresume : (Control.ifThen .condition cond body).resume (some v) (st'.atLine line)
        = ⟨.ifThen .body cond body, st'.atLine line, .ok (.run body)⟩ :=
      Control.resume_eq_iff.mpr (.starts (.branch rfl htrue))
    refine (trace_condition hmem hp heval base line₀).quietly ?_
    exact Trace.of_resume (some v) (hown .condition) hp' (by rw [hresume]; rfl) (by simp) (.refl _)
  · -- The body has ended: whatever it left, the `if` yields that it ran.
    intro st hp
    refine ⟨line, ?_⟩
    refine Trace.of_resume (some .null) (hown .body) hp rfl (by simp) ?_
    exact trace_finish hbase rfl hp

/-- A disjunction evaluates its left operand first, above a frame of its own. -/
theorem trace_left (hmem : .mk line (.orElse left right) ∈ nodes) (hp : st.pending = none)
    (base : List Frame) (line₀ : Nat)
    (h : Trace nodes (.control line (.shortCircuit true .condition left right) :: .finish .any :: base) parts
      ⟨.request left .any :: .control line (.shortCircuit true .condition left right) :: .finish .any :: base,
        st.atLine line⟩ last) :
    Trace nodes base parts ⟨.request (.mk line (.orElse left right)) .any :: base, st.atLine line₀⟩ last := by
  have hown := belongs_or hmem
  refine Trace.of_request hmem hp rfl ?_
  refine Trace.of_resume none (hown .start) hp rfl (by simp) ?_
  exact Trace.lower (hown .condition) h

/-- A disjunction goes on with its right operand if the left one has yielded false. -/
theorem trace_right (hmem : .mk line (.orElse left right) ∈ nodes) (hp : st.pending = none)
    (hleft : Skips nodes left parts st st') (base : List Frame) (line₀ : Nat)
    (h : Trace nodes (.control line (.shortCircuit true .body left right) :: .finish .any :: base) more
      ⟨.request right .any :: .control line (.shortCircuit true .body left right) :: .finish .any :: base,
        st'.atLine line⟩ last) :
    Trace nodes base (parts ++ more) ⟨.request (.mk line (.orElse left right)) .any :: base, st.atLine line₀⟩
      last := by
  have hown := belongs_or hmem
  obtain ⟨line₁, hskips⟩ := hleft.trace
    (.control line (.shortCircuit true .condition left right) :: .finish .any :: base) line (by simp)
  refine Trace.trans (trace_left hmem hp base line₀ hskips) ?_
  have hp' : (st'.atLine line₁).pending = none := hleft.pending
  exact Trace.of_resume (some (.bool false)) (hown .condition) hp' rfl (by simp) (Trace.lower (hown .body) h)

/-- A disjunction yields the truth of its right operand. -/
theorem trace_truth (hmem : .mk line (.orElse left right) ∈ nodes) (hp : st.pending = none)
    (hbase : base ≠ []) {truth : Bool} (hv : st.heap.truthy v = truth) :
    Trace nodes base []
      ⟨.value v :: .control line (.shortCircuit true .body left right) :: .finish .any :: base, st⟩
      ⟨.value (.bool truth) :: base, st.atLine line⟩ := by
  have hown := belongs_or hmem .body
  have hresume : (Control.shortCircuit true .body left right).resume (some v) (st.atLine line)
      = ⟨.shortCircuit true .body left right, st.atLine line, .ok (.done (.bool truth))⟩ := by
    simp only [Control.resume, Control.resumeShortCircuit, Control.expectValue, State.atLine, hv]
  refine Trace.of_resume (some v) hown hp (by rw [hresume]; rfl) (by simp) ?_
  exact trace_finish hbase rfl hp

theorem skips_or (hmem : .mk line (.orElse left right) ∈ nodes) (hp : st.pending = none)
    (hleft : Skips nodes left parts st st') (hright : Skips nodes right more st' st'') :
    Skips nodes (.mk line (.orElse left right)) (parts ++ more) st st'' := by
  refine ⟨hright.pending, ?_⟩
  intro base line₀ hbase
  obtain ⟨line₁, hskips⟩ := hright.trace
    (.control line (.shortCircuit true .body left right) :: .finish .any :: base) line (by simp)
  refine ⟨line, (trace_right hmem hp hleft base line₀ hskips).quietly ?_⟩
  have hp'' : (st''.atLine line₁).pending = none := hright.pending
  exact trace_truth hmem hp'' hbase rfl

/-- The block of a left operand is the only one: the disjunction is true when it has ended, and its right operand
is skipped. -/
theorem starts_or_left (hmem : .mk line (.orElse left right) ∈ nodes) (hp : st.pending = none)
    (hleft : StartsBlock nodes left parts body (.bool true) st st') :
    StartsBlock nodes (.mk line (.orElse left right)) parts body (.bool true) st st' := by
  refine ⟨hleft.pending, ?_⟩
  intro base line₀ hbase
  have hown := belongs_or hmem .condition
  obtain ⟨above, line₁, habove, hstarts, hends⟩ := hleft.trace
    (.control line (.shortCircuit true .condition left right) :: .finish .any :: base) line (by simp)
  -- The frames above the left operand and the disjunction below it are one piece of stack to the caller.
  have hstack : above ++ .control line (.shortCircuit true .condition left right) :: .finish .any :: base
      = (above ++ [.control line (.shortCircuit true .condition left right), .finish .any]) ++ base := by
    simp
  rw [hstack] at hstarts hends
  refine ⟨above ++ [.control line (.shortCircuit true .condition left right), .finish .any], line₁, ?_,
    trace_left hmem hp base line₀ hstarts, ?_⟩
  · exact belongs_append habove hown
  · intro st hp
    obtain ⟨line₂, hleftEnds⟩ := hends st hp
    refine ⟨line, (Trace.lower hown hleftEnds).quietly ?_⟩
    refine Trace.of_resume (some (.bool true)) hown hp rfl (by simp) ?_
    exact trace_finish hbase rfl hp

/-- The block of a right operand is started if the left operand has not started one. -/
theorem starts_or_right (hmem : .mk line (.orElse left right) ∈ nodes) (hp : st.pending = none)
    (hleft : Skips nodes left parts st st') (hright : StartsBlock nodes right more body v st' st'') {truth : Bool}
    (hv : ∀ heap : Heap, heap.truthy v = truth) :
    StartsBlock nodes (.mk line (.orElse left right)) (parts ++ more) body (.bool truth) st st'' := by
  refine ⟨hright.pending, ?_⟩
  intro base line₀ hbase
  have hown := belongs_or hmem .body
  obtain ⟨above, line₁, habove, hstarts, hends⟩ := hright.trace
    (.control line (.shortCircuit true .body left right) :: .finish .any :: base) line (by simp)
  have hstack : above ++ .control line (.shortCircuit true .body left right) :: .finish .any :: base
      = (above ++ [.control line (.shortCircuit true .body left right), .finish .any]) ++ base := by
    simp
  rw [hstack] at hstarts hends
  refine ⟨above ++ [.control line (.shortCircuit true .body left right), .finish .any], line₁, ?_,
    trace_right hmem hp hleft base line₀ hstarts, ?_⟩
  · exact belongs_append habove hown
  · intro st hp
    obtain ⟨line₂, hrightEnds⟩ := hends st hp
    have hp' : (st.atLine line₂).pending = none := hp
    exact ⟨line, (Trace.lower hown hrightEnds).quietly (trace_truth hmem hp' hbase (hv st.heap))⟩

/-- A block that stands as an operand is started at once. -/
theorem starts_block (hmem : .mk line (.block body) ∈ nodes) (hp : st.pending = none) :
    StartsBlock nodes (.mk line (.block body)) [] body .null st st := by
  refine ⟨hp, ?_⟩
  intro base line₀ hbase
  refine ⟨[.finish .any], line, by simp [Frame.Belongs], ?_, ?_⟩
  · exact Trace.of_request hmem hp rfl (.refl _)
  · intro st hp
    exact ⟨st.line, trace_finish hbase rfl hp⟩

end Nodes

end Traces

end Machine

end Stepwise
