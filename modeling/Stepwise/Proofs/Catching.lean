import Stepwise.Proofs.Constructs
import Stepwise.Proofs.Unwinding

/-!
# `Stepwise.Proofs.Catching`: catchable faults and the `try` that gets them

`Machine.attempt` is what a step tries, before it is decided what becomes of a fault. Only an operation
that is applied fails with a catchable fault, and then it has changed nothing (`attempt_error`): the
other frames, the constructs and the interrupts have faults of their own, which a script never sees.

The machine decides by the number of guards whether a catchable fault becomes an exception.
`catchable_faults_reach_try` says that this is a decision about the stack: the fault becomes an
exception exactly if some `try` on the stack is running its body, and the topmost of them gets it. The
invariant of `Stepwise.Proofs.Ownership` ties the number to the stack, and the way down is that of
`Stepwise.Proofs.Unwinding`.
-/

set_option autoImplicit false

namespace Stepwise

/-! ### Faults of the parts of a step -/

namespace Control

theorem Impeded.quiet {incoming : Option Value} {h : Heap} {c : Control} {f : Fault}
    (himpeded : Impeded incoming h c f) : f.Quiet := by
  cases himpeded with
  | missing _ _ => exact ⟨rfl, rfl⟩
  | target _ hslot => exact (h.asReference_fails _ f hslot).quiet
  | source _ hlist => exact (h.asList_fails _ f hlist).quiet
  | element _ hwritable => exact (h.writable_fails _ f hwritable).1
  | callee _ hfunction => exact (h.asFunction_fails _ f hfunction).quiet
  | arguments _ hlist => exact (h.asList_fails _ f hlist).quiet
  | arity _ _ => exact ⟨rfl, rfl⟩

/-- A construct that goes on sets no interrupt off. Its faults are quiet, but where it is to enter a scope
and there is no room. -/
theorem Resumes.mild {incoming : Option Value} {st : State} {c : Control} {r : Resumed}
    (h : Resumes incoming st c r) :
    r.state.pending = st.pending ∧ ∀ f, r.move = .error f →
      f.Quiet ∨ f.isCatchable = false ∧ c.Enters st.heap incoming ∧ st.scopes.limit ≤ st.scopes.depth := by
  cases h with
  | impeded himpeded =>
      refine ⟨rfl, ?_⟩
      rintro f ⟨⟩
      exact Or.inl himpeded.quiet
  | refused henters hfull =>
      refine ⟨rfl, ?_⟩
      rintro f ⟨⟩
      exact Or.inr ⟨rfl, henters, hfull⟩
  | _ => exact ⟨rfl, fun f hf => by cases hf⟩

theorem rejected_quiet {c : Control} {i : Interrupt} {st : State} {f : Fault}
    (h : c.answer i st = .rejected f) : f.Quiet := by
  rw [eq_of_rejected h]
  exact ⟨rfl, rfl⟩

end Control

namespace State

/-- Starting a node sets no interrupt off, and its own faults are quiet. -/
theorem produce_mild (st : State) (node : Node) :
    (st.produce node).2.pending = st.pending ∧ Fails Fault.Quiet (st.produce node).1 := by
  obtain ⟨heap, nextId, hmade⟩ := st.produce_touches node
  refine ⟨by rw [hmade], ?_⟩
  simp only [produce, produce.construct]
  cases node.form with
  -- Only a path can fail, by its resolution.
  | path global names =>
      have hfails := st.resolve_fails global names
      dsimp only
      cases hr : st.resolve global names with
      | mk r st' =>
          rw [hr] at hfails
          cases r with
          | ok v => exact .ok _
          | error f => exact .error (hfails f rfl).1
  | list items =>
      cases items with
      | nil => exact .ok _
      | cons item rest => exact .ok _
  | _ => exact .ok _

/-- An operation is refused no scope. -/
theorem apply_granted {st st' : State} {op : Op} {args : List Value} {f : Fault}
    (h : st.apply op args = (.error f, st')) : f.isRefusal = false := by
  rcases apply_error_cases h with ⟨hplanned, -⟩ | ⟨-, ⟨text, rfl⟩, -⟩
  · cases f with
    | recursionLimit max => cases hplanned
    | _ => rfl
  · rfl

/-- An operation that fails with a catchable fault has changed nothing. -/
theorem apply_catchable {st st' : State} {op : Op} {args : List Value} {cause : Catchable}
    (h : st.apply op args = (.error (.catchable cause), st')) : st' = st := by
  rcases apply_error_cases h with ⟨-, hst⟩ | ⟨-, ⟨text, hf⟩, -⟩
  · exact hst
  · cases hf

end State

namespace Machine

open Stepwise.Frame (values)

/-! ### Faults of the work of a frame -/

/-- Work whose faults set no interrupt off and are quiet. -/
def Quiet (st : State) (o : Outcome) : Prop :=
  ∀ f, o.1 = .error f → o.2.state.pending = st.pending ∧ f.Quiet

section Work

variable (vs : List Value) (stack below : List Frame) (st : State)

theorem Quiet.ok {st : State} (m : Machine) : Quiet st (.ok (), m) := by
  intro f hf
  cases hf

theorem Quiet.error {st : State} {f : Fault} {m : Machine} (hpending : m.state.pending = st.pending)
    (hf : f.Quiet) : Quiet st (.error f, m) := by
  intro g hg
  cases hg
  exact ⟨hpending, hf⟩

theorem stepRequest_quiet (node : Node) (demand : Demand) (above : List Frame) :
    Quiet st (stepRequest node demand above below st) := by
  obtain ⟨hpending, hfails⟩ := { st with line := node.line }.produce_mild node
  simp only [stepRequest]
  cases hp : State.produce { st with line := node.line } node with
  | mk r st' =>
      rw [hp] at hpending hfails
      cases r with
      | error f => exact .error hpending (hfails f rfl)
      | ok produced =>
          cases produced with
          | frame g => exact .ok _
          -- A value at once is finished in the same step, and a demand that it does not meet is no
          -- catchable fault.
          | value v =>
              have hfinal := st'.heap.finalize_fails demand v
              dsimp only
              cases hv : st'.heap.finalize demand v with
              | error f => exact .error hpending (hfinal f hv).1
              | ok w => exact .ok _

theorem stepFinish_quiet (demand : Demand) : Quiet st (stepFinish demand vs stack below st) := by
  simp only [stepFinish]
  split
  · rename_i v
    have hfinal := st.heap.finalize_fails demand v
    cases hv : st.heap.finalize demand v with
    | error f => exact .error rfl (hfinal f hv).1
    | ok w => exact .ok _
  · exact .error rfl ⟨rfl, rfl⟩

theorem stepList_quiet (items : List Node) : Quiet st (stepList items vs stack below st) := by
  simp only [stepList]
  split
  · exact .ok _
  · split
    · exact .ok _
    · exact .error rfl ⟨rfl, rfl⟩

theorem stepBlock_quiet (statements : List Node) : Quiet st (stepBlock statements below st) := by
  cases statements with
  | nil => exact .ok _
  | cons s rest => exact .ok _

/-- An operation may fail with a catchable fault, but only when it is applied. It is gone from the stack
then, with the values above it, and nothing else has changed but the line. -/
theorem stepOperation_error (op : Op) (args : List Node) (line : Nat) {f : Fault} {m' : Machine}
    (h : stepOperation op args line vs stack below st = (.error f, m')) :
    m'.state.pending = st.pending ∧ f.isRefusal = false ∧
      ∀ cause, f = .catchable cause → m' = ⟨below, { st with line := line }⟩ := by
  simp only [stepOperation] at h
  split at h
  -- An argument that is not one the operation takes, or too many values.
  · split at h <;> cases h
    refine ⟨rfl, rfl, ?_⟩
    rintro cause ⟨⟩
  · split at h
    -- The operation is applied: only here can the fault be a catchable one.
    · cases happly : State.apply { st with line := line } op vs with
      | mk r st' =>
          rw [happly] at h
          cases r with
          | ok v => cases h
          | error g =>
              cases h
              refine ⟨?_, State.apply_granted happly, ?_⟩
              · show st'.pending = st.pending
                rw [State.apply_error happly]
              · rintro cause rfl
                rw [State.apply_catchable happly]
    · cases h
      refine ⟨rfl, rfl, ?_⟩
      rintro cause ⟨⟩

/-- A construct is refused a scope only where it is to enter one without room. -/
theorem stepControl_error (line : Nat) (c : Control) {f : Fault} {m' : Machine}
    (h : stepControl line c vs stack below st = (.error f, m')) :
    m'.state.pending = st.pending ∧ f.isCatchable = false ∧
      (f.isRefusal = true → ∃ incoming, vs = incoming.toList ∧ c.Enters st.heap incoming ∧
        st.scopes.limit ≤ st.scopes.depth) := by
  -- With at most one value above it, the construct goes on, and its faults are those of `Impeded`.
  have hresumed (incoming : Option Value) (hvs : vs = incoming.toList)
      (h : resumedOutcome line below (c.resume incoming (st.atLine line)) = (.error f, m')) :
      m'.state.pending = st.pending ∧ f.isCatchable = false ∧
        (f.isRefusal = true → ∃ incoming, vs = incoming.toList ∧ c.Enters st.heap incoming ∧
          st.scopes.limit ≤ st.scopes.depth) := by
    obtain ⟨hpending, hfails⟩ := (c.resumes incoming (st.atLine line)).mild
    generalize c.resume incoming (st.atLine line) = r at h hpending hfails
    simp only [resumedOutcome] at h
    split at h <;> cases h
    rename_i hmove
    refine ⟨hpending, ?_⟩
    -- Either the fault is quiet, or there was no room for the scope that the construct was to enter.
    rcases hfails f hmove with hquiet | ⟨huncatchable, henters, hfull⟩
    · refine ⟨hquiet.uncatchable, ?_⟩
      rw [hquiet.granted]
      nofun
    · exact ⟨huncatchable, fun _ => ⟨incoming, hvs, henters, hfull⟩⟩
  match vs, hresumed, h with
  | [], hresumed, h => exact hresumed none rfl h
  | [v], hresumed, h => exact hresumed (some v) rfl h
  -- Two values above a construct are a fault of the machine itself.
  | v :: w :: rest, _, h =>
      cases h
      exact ⟨rfl, rfl, nofun⟩

end Work

/-- What is known of work that has failed: no interrupt is set off. A catchable fault comes from an operation,
which is gone from the stack with the values above it; nothing else has changed but the line. The refusal of a
scope comes from a construct that is to enter one without room. -/
structure Failed (m m' : Machine) (f : Fault) : Prop where
  pending : m'.state.pending = m.state.pending
  catchable : ∀ cause, f = .catchable cause → ∃ vs op args line,
    m.stack = values vs ++ .operation op args line :: m'.stack ∧ m'.state = { m.state with line := line }
  refusal : f.isRefusal = true → ∃ incoming line c below,
    m.stack = values incoming.toList ++ .control line c :: below ∧ c.Enters m.state.heap incoming ∧
      m.state.scopes.limit ≤ m.state.scopes.depth

theorem Quiet.failed {m m' : Machine} {o : Outcome} {f : Fault} (hquiet : Quiet m.state o)
    (h : o = (.error f, m')) : Failed m m' f := by
  obtain ⟨hpending, hf⟩ := hquiet f (by rw [h])
  rw [h] at hpending
  refine ⟨hpending, ?_, ?_⟩
  · rintro cause rfl
    cases hf.uncatchable
  · rw [hf.granted]
    nofun

theorem work_error {m m' : Machine} {f : Fault} (h : m.work = (.error f, m')) : Failed m m' f := by
  -- The frame at work is the topmost one that is no value; a stack of values alone has none.
  obtain ⟨stack, st⟩ := m
  rcases exists_values_append stack with ⟨vs, rfl⟩ | ⟨vs, g, below, hg, rfl⟩
  · refine Quiet.failed ?_ h
    rw [work_values]
    exact .error rfl ⟨rfl, rfl⟩
  · rw [work_values_append vs g below st hg] at h
    cases g with
    | value v => cases hg
    | request node demand => exact (stepRequest_quiet below st node demand (values vs)).failed h
    | finish demand => exact (stepFinish_quiet vs _ below st demand).failed h
    | operation op args line =>
        -- Only an operation can fail so that a `try` may catch it ...
        obtain ⟨hpending, hgranted, hcatchable⟩ := stepOperation_error vs _ below st op args line h
        refine ⟨hpending, fun cause hcause => ⟨vs, op, args, line, ?_, ?_⟩, ?_⟩
        · rw [hcatchable cause hcause]
        · rw [hcatchable cause hcause]
        · rw [hgranted]
          nofun
    | list items => exact (stepList_quiet vs _ below st items).failed h
    | block statements => exact (stepBlock_quiet below st statements).failed h
    | control line c =>
        -- ... and only a construct by a lack of room for a scope.
        obtain ⟨hpending, huncatchable, hrefusal⟩ := stepControl_error vs _ below st line c h
        refine ⟨hpending, ?_, ?_⟩
        · rintro cause rfl
          cases huncatchable
        · intro hf
          obtain ⟨incoming, rfl, henters, hfull⟩ := hrefusal hf
          exact ⟨incoming, line, c, below, rfl, henters, hfull⟩

/-- An interrupt that nothing answers, or that is not allowed, ends: the fault is quiet. -/
theorem dispatch_error {i : Interrupt} {stack : List Frame} {st : State} {f : Fault} {m' : Machine}
    (hst : st.pending = none) (h : dispatch i stack st = (.error f, m')) :
    m'.state.pending = none ∧ f.Quiet := by
  -- An interrupt with no frame left to take it becomes a fault, and so does one with a frame that must not
  -- see it.
  have hunhandled (heap : Heap) : (i.unhandled heap).Quiet := by
    unfold Interrupt.unhandled
    split
    · exact ⟨rfl, rfl⟩
    · exact ⟨rfl, rfl⟩
  have hunwind (below : List Frame) (st : State) (hst : st.pending = none)
      (h : unwind i below st = (.error f, m')) : m'.state.pending = none ∧ f.Quiet := by
    cases below with
    | nil =>
        cases h
        exact ⟨hst, hunhandled st.heap⟩
    | cons g below => cases h
  cases stack with
  | nil =>
      cases h
      exact ⟨hst, hunhandled st.heap⟩
  | cons g below =>
      cases g with
      | control line c =>
          simp only [dispatch] at h
          cases hanswer : c.answer i st with
          | handled c' st' =>
              rw [hanswer] at h
              cases h
          | rejected g =>
              rw [hanswer] at h
              cases h
              exact ⟨hst, Control.rejected_quiet hanswer⟩
          | passed =>
              rw [hanswer] at h
              refine hunwind below (c.discard st) ?_ h
              rw [State.discard_eq_release line]
              exact hst
      | _ => exact hunwind below st hst h

/-! ### What a step tries -/

/-- What a step tries: to offer the interrupt under way to the top frame, or to let a frame work. -/
def attempt (m : Machine) : Outcome :=
  match m.state.pending with
  | some i => dispatch i m.stack { m.state with pending := none }
  | none => if m.hasWork then m.work else (.ok (), m)

/-- What fails in a step sets no interrupt off. A catchable fault comes from an operation that is applied
while no interrupt is under way. -/
theorem attempt_error {m m' : Machine} {f : Fault} (h : m.attempt = (.error f, m')) :
    m'.state.pending = none ∧
      ∀ cause, f = .catchable cause → m.state.pending = none ∧ m.hasWork = true ∧
        m.work = (.error (.catchable cause), m') := by
  simp only [attempt] at h
  split at h
  -- An interrupt that is offered in vain is an error that no `try` catches.
  · obtain ⟨hpending, hf⟩ := dispatch_error rfl h
    refine ⟨hpending, ?_⟩
    rintro cause rfl
    cases hf.uncatchable
  · rename_i hp
    split at h
    · rename_i hwork
      refine ⟨(work_error h).pending.trans hp, ?_⟩
      rintro cause rfl
      exact ⟨hp, hwork, h⟩
    · cases h

/-- A fault that is not catchable is what the step returns, whatever is on the stack. -/
theorem step_of_uncatchable {m m' : Machine} {f : Fault} (h : m.attempt = (.error f, m'))
    (hf : f.isCatchable = false) : m.step = (.error f, m') := by
  have hno : ∀ cause, f = .catchable cause → m'.state.guards = 0 := by
    rintro cause rfl
    cases hf
  simp only [attempt] at h
  split at h
  · rename_i i hi
    rw [show m = ⟨m.stack, m.state⟩ from rfl, step_of_pending hi, h]
    rfl
  · rename_i hp
    split at h
    · rename_i hwork
      exact step_of_fault hp hwork h hno
    · cases h

/-! ### The way to the handler -/

/-- A catchable fault of `m` has become an exception in `m'`. The object `r` that travels with it is
new, it has the tag and the text of the fault, and it is all that has changed in memory. -/
structure Raised (cause : Catchable) (r : ObjectRef) (m m' : Machine) : Prop where
  fresh : m.state.heap.object? r = none
  payload : m'.state.heap.object? r
    = some ⟨m.state.nextId, ⟨[("kind", .str cause.tag), ("message", .str cause.text)]⟩⟩
  objects : ∀ q, q ≠ r → m'.state.heap.object? q = m.state.heap.object? q
  lists : m'.state.heap.lists = m.state.heap.lists
  pending : m'.state.pending = some ⟨.thrown (.object r), m'.state.line⟩

theorem Raised.eq_of_pending {cause : Catchable} {r q : ObjectRef} {m m' : Machine} {n : Nat}
    (h : Raised cause r m m') (hpending : m'.state.pending = some ⟨.thrown (.object q), n⟩) : r = q := by
  have hthrown := h.pending.symm.trans hpending
  injection hthrown with hinterrupt
  injection hinterrupt with hexit
  injection hexit with hvalue
  injection hvalue

/-- The object of an exception is new, and it is all that has changed in memory. -/
theorem raised_exceptionPayload {st : State} (cause : Catchable) (stack stack' : List Frame)
    (line : Nat) :
    Raised cause ⟨st.heap.objects.size⟩ ⟨stack, st⟩
      ⟨stack', { (State.exceptionPayload { st with line := line } cause).2 with
        pending := some ⟨.thrown (.object ⟨st.heap.objects.size⟩), line⟩ }⟩ where
  fresh := by simp [Heap.object?]
  payload := by
    simp [State.exceptionPayload, State.makeObject, Heap.newObject, Heap.object?, Fields.insert,
      Fields.insertEntry, Fields.empty]
  objects q hq := by
    -- The new object stands behind all others, so each of them is read as before.
    have hne : q.index ≠ st.heap.objects.size := by
      intro heq
      exact hq (by rw [← heq])
    simp [State.exceptionPayload, State.makeObject, Heap.newObject, Heap.object?,
      Array.getElem?_push, hne]
  lists := rfl
  pending := rfl

/-- Under a guard a catchable fault becomes an exception. The operation is gone from the stack, with the
values above it, and the scopes and the guards stay. -/
theorem step_of_guarded {m m' : Machine} {cause : Catchable}
    (h : m.attempt = (.error (.catchable cause), m')) (hguards : 0 < m.state.guards) :
    ∃ r vs op args line, m.step.1 = .ok true ∧ Raised cause r m m.step.2 ∧
      m.stack = values vs ++ .operation op args line :: m.step.2.stack := by
  obtain ⟨hp, hwork, hfault⟩ := (attempt_error h).2 cause rfl
  obtain ⟨hpending, hcatchable, -⟩ := work_error hfault
  obtain ⟨vs, op, args, line, hstack, hstate⟩ := hcatchable cause rfl
  have hstep := step_of_catchable hp hwork hfault (by rw [hstate]; exact hguards) (hpending.trans hp)
  rw [hstep]
  refine ⟨⟨m.state.heap.objects.size⟩, vs, op, args, line, rfl, ?_, hstack⟩
  rw [hstate]
  exact raised_exceptionPayload cause m.stack m'.stack line

/-- A frame that holds no guard lets an exception pass. -/
theorem passes_thrown {f : Frame} (hf : f.ownsGuard = false) (v : Value) :
    f.Passes (.thrown v) := by
  cases f with
  | control line c =>
      cases c with
      | tryCatch phase body name handler =>
          cases phase with
          | body => cases hf
          | _ => exact ⟨rfl, rfl⟩
      | call phase callee args => cases phase <;> exact ⟨rfl, rfl⟩
      | object phase body => cases phase <;> exact ⟨rfl, rfl⟩
      | _ => exact ⟨rfl, rfl⟩
  | _ => exact ⟨rfl, rfl⟩

/-- A frame that is not among the first ones of a stack is among the others. -/
theorem exists_passed {first rest above below : List Frame} {f : Frame}
    (h : first ++ rest = above ++ f :: below) (hf : f ∉ first) :
    ∃ passed, rest = passed ++ f :: below ∧ passed <:+ above := by
  rcases List.append_eq_append_iff.mp h with ⟨passed, habove, hrest⟩ | ⟨more, hfirst, hmore⟩
  · exact ⟨passed, hrest, first, habove.symm⟩
  · cases more with
    | nil => exact ⟨[], hmore.symm, List.nil_suffix⟩
    | cons g more =>
        obtain ⟨rfl, -⟩ := List.cons.inj hmore
        exact absurd (by simp [hfirst]) hf

/-- A `try` that has caught an exception runs its handler next. -/
theorem step_of_caught (line : Nat) (body : Block) (name : String) (handler : Block)
    (below : List Frame) {st : State} (hp : st.pending = none) :
    step ⟨.control line (.tryCatch .caught body name handler) :: below, st⟩
      = (.ok true, ⟨.block handler.statements ::
          .control line (.tryCatch .handler body name handler) :: below, { st with line := line }⟩) := by
  have hwork : work ⟨.control line (.tryCatch .caught body name handler) :: below, st⟩
      = (.ok (), ⟨.block handler.statements ::
          .control line (.tryCatch .handler body name handler) :: below,
          { st with line := line }⟩) := rfl
  rw [step_of_work hp (by simp [hasWork]) hwork]
  simp [hasWork]

/-- Catchable faults are caught exactly while some `try` is running its body. Take a machine that is
reachable from a start.

- Suppose that its next step fails with a catchable fault, and take the topmost `try` that is running its
  body. The step returns no error: a new object with the tag and the text of the fault is on its way as
  an exception. The frames `passed` between the failed operation and that `try` go in one step each, and no step
  fails. Then the `try` has bound the object under its name, in the scope in which its body began, and it
  runs its handler in the step after that. The frames below it have not changed.
- If no `try` is running its body, the step returns the fault itself.
- Any other fault is what the step returns, and it leaves no interrupt under way. -/
theorem catchable_faults_reach_try (root : Block) (limit : Nat) (seed : Seed) (sink : Sink)
    (n : Nat) :
    let origin := start root limit seed sink
    let m := origin.after n
    (∀ cause m', m.attempt = (.error (.catchable cause), m') →
      (∀ above line body name handler below,
        m.stack = above ++ .control line (.tryCatch .body body name handler) :: below →
        (∀ g ∈ above, g.ownsGuard = false) →
        ∃ r passed t, m.step.1 = .ok true ∧ Raised cause r m m.step.2 ∧
          m.step.2.stack = passed ++ .control line (.tryCatch .body body name handler) :: below ∧
          passed <:+ above ∧ origin.InBodySince (n + 1) below.length t .guard ∧
          (∀ k ≤ passed.length, (m.step.2.after k).step.1 = .ok true) ∧
          let caught := m.step.2.after (passed.length + 1)
          caught.stack = .control line (.tryCatch .caught body name handler) :: below ∧
          caught.state.pending = none ∧
          caught.state.heap = m.step.2.state.heap.objectSet
            (origin.after (t + 1)).state.scopes.current name (.object r) ∧
          caught.step.1 = .ok true ∧
          caught.step.2.stack = .block handler.statements ::
            .control line (.tryCatch .handler body name handler) :: below) ∧
      ((∀ g ∈ m.stack, g.ownsGuard = false) → m.step.1 = .error (.catchable cause))) ∧
    (∀ f m', m.attempt = (.error f, m') → f.isCatchable = false →
      m.step = (.error f, m') ∧ m'.state.pending = none) := by
  intro origin m
  have hguards : m.state.guards = m.stack.countP Frame.ownsGuard :=
    (balanced_after root limit seed sink n).guards_eq
  refine ⟨fun cause m' hfault => ⟨?_, ?_⟩, ?_⟩
  · intro above line body name handler below hstack habove
    -- The `try` holds a guard, so the fault becomes an exception.
    have hpos : 0 < m.state.guards := by
      rw [hguards, hstack]
      exact List.countP_pos_iff.mpr
        ⟨.control line (.tryCatch .body body name handler), by simp, rfl⟩
    obtain ⟨r, vs, op, args, opLine, hok, hraised, hcut⟩ := step_of_guarded hfault hpos
    obtain ⟨passed, hpassed, hsuffix⟩ : ∃ passed, m.step.2.stack
        = passed ++ .control line (.tryCatch .body body name handler) :: below ∧
        passed <:+ above := by
      have hfirst : (values vs ++ [.operation op args opLine]) ++ m.step.2.stack
          = above ++ .control line (.tryCatch .body body name handler) :: below := by
        rw [← hstack, hcut]
        simp
      exact exists_passed hfirst (by simp [values])
    -- Nothing between the operation and the `try` answers the exception.
    have hpass : ∀ g ∈ passed, g.Passes (.thrown (.object r)) :=
      fun g hg => passes_thrown (habove g (hsuffix.mem hg)) _
    have hdeliver := after_of_takes hraised.pending hpassed hpass rfl
    obtain ⟨t, hsince, hcurrent⟩ := exists_guarded_scope root limit seed sink (n + 1) hpassed rfl
    have hcaught : m.step.2.after (passed.length + 1) = ⟨.control line (.tryCatch .caught body name
        handler) :: below, stateAfter { m.step.2.state.release passed with pending := none }
        (.control line (.tryCatch .body body name handler)) (.thrown (.object r))⟩ := by
      show (m.step.2.after passed.length).step.2 = _
      rw [hdeliver]
      rfl
    refine ⟨r, passed, t, hok, hraised, hpassed, hsuffix, hsince, ?_, ?_⟩
    · intro k hk
      exact (ok_until_taken hraised.pending hpassed hpass rfl hk).1
    · intro caught
      rw [show caught = _ from hcaught, step_of_caught line body name handler below rfl, hcurrent]
      exact ⟨rfl, rfl, rfl, rfl, rfl⟩
  · intro hnone
    obtain ⟨hp, hwork, hwork'⟩ := (attempt_error hfault).2 cause rfl
    obtain ⟨vs, op, args, line, hcut, hstate⟩ := (work_error hwork').catchable cause rfl
    have hzero : m.state.guards = 0 := by
      rw [hguards, List.countP_eq_zero]
      intro g hg
      simp [hnone g hg]
    rw [step_of_fault hp hwork hwork' fun _ _ => by rw [hstate]; exact hzero]
  · intro f m' hfault hf
    exact ⟨step_of_uncatchable hfault hf, (attempt_error hfault).1⟩

/-- Removing from an empty list, inside an object literal in a `try`: the object literal goes with its
scope, and the handler runs with its name bound to an object that says what went wrong. -/
theorem catchable_fault_of_pop :
    let body : Block := .mk 1 [.mk 2 (.object (.mk 2 [.mk 3 (.op .pop
      [.mk 3 (.list []), .mk 3 (.int 0)])]))]
    let cause := Catchable.invalidIndex "List index '0' out of bounds"
    let m := (start (.mk 0 [.mk 1 (.tryCatch body "e" (.mk 4 []))]) 9 7 .unlimited).after 12
    let caught := m.step.2.after 6
    m.attempt.1 = .error (.catchable cause) ∧ Raised cause ⟨2⟩ m m.step.2 ∧
      caught.state.heap.objectGet caught.state.scopes.current "e" = .ok (.object ⟨2⟩) ∧
      caught.state.heap.objectGet ⟨2⟩ "message" = .ok (.str "List index '0' out of bounds") ∧
      caught.step.2.stack
        = [.block [], .control 1 (.tryCatch .handler body "e" (.mk 4 [])), .finish .any,
          .block []] := by
  intro body cause m caught
  have hcause : m.attempt.1 = .error (.catchable cause) := rfl
  have hfault : m.attempt = (.error (.catchable cause), m.attempt.2) := Prod.ext hcause rfl
  have habove : ∀ g ∈ m.stack.take 8, g.ownsGuard = false := by decide
  obtain ⟨r, passed, t, -, hraised, hpassed, -, -, -, hstack⟩ :=
    ((catchable_faults_reach_try (.mk 0 [.mk 1 (.tryCatch body "e" (.mk 4 []))]) 9 7 .unlimited
      12).1 cause _ hfault).1 (m.stack.take 8) 1 body "e" (.mk 4 []) [.finish .any, .block []] rfl habove
  -- Five frames stand above the `try` once the operation is gone, and two objects were there before.
  have hlength : passed.length = 5 := by
    have h := congrArg List.length hpassed
    rw [List.length_append, show m.step.2.stack.length = 8 from rfl] at h
    simpa using h.symm
  obtain rfl : r = ⟨2⟩ := hraised.eq_of_pending (q := ⟨2⟩) (n := 3) rfl
  rw [hlength] at hstack
  obtain ⟨-, -, -, -, hhandler⟩ := hstack
  have hscope : caught.state.scopes.current = ⟨0⟩ := rfl
  have hobjects : caught.state.heap.objects = #[⟨1, ⟨[("e", .object ⟨2⟩)]⟩⟩, ⟨2, ⟨[]⟩⟩,
      ⟨4, ⟨[("kind", .str cause.tag), ("message", .str cause.text)]⟩⟩] := rfl
  refine ⟨hcause, hraised, ?_, ?_, hhandler⟩
  · simp only [Heap.objectGet, Heap.fields, Heap.object?, hobjects, hscope]
    rfl
  · simp only [Heap.objectGet, Heap.fields, Heap.object?, hobjects]
    rfl

end Machine

end Stepwise
