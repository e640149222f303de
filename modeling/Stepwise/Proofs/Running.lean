import Stepwise.Proofs.Evaluator
import Stepwise.Proofs.Faults
import Stepwise.Proofs.Steps

/-!
# `Stepwise.Proofs.Running`: how an evaluation shows on the machine

`Runs base k m m'` is a run of `k` steps above a stack `base` that none of them reaches. `Shows base n m e`
relates such runs to an evaluation `e`: a value ends up on top of `base`, an interrupt is under way just
above it, a fault is what a step returns, and where the bound of the evaluation was too small the machine
has worked for `n` steps and is not done.

The rules below build `Shows` up step by step. `Shows.of_work` and `Shows.of_dispatch` are a step that
succeeds, `Shows.of_fault` is one that fails, and `Shows.handle` puts a part of a construct together with
what the construct does when the part has ended. The base of a run must not be empty: the machine
has no work left when its stack is a single value.
-/

set_option autoImplicit false

namespace Stepwise

namespace Machine

open Stepwise.Frame (values)

/-- The machine works above a stack: some frame stands there, and one that is no value unless an
interrupt is under way. -/
def Busy (base : List Frame) (m : Machine) : Prop :=
  ∃ above, above ≠ [] ∧ m.stack = above ++ base ∧
    (m.state.pending = none → ∃ f ∈ above, f.isValue = false)

/-- A number of steps, each of which works above a stack and says that work remains. -/
inductive Runs (base : List Frame) : Nat → Machine → Machine → Prop where
  | refl (m : Machine) : Runs base 0 m m
  | step {k : Nat} {m next last : Machine} (hbusy : Busy base m) (hstep : m.step = (.ok true, next))
      (hruns : Runs base k next last) : Runs base (k + 1) m last

/-- The machine does above a stack what an evaluation says; `n` is the number of steps that are certain
when the bound of the evaluation was too small. -/
def Shows (base : List Frame) (n : Nat) (m : Machine) : Evaluation Value → Prop
  | none => ∃ m', Runs base n m m' ∧ Busy base m'
  | some (.value v, st) => st.pending = none ∧ ∃ k, Runs base k m ⟨.value v :: base, st⟩
  | some (.interrupt i, st) =>
    st.pending = none ∧ ∃ k, Runs base k m ⟨base, { st with pending := some i }⟩
  | some (.fault f, st) =>
    ∃ k m' m'', Runs base k m m' ∧ Busy base m' ∧ m'.step = (.error f, m'') ∧ m''.state = st

/-! ### Runs -/

/-- A machine that works above a stack has work. -/
theorem Busy.hasWork {base : List Frame} {m : Machine} (h : Busy base m) : m.hasWork = true := by
  obtain ⟨above, hne, hstack, hfree⟩ := h
  cases hp : m.state.pending with
  | some i => simp [Machine.hasWork, hp]
  | none =>
      obtain ⟨f, hf, hval⟩ := hfree hp
      cases above with
      | nil => exact absurd rfl hne
      | cons g rest =>
          simp only [Machine.hasWork, hstack, hp, Option.isSome_none, Bool.false_or, List.cons_append]
          split
          · contradiction
          · rename_i hcons
            -- The stack would be a single value, but `f` is none.
            obtain ⟨rfl, hnil⟩ := List.cons.inj hcons
            rw [(List.append_eq_nil_iff.mp hnil).1, List.mem_singleton] at hf
            subst hf
            exact absurd hval (by simp [Frame.isValue])
          · rfl

/-- What works above more frames works above fewer. -/
theorem Busy.lower {above base : List Frame} {m : Machine} (h : Busy (above ++ base) m) :
    Busy base m := by
  obtain ⟨top, hne, hstack, hfree⟩ := h
  refine ⟨top ++ above, by simp [hne], by rw [hstack, List.append_assoc], fun hp => ?_⟩
  obtain ⟨f, hf, hval⟩ := hfree hp
  exact ⟨f, List.mem_append_left _ hf, hval⟩

/-- A run above more frames is a run above fewer. -/
theorem Runs.lower {above base : List Frame} {k : Nat} {m m' : Machine}
    (h : Runs (above ++ base) k m m') : Runs base k m m' := by
  induction h with
  | refl m => exact .refl m
  | step hbusy hstep _ ih => exact .step hbusy.lower hstep ih

/-- Of two runs from one machine, the longer one goes on from the end of the shorter one. -/
theorem Runs.rest {base : List Frame} {k l : Nat} {a b c : Machine} (h : Runs base k a b)
    (h' : Runs base (k + l) a c) : Runs base l b c := by
  induction h with
  | refl m => rwa [Nat.zero_add] at h'
  | step hbusy hstep _ ih =>
      rw [Nat.succ_add] at h'
      cases h' with
      | step _ hstep' hruns' =>
          rw [hstep] at hstep'
          cases hstep'
          exact ih hruns'

/-- A run can be cut after any number of its steps, and the machine works there. -/
theorem Runs.cut {base : List Frame} {k l : Nat} {a c : Machine} (h : Runs base l a c)
    (hc : Busy base c) (hkl : k ≤ l) : ∃ b, Runs base k a b ∧ Busy base b := by
  induction h generalizing k with
  | refl m =>
      obtain rfl : k = 0 := by omega
      exact ⟨m, .refl m, hc⟩
  | step hbusy hstep _ ih =>
      cases k with
      | zero => exact ⟨_, .refl _, hbusy⟩
      | succ k =>
          obtain ⟨b, hb, hbusy'⟩ := ih hc (Nat.le_of_succ_le_succ hkl)
          exact ⟨b, .step hbusy hstep hb, hbusy'⟩

/-- The machine does not go on above a stack: it has nothing to do there, or its step is its last one. -/
def Stops (base : List Frame) (m : Machine) : Prop :=
  Busy base m → ∀ next, m.step ≠ (.ok true, next)

/-- Runs from one machine that stop are the same run. -/
theorem Runs.unique {base : List Frame} {k l : Nat} {a b c : Machine} (h : Runs base k a b)
    (hb : Stops base b) (h' : Runs base l a c) (hc : Stops base c) : b = c := by
  induction h generalizing l with
  | refl m =>
      cases h' with
      | refl => rfl
      | step hbusy hstep _ => exact absurd hstep (hb hbusy _)
  -- The machine is deterministic: both runs take the same first step.
  | step hbusy hstep _ ih =>
      cases h' with
      | refl => exact absurd hstep (hc hbusy _)
      | step _ hstep' hruns' =>
          rw [hstep] at hstep'
          cases hstep'
          exact ih hb hruns'

/-- Nothing is to be done above a stack if nothing stands there. -/
theorem not_busy_self (base : List Frame) (st : State) : ¬ Busy base ⟨base, st⟩ := by
  rintro ⟨above, hne, hstack, -⟩
  exact hne (List.self_eq_append_left.mp hstack)

/-- Nothing is to be done above a stack if a single value stands there. -/
theorem not_busy_value (base : List Frame) (v : Value) {st : State} (hp : st.pending = none) :
    ¬ Busy base ⟨.value v :: base, st⟩ := by
  rintro ⟨above, -, hstack, hfree⟩
  have habove : [Frame.value v] = above := List.append_cancel_right hstack
  obtain ⟨f, hf, hval⟩ := hfree hp
  rw [← habove, List.mem_singleton] at hf
  rw [hf] at hval
  cases hval

/-- How a machine looks above a stack when an evaluation has ended there. -/
def Ended (base : List Frame) (m : Machine) : Ending Value × State → Prop
  | (.value v, st) => st.pending = none ∧ m = ⟨.value v :: base, st⟩
  | (.interrupt i, st) => st.pending = none ∧ m = ⟨base, { st with pending := some i }⟩
  | (.fault f, st) => Busy base m ∧ ∃ m', m.step = (.error f, m') ∧ m'.state = st

/-- A machine that has ended stops. -/
theorem Ended.stops {base : List Frame} {m : Machine} {x : Ending Value × State}
    (h : Ended base m x) : Stops base m := by
  match x, h with
  | (.value v, st), ⟨hp, hm⟩ =>
    rw [hm]
    exact fun hbusy => absurd hbusy (not_busy_value base v hp)
  | (.interrupt i, st), ⟨_, hm⟩ =>
    rw [hm]
    exact fun hbusy => absurd hbusy (not_busy_self base _)
  | (.fault f, st), ⟨_, m', hstep, _⟩ =>
    intro _ next hok
    rw [hstep] at hok
    cases hok

/-- A machine that is busy has ended with a fault or not at all. -/
theorem Ended.fault_of_busy {base : List Frame} {m : Machine} {x : Ending Value × State}
    (h : Ended base m x) (hbusy : Busy base m) : ∃ f st, x = (.fault f, st) := by
  match x, h with
  | (.value v, st), ⟨hp, hm⟩ =>
    rw [hm] at hbusy
    exact absurd hbusy (not_busy_value base v hp)
  | (.interrupt i, st), ⟨_, hm⟩ =>
    rw [hm] at hbusy
    exact absurd hbusy (not_busy_self base _)
  | (.fault f, st), _ => exact ⟨f, st, rfl⟩

/-- A machine has ended in one way only. -/
theorem Ended.unique {base : List Frame} {m : Machine} {x y : Ending Value × State}
    (hx : Ended base m x) (hy : Ended base m y) : x = y := by
  match x, y, hx, hy with
  | (.value v, st), (.value w, st'), ⟨_, hm⟩, ⟨_, hm'⟩ =>
    rw [hm] at hm'
    cases hm'
    rfl
  | (.interrupt i, st), (.interrupt j, st'), ⟨hp, hm⟩, ⟨hp', hm'⟩ =>
    rw [hm] at hm'
    -- The two states are equal up to the interrupt, and neither has one under way before it is set.
    have hst := congrArg Machine.state hm'
    have hi : some i = some j := congrArg State.pending hst
    have hclear (s : State) (h : s.pending = none) : { s with pending := none } = s := by rw [← h]
    have hsame : { st with pending := none } = { st' with pending := none } :=
      congrArg (fun s : State => { s with pending := none }) hst
    rw [hclear st hp, hclear st' hp'] at hsame
    cases hi
    cases hsame
    rfl
  | (.value v, st), (.interrupt i, st'), ⟨_, hm⟩, ⟨_, hm'⟩ =>
    rw [hm] at hm'
    have hstack : Frame.value v :: base = base := congrArg Machine.stack hm'
    exact absurd hstack (List.cons_ne_self _ _)
  | (.interrupt i, st), (.value v, st'), ⟨_, hm⟩, ⟨_, hm'⟩ =>
    rw [hm'] at hm
    have hstack : Frame.value v :: base = base := congrArg Machine.stack hm
    exact absurd hstack (List.cons_ne_self _ _)
  -- A machine that fails is busy, and one that ended otherwise is not.
  | (.fault f, st), y, ⟨hbusy, m', hstep, hst⟩, hy =>
    obtain ⟨g, st', rfl⟩ := hy.fault_of_busy hbusy
    obtain ⟨-, m'', hstep', hst'⟩ := hy
    rw [hstep] at hstep'
    cases hstep'
    rw [← hst, ← hst']
  | x, (.fault f, st), hx, ⟨hbusy, m', hstep, hst⟩ =>
    obtain ⟨g, st', rfl⟩ := hx.fault_of_busy hbusy
    obtain ⟨-, m'', hstep', hst'⟩ := hx
    rw [hstep] at hstep'
    cases hstep'
    rw [← hst, ← hst']

/-! ### Steps that succeed -/

/-- A frame that is no value, with values on top of it, works above what is below it. -/
theorem busy_values_append (vs : List Value) {f : Frame} (base : List Frame) (st : State)
    (hf : f.isValue = false) : Busy base ⟨values vs ++ f :: base, st⟩ :=
  ⟨values vs ++ [f], by simp, by simp, fun _ => ⟨f, by simp, hf⟩⟩

/-- Work that succeeds is a step that succeeds. -/
theorem step_of_work {m m' : Machine} (hp : m.state.pending = none) (hm : m.hasWork = true)
    (hwork : m.work = (.ok (), m')) : m.step = (.ok m'.hasWork, m') := by
  rcases step_cases m with ⟨-, hno, -⟩ | ⟨i, hi, -⟩ | ⟨-, -, hstep, -⟩ | ⟨-, -, c, m'', hbad, -⟩
  · rw [hm] at hno
    cases hno
  · rw [hp] at hi
    cases hi
  · rw [hstep, hwork]
    rfl
  · rw [hwork] at hbad
    cases hbad

/-- Work that fails with a fault that no script can catch is a step that fails. -/
theorem step_of_fault {m m' : Machine} {f : Fault} (hp : m.state.pending = none)
    (hm : m.hasWork = true) (hwork : m.work = (.error f, m'))
    (hf : ∀ cause, f = .catchable cause → m'.state.guards = 0) : m.step = (.error f, m') := by
  rcases step_cases m with ⟨-, hno, -⟩ | ⟨i, hi, -⟩ | ⟨-, -, hstep, -⟩ | ⟨-, -, c, m'', hbad, hg, -⟩
  · rw [hm] at hno
    cases hno
  · rw [hp] at hi
    cases hi
  · rw [hstep, hwork]
    rfl
  · rw [hwork] at hbad
    cases hbad
    have := hf c rfl
    omega

/-- Work that fails with a catchable fault under a guard is a step that sets an exception off. -/
theorem step_of_catchable {m : Machine} {cause : Catchable} {stack : List Frame} {st : State}
    (hp : m.state.pending = none) (hm : m.hasWork = true)
    (hwork : m.work = (.error (.catchable cause), ⟨stack, st⟩)) (hg : 0 < st.guards)
    (hst : st.pending = none) :
    m.step = (.ok true, ⟨stack, { (st.exceptionPayload cause).2 with
      pending := some ⟨.thrown (st.exceptionPayload cause).1, st.line⟩ }⟩) := by
  rcases step_cases m with ⟨-, hno, -⟩ | ⟨i, hi, -⟩ | ⟨-, -, -, hnone⟩ | ⟨-, -, c, m', hw, -, hstep⟩
  · rw [hm] at hno
    cases hno
  · rw [hp] at hi
    cases hi
  -- A fault that passes without an exception needs a stack without guards.
  · have := hnone cause _ hwork
    simp only at this
    omega
  · rw [hwork] at hw
    cases hw
    rw [hstep]
    simp only [throwCatchable, State.exceptionPayload, State.makeObject, State.raise, hst,
      finishStep, hasWork, Option.isSome_some, Bool.true_or]

/-- What a construct that went on leaves: what it does next, above itself or in its place. -/
def resumedOutcome (line : Nat) (base : List Frame) (r : Resumed) : Outcome :=
  match r.move with
  | .error f => (.error f, ⟨.control line r.control :: base, r.state⟩)
  | .ok (.eval node demand) =>
    (.ok (), ⟨.request node demand :: .control line r.control :: base, r.state⟩)
  | .ok (.run body) =>
    (.ok (), ⟨.block body.statements :: .control line r.control :: base, r.state⟩)
  | .ok (.done v) => (.ok (), ⟨.value v :: base, r.state⟩)

/-- A construct goes on with the value above it, if there is one. -/
theorem work_control (incoming : Option Value) (line : Nat) (c : Control) (base : List Frame)
    (st : State) :
    work ⟨values incoming.toList ++ .control line c :: base, st⟩ =
      resumedOutcome line base (c.resume incoming (st.atLine line)) := by
  rw [work_values_append _ _ base st rfl]
  cases incoming with
  | none => rfl
  | some v => rfl

namespace Shows

variable {base : List Frame} {n : Nat} {e : Evaluation Value}

/-- An evaluation that ends shows as a run to a machine that has ended in the same way. -/
theorem exists_ended {m : Machine} {x : Ending Value × State} (h : Shows base n m (some x)) :
    ∃ k m', Runs base k m m' ∧ Ended base m' x := by
  match x, h with
  | (.value v, st), ⟨hp, k, hruns⟩ => exact ⟨k, _, hruns, hp, rfl⟩
  | (.interrupt i, st), ⟨hp, k, hruns⟩ => exact ⟨k, _, hruns, hp, rfl⟩
  | (.fault f, st), ⟨k, m', m'', hruns, hbusy, hstep, hst⟩ =>
    exact ⟨k, m', hruns, hbusy, m'', hstep, hst⟩

/-- A machine shows one ending only. -/
theorem unique {m : Machine} {x y : Ending Value × State} {k : Nat}
    (hx : Shows base n m (some x)) (hy : Shows base k m (some y)) : x = y := by
  obtain ⟨_, b, hruns, hb⟩ := hx.exists_ended
  obtain ⟨_, c, hruns', hc⟩ := hy.exists_ended
  have hsame : b = c := hruns.unique hb.stops hruns' hc.stops
  rw [← hsame] at hc
  exact hb.unique hc

/-- Fewer steps are certain as well. -/
theorem mono {m : Machine} {k : Nat} (h : Shows base n m e) (hk : k ≤ n) : Shows base k m e := by
  match e, h with
  | none, ⟨_, hruns, hbusy⟩ => exact hruns.cut hbusy hk
  | some (.value _, _), h => exact h
  | some (.interrupt _, _), h => exact h
  | some (.fault _, _), h => exact h

/-- A step that leaves work to do, and then what the evaluation says. -/
theorem of_step {m next : Machine} (hbusy : Busy base m) (hstep : m.step = (.ok true, next))
    (h : Shows base n next e) : Shows base (n + 1) m e := by
  match e, h with
  | none, ⟨m', hruns, hbusy'⟩ => exact ⟨m', .step hbusy hstep hruns, hbusy'⟩
  | some (.value _, _), ⟨hp, k, hruns⟩ => exact ⟨hp, k + 1, .step hbusy hstep hruns⟩
  | some (.interrupt _, _), ⟨hp, k, hruns⟩ => exact ⟨hp, k + 1, .step hbusy hstep hruns⟩
  | some (.fault _, _), ⟨k, m', m'', hruns, hfault⟩ =>
    exact ⟨k + 1, m', m'', .step hbusy hstep hruns, hfault⟩

/-- A run, and then what the evaluation says. -/
theorem after {m next : Machine} {k : Nat} (hruns : Runs base k m next)
    (h : Shows base n next e) : Shows base n m e := by
  induction hruns with
  | refl m => exact h
  | step hbusy hstep _ ih => exact (of_step hbusy hstep (ih h)).mono (Nat.le_succ n)

/-- The work of a frame with values on top of it, and then what the evaluation says. -/
theorem of_work (vs : List Value) {f : Frame} {st : State} {next : Machine}
    (hf : f.isValue = false) (hp : st.pending = none)
    (hwork : work ⟨values vs ++ f :: base, st⟩ = (.ok (), next)) (hlen : 2 ≤ next.stack.length)
    (h : Shows base n next e) : Shows base (n + 1) ⟨values vs ++ f :: base, st⟩ e := by
  have hbusy := busy_values_append vs base st hf
  refine of_step hbusy ?_ h
  rw [step_of_work hp hbusy.hasWork hwork, hasWork_of_length hlen]

/-- A value that is on top. -/
theorem yield {v : Value} {st : State} (hp : st.pending = none) :
    Shows base n ⟨.value v :: base, st⟩ (st.yield v) :=
  ⟨hp, 0, .refl _⟩

/-- The work of a frame that fails, but not with a catchable fault. -/
theorem of_fault (vs : List Value) {f : Frame} {st st' : State} {stack : List Frame} {fault : Fault}
    (hf : f.isValue = false) (hp : st.pending = none)
    (hwork : work ⟨values vs ++ f :: base, st⟩ = (.error fault, ⟨stack, st'⟩))
    (hno : fault.isCatchable = false) :
    Shows base n ⟨values vs ++ f :: base, st⟩ (st'.fail fault) := by
  have hfail : (st'.fail fault : Evaluation Value) = some (.fault fault, st') := by
    cases fault with
    | catchable cause => cases hno
    | _ => rfl
  rw [hfail]
  have hbusy := busy_values_append vs base st hf
  refine ⟨0, _, _, .refl _, hbusy, step_of_fault hp hbusy.hasWork hwork fun cause hc => ?_, rfl⟩
  rw [hc] at hno
  cases hno

/-! ### Interrupts and parts -/

/-- An interrupt that is under way above a stack is an evaluation that ended with it. -/
theorem interrupt {i : Interrupt} {st : State} (hp : st.pending = none) :
    Shows base n ⟨base, { st with pending := some i }⟩ (some (.interrupt i, st)) :=
  ⟨hp, 0, .refl _⟩

/-- The offer of an interrupt to a frame, and then what the evaluation says. -/
theorem of_dispatch {f : Frame} {i : Interrupt} {st : State} {next : Machine}
    (hp : st.pending = none) (hdispatch : dispatch i (f :: base) st = (.ok (), next))
    (hnext : next.hasWork = true) (h : Shows base n next e) :
    Shows base (n + 1) ⟨f :: base, { st with pending := some i }⟩ e := by
  have hbusy : Busy base ⟨f :: base, { st with pending := some i }⟩ :=
    ⟨[f], by simp, rfl, fun h => absurd h (by simp)⟩
  refine of_step hbusy ?_ h
  have hclear : { st with pending := none } = st := by rw [← hp]
  simp only [step, hclear, hdispatch, finishStep, hnext]

/-- A frame that lets an interrupt pass, and perhaps releases something. -/
theorem of_pass {f : Frame} {i : Interrupt} {st st' : State} (hbase : base ≠ [])
    (hp : st.pending = none) (hp' : st'.pending = none)
    (hpass : dispatch i (f :: base) st = unwind i base st') :
    Shows base n ⟨f :: base, { st with pending := some i }⟩ (some (.interrupt i, st')) := by
  have hunwind : unwind i base st' = (.ok (), ⟨base, { st' with pending := some i }⟩) := by
    cases base with
    | nil => exact absurd rfl hbase
    | cons g rest => rfl
  exact (of_dispatch hp (hpass.trans hunwind) (by simp [hasWork]) (interrupt hp')).mono
    (Nat.le_succ n)

/-- A part of a construct above the frames of the construct, and then what the construct does with its
value or its interrupt. A fault or a part that is not done needs nothing else. -/
theorem handle {above : List Frame} {m : Machine} {onValue : Value → State → Evaluation Value}
    {onInterrupt : Interrupt → State → Evaluation Value} (h : Shows (above ++ base) n m e)
    (hvalue : ∀ v st, st.pending = none →
      Shows base n ⟨.value v :: (above ++ base), st⟩ (onValue v st))
    (hinterrupt : ∀ i st, st.pending = none →
      Shows base n ⟨above ++ base, { st with pending := some i }⟩ (onInterrupt i st)) :
    Shows base n m (e.handle onValue onInterrupt) := by
  match e, h with
  | none, ⟨m', hruns, hbusy⟩ => exact ⟨m', hruns.lower, hbusy.lower⟩
  | some (.value v, st), ⟨hp, k, hruns⟩ => exact after hruns.lower (hvalue v st hp)
  | some (.interrupt i, st), ⟨hp, k, hruns⟩ => exact after hruns.lower (hinterrupt i st hp)
  | some (.fault _, _), ⟨k, m', m'', hruns, hbusy, hfault⟩ =>
    exact ⟨k, m', m'', hruns.lower, hbusy.lower, hfault⟩

/-- A part above the single frame of its construct. -/
theorem handle_frame {f : Frame} {m : Machine} {onValue : Value → State → Evaluation Value}
    {onInterrupt : Interrupt → State → Evaluation Value} (h : Shows (f :: base) n m e)
    (hvalue : ∀ v st, st.pending = none → Shows base n ⟨.value v :: f :: base, st⟩ (onValue v st))
    (hinterrupt : ∀ i st, st.pending = none →
      Shows base n ⟨f :: base, { st with pending := some i }⟩ (onInterrupt i st)) :
    Shows base n m (e.handle onValue onInterrupt) :=
  @handle base n e [f] m onValue onInterrupt h hvalue hinterrupt

/-- Frames that are no constructs let every interrupt pass. -/
theorem pass_plain {i : Interrupt} {st : State} (hbase : base ≠ []) (hp : st.pending = none) :
    ∀ above : List Frame, (∀ f ∈ above, ∀ line c, f ≠ .control line c) →
      Shows base n ⟨above ++ base, { st with pending := some i }⟩ (some (.interrupt i, st)) := by
  intro above hplain
  induction above with
  | nil => exact interrupt hp
  | cons f rest ih =>
      have hne : rest ++ base ≠ [] := by simp [hbase]
      have hpass : dispatch i (f :: (rest ++ base)) st = unwind i (rest ++ base) st := by
        cases f with
        | control line c => exact absurd rfl (hplain _ (by simp) line c)
        | _ => rfl
      -- The top frame goes in one step, and the frames under it go by induction.
      have htop : Shows (rest ++ base) n ⟨f :: (rest ++ base), { st with pending := some i }⟩
          (some (.interrupt i, st)) := of_pass hne hp hp hpass
      obtain ⟨-, k, hruns⟩ := htop
      exact after hruns.lower (ih fun g hg => hplain g (by simp [hg]))

/-! ### Steps of a construct -/

section Resume

variable (incoming : Option Value) {line : Nat} {c c' : Control} {st st' : State}

/-- A construct asks for the value of a node. -/
theorem of_eval {node : Node} {demand : Demand} (hp : st.pending = none)
    (hresume : c.resume incoming (st.atLine line) = ⟨c', st', .ok (.eval node demand)⟩)
    (h : Shows base n ⟨.request node demand :: .control line c' :: base, st'⟩ e) :
    Shows base (n + 1) ⟨values incoming.toList ++ .control line c :: base, st⟩ e :=
  of_work _ rfl hp (by rw [work_control, hresume]; rfl) (by simp) h

/-- A construct runs a block. -/
theorem of_run {body : Block} (hp : st.pending = none)
    (hresume : c.resume incoming (st.atLine line) = ⟨c', st', .ok (.run body)⟩)
    (h : Shows base n ⟨.block body.statements :: .control line c' :: base, st'⟩ e) :
    Shows base (n + 1) ⟨values incoming.toList ++ .control line c :: base, st⟩ e :=
  of_work _ rfl hp (by rw [work_control, hresume]; rfl) (by simp) h

/-- A construct is done. -/
theorem of_done {v : Value} (hbase : base ≠ []) (hp : st.pending = none) (hp' : st'.pending = none)
    (hresume : c.resume incoming (st.atLine line) = ⟨c', st', .ok (.done v)⟩) :
    Shows base n ⟨values incoming.toList ++ .control line c :: base, st⟩ (st'.yield v) := by
  have hlen : 0 < base.length := List.length_pos_iff.mpr hbase
  have hwork : work ⟨values incoming.toList ++ .control line c :: base, st⟩
      = (.ok (), ⟨.value v :: base, st'⟩) := by
    rw [work_control, hresume]
    rfl
  exact (of_work _ rfl hp hwork (by simp; omega) (yield hp')).mono (Nat.le_succ n)

/-- A construct fails. -/
theorem of_failed {f : Fault} (hp : st.pending = none)
    (hresume : c.resume incoming (st.atLine line) = ⟨c', st', .error f⟩)
    (hf : f.isCatchable = false) :
    Shows base n ⟨values incoming.toList ++ .control line c :: base, st⟩ (st'.fail f) :=
  of_fault _ rfl hp (by rw [work_control, hresume]; rfl) hf

/-- A construct lets an interrupt pass and releases what it holds. -/
theorem of_passed {i : Interrupt} (hbase : base ≠ []) (hp : st.pending = none)
    (hanswer : c.answer i st = .passed) (hp' : (c.discard st).pending = none) :
    Shows base n ⟨.control line c :: base, { st with pending := some i }⟩
      (some (.interrupt i, c.discard st)) :=
  of_pass hbase hp hp' (by simp only [dispatch, hanswer])

/-- A construct takes an interrupt and goes on. -/
theorem of_handled {i : Interrupt} (hp : st.pending = none)
    (hanswer : c.answer i st = .handled c' st')
    (h : Shows base n ⟨.control line c' :: base, st'⟩ e) :
    Shows base (n + 1) ⟨.control line c :: base, { st with pending := some i }⟩ e := by
  refine of_dispatch hp (by simp only [dispatch, hanswer]) ?_ h
  simp [hasWork]

/-- A construct does not allow an interrupt. -/
theorem of_rejected {i : Interrupt} {f : Fault} (hp : st.pending = none)
    (hanswer : c.answer i st = .rejected f) :
    Shows base n ⟨.control line c :: base, { st with pending := some i }⟩
      (some (.fault f, st)) := by
  have hbusy : Busy base ⟨.control line c :: base, { st with pending := some i }⟩ :=
    ⟨[.control line c], by simp, rfl, fun h => absurd h (by simp)⟩
  have hclear : { st with pending := none } = st := by rw [← hp]
  refine ⟨0, _, ⟨.control line c :: base, st⟩, .refl _, hbusy, ?_, rfl⟩
  simp only [step, hclear, dispatch, hanswer, finishStep]

end Resume

end Shows

end Machine

end Stepwise
