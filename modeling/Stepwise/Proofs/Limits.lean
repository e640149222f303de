import Stepwise.Proofs.Catching
import Stepwise.Proofs.Refitting

/-!
# `Stepwise.Proofs.Limits`: the limit of scopes

The limit says how many scopes may stand on top of the global one. It is read where a call or an object
literal is about to enter a scope (`Machine.Entering`), and nowhere else. An entry without room is refused, and
what is refused leaves only an empty object that nothing refers to (`Machine.step_of_full`). Any other step is
the same under a greater limit (`Machine.step_withLimit`). From these, `Machine.runs_agree_below_limit`
compares two runs of one script under two limits step by step: until the lower limit refuses a scope, they
differ in the limit alone.
-/

set_option autoImplicit false

namespace Stepwise

/-- The state with another limit of scopes. -/
def State.withLimit (limit : Nat) (st : State) : State :=
  { st with scopes := { st.scopes with limit := limit } }

/-- A construct that is about to enter a scope without room is refused it. -/
theorem Control.resume_of_full {c : Control} {incoming : Option Value} {st : State}
    (henters : c.Enters st.heap incoming) (hfull : st.scopes.limit ≤ st.scopes.depth) :
    c.resume incoming st = ⟨c.afterFault, st.refused, .error (.recursionLimit st.scopes.limit)⟩ :=
  resume_eq_iff.mpr (.refused henters hfull)

namespace Machine

open Stepwise.Frame (values)

/-! ### Steps -/

/-- The machine with another limit of scopes. -/
def withLimit (limit : Nat) (m : Machine) : Machine :=
  ⟨m.stack, m.state.withLimit limit⟩

theorem withLimit_eq_refit (limit : Nat) : withLimit limit = refit (fun _ => limit) id :=
  rfl

/-- A step that is to enter a scope without room is refused it. Nothing changes but the line and that an
empty object is in memory. -/
theorem step_of_full {m : Machine} (henters : m.Entering)
    (hfull : m.state.scopes.limit ≤ m.state.scopes.depth) :
    m.step.1 = .error (.recursionLimit m.state.scopes.limit) ∧
      ∃ line, m.step.2.state = m.state.refused.atLine line := by
  obtain ⟨hpending, incoming, line, c, below, hstack, henters⟩ := henters
  have hresume : c.resume incoming (m.state.atLine line) =
      ⟨c.afterFault, (m.state.atLine line).refused, .error (.recursionLimit m.state.scopes.limit)⟩ :=
    Control.resume_of_full henters hfull
  have hwork : m.work = (.error (.recursionLimit m.state.scopes.limit),
      ⟨.control line c.afterFault :: below, (m.state.atLine line).refused⟩) := by
    rw [show m = ⟨m.stack, m.state⟩ from rfl, hstack, work_control incoming line c below m.state, hresume]
    rfl
  have hhas : m.hasWork = true := by
    cases incoming with
    | none => simp [hasWork, hstack]
    | some v => simp [hasWork, hstack]
  -- A refused scope is no catchable fault, so no guard turns it into an exception.
  have hcatch : ∀ cause, Fault.recursionLimit m.state.scopes.limit = .catchable cause →
      (m.state.atLine line).refused.guards = 0 := by
    rintro cause ⟨⟩
  rw [step_of_fault hpending hhas hwork hcatch]
  exact ⟨rfl, line, rfl⟩

/-- Of all that a step does, only the work of a construct is ever refused a scope. -/
theorem entering_of_refused {m : Machine} {max : Nat} (h : m.step.1 = .error (.recursionLimit max)) :
    m.Entering ∧ m.state.scopes.limit ≤ m.state.scopes.depth := by
  rcases step_cases m with ⟨-, -, hstep⟩ | ⟨i, -, hstep⟩ | ⟨hpending, -, hstep, -⟩ | ⟨-, -, cause, m', -, -, hstep⟩
  · rw [hstep] at h
    cases h
  · rw [hstep] at h
    obtain ⟨m', hdispatch⟩ := eq_error_of_finishStep h
    -- The offer of an interrupt pushes no scope, and neither does an exception that is set off.
    cases (dispatch_error rfl hdispatch).2.granted
  · rw [hstep] at h
    obtain ⟨m', hwork⟩ := eq_error_of_finishStep h
    obtain ⟨incoming, line, c, below, hstack, henters, hfull⟩ := (work_error hwork).refusal rfl
    exact ⟨⟨hpending, incoming, line, c, below, hstack, henters⟩, hfull⟩
  · rw [hstep] at h
    obtain ⟨m'', hthrow⟩ := eq_error_of_finishStep h
    simp only [throwCatchable, State.raise] at hthrow
    split at hthrow <;> cases hthrow

/-- A step is refused a scope exactly if it is to enter one without room. -/
theorem step_refused_iff (m : Machine) (max : Nat) :
    m.step.1 = .error (.recursionLimit max) ↔
      m.Entering ∧ m.state.scopes.limit ≤ m.state.scopes.depth ∧ max = m.state.scopes.limit := by
  constructor
  · intro hrefused
    have henters := entering_of_refused hrefused
    have hmax := (step_of_full henters.1 henters.2).1
    rw [hrefused] at hmax
    cases hmax
    exact ⟨henters.1, henters.2, rfl⟩
  · rintro ⟨henters, hfull, rfl⟩
    exact (step_of_full henters hfull).1

/-- A step that is refused no scope is the same under a greater limit. -/
theorem step_withLimit {m : Machine} {limit : Nat} (hok : ∀ max, m.step.1 ≠ .error (.recursionLimit max))
    (hlimit : m.state.scopes.limit ≤ limit) :
    (m.withLimit limit).step = Prod.map id (withLimit limit) m.step := by
  rw [withLimit_eq_refit]
  refine step_refit ?_ fun text _ => rfl
  intro henters
  have hroom : m.state.scopes.depth < m.state.scopes.limit :=
    Nat.lt_of_not_le fun hfull => hok _ (step_of_full henters hfull).1
  exact Or.inr ⟨hroom, Nat.lt_of_lt_of_le hroom hlimit⟩

/-! ### Runs -/

/-- Runs under two limits go side by side as long as the lower limit refuses no scope. -/
theorem after_withLimit {m : Machine} {limit : Nat} (hlimit : ∀ j, (m.after j).state.scopes.limit ≤ limit)
    (k : Nat) (hok : ∀ j < k, ∀ max, (m.after j).step.1 ≠ .error (.recursionLimit max)) :
    (m.withLimit limit).after k = (m.after k).withLimit limit := by
  induction k with
  | zero => rfl
  | succ k ih =>
      have hprev := ih fun j hj => hok j (by omega)
      show ((m.withLimit limit).after k).step.2 = ((m.after k).step.2).withLimit limit
      rw [hprev, step_withLimit (hok k (by omega)) (hlimit k)]
      rfl

/-- The limit of scopes has no part in a run that stays below it. Of two runs of a script under the limits
`limit ≤ limit'`, as long as the first is refused no scope, each step gives the same answer, and the
machines differ in the limit alone. The first is refused a scope exactly where a call is about to enter its
body or an object literal is about to start while `limit` scopes are on top of the global one. Then no scope
is put on top, and what is in memory stays as it is, next to a new object without fields. -/
theorem runs_agree_below_limit (root : Block) (limit limit' : Nat) (seed : Seed) (sink : Sink)
    (hle : limit ≤ limit') :
    let low := start root limit seed sink
    let high := start root limit' seed sink
    (∀ k, (∀ j < k, ∀ max, (low.after j).step.1 ≠ .error (.recursionLimit max)) →
      (∀ j ≤ k, high.after j = (low.after j).withLimit limit') ∧
      (∀ j < k, (high.after j).step.1 = (low.after j).step.1)) ∧
    (∀ j max, (low.after j).step.1 = .error (.recursionLimit max) ↔
      (low.after j).Entering ∧ (low.after j).state.scopes.depth = limit ∧ max = limit) ∧
    (∀ j max, (low.after j).step.1 = .error (.recursionLimit max) →
      (low.after (j + 1)).state.scopes = (low.after j).state.scopes ∧
      (low.after (j + 1)).state.heap =
        ((low.after j).state.heap.newObject (low.after j).state.nextId .empty).2) := by
  intro low high
  -- A run never has more scopes than its limit, so a full stack has exactly as many.
  have hbalanced (j : Nat) : (low.after j).state.scopes.limit = limit ∧
      (low.after j).state.scopes.depth ≤ limit :=
    ⟨(balanced_after root limit seed sink j).limit_eq, (balanced_after root limit seed sink j).length_le⟩
  have hiff (j max : Nat) : (low.after j).step.1 = .error (.recursionLimit max) ↔
      (low.after j).Entering ∧ (low.after j).state.scopes.depth = limit ∧ max = limit := by
    obtain ⟨hlimit, hdepth⟩ := hbalanced j
    rw [step_refused_iff, hlimit]
    constructor
    · rintro ⟨henters, hfull, rfl⟩
      exact ⟨henters, by omega, rfl⟩
    · rintro ⟨henters, hfull, rfl⟩
      exact ⟨henters, by omega, rfl⟩
  refine ⟨?_, hiff, ?_⟩
  · intro k hok
    -- The machines agree up to the limit step by step, from the start on.
    have hlimit (j : Nat) : (low.after j).state.scopes.limit ≤ limit' :=
      Nat.le_trans (Nat.le_of_eq (hbalanced j).1) hle
    have hafter (j : Nat) (hj : j ≤ k) : high.after j = (low.after j).withLimit limit' :=
      after_withLimit hlimit j fun i hi => hok i (by omega)
    refine ⟨hafter, ?_⟩
    intro j hj
    rw [hafter j (by omega), step_withLimit (hok j hj) (hlimit j)]
    rfl
  · intro j max hrefused
    obtain ⟨henters, hdepth, -⟩ := (hiff j max).mp hrefused
    have hfull : (low.after j).state.scopes.limit ≤ (low.after j).state.scopes.depth :=
      Nat.le_of_eq ((hbalanced j).1.trans hdepth.symm)
    -- A refused scope has been made, but it is only in memory.
    obtain ⟨-, line, hstate⟩ := step_of_full henters hfull
    show (low.after j).step.2.state.scopes = _ ∧ (low.after j).step.2.state.heap = _
    rw [hstate]
    exact ⟨rfl, rfl⟩

/-- An object literal in an object literal, under a limit of one scope and under one of five: the runs agree
until the inner one is refused its scope. -/
theorem runs_agree_until_inner_object :
    let root : Block := .mk 1 [.mk 1 (.object (.mk 1 [.mk 2 (.object (.mk 2 []))]))]
    let low := start root 1 7 .unlimited
    let high := start root 5 7 .unlimited
    high.after 5 = (low.after 5).withLimit 5 ∧ (low.after 5).Entering ∧
      (low.after 5).step.1 = .error (.recursionLimit 1) := by
  intro root low high
  obtain ⟨hagree, hiff, -⟩ := runs_agree_below_limit root 1 5 7 .unlimited (by decide)
  have hok (j : Nat) (hj : j < 5) : (low.after j).step.1 = .ok true := by
    match j, hj with
    | 0, _ => rfl
    | 1, _ => rfl
    | 2, _ => rfl
    | 3, _ => rfl
    | 4, _ => rfl
  refine ⟨(hagree 5 ?_).1 5 (by decide), ?_⟩
  · intro j hj max
    rw [hok j hj]
    nofun
  · have hrefused : (low.after 5).step.1 = .error (.recursionLimit 1) := rfl
    exact ⟨((hiff 5 1).mp hrefused).1, hrefused⟩

end Machine

end Stepwise
