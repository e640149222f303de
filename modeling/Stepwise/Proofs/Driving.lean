import Mathlib.Data.ENat.Lattice
import Stepwise.Proofs.Safety

/-!
# `Stepwise.Proofs.Driving`: calls can be cut up in any way

A host drives a program by three calls: one step, a number of steps, or all steps to the end. `Program.stepped`
is the program after a number of steps of its machine, done one at a time, and `Program.stepsLeft` the number of
steps until the machine has no work left or has failed; it is infinite if neither happens.

`Program.Spends` says what any call does with its budget: it does as many steps as the budget and the steps that
are left allow, and it answers whether work remains, or with the error if the last of these steps failed.
`Program.calls_cut_up` follows for a whole sequence of calls: only the sum of the budgets counts.

Every call comes down to single steps, so all of it rests on `spends_of_stopped`, for a program that has come
to its end, and on `Spends.after_step` and `spends_of_last_step`, for one that goes on after a step and for one
that does not.
-/

set_option autoImplicit false

namespace Stepwise

namespace Machine

/-- A machine comes to its end within a number of steps: no work remains after them, or one of them fails. -/
def EndsWithin (m : Machine) (k : Nat) : Prop :=
  (m.after k).hasWork = false ∨ ∃ j < k, ∃ f, (m.after j).step.1 = .error f

/-- The number of steps until no work remains or a step has failed. -/
noncomputable def stepsLeft (m : Machine) : ℕ∞ :=
  ⨅ (k : Nat) (_ : m.EndsWithin k), (k : ℕ∞)

/-- The first step can be split off. -/
theorem after_step (m : Machine) (k : Nat) : m.step.2.after k = m.after (k + 1) := by
  induction k with
  | zero => rfl
  | succ k ih =>
      show (m.step.2.after k).step.2 = (m.after (k + 1)).step.2
      rw [ih]

/-- A step that succeeds says whether work remains. -/
theorem hasWork_of_step {m : Machine} {more : Bool} (h : m.step.1 = .ok more) :
    m.step.2.hasWork = more := by
  -- Every step but an idle one ends in `finishStep`, which asks the new machine.
  have hfinish : ∀ o : Outcome, (finishStep o).1 = .ok more → (finishStep o).2.hasWork = more := by
    rintro ⟨r, m'⟩ ho
    cases r with
    | ok u =>
        cases ho
        rfl
    | error f => cases ho
  rcases step_cases m with ⟨-, hwork, hstep⟩ | ⟨i, -, hstep⟩ | ⟨-, -, hstep, -⟩ | ⟨-, -, cause, m', -, -, hstep⟩
  · rw [hstep] at h ⊢
    cases h
    exact hwork
  · rw [hstep] at h ⊢
    exact hfinish _ h
  · rw [hstep] at h ⊢
    exact hfinish _ h
  · rw [hstep] at h ⊢
    exact hfinish _ h

theorem not_endsWithin_zero {m : Machine} (h : m.hasWork = true) : ¬ m.EndsWithin 0 := by
  rintro (hend | ⟨j, hj, -⟩)
  · have hwork : m.hasWork = false := hend
    rw [h] at hwork
    cases hwork
  · omega

/-- The end after the first step. -/
theorem endsWithin_succ (m : Machine) (k : Nat) :
    m.EndsWithin (k + 1) ↔ (∃ f, m.step.1 = .error f) ∨ m.step.2.EndsWithin k := by
  constructor
  · rintro (hend | ⟨j, hj, f, hf⟩)
    · refine Or.inr (Or.inl ?_)
      rw [after_step]
      exact hend
    · cases j with
      | zero => exact Or.inl ⟨f, hf⟩
      | succ j =>
          refine Or.inr (Or.inr ⟨j, by omega, f, ?_⟩)
          rw [after_step]
          exact hf
  · rintro (⟨f, hf⟩ | hend | ⟨j, hj, f, hf⟩)
    · exact Or.inr ⟨0, by omega, f, hf⟩
    · rw [after_step] at hend
      exact Or.inl hend
    · rw [after_step] at hf
      exact Or.inr ⟨j + 1, by omega, f, hf⟩

theorem stepsLeft_le {m : Machine} {k : Nat} (h : m.EndsWithin k) : m.stepsLeft ≤ k :=
  iInf₂_le k h

theorem stepsLeft_of_not_hasWork {m : Machine} (h : m.hasWork = false) : m.stepsLeft = 0 := by
  have hend : m.EndsWithin 0 := Or.inl h
  exact nonpos_iff_eq_zero.mp (stepsLeft_le hend)

/-- A machine that fails in its next step has this one step left. -/
theorem stepsLeft_of_error {m : Machine} {f : Fault} (hwork : m.hasWork = true)
    (h : m.step.1 = .error f) : m.stepsLeft = 1 := by
  apply le_antisymm
  · exact stepsLeft_le ((endsWithin_succ m 0).mpr (Or.inl ⟨f, h⟩))
  · refine le_iInf₂ ?_
    intro k hk
    cases k with
    | zero => exact absurd hk (not_endsWithin_zero hwork)
    | succ k => exact_mod_cast Nat.le_add_left 1 k

/-- A step that succeeds is one of the steps left. -/
theorem stepsLeft_of_ok {m : Machine} {more : Bool} (hwork : m.hasWork = true)
    (h : m.step.1 = .ok more) : m.stepsLeft = 1 + m.step.2.stepsLeft := by
  have hsucc (k : Nat) : m.EndsWithin (k + 1) ↔ m.step.2.EndsWithin k := by
    rw [endsWithin_succ, h]
    simp
  -- The numbers of steps within which the two machines end are the same but for one.
  apply le_antisymm
  · show m.stepsLeft ≤ 1 + ⨅ (k : Nat) (_ : m.step.2.EndsWithin k), (k : ℕ∞)
    rw [ENat.add_iInf₂]
    refine le_iInf₂ ?_
    intro k hk
    have hle := stepsLeft_le ((hsucc k).mpr hk)
    rw [add_comm]
    exact_mod_cast hle
  · refine le_iInf₂ ?_
    intro k hk
    cases k with
    | zero => exact absurd hk (not_endsWithin_zero hwork)
    | succ k =>
        have hle := stepsLeft_le ((hsucc k).mp hk)
        calc
          1 + m.step.2.stepsLeft ≤ 1 + (k : ℕ∞) := by gcongr
          _ = ((k + 1 : Nat) : ℕ∞) := by
            rw [add_comm]
            rfl

end Machine

namespace Program

/-- A program that does nothing more: an error stopped it, or no work remains. -/
def Stopped (p : Program) : Prop :=
  p.halted = true ∨ p.machine.hasWork = false

/-- The number of steps until the program stops. -/
noncomputable def stepsLeft (p : Program) : ℕ∞ :=
  if p.halted then 0 else p.machine.stepsLeft

/-- The program after a number of steps of its machine, and with an error if the last one failed. -/
def stepped (p : Program) : Nat → Program
  | 0 => p
  | k + 1 =>
    { p with
      machine := p.machine.after (k + 1)
      error :=
        match (p.machine.after k).step.1 with
        | .ok _ => p.error
        | .error f => some (report p.source f (p.machine.after (k + 1)).state.line) }

/-! ### Single steps -/

/-- A program that has stopped without an error has no work left. -/
theorem Stopped.not_hasWork {p : Program} (h : p.Stopped) (herror : p.error = none) :
    p.machine.hasWork = false := by
  rcases h with hhalted | hwork
  · simp [halted, herror] at hhalted
  · exact hwork

/-- A program that has stopped does nothing. -/
theorem advance_of_stopped {p : Program} (h : p.Stopped) : p.advance = (.ok false, p) := by
  rcases advance_cases p with ⟨e, -, hadvance⟩ | ⟨herror, more, hmore, hadvance⟩ | ⟨herror, f, hf, -⟩
  · exact hadvance
  · rw [Machine.step_of_not_hasWork (h.not_hasWork herror)] at hmore hadvance
    cases hmore
    exact hadvance
  · rw [Machine.step_of_not_hasWork (h.not_hasWork herror)] at hf
    cases hf

theorem stepsLeft_of_stopped {p : Program} (h : p.Stopped) : p.stepsLeft = 0 := by
  unfold stepsLeft
  split
  · rfl
  · rename_i hhalted
    rcases h with h | h
    · exact absurd h hhalted
    · exact Machine.stepsLeft_of_not_hasWork h

theorem not_stopped_iff {p : Program} :
    ¬ p.Stopped ↔ p.error = none ∧ p.machine.hasWork = true := by
  simp [Stopped, halted]

/-- A call that does a step answers with its error, or says whether work remains. -/
theorem advance_of_not_stopped {p : Program} (h : ¬ p.Stopped) :
    p.advance.2 = p.stepped 1 ∧
      (p.advance.1 = .ok ((p.stepped 1).machine.hasWork) ∧ (p.stepped 1).error = none ∨
        ∃ e, p.advance.1 = .error e ∧ (p.stepped 1).error = some e) := by
  obtain ⟨herror, -⟩ := not_stopped_iff.mp h
  rcases advance_cases p with ⟨e, he, -⟩ | ⟨-, more, hmore, hadvance⟩ | ⟨-, f, hf, hadvance⟩
  · rw [herror] at he
    cases he
  -- The step succeeds: what is answered is what the machine after it says of itself.
  · have hone : p.stepped 1 = { p with machine := p.machine.step.2 } := by
      simp [stepped, Machine.after, hmore]
    rw [hadvance, hone]
    refine ⟨rfl, Or.inl ⟨?_, herror⟩⟩
    show Except.ok more = .ok p.machine.step.2.hasWork
    rw [Machine.hasWork_of_step hmore]
  · have hone : p.stepped 1 =
        { p with
          machine := p.machine.step.2
          error := some (report p.source f p.machine.step.2.state.line) } := by
      simp [stepped, Machine.after, hf]
    rw [hadvance, hone]
    exact ⟨rfl, Or.inr ⟨_, rfl, rfl⟩⟩

/-- A step of a program that has not stopped is one of the steps left. -/
theorem stepsLeft_of_not_stopped {p : Program} (h : ¬ p.Stopped) :
    p.stepsLeft = 1 + (p.stepped 1).stepsLeft := by
  obtain ⟨herror, hwork⟩ := not_stopped_iff.mp h
  cases hstep : p.machine.step.1 with
  | ok more =>
      have hone : (p.stepped 1).error = none := by
        simp [stepped, Machine.after, hstep, herror]
      rw [stepsLeft, stepsLeft]
      simp only [halted, herror, hone]
      exact Machine.stepsLeft_of_ok hwork hstep
  | error f =>
      have hone : (p.stepped 1).Stopped := by
        refine Or.inl ?_
        simp [halted, stepped, Machine.after, hstep]
      rw [stepsLeft_of_stopped hone, add_zero, stepsLeft]
      simp only [halted, herror]
      exact Machine.stepsLeft_of_error hwork hstep

/-- The first step can be split off from those that a program has left. -/
theorem stepped_succ {p : Program} (h : ¬ p.Stopped) {k : Nat} (hk : (k : ℕ∞) ≤ (p.stepped 1).stepsLeft) :
    p.stepped (k + 1) = (p.stepped 1).stepped k := by
  cases k with
  | zero => rfl
  | succ k =>
      obtain ⟨herror, hwork⟩ := not_stopped_iff.mp h
      cases hstep : p.machine.step.1 with
      | ok more =>
          have hone : p.stepped 1 = { p with machine := p.machine.step.2 } := by
            simp [stepped, Machine.after, hstep]
          rw [hone]
          simp only [stepped, Machine.after_step]
      -- A program that failed in its first step has no steps left, so there is no second one to split off.
      | error f =>
          have hone : (p.stepped 1).Stopped := by
            refine Or.inl ?_
            simp [halted, stepped, Machine.after, hstep]
          rw [stepsLeft_of_stopped hone] at hk
          simp at hk

/-! ### Budgets -/

/-- What a call does with its budget: it does the steps that the budget and those left allow, and it answers
with the error of the last one, or whether work remains. -/
structure Spends (p : Program) (budget : ℕ∞) (answer : Except Report Bool) (q : Program) : Prop where
  steps : ∃ n : Nat, (n : ℕ∞) = min budget p.stepsLeft ∧ q = p.stepped n
  more : answer = .ok true ↔ q.error = none ∧ q.machine.hasWork = true
  failed : ∀ e, answer = .error e ↔ p.error = none ∧ q.error = some e
  idle : p.Stopped → answer = .ok false ∧ q = p

/-- A program that has stopped spends nothing. -/
theorem spends_of_stopped {p : Program} (h : p.Stopped) (budget : ℕ∞) : p.Spends budget (.ok false) p where
  steps := ⟨0, by simp [stepsLeft_of_stopped h], rfl⟩
  more := by
    rw [← not_stopped_iff]
    simp [h]
  failed e := by
    constructor
    · intro he
      cases he
    · rintro ⟨hnone, hsome⟩
      rw [hnone] at hsome
      cases hsome
  idle _ := ⟨rfl, rfl⟩

/-- The budget that is left after a step is spent from there. -/
theorem Spends.after_step {p q : Program} {budget : ℕ∞} {answer : Except Report Bool} (h : ¬ p.Stopped)
    (hone : ¬ (p.stepped 1).Stopped) (hq : (p.stepped 1).Spends budget answer q) :
    p.Spends (1 + budget) answer q := by
  obtain ⟨herror, -⟩ := not_stopped_iff.mp h
  obtain ⟨hone', -⟩ := not_stopped_iff.mp hone
  refine ⟨?_, hq.more, ?_, fun hstop => absurd hstop h⟩
  · obtain ⟨n, hn, hsteps⟩ := hq.steps
    refine ⟨n + 1, ?_, ?_⟩
    -- One step is taken off the budget and off the steps left, and the minimum goes down with them.
    · rw [stepsLeft_of_not_stopped h, min_add_add_left, ← hn, add_comm]
      rfl
    · have hle : (n : ℕ∞) ≤ (p.stepped 1).stepsLeft := by
        rw [hn]
        exact min_le_right _ _
      rw [hsteps]
      exact (stepped_succ h hle).symm
  · intro e
    rw [hq.failed e, herror, hone']

/-- A step after which the program stops is all that is spent. -/
theorem spends_of_last_step {p : Program} (h : ¬ p.Stopped) (hone : (p.stepped 1).Stopped) (budget : ℕ∞)
    {answer : Except Report Bool}
    (hanswer : answer = .ok false ∧ (p.stepped 1).error = none ∨
      ∃ e, answer = .error e ∧ (p.stepped 1).error = some e) :
    p.Spends (1 + budget) answer (p.stepped 1) := by
  obtain ⟨herror, -⟩ := not_stopped_iff.mp h
  refine ⟨⟨1, ?_, rfl⟩, ?_, ?_, fun hstop => absurd hstop h⟩
  · rw [stepsLeft_of_not_stopped h, stepsLeft_of_stopped hone, min_add_add_left]
    simp
  · rw [← not_stopped_iff]
    rcases hanswer with ⟨rfl, -⟩ | ⟨e, rfl, -⟩ <;> simp [hone]
  · intro e
    rcases hanswer with ⟨rfl, hnone⟩ | ⟨e', rfl, hsome⟩
    · simp [hnone]
    · simp [herror, hsome]

/-- The next step ends a call, whatever is left of its budget, or the program goes on after it. -/
theorem advance_spends (p : Program) :
    (∃ answer q, p.advance = (answer, q) ∧ answer ≠ .ok true ∧
      ∀ budget, p.Spends (1 + budget) answer q) ∨
    (¬ p.Stopped ∧ ¬ (p.stepped 1).Stopped ∧ p.advance = (.ok true, p.stepped 1)) := by
  by_cases h : p.Stopped
  · exact Or.inl ⟨.ok false, p, advance_of_stopped h, by simp, fun _ => spends_of_stopped h _⟩
  obtain ⟨hsnd, ⟨hfst, herror⟩ | ⟨e, hfst, herror⟩⟩ := advance_of_not_stopped h
  -- The step succeeded: it was the last one, or there is work left.
  · cases hwork : (p.stepped 1).machine.hasWork with
    | false =>
        have hone : (p.stepped 1).Stopped := Or.inr hwork
        rw [hwork] at hfst
        refine Or.inl ⟨.ok false, p.stepped 1, Prod.ext hfst hsnd, by simp, ?_⟩
        intro budget
        exact spends_of_last_step h hone budget (Or.inl ⟨rfl, herror⟩)
    | true =>
        have hone : ¬ (p.stepped 1).Stopped := not_stopped_iff.mpr ⟨herror, hwork⟩
        rw [hwork] at hfst
        exact Or.inr ⟨h, hone, Prod.ext hfst hsnd⟩
  -- The step failed, which stops the program for good.
  · have hone : (p.stepped 1).Stopped := Or.inl (by simp [halted, herror])
    refine Or.inl ⟨.error e, p.stepped 1, Prod.ext hfst hsnd, by simp, ?_⟩
    intro budget
    exact spends_of_last_step h hone budget (Or.inr ⟨e, rfl, herror⟩)

/-! ### Calls -/

/-- A number of steps is spent as such. -/
theorem runSteps_spends (p : Program) (budget : Nat) :
    p.Spends budget (p.runSteps budget).1 (p.runSteps budget).2 := by
  induction budget generalizing p with
  | zero =>
      show p.Spends 0 (.ok (p.error.isNone && p.machine.hasWork)) p
      -- Without a budget nothing is done, and the answer says whether there is work.
      refine ⟨⟨0, by simp, rfl⟩, by simp, ?_, ?_⟩
      · intro e
        constructor
        · intro he
          cases he
        · rintro ⟨hnone, hsome⟩
          rw [hnone] at hsome
          cases hsome
      · intro hstop
        refine ⟨?_, rfl⟩
        rcases hstop with hhalted | hwork
        · obtain ⟨e, he⟩ := Option.isSome_iff_exists.mp hhalted
          simp [he]
        · simp [hwork]
  | succ budget ih =>
      have hbudget : ((budget + 1 : Nat) : ℕ∞) = 1 + budget := by
        rw [add_comm]
        rfl
      rw [hbudget, runSteps]
      -- The first step ends the call, or the rest of the budget is spent after it.
      rcases advance_spends p with ⟨answer, q, hadvance, hne, hspends⟩ | ⟨h, hone, hadvance⟩
      · rw [hadvance]
        match answer with
        | .ok true => exact absurd rfl hne
        | .ok false => exact hspends budget
        | .error e => exact hspends budget
      · rw [hadvance]
        exact Spends.after_step h hone (ih _)

/-- One step is a budget of one. -/
theorem advance_eq_runSteps (p : Program) : p.advance = p.runSteps 1 := by
  rw [runSteps]
  rcases advance_spends p with ⟨answer, q, hadvance, hne, -⟩ | ⟨-, hone, hadvance⟩
  · rw [hadvance]
    match answer with
    | .ok true => exact absurd rfl hne
    | .ok false => rfl
    | .error e => rfl
  · obtain ⟨herror, hwork⟩ := not_stopped_iff.mp hone
    rw [hadvance]
    simp [runSteps, herror, hwork]

/-- Running to the end has no bound. -/
theorem run?_spends {p q : Program} {fuel : Nat} {r : Except Report Unit} (h : p.run? fuel = some (r, q)) :
    p.Spends ⊤ (r.map fun _ => false) q := by
  induction fuel generalizing p with
  | zero => cases h
  | succ fuel ih =>
      -- A budget without end stays without end when a step is taken off it.
      have htop : (⊤ : ℕ∞) = 1 + ⊤ := rfl
      rw [run?] at h
      rw [htop]
      rcases advance_spends p with ⟨answer, q', hadvance, hne, hspends⟩ | ⟨hp, hone, hadvance⟩
      · rw [hadvance] at h
        match answer with
        | .ok true => exact absurd rfl hne
        | .ok false =>
            cases h
            exact hspends ⊤
        | .error e =>
            cases h
            exact hspends ⊤
      · rw [hadvance] at h
        exact Spends.after_step hp hone (ih h)

/-- A step that ends a call ends the run. -/
theorem run?_of_advance {p q : Program} {answer : Except Report Bool} (h : p.advance = (answer, q))
    (hne : answer ≠ .ok true) (fuel : Nat) :
    p.run? (fuel + 1) = some (answer.map fun _ => (), q) := by
  rw [run?, h]
  match answer with
  | .ok true => exact absurd rfl hne
  | .ok false => rfl
  | .error e => rfl

/-- A program that stops after some steps is run to its end. -/
theorem exists_run? {p : Program} {n : Nat} (h : p.stepsLeft = n) :
    ∃ r q, p.run? (n + 1) = some (r, q) := by
  induction n generalizing p with
  | zero =>
      rcases advance_spends p with ⟨answer, q, hadvance, hne, -⟩ | ⟨hp, -, -⟩
      · exact ⟨_, _, run?_of_advance hadvance hne 0⟩
      · rw [stepsLeft_of_not_stopped hp] at h
        simp at h
  | succ n ih =>
      rcases advance_spends p with ⟨answer, q, hadvance, hne, -⟩ | ⟨hp, -, hadvance⟩
      · exact ⟨_, _, run?_of_advance hadvance hne (n + 1)⟩
      · rw [stepsLeft_of_not_stopped hp, Nat.cast_add, Nat.cast_one, add_comm (n : ℕ∞)] at h
        -- The number of steps left is finite here, so the first one can be cancelled.
        have hrest : (p.stepped 1).stepsLeft = n :=
          ENat.add_right_injective_of_ne_top (by simp) h
        rw [run?, hadvance]
        exact ih hrest

/-! ### Steps after steps -/

/-- Where there are steps left, the first one is done. -/
theorem not_stopped_of_le {p : Program} {k : Nat} (h : ((k + 1 : Nat) : ℕ∞) ≤ p.stepsLeft) :
    ¬ p.Stopped ∧ (k : ℕ∞) ≤ (p.stepped 1).stepsLeft := by
  have hp : ¬ p.Stopped := by
    intro hstop
    rw [stepsLeft_of_stopped hstop] at h
    simp at h
  rw [stepsLeft_of_not_stopped hp, Nat.cast_add, Nat.cast_one, add_comm (k : ℕ∞)] at h
  exact ⟨hp, (ENat.add_le_add_iff_left (by simp)).mp h⟩

/-- The steps that are left after some of them. -/
theorem stepsLeft_stepped {p : Program} {k : Nat} (h : (k : ℕ∞) ≤ p.stepsLeft) :
    p.stepsLeft = k + (p.stepped k).stepsLeft := by
  induction k generalizing p with
  | zero => simp [stepped]
  | succ k ih =>
      obtain ⟨hp, hk⟩ := not_stopped_of_le h
      rw [stepsLeft_of_not_stopped hp, ih hk, stepped_succ hp hk, ← add_assoc, add_comm 1, Nat.cast_add,
        Nat.cast_one]

/-- Steps after steps are steps. -/
theorem stepped_add {p : Program} {k n : Nat} (h : ((k + n : Nat) : ℕ∞) ≤ p.stepsLeft) :
    p.stepped (k + n) = (p.stepped k).stepped n := by
  induction k generalizing p with
  | zero =>
      rw [Nat.zero_add]
      rfl
  | succ k ih =>
      rw [Nat.succ_add] at h ⊢
      obtain ⟨hp, hkn⟩ := not_stopped_of_le h
      have hk : (k : ℕ∞) ≤ (p.stepped 1).stepsLeft := by
        refine le_trans ?_ hkn
        exact_mod_cast Nat.le_add_right k n
      rw [stepped_succ hp hkn, ih hkn, stepped_succ hp hk]

end Program

/-- A call of a host. -/
inductive Call where
  | advance
  | runSteps (budget : Nat)
  | run
deriving DecidableEq, Repr

namespace Call

/-- The number of steps that a call may do. -/
def budget : Call → ℕ∞
  | advance => 1
  | runSteps b => b
  | run => ⊤

/-- A call returns an answer and leaves a program. Running to the end says no more than that it came there. -/
def Returns (p : Program) : Call → Except Report Bool → Program → Prop
  | advance, answer, q => p.advance = (answer, q)
  | runSteps b, answer, q => p.runSteps b = (answer, q)
  | run, answer, q => ∃ fuel r, p.run? fuel = some (r, q) ∧ answer = r.map fun _ => false

/-- Every call spends its budget. -/
theorem Returns.spends {p q : Program} {c : Call} {answer : Except Report Bool} (h : c.Returns p answer q) :
    p.Spends c.budget answer q := by
  cases c with
  | advance =>
      have hone := p.runSteps_spends 1
      rw [← p.advance_eq_runSteps, show p.advance = (answer, q) from h] at hone
      exact hone
  | runSteps b =>
      have hsteps := p.runSteps_spends b
      rw [show p.runSteps b = (answer, q) from h] at hsteps
      exact hsteps
  | run =>
      obtain ⟨fuel, r, hrun, rfl⟩ := h
      exact Program.run?_spends hrun

/-- Every call returns, except for a run of a program that does not stop. -/
theorem exists_returns_iff {p : Program} {c : Call} :
    (∃ answer q, c.Returns p answer q) ↔ (c = .run → p.stepsLeft ≠ ⊤) := by
  cases c with
  | advance =>
      refine iff_of_true ⟨p.advance.1, p.advance.2, rfl⟩ ?_
      intro h
      cases h
  | runSteps b =>
      refine iff_of_true ⟨(p.runSteps b).1, (p.runSteps b).2, rfl⟩ ?_
      intro h
      cases h
  | run =>
      constructor
      · rintro ⟨answer, q, h⟩ -
        -- A run that returns has taken a number of steps, and these are all that were left.
        obtain ⟨n, hn, -⟩ := h.spends.steps
        rw [show min (budget .run) p.stepsLeft = p.stepsLeft from top_inf_eq _] at hn
        rw [← hn]
        exact ENat.natCast_ne_top n
      · intro h
        obtain ⟨n, hn⟩ := ENat.ne_top_iff_exists.mp (h rfl)
        obtain ⟨r, q, hrun⟩ := Program.exists_run? hn.symm
        exact ⟨_, q, n + 1, r, hrun, rfl⟩

end Call

/-- Calls on a program one after another, with their answers. -/
inductive Session (p : Program) : List (Call × Except Report Bool) → Program → Prop where
  | nil : Session p [] p
  | call {log : List (Call × Except Report Bool)} {c : Call} {answer : Except Report Bool}
      {q r : Program} (h : Session p log q) (hcall : c.Returns q answer r) :
      Session p (log ++ [(c, answer)]) r

namespace Session

/-- The errors among the answers of calls. -/
def errors (log : List (Call × Except Report Bool)) : List Report :=
  log.filterMap fun entry =>
    match entry.2 with
    | .ok _ => none
    | .error e => some e

variable {p q : Program} {log : List (Call × Except Report Bool)}

/-- Only the sum of the budgets counts. -/
theorem exists_steps (h : Session p log q) :
    ∃ k : Nat, (k : ℕ∞) = min (log.map fun entry => entry.1.budget).sum p.stepsLeft ∧
      q = p.stepped k := by
  induction h with
  | nil => exact ⟨0, by simp, rfl⟩
  -- The calls before took the program to the state after `k` steps, and this one takes `n` more.
  | @call log c answer q r _ hcall ih =>
      obtain ⟨k, hk, rfl⟩ := ih
      obtain ⟨n, hn, rfl⟩ := hcall.spends.steps
      have hle : (k : ℕ∞) ≤ p.stepsLeft := by
        rw [hk]
        exact min_le_right _ _
      have hleft := Program.stepsLeft_stepped hle
      have htotal : ((k + n : Nat) : ℕ∞) =
          min ((log.map fun entry => entry.1.budget).sum + c.budget) p.stepsLeft := by
        rcases le_total (log.map fun entry => entry.1.budget).sum p.stepsLeft with hsum | hsum
        · -- The calls so far spent all their budgets, and this one goes on from there.
          rw [min_eq_left hsum] at hk
          rw [← hk, hleft, min_add_add_left, ← hn, Nat.cast_add]
        · -- The program has stopped, and this call does nothing.
          rw [min_eq_right hsum] at hk
          have hzero : (p.stepped k).stepsLeft = 0 := by
            rw [← hk] at hleft
            have hcancel : (k : ℕ∞) + (p.stepped k).stepsLeft = k + 0 := by
              rw [← hleft, add_zero]
            exact ENat.add_right_injective_of_ne_top (ENat.natCast_ne_top k) hcancel
          rw [hzero, min_zero] at hn
          rw [Nat.cast_add, hn, add_zero, hk]
          exact (min_eq_right (le_trans hsum le_self_add)).symm
      refine ⟨k + n, by simpa using htotal, ?_⟩
      refine (Program.stepped_add ?_).symm
      rw [htotal]
      exact min_le_right _ _

theorem errors_concat (log : List (Call × Except Report Bool)) (c : Call) (answer : Except Report Bool) :
    errors (log ++ [(c, answer)]) =
      errors log ++ (match answer with | .ok _ => [] | .error e => [e]) := by
  unfold errors
  rw [List.filterMap_append]
  cases answer with
  | ok b => rfl
  | error e => rfl

/-- The error that stops a program is answered once. -/
theorem errors_eq (h : Session p log q) :
    errors log = (if p.halted then [] else q.error.toList) ∧ (p.halted = true → q.halted = true) := by
  induction h with
  | nil =>
      refine ⟨?_, id⟩
      unfold Program.halted
      cases p.error <;> rfl
  | @call log c answer q r _ hcall ih =>
      obtain ⟨herrors, hhalted⟩ := ih
      have hspends := hcall.spends
      rw [errors_concat, herrors]
      cases hq : q.error with
      | some e =>
          have hstop : q.Stopped := Or.inl (by simp [Program.halted, hq])
          obtain ⟨rfl, rfl⟩ := hspends.idle hstop
          rw [List.append_nil, hq]
          exact ⟨rfl, hhalted⟩
      | none =>
          have hp : p.halted = false := by
            by_contra hp
            have hcontra := hhalted (by simpa using hp)
            simp [Program.halted, hq] at hcontra
          rw [hp]
          refine ⟨?_, fun h => nomatch h⟩
          cases answer with
          | error e =>
              rw [((hspends.failed e).mp rfl).2]
              rfl
          | ok b =>
              cases hr : r.error with
              | none => rfl
              | some e =>
                  -- An error that this call met would have been its answer.
                  have hanswer := (hspends.failed e).mpr ⟨hq, hr⟩
                  cases hanswer

end Session

/-- Calls can be cut up in any way: a sequence of them does as many steps as the sum of their budgets and the
steps that are left allow, and the error that stops the program is the answer of one call. Every further call
spends its budget, and returns unless it runs a program that does not stop. -/
theorem Program.calls_cut_up {p q : Program} {log : List (Call × Except Report Bool)}
    (h : Session p log q) :
    (∃ k : Nat, (k : ℕ∞) = min (log.map fun entry => entry.1.budget).sum p.stepsLeft ∧
      q = p.stepped k) ∧
    Session.errors log = (if p.halted then [] else q.error.toList) ∧
    ∀ c : Call,
      ((∃ answer r, c.Returns q answer r) ↔ (c = .run → q.stepsLeft ≠ ⊤)) ∧
      ∀ answer r, c.Returns q answer r → q.Spends c.budget answer r := by
  refine ⟨h.exists_steps, h.errors_eq.1, ?_⟩
  intro c
  exact ⟨Call.exists_returns_iff, fun _ _ hcall => hcall.spends⟩

/-- A budget that ends in front of the failing step, the failing step, and two calls after it. -/
theorem Program.calls_cut_up_at_error :
    let p := Program.ofBlock (.mk 0 [.mk 3 (.path false ["x"])]) {}
    let q := (p.runSteps 1).2.advance.2
    let e : Report := ⟨.runtime, "Invalid variable 'x'", some 3, none⟩
    let log : List (Call × Except Report Bool) :=
      [(.runSteps 1, .ok true), (.advance, .error e), (.run, .ok false), (.runSteps 5, .ok false)]
    Session p log q ∧
      (∃ k : Nat, (k : ℕ∞) = min (log.map fun entry => entry.1.budget).sum p.stepsLeft ∧
        q = p.stepped k) ∧
      Session.errors log = (if p.halted then [] else q.error.toList) ∧
      ∀ c : Call,
        ((∃ answer r, c.Returns q answer r) ↔ (c = .run → q.stepsLeft ≠ ⊤)) ∧
        ∀ answer r, c.Returns q answer r → q.Spends c.budget answer r := by
  intro p q e log
  have hsteps : (Call.runSteps 1).Returns p (.ok true) (p.runSteps 1).2 := rfl
  have hfailing : Call.advance.Returns (p.runSteps 1).2 (.error e) q := rfl
  have hrun : Call.run.Returns q (.ok false) q := ⟨1, .ok (), rfl, rfl⟩
  have hidle : (Call.runSteps 5).Returns q (.ok false) q := rfl
  have hsession : Session p log q := ((((Session.nil).call hsteps).call hfailing).call hrun).call hidle
  exact ⟨hsession, Program.calls_cut_up hsession⟩

end Stepwise
