import Stepwise.Machine

/-!
# `Stepwise.Proofs.Steps`: one step, frame by frame

The frame that works in a step is the topmost one that is not a value, so every proof about a step
begins by cutting the stack there. `exists_values_append` is that cut, `work_values_append` says what
the step does at it, and `step_cases` says what a step can be at all: an interrupt that is offered to the
top frame, nothing, or the work of one frame, which a catchable fault may turn into an exception.
-/

set_option autoImplicit false

namespace Stepwise

namespace Frame

/-- Whether a frame is a produced value. -/
def isValue : Frame → Bool
  | .value _ => true
  | _ => false

/-- The frames of values that were produced in this order; the last one is on top. -/
def values (vs : List Value) : List Frame :=
  vs.reverse.map Frame.value

@[simp] theorem values_nil : values [] = [] := rfl

@[simp] theorem values_singleton (v : Value) : values [v] = [.value v] := rfl

/-- The value that was produced last is on top. -/
theorem values_concat (vs : List Value) (v : Value) :
    values (vs ++ [v]) = .value v :: values vs := by
  simp [values]

/-- Frames of values are values. -/
theorem isValue_of_mem_values {vs : List Value} {f : Frame} (hf : f ∈ values vs) :
    f.isValue = true := by
  obtain ⟨v, -, rfl⟩ := List.mem_map.mp hf
  rfl

end Frame

namespace Machine

open Stepwise.Frame (values)

/-- Values come off the top from the last one to the first. -/
theorem takeValues_map_append (ws produced : List Value) (frames : List Frame) :
    takeValues produced (ws.map Frame.value ++ frames) =
      takeValues (ws.reverse ++ produced) frames := by
  induction ws generalizing produced with
  | nil => rfl
  | cons w ws ih =>
      rw [List.map_cons, List.cons_append, takeValues, ih, List.reverse_cons, List.append_assoc]
      rfl

/-- The values on top come off in the order in which they were produced. -/
theorem takeValues_values_append (vs produced : List Value) (frames : List Frame) :
    takeValues produced (values vs ++ frames) = takeValues (vs ++ produced) frames := by
  rw [values, takeValues_map_append, List.reverse_reverse]

/-- No more than the values on top comes off. -/
theorem takeValues_values_cons (vs : List Value) {f : Frame} (below : List Frame)
    (hf : f.isValue = false) : takeValues [] (values vs ++ f :: below) = (vs, f :: below) := by
  rw [takeValues_values_append, List.append_nil]
  cases f with
  | value v => cases hf
  | _ => rfl

/-- A stack is a stack of values, or it can be cut at its topmost frame that is none. -/
theorem exists_values_append (stack : List Frame) :
    (∃ vs, stack = values vs) ∨
      ∃ vs f below, f.isValue = false ∧ stack = values vs ++ f :: below := by
  induction stack with
  | nil => exact Or.inl ⟨[], rfl⟩
  | cons g stack ih =>
      cases hg : g.isValue with
      | false => exact Or.inr ⟨[], g, stack, hg, rfl⟩
      | true =>
          cases g with
          | value v =>
              -- Values are listed from the lowest, so one more on top is the last of them.
              rcases ih with ⟨vs, rfl⟩ | ⟨vs, f, below, hf, rfl⟩
              · exact Or.inl ⟨vs ++ [v], (Frame.values_concat vs v).symm⟩
              · refine Or.inr ⟨vs ++ [v], f, below, hf, ?_⟩
                rw [Frame.values_concat, List.cons_append]
          | _ => cases hg

/-- All values of a stack of values come off. -/
theorem takeValues_values (vs : List Value) : takeValues [] (values vs) = (vs, []) := by
  have h := takeValues_values_append vs [] []
  simpa [takeValues] using h

/-- The values that come off a stack were on top of it. -/
theorem eq_of_takeValues {stack : List Frame} {vs : List Value} {f : Frame} {below : List Frame}
    (h : takeValues [] stack = (vs, f :: below)) : stack = values vs ++ f :: below := by
  rcases exists_values_append stack with ⟨ws, rfl⟩ | ⟨ws, g, rest, hg, rfl⟩
  · rw [takeValues_values] at h
    cases h
  · rw [takeValues_values_cons ws rest hg] at h
    cases h
    rfl

/-- The work on a stack that is cut at its topmost frame that is no value. -/
theorem work_values_append (vs : List Value) (f : Frame) (below : List Frame) (st : State)
    (hf : f.isValue = false) :
    work ⟨values vs ++ f :: below, st⟩ =
      match f with
      | .value _ => (.error (.internal "no frame to advance"), ⟨values vs ++ f :: below, st⟩)
      | .request node demand => stepRequest node demand (values vs) below st
      | .finish demand => stepFinish demand vs (values vs ++ f :: below) below st
      | .operation op args line =>
        stepOperation op args line vs (values vs ++ f :: below) below st
      | .list items => stepList items vs (values vs ++ f :: below) below st
      | .block statements => stepBlock statements below st
      | .control line c => stepControl line c vs (values vs ++ f :: below) below st := by
  have htake := takeValues_values_cons vs below hf
  simp only [work, htake]
  cases f with
  | value v => cases hf
  | _ => rfl

/-- There is no work on a stack of values. -/
theorem work_values (vs : List Value) (st : State) :
    work ⟨values vs, st⟩ = (.error (.internal "no frame to advance"), ⟨values vs, st⟩) := by
  simp only [work, takeValues_values]

/-- The answer of a step does not change the machine. -/
theorem finishStep_snd (o : Outcome) : (finishStep o).2 = o.2 := by
  obtain ⟨r, m⟩ := o
  cases r with
  | ok u => rfl
  | error f => rfl

theorem eq_error_of_finishStep {o : Outcome} {f : Fault} (h : (finishStep o).1 = .error f) :
    ∃ m, o = (.error f, m) := by
  obtain ⟨r, m⟩ := o
  cases r with
  | ok u => cases h
  | error g =>
      cases h
      exact ⟨m, rfl⟩

/-- What a step can be: nothing, an offer of the interrupt under way, or the work of a frame. A catchable
fault of that work becomes an exception under a guard. -/
theorem step_cases (m : Machine) :
    (m.state.pending = none ∧ m.hasWork = false ∧ m.step = (.ok false, m)) ∨
    (∃ i, m.state.pending = some i ∧
      m.step = finishStep (dispatch i m.stack { m.state with pending := none })) ∨
    (m.state.pending = none ∧ m.hasWork = true ∧ m.step = finishStep m.work ∧
      ∀ cause m', m.work = (.error (.catchable cause), m') → m'.state.guards = 0) ∨
    (m.state.pending = none ∧ m.hasWork = true ∧ ∃ cause m',
      m.work = (.error (.catchable cause), m') ∧ 0 < m'.state.guards ∧
      m.step = finishStep (throwCatchable cause m')) := by
  obtain ⟨stack, st⟩ := m
  simp only [step]
  cases hp : st.pending with
  | some i => exact Or.inr (Or.inl ⟨i, rfl, rfl⟩)
  | none =>
      cases hw : hasWork ⟨stack, st⟩ with
      | false => exact Or.inl ⟨rfl, rfl, by simp⟩
      | true =>
          refine Or.inr (Or.inr ?_)
          simp only [if_true]
          split
          · rename_i cause m' hwork
            -- With no guard on the stack the fault is left as it is, so the work is what the step does.
            by_cases hg : 0 < m'.state.guards
            · exact Or.inr ⟨trivial, trivial, cause, m', hwork, hg, by rw [if_pos hg]⟩
            · refine Or.inl ⟨trivial, trivial, by rw [if_neg hg, hwork]; rfl, ?_⟩
              intro cause' m'' h
              rw [hwork] at h
              cases h
              omega
          · rename_i hno
            exact Or.inl ⟨trivial, trivial, rfl, fun cause m' h => absurd h (hno cause m')⟩

/-- A stack of two frames or more leaves work. -/
theorem hasWork_of_length {m : Machine} (h : 2 ≤ m.stack.length) : m.hasWork = true := by
  obtain ⟨stack, st⟩ := m
  simp only [Machine.hasWork]
  split
  · exact absurd h (by simp)
  · exact absurd h (by simp)
  · simp

/-- A machine without work does nothing. -/
theorem step_of_not_hasWork {m : Machine} (h : m.hasWork = false) : m.step = (.ok false, m) := by
  rcases step_cases m with ⟨-, -, hstep⟩ | ⟨i, hi, -⟩ | ⟨-, hwork, -⟩ | ⟨-, hwork, -⟩
  · exact hstep
  · simp [hasWork, hi] at h
  · rw [h] at hwork
    cases hwork
  · rw [h] at hwork
    cases hwork

/-- The machine after a number of steps, whatever they returned. -/
def after (m : Machine) : Nat → Machine
  | 0 => m
  | n + 1 => (m.after n).step.2

end Machine

end Stepwise
