import Stepwise.Proofs.Plans
import Stepwise.Proofs.Resuming
import Stepwise.Proofs.Running

/-!
# `Stepwise.Proofs.Refitting`: the limit and the sink

Two parts of the state are settings of the host: the limit of scopes and the sink. They are hardly ever looked
at. The limit is read where a call or an object literal is about to enter a scope (`Machine.Entering`), and the
sink is written where a `print` is applied (`Machine.printed?`). `State.refit` puts another limit and another
sink in the place of both, and it goes along with everything that a step is made of. So a step of the refitted
machine is the refitted step (`Machine.step_refit`), as long as the two limits do the same to a scope that comes
on top (`Scopes.Agrees`) and the two sinks to a text that is printed (`Sink.Respects`).
-/

set_option autoImplicit false

namespace Stepwise

/-- A map of sinks that agrees with what happens when a text is written. -/
def Sink.Respects (g : Sink → Sink) (s : Sink) (text : String) : Prop :=
  (g s).write text = Prod.map id g (s.write text)

/-- A map of limits that makes no difference to the next scope: it keeps the limit, or both limits leave room. -/
def Scopes.Agrees (f : Nat → Nat) (s : Scopes) : Prop :=
  f s.limit = s.limit ∨ s.depth < s.limit ∧ s.depth < f s.limit

theorem Scopes.Agrees.room {f : Nat → Nat} {s : Scopes} (h : s.Agrees f) (hroom : s.depth < s.limit) :
    s.depth < f s.limit := by
  rcases h with hsame | ⟨-, hroom'⟩
  · rwa [hsame]
  · exact hroom'

/-! ### The state -/

namespace State

/-- The state with maps applied to its limit of scopes and to its sink. -/
def refit (f : Nat → Nat) (g : Sink → Sink) (st : State) : State :=
  { st with scopes := { st.scopes with limit := f st.scopes.limit }, sink := g st.sink }

variable {f : Nat → Nat} {g : Sink → Sink} {st : State}

theorem raise_refit (exit : Exit) :
    (st.refit f g).raise exit = Prod.map id (refit f g) (st.raise exit) := by
  simp only [raise, refit]
  cases hpending : st.pending with
  | none => rfl
  | some i => simp [refit, hpending]

theorem perform_refit {e : Effect} (hprint : ∀ text, e = .print text → Sink.Respects g st.sink text) :
    (st.refit f g).perform e = Prod.map id (refit f g) (st.perform e) := by
  cases e with
  | yield p =>
      cases p with
      | value v => rfl
      | list items => rfl
  | refer container key => rfl
  | store r p =>
      unfold perform
      dsimp only [refit]
      split
      · rfl
      · cases p with
        | value v => rfl
        | list items => rfl
  | push r v => rfl
  | popItem r index =>
      unfold perform
      dsimp only [refit]
      split <;> rfl
  | popField r key =>
      unfold perform
      dsimp only [refit]
      split <;> rfl
  | print text =>
      -- The one effect that looks at the sink.
      have hwrite : (g st.sink).write text = Prod.map id g (st.sink.write text) := hprint text rfl
      simp only [perform, refit, hwrite]
      cases st.sink.write text with
      | mk accepted sink =>
          cases accepted with
          | true => rfl
          | false => rfl
  | leave exit =>
      unfold perform
      simp only [raise_refit]
      cases st.raise exit with
      | mk r st' =>
          cases r with
          | ok u => rfl
          | error fault => rfl
  | random => rfl
  | randomInt low high => rfl

/-- Only `print` writes to the sink, and what it writes is its argument as text, on a line of its own. -/
theorem print_of_plan {op : Op} {args : List Value} {text : String}
    (h : op.plan args st = .ok (.print text)) :
    ∃ v, op = .print ∧ args = [v] ∧ text = st.heap.displayAlone v ++ "\n" := by
  obtain rfl : op = .print := (op.plan_yields st args).of_eq_ok h
  match args with
  | [] => cases h
  | [v] =>
      cases h
      exact ⟨v, rfl, rfl, rfl⟩
  | [v, w] => cases h
  | [v, w, x] => cases h
  | v :: w :: x :: y :: rest => cases h

theorem apply_refit {op : Op} {args : List Value}
    (hprint : ∀ v, op = .print → args = [v] →
      Sink.Respects g st.sink (st.heap.displayAlone v ++ "\n")) :
    (st.refit f g).apply op args = Prod.map id (refit f g) (st.apply op args) := by
  have hplan : op.plan args (st.refit f g) = op.plan args st := rfl
  simp only [apply, hplan]
  cases heffect : op.plan args st with
  | error fault => rfl
  | ok e =>
      refine perform_refit ?_
      rintro text rfl
      obtain ⟨v, hop, hargs, rfl⟩ := print_of_plan heffect
      exact hprint v hop hargs

theorem resolve_refit (global : Bool) (path : List String) :
    (st.refit f g).resolve global path = Prod.map id (refit f g) (st.resolve global path) := by
  have hresolve : (st.refit f g).scopes.resolve (st.refit f g).heap global path =
      st.scopes.resolve st.heap global path := rfl
  simp only [resolve, hresolve]
  split <;> rfl

theorem produce_refit (node : Node) :
    (st.refit f g).produce node = Prod.map id (refit f g) (st.produce node) := by
  simp only [produce, produce.construct]
  cases node.form with
  | path global names =>
      simp only [resolve_refit]
      cases st.resolve global names with
      | mk r st' =>
          cases r with
          | ok v => rfl
          | error fault => rfl
  | list items =>
      cases items with
      | nil => rfl
      | cons item rest => rfl
  | _ => rfl

end State

/-! ### Constructs -/

/-- A construct that went on, with maps applied to its state. -/
def Resumed.refit (f : Nat → Nat) (g : Sink → Sink) (r : Resumed) : Resumed :=
  { r with state := r.state.refit f g }

namespace Control

variable {f : Nat → Nat} {g : Sink → Sink} {st : State}

/-- A construct goes on in the same way, unless it is about to enter a scope for which only one of the limits
leaves room. What it looks at but for that is in memory. -/
theorem Resumes.refit {incoming : Option Value} {c : Control} {r : Resumed} (h : Resumes incoming st c r)
    (hagrees : c.Enters st.heap incoming → st.scopes.Agrees f) :
    Resumes incoming (st.refit f g) c (r.refit f g) := by
  cases h with
  | impeded h => exact .impeded h
  | asks h => exact .asks h
  | starts h => exact .starts h
  | settles h => exact .settles h
  | element hleft hwritable => exact .element hleft hwritable
  | refused henters hfull =>
      -- A scope is refused by both limits if they are one, and by neither if both leave room.
      rcases hagrees henters with hsame | ⟨hroom, -⟩
      · show Resumes incoming (st.refit f g) c
          ⟨c.afterFault, (st.refit f g).refused, .error (.recursionLimit st.scopes.limit)⟩
        rw [← hsame] at hfull ⊢
        exact .refused henters hfull
      · exact absurd hroom (Nat.not_lt.mpr hfull)
  | called hin hsize hroom => exact .called hin hsize ((hagrees ⟨_, hin, hsize⟩).room hroom)
  | opened hroom => exact .opened ((hagrees trivial).room hroom)
  | returned => exact .returned
  | closed => exact .closed
  | guarded => exact .guarded
  | unguarded => exact .unguarded

theorem resume_refit {incoming : Option Value} {c : Control}
    (hagrees : c.Enters st.heap incoming → st.scopes.Agrees f) :
    c.resume incoming (st.refit f g) = (c.resume incoming st).refit f g :=
  resume_eq_iff.mpr ((c.resumes incoming st).refit hagrees)

/-- An answer, with maps applied to its state. -/
def Answer.refit (f : Nat → Nat) (g : Sink → Sink) : Answer → Answer
  | .handled c st => .handled c (st.refit f g)
  | answer => answer

theorem answer_refit (c : Control) (i : Interrupt) :
    c.answer i (st.refit f g) = (c.answer i st).refit f g := by
  simp only [answer]
  split <;> rfl

theorem discard_refit (c : Control) : c.discard (st.refit f g) = (c.discard st).refit f g := by
  simp only [discard]
  split <;> rfl

end Control

/-! ### Steps -/

namespace Machine

open Stepwise.Frame (values)

/-- The machine with maps applied to its limit of scopes and to its sink. -/
def refit (f : Nat → Nat) (g : Sink → Sink) (m : Machine) : Machine :=
  ⟨m.stack, m.state.refit f g⟩

/-- The frame that works in the next step is about to enter a scope. -/
def Entering (m : Machine) : Prop :=
  m.state.pending = none ∧ ∃ incoming line c below,
    m.stack = values incoming.toList ++ .control line c :: below ∧ c.Enters m.state.heap incoming

/-- What the next step prints: a value as text, on a line of its own. -/
def printed? (m : Machine) : Option String :=
  match m.state.pending, m.stack with
  | none, .value v :: .operation .print _ _ :: _ => some (m.state.heap.displayAlone v ++ "\n")
  | _, _ => none

theorem printed?_eq_some {m : Machine} {text : String} (h : m.printed? = some text) :
    m.state.pending = none ∧ ∃ v args line below,
      m.stack = values [v] ++ .operation .print args line :: below ∧
        text = m.state.heap.displayAlone v ++ "\n" := by
  simp only [printed?] at h
  split at h
  · rename_i v args line below hpending hstack
    cases h
    exact ⟨hpending, v, args, line, below, hstack, rfl⟩
  · cases h

theorem printed?_values_append {st : State} (hpending : st.pending = none) (v : Value) (args : List Node)
    (line : Nat) (below : List Frame) :
    printed? ⟨values [v] ++ .operation .print args line :: below, st⟩ =
      some (st.heap.displayAlone v ++ "\n") := by
  show (match st.pending, Frame.value v :: .operation .print args line :: below with
    | none, .value v :: .operation .print _ _ :: _ => some (st.heap.displayAlone v ++ "\n")
    | _, _ => none) = _
  rw [hpending]

section Work

variable {f : Nat → Nat} {g : Sink → Sink} {st : State} {vs : List Value} {stack below : List Frame}

theorem stepRequest_refit (node : Node) (demand : Demand) (above : List Frame) :
    stepRequest node demand above below (st.refit f g) =
      Prod.map id (refit f g) (stepRequest node demand above below st) := by
  have hline : { st.refit f g with line := node.line } =
      ({ st with line := node.line } : State).refit f g := rfl
  simp only [stepRequest, hline, State.produce_refit]
  cases ({ st with line := node.line } : State).produce node with
  | mk r st' =>
      cases r with
      | error fault => rfl
      | ok produced =>
          cases produced with
          | frame frame => rfl
          | value v =>
              -- A demand is met by the heap alone, and that is the same.
              have hfinal : (st'.refit f g).heap.finalize demand v = st'.heap.finalize demand v := rfl
              simp only [Prod.map, id_eq, hfinal]
              cases st'.heap.finalize demand v with
              | error fault => rfl
              | ok w => rfl

theorem stepFinish_refit (demand : Demand) :
    stepFinish demand vs stack below (st.refit f g) =
      Prod.map id (refit f g) (stepFinish demand vs stack below st) := by
  simp only [stepFinish]
  split
  · rename_i v
    have hfinal : (st.refit f g).heap.finalize demand v = st.heap.finalize demand v := rfl
    rw [hfinal]
    cases st.heap.finalize demand v with
    | error fault => rfl
    | ok w => rfl
  · rfl

theorem stepOperation_refit {op : Op} {args : List Node} {line : Nat}
    (hprint : ∀ v, op = .print → vs = [v] →
      Sink.Respects g st.sink (st.heap.displayAlone v ++ "\n")) :
    stepOperation op args line vs stack below (st.refit f g) =
      Prod.map id (refit f g) (stepOperation op args line vs stack below st) := by
  -- Only a print looks at the sink, so it alone needs a sink that answers as before.
  have happly : { st.refit f g with line := line }.apply op vs =
      Prod.map id (State.refit f g) ({ st with line := line }.apply op vs) := by
    show (State.refit f g { st with line := line }).apply op vs = _
    exact State.apply_refit hprint
  simp only [stepOperation, happly]
  split
  · split <;> rfl
  · split
    · cases ({ st with line := line } : State).apply op vs with
      | mk r st' =>
          cases r with
          | ok v => rfl
          | error fault => rfl
    · rfl

theorem stepList_refit (items : List Node) :
    stepList items vs stack below (st.refit f g) =
      Prod.map id (refit f g) (stepList items vs stack below st) := by
  simp only [stepList]
  split
  · rfl
  · split <;> rfl

theorem stepBlock_refit (statements : List Node) :
    stepBlock statements below (st.refit f g) =
      Prod.map id (refit f g) (stepBlock statements below st) := by
  cases statements with
  | nil => rfl
  | cons s rest => rfl

theorem resumedOutcome_refit (line : Nat) (r : Resumed) :
    resumedOutcome line below (r.refit f g) = Prod.map id (refit f g) (resumedOutcome line below r) := by
  obtain ⟨c, st, move⟩ := r
  cases move with
  | error fault => rfl
  | ok move => cases move <;> rfl

theorem stepControl_refit {line : Nat} {c : Control}
    (hagrees : ∀ incoming, vs = incoming.toList → c.Enters st.heap incoming → st.scopes.Agrees f) :
    stepControl line c vs stack below (st.refit f g) =
      Prod.map id (refit f g) (stepControl line c vs stack below st) := by
  -- A construct takes one value at most.
  have hresumed (incoming : Option Value) (hvs : vs = incoming.toList) :
      resumedOutcome line below (c.resume incoming ((st.atLine line).refit f g)) =
        Prod.map id (refit f g) (resumedOutcome line below (c.resume incoming (st.atLine line))) := by
    have hresume : c.resume incoming ((st.atLine line).refit f g) =
        (c.resume incoming (st.atLine line)).refit f g := Control.resume_refit (hagrees incoming hvs)
    rw [hresume, resumedOutcome_refit]
  match vs, hresumed with
  | [], hresumed => exact hresumed none rfl
  | [v], hresumed => exact hresumed (some v) rfl
  | v :: w :: rest, _ => rfl

end Work

section Steps

variable {f : Nat → Nat} {g : Sink → Sink} {m : Machine}

/-- What a frame does is the same, but for a scope that it enters and a text that it prints. -/
theorem work_refit (hpending : m.state.pending = none) (hagrees : m.Entering → m.state.scopes.Agrees f)
    (hprint : ∀ text, m.printed? = some text → Sink.Respects g m.state.sink text) :
    (m.refit f g).work = Prod.map id (refit f g) m.work := by
  obtain ⟨stack, st⟩ := m
  show work ⟨stack, st.refit f g⟩ = Prod.map id (refit f g) (work ⟨stack, st⟩)
  rcases exists_values_append stack with ⟨vs, rfl⟩ | ⟨vs, frame, below, hframe, rfl⟩
  · rw [work_values, work_values]
    rfl
  · rw [work_values_append vs frame below st hframe, work_values_append vs frame below (st.refit f g) hframe]
    cases frame with
    | value v => cases hframe
    | request node demand => exact stepRequest_refit node demand (values vs)
    | finish demand => exact stepFinish_refit demand
    | operation op args line =>
        refine stepOperation_refit ?_
        rintro v rfl rfl
        exact hprint _ (printed?_values_append hpending v args line below)
    | list items => exact stepList_refit items
    | block statements => exact stepBlock_refit statements
    | control line c =>
        refine stepControl_refit ?_
        rintro incoming rfl henters
        exact hagrees ⟨hpending, incoming, line, c, below, rfl, henters⟩

theorem unwind_refit (i : Interrupt) (below : List Frame) (st : State) :
    unwind i below (st.refit f g) = Prod.map id (refit f g) (unwind i below st) := by
  cases below with
  | nil => rfl
  | cons frame rest => rfl

theorem dispatch_refit (i : Interrupt) (stack : List Frame) (st : State) :
    dispatch i stack (st.refit f g) = Prod.map id (refit f g) (dispatch i stack st) := by
  cases stack with
  | nil => rfl
  | cons frame below =>
      cases frame with
      | control line c =>
          simp only [dispatch, Control.answer_refit, Control.discard_refit]
          cases c.answer i st with
          | passed => exact unwind_refit i below (c.discard st)
          | handled c' st' => rfl
          | rejected fault => rfl
      | _ => exact unwind_refit i below st

theorem throwCatchable_refit (cause : Catchable) :
    throwCatchable cause (m.refit f g) = Prod.map id (refit f g) (throwCatchable cause m) := by
  have hpayload : (m.refit f g).state.exceptionPayload cause =
      Prod.map id (State.refit f g) (m.state.exceptionPayload cause) := rfl
  simp only [throwCatchable, hpayload, Prod.map, State.raise_refit, id_eq]
  rfl

theorem finishStep_refit (o : Outcome) :
    finishStep (Prod.map id (refit f g) o) = Prod.map id (refit f g) (finishStep o) := by
  obtain ⟨r, m⟩ := o
  cases r with
  | ok u => rfl
  | error fault => rfl

/-- A step is the same under other limits and with other sinks, if the limits agree on the scope that it enters
and the sinks on the text that it prints. -/
theorem step_refit (hagrees : m.Entering → m.state.scopes.Agrees f)
    (hprint : ∀ text, m.printed? = some text → Sink.Respects g m.state.sink text) :
    (m.refit f g).step = Prod.map id (refit f g) m.step := by
  obtain ⟨stack, st⟩ := m
  have hp' : (st.refit f g).pending = st.pending := rfl
  have hw' : hasWork ⟨stack, st.refit f g⟩ = hasWork ⟨stack, st⟩ := rfl
  simp only [step, refit, hp', hw']
  cases hp : st.pending with
  | some i =>
      show finishStep (dispatch i stack (State.refit f g { st with pending := none })) = _
      rw [dispatch_refit, finishStep_refit]
  | none =>
      dsimp only
      cases hasWork ⟨stack, st⟩ with
      | false => rfl
      | true =>
          have hsame : work ⟨stack, st.refit f g⟩ = Prod.map id (refit f g) (work ⟨stack, st⟩) :=
            work_refit (m := ⟨stack, st⟩) hp hagrees hprint
          rw [if_pos rfl, if_pos rfl, hsame]
          cases work ⟨stack, st⟩ with
          | mk r m' =>
              cases r with
              | ok u => rfl
              | error fault =>
                  cases fault with
                  | catchable cause =>
                      -- Whether the fault becomes an exception depends on the guards only.
                      show (if 0 < m'.state.guards then
                          finishStep (throwCatchable cause (m'.refit f g)) else _) =
                        Prod.map id (refit f g)
                          (if 0 < m'.state.guards then finishStep (throwCatchable cause m') else _)
                      rw [throwCatchable_refit, finishStep_refit]
                      split <;> rfl
                  | _ => rfl

end Steps

end Machine

end Stepwise
