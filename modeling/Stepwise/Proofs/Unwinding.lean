import Stepwise.Proofs.Ownership

/-!
# `Stepwise.Proofs.Unwinding`: how an interrupt goes down the stack

While an interrupt is under way each step offers it to the top frame. `Frame.takes` and `Frame.refuses`
say which frames answer an exit, and `Frame.taken` is a frame after it took one; all other frames let it
pass and are removed. `dispatch_of_passes`, `dispatch_of_takes` and `dispatch_of_refuses` say what one
offer does, and `after_of_passes` follows the interrupt through any number of frames that let it pass:
what they held is released and nothing else changes.

`interrupt_unwinds` puts the run together with the invariant of `Stepwise.Proofs.Ownership`, which says
that the released scopes and guards are those of the removed frames, and which scope the body of a `try`
began in.
-/

set_option autoImplicit false

namespace Stepwise

namespace Frame

/-- Whether a frame takes an exit: a loop takes a break or a continue, a call or an object literal takes a
return in its body, and a `try` takes an exception in its body. -/
def takes : Frame → Exit → Bool
  | .control _ (.whileDo _ _ _ _), .broke => true
  | .control _ (.whileDo _ _ _ _), .continued => true
  | .control _ (.forEach _ _ _ _ _), .broke => true
  | .control _ (.forEach _ _ _ _ _), .continued => true
  | .control _ (.call (.body _) _ _), .returned _ => true
  | .control _ (.object (.body _) _), .returned _ => true
  | .control _ (.tryCatch .body _ _ _), .thrown _ => true
  | _, _ => false

/-- Whether a frame does not allow an exit: a break or a continue may not leave the body of a call or of
an object literal. -/
def refuses : Frame → Exit → Bool
  | .control _ (.call (.body _) _ _), .broke => true
  | .control _ (.call (.body _) _ _), .continued => true
  | .control _ (.object (.body _) _), .broke => true
  | .control _ (.object (.body _) _), .continued => true
  | _, _ => false

/-- A frame lets an exit pass if it does not answer it. -/
def Passes (exit : Exit) (f : Frame) : Prop :=
  f.takes exit = false ∧ f.refuses exit = false

/-- A frame after it took an exit. -/
def taken : Frame → Exit → Frame
  | .control line (.whileDo _ ran cond body), .broke => .control line (.whileDo .broken ran cond body)
  | .control line (.whileDo _ ran cond body), .continued =>
    .control line (.whileDo .check ran cond body)
  | .control line (.forEach _ ran target source body), .broke =>
    .control line (.forEach .broken ran target source body)
  | .control line (.forEach .target ran target source body), .continued =>
    .control line (.forEach .start ran target source body)
  | .control line (.forEach (.source _) ran target source body), .continued =>
    .control line (.forEach .start ran target source body)
  | .control line (.call (.body _) callee args), .returned v =>
    .control line (.call (.body (some v)) callee args)
  | .control line (.tryCatch .body body name handler), .thrown _ =>
    .control line (.tryCatch .caught body name handler)
  | f, _ => f

end Frame

namespace State

/-- The state when the frames on top are gone, with what they held. -/
def release (frames : List Frame) (st : State) : State :=
  { st with
    scopes :=
      { st.scopes with inner := st.scopes.inner.drop (frames.countP Frame.ownsScope) }
    guards := st.guards - frames.countP Frame.ownsGuard }

/-- Frames are released one after the other. -/
theorem release_append (frames more : List Frame) (st : State) :
    st.release (frames ++ more) = (st.release frames).release more := by
  simp only [release, List.countP_append, List.drop_drop, Nat.sub_add_eq]

/-- Removing a construct releases what it holds. -/
theorem discard_eq_release (line : Nat) (c : Control) (st : State) :
    c.discard st = st.release [.control line c] := by
  cases c with
  -- Only in their bodies calls and objects hold a scope, and a `try` a guard.
  | call phase callee args =>
      cases phase with
      | body returned =>
          simp [Control.discard, release, popScope, Scopes.pop, Frame.ownsScope, Frame.ownsGuard,
            Frame.holding, Control.holding]
      | _ => rfl
  | object phase body =>
      cases phase with
      | body scope =>
          simp [Control.discard, release, popScope, Scopes.pop, Frame.ownsScope, Frame.ownsGuard,
            Frame.holding, Control.holding]
      | start => rfl
  | tryCatch phase body name handler =>
      cases phase with
      | body => rfl
      | _ => rfl
  | _ => rfl

end State

namespace Machine

/-! ### One offer -/

/-- The state in which a frame takes an exit: a `try` gives up its guard and binds the thrown value. -/
def stateAfter (st : State) : Frame → Exit → State
  | .control _ (.tryCatch .body _ name _), .thrown v =>
    { st with guards := st.guards - 1, heap := st.heap.objectSet st.scopes.current name v }
  | _, _ => st

/-- What a construct answers: it takes the exit, refuses it, or lets it pass. -/
theorem answer_cases (line : Nat) (c : Control) (i : Interrupt) (st : State) :
    (Frame.takes (.control line c) i.exit = true ∧
      ∃ c', Frame.taken (.control line c) i.exit = .control line c' ∧
        c.answer i st = .handled c' (stateAfter st (.control line c) i.exit)) ∨
    (Frame.refuses (.control line c) i.exit = true ∧
      c.answer i st = .rejected (.invalidInterrupt i.signal)) ∨
    (Frame.Passes i.exit (.control line c) ∧ c.answer i st = .passed) := by
  obtain ⟨exit, raised⟩ := i
  cases c with
  -- The branches have no answer of their own, whatever the exit is.
  | ifThen phase cond body => cases exit <;> exact Or.inr (Or.inr ⟨⟨rfl, rfl⟩, rfl⟩)
  | shortCircuit stop phase left right =>
      cases exit <;> exact Or.inr (Or.inr ⟨⟨rfl, rfl⟩, rfl⟩)
  -- Loops take what is meant for loops, in any phase.
  | whileDo phase ran cond body =>
      cases exit with
      | broke => exact Or.inl ⟨rfl, _, rfl, rfl⟩
      | continued => exact Or.inl ⟨rfl, _, rfl, rfl⟩
      | _ => exact Or.inr (Or.inr ⟨⟨rfl, rfl⟩, rfl⟩)
  | forEach phase ran target source body =>
      cases exit with
      | broke => exact Or.inl ⟨rfl, _, rfl, rfl⟩
      | continued => cases phase <;> exact Or.inl ⟨rfl, _, rfl, rfl⟩
      | _ => exact Or.inr (Or.inr ⟨⟨rfl, rfl⟩, rfl⟩)
  -- Calls and objects answer only while their bodies run, and refuse what is meant for a loop outside of
  -- them.
  | call phase callee args =>
      cases phase with
      | body returned =>
          cases exit with
          | returned v => exact Or.inl ⟨rfl, _, rfl, rfl⟩
          | thrown v => exact Or.inr (Or.inr ⟨⟨rfl, rfl⟩, rfl⟩)
          | _ => exact Or.inr (Or.inl ⟨rfl, rfl⟩)
      | _ => cases exit <;> exact Or.inr (Or.inr ⟨⟨rfl, rfl⟩, rfl⟩)
  | object phase body =>
      cases phase with
      | body scope =>
          cases exit with
          | returned v => exact Or.inl ⟨rfl, _, rfl, rfl⟩
          | thrown v => exact Or.inr (Or.inr ⟨⟨rfl, rfl⟩, rfl⟩)
          | _ => exact Or.inr (Or.inl ⟨rfl, rfl⟩)
      | start => cases exit <;> exact Or.inr (Or.inr ⟨⟨rfl, rfl⟩, rfl⟩)
  -- A handler under way does not catch what it throws itself.
  | tryCatch phase body name handler =>
      cases phase with
      | body =>
          cases exit with
          | thrown v => exact Or.inl ⟨rfl, _, rfl, rfl⟩
          | _ => exact Or.inr (Or.inr ⟨⟨rfl, rfl⟩, rfl⟩)
      | _ => cases exit <;> exact Or.inr (Or.inr ⟨⟨rfl, rfl⟩, rfl⟩)

/-- A frame that takes an exit does not refuse it. -/
theorem not_refuses_of_takes {f : Frame} {exit : Exit} (h : f.takes exit = true) :
    f.refuses exit = false := by
  simp only [Frame.takes] at h
  split at h
  all_goals first | rfl | cases h

/-- A frame that lets an interrupt pass goes, with what it holds. -/
theorem dispatch_of_passes {i : Interrupt} {f : Frame} (below : List Frame) (st : State)
    (hf : f.Passes i.exit) : dispatch i (f :: below) st = unwind i below (st.release [f]) := by
  cases f with
  | control line c =>
      rcases answer_cases line c i st with ⟨htakes, -⟩ | ⟨hrefuses, -⟩ | ⟨-, hanswer⟩
      · rw [hf.1] at htakes
        cases htakes
      · rw [hf.2] at hrefuses
        cases hrefuses
      · simp only [dispatch, hanswer, State.discard_eq_release line]
  | _ => rfl

/-- A frame that takes an interrupt stays, and the interrupt is over. -/
theorem dispatch_of_takes {i : Interrupt} {f : Frame} (below : List Frame) (st : State)
    (hf : f.takes i.exit = true) :
    dispatch i (f :: below) st = (.ok (), ⟨f.taken i.exit :: below, stateAfter st f i.exit⟩) := by
  cases f with
  | control line c =>
      rcases answer_cases line c i st with ⟨-, c', htaken, hanswer⟩ | ⟨hrefuses, -⟩ | ⟨hpasses, -⟩
      · simp only [dispatch, hanswer, htaken]
      · rw [not_refuses_of_takes hf] at hrefuses
        cases hrefuses
      · rw [hpasses.1] at hf
        cases hf
  | _ => cases hf

/-- A frame that refuses an interrupt stays, and the step fails. -/
theorem dispatch_of_refuses {i : Interrupt} {f : Frame} (below : List Frame) (st : State)
    (hf : f.refuses i.exit = true) :
    dispatch i (f :: below) st = (.error (.invalidInterrupt i.signal), ⟨f :: below, st⟩) := by
  cases f with
  | control line c =>
      rcases answer_cases line c i st with ⟨htakes, -⟩ | ⟨-, hanswer⟩ | ⟨hpasses, -⟩
      · rw [not_refuses_of_takes htakes] at hf
        cases hf
      · simp only [dispatch, hanswer]
      · rw [hpasses.2] at hf
        cases hf
  | _ => cases hf

/-! ### The way down -/

/-- A step with an interrupt under way offers it to the top frame. -/
theorem step_of_pending {i : Interrupt} {stack : List Frame} {st : State}
    (hp : st.pending = some i) :
    step ⟨stack, st⟩ = finishStep (dispatch i stack { st with pending := none }) := by
  simp only [step, hp]

/-- A step in which the top frame lets an interrupt pass, with more frames below it. -/
theorem step_of_passes {i : Interrupt} {f : Frame} {rest : List Frame} {st : State}
    (hp : st.pending = some i) (hrest : rest ≠ []) (hf : f.Passes i.exit) :
    step ⟨f :: rest, st⟩ = (.ok true, ⟨rest, st.release [f]⟩) := by
  rw [step_of_pending hp, dispatch_of_passes rest _ hf]
  cases rest with
  | nil => exact absurd rfl hrest
  | cons g rest =>
      simp only [unwind, finishStep, hasWork, State.release, hp, Option.isSome_some, Bool.true_or]

/-- Steps in which frames let an interrupt pass: they go one by one, with what they hold. -/
theorem after_of_passes {m : Machine} {i : Interrupt} {passed rest : List Frame}
    (hp : m.state.pending = some i) (hstack : m.stack = passed ++ rest) (hrest : rest ≠ [])
    (hpass : ∀ f ∈ passed, f.Passes i.exit) (k : Nat) (hk : k ≤ passed.length) :
    m.after k = ⟨passed.drop k ++ rest, m.state.release (passed.take k)⟩ ∧
      (k < passed.length → (m.after k).step.1 = .ok true) := by
  -- A machine that still has a frame to remove removes it in its next step.
  have hnext (k : Nat) (hlt : k < passed.length) :
      step ⟨passed.drop k ++ rest, m.state.release (passed.take k)⟩
        = (.ok true, ⟨passed.drop (k + 1) ++ rest, m.state.release (passed.take (k + 1))⟩) := by
    rw [List.drop_eq_getElem_cons hlt, List.cons_append,
      step_of_passes (show (m.state.release (passed.take k)).pending = some i from hp)
        (by simp [hrest]) (hpass _ (List.getElem_mem hlt)),
      List.take_add_one, List.getElem?_eq_getElem hlt, Option.toList_some, State.release_append]
  have hafter : m.after k = ⟨passed.drop k ++ rest, m.state.release (passed.take k)⟩ := by
    induction k with
    | zero =>
        show m = ⟨passed ++ rest, m.state⟩
        rw [← hstack]
    | succ k ih =>
        show (m.after k).step.2 = _
        rw [ih (by omega), hnext k (by omega)]
  refine ⟨hafter, fun hlt => ?_⟩
  rw [hafter, hnext k hlt]

/-- When all frames above one have let an interrupt pass, that frame is on top. -/
theorem after_passed {m : Machine} {i : Interrupt} {passed : List Frame} {f : Frame}
    {below : List Frame} (hp : m.state.pending = some i) (hstack : m.stack = passed ++ f :: below)
    (hpass : ∀ g ∈ passed, g.Passes i.exit) :
    m.after passed.length = ⟨f :: below, m.state.release passed⟩ := by
  have h := (after_of_passes hp hstack (by simp) hpass passed.length (Nat.le_refl _)).1
  rwa [List.drop_length, List.take_length, List.nil_append] at h

/-- A frame that takes an exit is a construct before and after. -/
theorem taken_of_takes {f : Frame} {exit : Exit} (h : f.takes exit = true) :
    ∃ line c, f.taken exit = .control line c := by
  cases f with
  | control line c =>
      rcases answer_cases line c ⟨exit, 0⟩ default with ⟨-, c', hc', -⟩ | ⟨hrefuses, -⟩ | ⟨hpass, -⟩
      · exact ⟨line, c', hc'⟩
      · rw [not_refuses_of_takes h] at hrefuses
        cases hrefuses
      · rw [hpass.1] at h
        cases h
  | _ => cases h

/-- The frames above the one that takes an interrupt go, each in one step; then that frame takes it. -/
theorem after_of_takes {m : Machine} {i : Interrupt} {passed : List Frame} {f : Frame}
    {below : List Frame} (hp : m.state.pending = some i) (hstack : m.stack = passed ++ f :: below)
    (hpass : ∀ g ∈ passed, g.Passes i.exit) (hf : f.takes i.exit = true) :
    (m.after passed.length).step = (.ok true, ⟨f.taken i.exit :: below,
      stateAfter { m.state.release passed with pending := none } f i.exit⟩) := by
  obtain ⟨line, c, htaken⟩ := taken_of_takes hf
  have hreleased : (m.state.release passed).pending = some i := hp
  rw [after_passed hp hstack hpass, step_of_pending hreleased, dispatch_of_takes below _ hf, htaken]
  simp [finishStep, hasWork]

/-- The frames above the one that refuses an interrupt go, each in one step; then the step fails. -/
theorem after_of_refuses {m : Machine} {i : Interrupt} {passed : List Frame} {f : Frame}
    {below : List Frame} (hp : m.state.pending = some i) (hstack : m.stack = passed ++ f :: below)
    (hpass : ∀ g ∈ passed, g.Passes i.exit) (hf : f.refuses i.exit = true) :
    (m.after passed.length).step.1 = .error (.invalidInterrupt i.signal) := by
  have hreleased : (m.state.release passed).pending = some i := hp
  rw [after_passed hp hstack hpass, step_of_pending hreleased, dispatch_of_refuses below _ hf]
  rfl

/-- The last frame lets an interrupt pass, and nothing answers it. -/
theorem after_of_unanswered {m : Machine} {i : Interrupt} {passed : List Frame} {f : Frame}
    (hp : m.state.pending = some i) (hstack : m.stack = passed ++ [f])
    (hpass : ∀ g ∈ passed, g.Passes i.exit) (hf : f.Passes i.exit) :
    (m.after passed.length).step = (.error (i.unhandled m.state.heap),
      ⟨[], { m.state.release (passed ++ [f]) with pending := none }⟩) := by
  have hreleased : (m.state.release passed).pending = some i := hp
  rw [after_passed hp hstack hpass, step_of_pending hreleased, dispatch_of_passes [] _ hf,
    State.release_append]
  rfl

/-- Only a `try` in its body holds a guard. -/
theorem exists_try_of_ownsGuard {f : Frame} (h : f.ownsGuard = true) :
    ∃ line body name handler, f = .control line (.tryCatch .body body name handler) := by
  cases f with
  | control line c =>
      cases c with
      | tryCatch phase body name handler =>
          cases phase with
          | body => exact ⟨line, body, name, handler, rfl⟩
          | _ => cases h
      -- Calls and objects hold scopes, and no construct holds both.
      | call phase callee args => cases phase <;> cases h
      | object phase body =>
          cases phase with
          | start => cases h
          | body scope => simp [Frame.ownsGuard, Frame.holding, Control.holding] at h
      | _ => cases h
  | _ => cases h

/-- A frame that takes an exit changes the guards and the heap only if it is a `try`. -/
theorem stateAfter_same (st : State) (f : Frame) (exit : Exit) :
    (stateAfter st f exit).scopes = st.scopes ∧ (stateAfter st f exit).pending = st.pending ∧
      (stateAfter st f exit).sink = st.sink ∧ (stateAfter st f exit).nextId = st.nextId ∧
      (stateAfter st f exit).random = st.random ∧ (stateAfter st f exit).line = st.line ∧
      (f.ownsGuard = false → stateAfter st f exit = st) := by
  unfold stateAfter
  split
  · refine ⟨rfl, rfl, rfl, rfl, rfl, rfl, fun hown => ?_⟩
    simp [Frame.ownsGuard, Frame.holding, Control.holding] at hown
  · exact ⟨rfl, rfl, rfl, rfl, rfl, rfl, fun _ => rfl⟩

/-- A `try` that takes an exit gives up its guard. -/
theorem stateAfter_guards {st : State} {f : Frame} {exit : Exit} (hf : f.takes exit = true) :
    (stateAfter st f exit).guards = st.guards - if f.ownsGuard then 1 else 0 := by
  cases hown : f.ownsGuard with
  | false =>
      rw [(stateAfter_same st f exit).2.2.2.2.2.2 hown]
      rfl
  | true =>
      obtain ⟨line, body, name, handler, rfl⟩ := exists_try_of_ownsGuard hown
      cases exit with
      | thrown v => rfl
      | _ => cases hf

/-- An interrupt finds the block of the script at the bottom of the stack. -/
theorem exists_bottom_of_pending (root : Block) (limit : Nat) (seed : Seed) (sink : Sink) (n : Nat)
    {i : Interrupt} (hp : ((start root limit seed sink).after n).state.pending = some i) :
    ∃ above rest, ((start root limit seed sink).after n).stack = above ++ [.block rest] := by
  rcases grounded_or_empty_after root limit seed sink n with (h | ⟨-, hnone⟩) | ⟨-, hnone⟩
  · exact h
  · rw [hp] at hnone
    cases hnone
  · rw [hp] at hnone
    cases hnone

/-- While the frames above the one that takes an interrupt go, it stays under way and no step fails. -/
theorem ok_until_taken {m : Machine} {i : Interrupt} {passed : List Frame} {f : Frame}
    {below : List Frame} (hp : m.state.pending = some i) (hstack : m.stack = passed ++ f :: below)
    (hpass : ∀ g ∈ passed, g.Passes i.exit) (hf : f.takes i.exit = true) {k : Nat}
    (hk : k ≤ passed.length) :
    (m.after k).step.1 = .ok true ∧ (m.after k).state.pending = some i := by
  obtain ⟨hafter, hok⟩ := after_of_passes hp hstack (by simp) hpass k hk
  constructor
  -- The last of these steps is the one in which the frame takes the interrupt.
  · by_cases hlt : k < passed.length
    · exact hok hlt
    · obtain rfl : k = passed.length := by omega
      rw [after_of_takes hp hstack hpass hf]
  · rw [hafter]
    exact hp

/-- If no frame answers an interrupt, the step that removes the last frame fails and leaves an empty
stack, with all scopes and guards of the frames released. -/
theorem after_all_pass {m : Machine} {i : Interrupt} {above : List Frame} {last : Frame}
    (hp : m.state.pending = some i) (hstack : m.stack = above ++ [last])
    (hpass : ∀ g ∈ m.stack, g.Passes i.exit) :
    (∀ k < above.length, (m.after k).step.1 = .ok true) ∧
      (m.after above.length).step.1 = .error (i.unhandled m.state.heap) ∧
      m.after (above.length + 1) = ⟨[], { m.state.release m.stack with pending := none }⟩ := by
  have habove : ∀ g ∈ above, g.Passes i.exit := by
    intro g hg
    apply hpass
    rw [hstack]
    simp [hg]
  have hlast : last.Passes i.exit := by
    apply hpass
    rw [hstack]
    simp
  -- The frames above the last one are removed one step each, and the last one together with the interrupt.
  have hstep := after_of_unanswered hp hstack habove hlast
  refine ⟨?_, by rw [hstep], ?_⟩
  · intro k hk
    exact (after_of_passes hp hstack (by simp) habove k (by omega)).2 hk
  · show (m.after above.length).step.2 = _
    rw [hstep, hstack]

/-- How an interrupt goes down the stack of a reachable machine. Take the topmost frame `f` that answers
it, and the frames `passed` above it.

- If `f` takes the interrupt, the frames above it go in one step each and `f` takes it in the next one:
  until then the interrupt is under way and the steps succeed. Then no interrupt is under way, the stack is
  `f` after the exit and what was below it, and the scopes and the guards of the removed frames are
  released, with the guard of a `try` that catches. Nothing else has changed, except that such a `try`
  has bound its name in the scope that was current when its body began.
- If `f` refuses it, the frames above it go in the same way, and the next step fails.
- If no frame answers it, all frames go, and the step that removes the last one fails with the line of
  the interrupt and leaves an empty stack, only the global scope and no guard. -/
theorem interrupt_unwinds (root : Block) (limit : Nat) (seed : Seed) (sink : Sink) (n : Nat)
    (i : Interrupt) (hp : ((start root limit seed sink).after n).state.pending = some i) :
    let origin := start root limit seed sink
    let m := origin.after n
    (∀ passed f below, m.stack = passed ++ f :: below → (∀ g ∈ passed, g.Passes i.exit) →
      f.takes i.exit = true →
      let m' := m.after (passed.length + 1)
      (∀ k ≤ passed.length, (m.after k).step.1 = .ok true ∧ (m.after k).state.pending = some i) ∧
      m'.state.pending = none ∧
      m'.stack = f.taken i.exit :: below ∧
      (∃ released, m.state.scopes.inner = released ++ m'.state.scopes.inner ∧
        released.length = passed.countP Frame.ownsScope) ∧
      m'.state.scopes.global = m.state.scopes.global ∧
      m.state.guards
        = m'.state.guards + passed.countP Frame.ownsGuard + (if f.ownsGuard then 1 else 0) ∧
      m'.state.sink = m.state.sink ∧ m'.state.nextId = m.state.nextId ∧
      m'.state.random = m.state.random ∧ m'.state.line = m.state.line ∧
      (f.ownsGuard = false → m'.state.heap = m.state.heap) ∧
      (∀ line body name handler v, f = .control line (.tryCatch .body body name handler) →
        i.exit = .thrown v →
        ∃ t, origin.InBodySince n below.length t .guard ∧
          m'.state.heap
            = m.state.heap.objectSet (origin.after (t + 1)).state.scopes.current name v)) ∧
    (∀ passed f below, m.stack = passed ++ f :: below → (∀ g ∈ passed, g.Passes i.exit) →
      f.refuses i.exit = true →
      (∀ k < passed.length, (m.after k).step.1 = .ok true) ∧
      (m.after passed.length).step.1 = .error (.invalidInterrupt i.signal)) ∧
    ((∀ g ∈ m.stack, g.Passes i.exit) →
      m.stack ≠ [] ∧ (∀ k < m.stack.length - 1, (m.after k).step.1 = .ok true) ∧
      (m.after (m.stack.length - 1)).step.1 = .error (match i.exit with
        | .thrown v => .uncaughtException (m.state.heap.display v) i.line
        | exit => .unhandledInterrupt exit.signal i.line) ∧
      (m.after m.stack.length).stack = [] ∧
      (m.after m.stack.length).state.scopes.inner = [] ∧
      (m.after m.stack.length).state.scopes.global = origin.state.scopes.global ∧
      (m.after m.stack.length).state.guards = 0) := by
  intro origin m
  have hbal : Balanced (origin.openedAt n) origin.state.scopes.global limit m :=
    balanced_after root limit seed sink n
  have hscopes := hbal.noted.length_eq
  have hguards := hbal.guards_eq
  refine ⟨?_, ?_, ?_⟩
  · intro passed f below hstack hpass hf m'
    have hm' : m' = ⟨f.taken i.exit :: below,
        stateAfter { m.state.release passed with pending := none } f i.exit⟩ := by
      show (m.after passed.length).step.2 = _
      rw [after_of_takes hp hstack hpass hf]
    obtain ⟨hs, hpending, hsink, hid, hrandom, hline, hplain⟩ :=
      stateAfter_same { m.state.release passed with pending := none } f i.exit
    -- There are enough scopes and guards for all that is released, since they match the stack.
    rw [hstack, List.countP_append] at hscopes
    rw [hstack, List.countP_append, List.countP_cons] at hguards
    rw [hm']
    refine ⟨fun k hk => ok_until_taken hp hstack hpass hf hk, hpending, rfl, ?_, ?_, ?_, hsink, hid,
      hrandom, hline, ?_, ?_⟩
    · refine ⟨m.state.scopes.inner.take (passed.countP Frame.ownsScope), ?_, ?_⟩
      · rw [hs]
        exact (List.take_append_drop _ _).symm
      · rw [List.length_take]
        omega
    · rw [hs]
      rfl
    · rw [stateAfter_guards hf]
      show m.state.guards = m.state.guards - passed.countP Frame.ownsGuard
        - (if f.ownsGuard = true then 1 else 0) + passed.countP Frame.ownsGuard
        + (if f.ownsGuard = true then 1 else 0)
      omega
    · intro hown
      rw [hplain hown]
      rfl
    · intro line body name handler v hcontrol hexit
      have hholding : f.holding = some .guard := by
        rw [hcontrol]
        rfl
      obtain ⟨t, hsince, hcurrent⟩ := exists_guarded_scope root limit seed sink n hstack hholding
      refine ⟨t, hsince, ?_⟩
      rw [hcurrent, hcontrol, hexit]
      rfl
  · intro passed f below hstack hpass hf
    refine ⟨?_, after_of_refuses hp hstack hpass hf⟩
    intro k hk
    exact (after_of_passes hp hstack (by simp) hpass k (by omega)).2 hk
  · intro hpass
    -- The stack is not empty, and all its scopes and guards belong to frames that go.
    obtain ⟨above, rest, hstack⟩ := exists_bottom_of_pending root limit seed sink n hp
    obtain ⟨hok, hlast, hempty⟩ := after_all_pass hp hstack hpass
    have hlen : m.stack.length = above.length + 1 := by
      rw [show m.stack = _ from hstack]
      simp
    rw [hlen, Nat.add_sub_cancel, show m.after (above.length + 1) = _ from hempty]
    refine ⟨?_, hok, hlast, rfl, ?_, hbal.global_eq, ?_⟩
    · intro hnil
      rw [hnil] at hlen
      cases hlen
    · show m.state.scopes.inner.drop (m.stack.countP Frame.ownsScope) = []
      rw [← hscopes, List.drop_length]
    · show m.state.guards - m.stack.countP Frame.ownsGuard = 0
      omega

/-- An exception in the middle of a statement goes through three frames to the `try` around it, which
catches it in the fourth step; the name of the `try` then reads as what was thrown. -/
theorem interrupt_unwinds_to_try :
    let body : Block := .mk 1 [.mk 2 (.op .throwValue [.mk 2 (.int 7)])]
    let origin := start (.mk 0 [.mk 1 (.tryCatch body "e" (.mk 3 []))]) 9 7 .unlimited
    let caught := (origin.after 8).after 4
    caught.state.pending = none ∧
      caught.stack = [.control 1 (.tryCatch .caught body "e" (.mk 3 [])), .finish .any, .block []] ∧
      caught.state.heap.objectGet caught.state.scopes.current "e" = .ok (.int 7) := by
  intro body origin caught
  have h := (interrupt_unwinds _ 9 7 .unlimited 8 ⟨.thrown (.int 7), 2⟩
    (show (origin.after 8).state.pending = some ⟨.thrown (.int 7), 2⟩ from rfl)).1
    [.value .null, .finish .any, .block []] _ _ rfl (by simp [Frame.Passes, Frame.takes, Frame.refuses])
    rfl
  exact ⟨h.2.1, h.2.2.1, rfl⟩

end Machine

end Stepwise
