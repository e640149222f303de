import Stepwise.Proofs.Plans
import Stepwise.Proofs.Resuming
import Stepwise.Proofs.Steps

/-!
# `Stepwise.Proofs.Holding`: what a step does to what the stack holds

A call and an object literal hold a scope while their body runs, and a `try` holds a guard
(`Control.holding`). `Trade` lists what can happen to one of them together with the scopes and the guards
of the state: nothing, the start of a body, and its end. Every function that a step is made of is such a
trade at the frame that works or that is offered an interrupt: `Control.Resumes.trade`,
`Control.Handles.trade` and `Control.discard_trade` for the constructs, and `work_left` and
`dispatch_left` for all frames. `step_left` puts them together: a step replaces the top of the stack,
where at most one frame holds something before it and at most one after it, and trades one for the other.
The rest of the stack stays as it is.
-/

set_option autoImplicit false

namespace Stepwise

/-- What a frame holds while its body runs: a scope, of which only an object literal keeps the handle, or
a guard. -/
inductive Holding where
  | scope (handle : Option ObjectRef)
  | guard
deriving DecidableEq, Repr

/-- What a construct holds. -/
def Control.holding : Control → Option Holding
  | .call (.body _) _ _ => some (.scope none)
  | .object (.body scope) _ => some (.scope (some scope))
  | .tryCatch .body _ _ _ => some .guard
  | _ => none

/-- What a frame holds. -/
def Frame.holding : Frame → Option Holding
  | .control _ c => c.holding
  | _ => none

/-- Whether a frame holds a scope. -/
def Frame.ownsScope (f : Frame) : Bool :=
  match f.holding with
  | some (.scope _) => true
  | _ => false

/-- Whether a frame holds a guard. -/
def Frame.ownsGuard (f : Frame) : Bool :=
  f.holding = some .guard

/-- What happens to what one frame holds, and to the scopes and the guards of the state. -/
inductive Trade : Option Holding → State → Option Holding → State → Prop where
  /-- Nothing happens. -/
  | keep {h : Option Holding} {st st' : State} (hscopes : st'.scopes = st.scopes)
      (hguards : st'.guards = st.guards) : Trade h st h st'
  /-- A body starts in a scope of its own. -/
  | enter {handle : Option ObjectRef} {scope : ObjectRef} {st st' : State}
      (hlimit : st.scopes.depth < st.scopes.limit)
      (hscopes : st'.scopes = { st.scopes with inner := scope :: st.scopes.inner })
      (hguards : st'.guards = st.guards) (hhandle : ∀ r ∈ handle, r = scope) :
      Trade none st (some (.scope handle)) st'
  /-- A body ends, and its scope goes. -/
  | leave {handle : Option ObjectRef} {st st' : State} (hscopes : st'.scopes = st.scopes.pop)
      (hguards : st'.guards = st.guards) : Trade (some (.scope handle)) st none st'
  /-- A body starts under a guard. -/
  | guard {st st' : State} (hscopes : st'.scopes = st.scopes)
      (hguards : st'.guards = st.guards + 1) : Trade none st (some .guard) st'
  /-- A body ends, and its guard goes. -/
  | unguard {st st' : State} (hscopes : st'.scopes = st.scopes)
      (hguards : st'.guards = st.guards - 1) : Trade (some .guard) st none st'

/-- A change before a trade that touches neither the scopes nor the guards. -/
theorem Trade.of_same {h h' : Option Holding} {st st₁ st' : State} (htrade : Trade h st₁ h' st')
    (hscopes : st₁.scopes = st.scopes) (hguards : st₁.guards = st.guards) : Trade h st h' st' := by
  cases htrade with
  | keep hs hg => exact .keep (hs.trans hscopes) (hg.trans hguards)
  | enter hl hs hg hh =>
      rw [hscopes] at hl hs
      exact .enter hl hs (hg.trans hguards) hh
  | leave hs hg =>
      rw [hscopes] at hs
      exact .leave hs (hg.trans hguards)
  | guard hs hg =>
      rw [hguards] at hg
      exact .guard (hs.trans hscopes) hg
  | unguard hs hg =>
      rw [hguards] at hg
      exact .unguard (hs.trans hscopes) hg

/-- A change after a trade that touches neither the scopes nor the guards. -/
theorem Trade.and_same {h h' : Option Holding} {st st₁ st' : State} (htrade : Trade h st h' st₁)
    (hscopes : st'.scopes = st₁.scopes) (hguards : st'.guards = st₁.guards) : Trade h st h' st' := by
  cases htrade with
  | keep hs hg => exact .keep (hscopes.trans hs) (hguards.trans hg)
  | enter hl hs hg hh => exact .enter hl (hscopes.trans hs) (hguards.trans hg) hh
  | leave hs hg => exact .leave (hscopes.trans hs) (hguards.trans hg)
  | guard hs hg => exact .guard (hscopes.trans hs) (hguards.trans hg)
  | unguard hs hg => exact .unguard (hscopes.trans hs) (hguards.trans hg)

/-! ### Constructs -/

namespace Control

/-- What a construct holds after it went on; it is gone when it is done. -/
def held (r : Resumed) : Option Holding :=
  match r.move with
  | .ok (.done _) => none
  | _ => r.control.holding

section Resuming

variable {incoming : Option Value} {c c' : Control} {st : State}

/-- A construct that waits for a value has no body under way. -/
theorem holding_of_needs (h : c.needs.isSome) : c.holding = none := by
  cases c with
  | call phase callee args =>
      cases phase with
      | body returned => cases h
      | _ => rfl
  | object phase body => cases h
  | tryCatch phase body name handler => cases h
  | _ => rfl

theorem Impeded.holding {h : Heap} {f : Fault} (himpeded : Impeded incoming h c f) : c.holding = none := by
  cases himpeded with
  | missing hneeds hin => exact holding_of_needs hneeds
  | _ => rfl

theorem Asks.holding {h : Heap} {node : Node} {demand : Demand} (hasks : Asks incoming h c c' node demand) :
    c'.holding = c.holding := by
  cases hasks <;> rfl

theorem Starts.holding {h : Heap} {body : Block} (hstarts : Starts incoming h c c' body) :
    c'.holding = c.holding := by
  cases hstarts <;> rfl

theorem Settles.holding {h : Heap} {b : Bool} (hsettles : Settles incoming h c c' b) : c.holding = none := by
  cases hsettles <;> rfl

theorem Enters.holding {h : Heap} (henters : c.Enters h incoming) : c.holding = none := by
  cases c with
  | call phase callee args =>
      cases phase with
      | args f => rfl
      | _ => exact henters.elim
  | object phase body =>
      cases phase with
      | start => rfl
      | body scope => exact henters.elim
  | _ => exact henters.elim

theorem afterFault_holding (h : c.holding = none) : c.afterFault.holding = none := by
  cases c with
  | object phase body => exact h
  | tryCatch phase body name handler => exact h
  | _ => rfl

/-- Continuing a construct is a trade at its frame. -/
theorem Resumes.trade {r : Resumed} (h : Resumes incoming st c r) :
    Trade c.holding st (held r) r.state := by
  -- One case for each way to go on; only entering and leaving a scope or a guard is a trade.
  cases h with
  | impeded himpeded =>
      rw [himpeded.holding]
      show Trade none st c.afterFault.holding st
      rw [afterFault_holding himpeded.holding]
      exact .keep rfl rfl
  | asks hasks =>
      rw [← hasks.holding]
      exact .keep rfl rfl
  | starts hstarts =>
      rw [← hstarts.holding]
      exact .keep rfl rfl
  | settles hsettles =>
      rw [hsettles.holding]
      exact .keep rfl rfl
  | refused henters hfull =>
      rw [Enters.holding henters]
      show Trade none st c.afterFault.holding st.refused
      rw [afterFault_holding (Enters.holding henters)]
      exact .keep rfl rfl
  | called hin hsize hroom => exact .enter hroom rfl rfl nofun
  | opened hroom =>
      refine .enter hroom rfl rfl ?_
      rintro r ⟨⟩
      rfl
  | element _ _ => exact .keep rfl rfl
  | returned => exact .leave rfl rfl
  | closed => exact .leave rfl rfl
  | guarded => exact .guard rfl rfl
  | unguarded => exact .unguard rfl rfl

end Resuming

/-- Taking an interrupt is a trade at the frame of the construct. -/
theorem Handles.trade {c c' : Control} {exit : Exit} {st st' : State} (h : Handles st c exit c' st') :
    Trade c.holding st c'.holding st' := by
  cases h with
  | thrown => exact .unguard rfl rfl
  | _ => exact .keep rfl rfl

/-- Releasing what a construct holds is a trade for nothing. -/
theorem discard_trade (c : Control) (st : State) : Trade c.holding st none (c.discard st) := by
  cases c with
  | call phase callee args =>
      cases phase with
      | body returned => exact .leave rfl rfl
      | _ => exact .keep rfl rfl
  | object phase body =>
      cases phase with
      | body scope => exact .leave rfl rfl
      | start => exact .keep rfl rfl
  | tryCatch phase body name handler =>
      cases phase with
      | body => exact .unguard rfl rfl
      | _ => exact .keep rfl rfl
  | _ => exact .keep rfl rfl

end Control

/-! ### Other work -/

namespace State

/-- What an operation can touch: memory, the source of identity numbers, the random generator and the sink, and
it may set an interrupt off on the line of the state. -/
theorem apply_touches (st : State) (op : Op) (args : List Value) :
    ∃ heap nextId random sink pending,
      (st.apply op args).2 =
        { st with heap := heap, nextId := nextId, random := random, sink := sink, pending := pending } ∧
      (pending = st.pending ∨ ∃ exit, pending = some ⟨exit, st.line⟩) := by
  have hrealize (p : Product) :
      ∃ heap nextId, (st.realize p).2 = { st with heap := heap, nextId := nextId } := by
    cases p with
    | value v => exact ⟨_, _, rfl⟩
    | list items => exact ⟨_, _, rfl⟩
  -- An operation that fails leaves the state as it is, and one that succeeds carries an effect out.
  rcases st.apply_cases op args with ⟨f, -, happly⟩ | ⟨e, -, happly⟩
  · rw [happly]
    exact ⟨_, _, _, _, _, rfl, Or.inl rfl⟩
  · rw [happly]
    have hperformed := st.performed e
    generalize st.perform e = o at hperformed
    cases hperformed with
    | yield p =>
        obtain ⟨heap, nextId, hmade⟩ := hrealize p
        exact ⟨heap, nextId, _, _, _, hmade, Or.inl rfl⟩
    | @store r p _ =>
        obtain ⟨heap, nextId, hmade⟩ := hrealize p
        rw [hmade]
        exact ⟨_, _, _, _, _, rfl, Or.inl rfl⟩
    | @leave exit hpending => exact ⟨_, _, _, _, _, rfl, Or.inr ⟨exit, rfl⟩⟩
    | _ => exact ⟨_, _, _, _, _, rfl, Or.inl rfl⟩

/-- An operation touches neither the scopes nor the guards. -/
theorem apply_same (st : State) (op : Op) (args : List Value) :
    (st.apply op args).2.scopes = st.scopes ∧ (st.apply op args).2.guards = st.guards := by
  obtain ⟨heap, nextId, random, sink, pending, happly, -⟩ := st.apply_touches op args
  rw [happly]
  exact ⟨rfl, rfl⟩

/-- The resolution of a path takes at most an identity number. -/
theorem resolve_touches (st : State) (global : Bool) (names : List String) :
    ∃ nextId, (st.resolve global names).2 = { st with nextId := nextId } := by
  simp only [resolve]
  split
  · exact ⟨_, rfl⟩
  · exact ⟨_, rfl⟩

/-- What starting a node can touch: memory and the source of identity numbers. -/
theorem produce_touches (st : State) (node : Node) :
    ∃ heap nextId, (st.produce node).2 = { st with heap := heap, nextId := nextId } := by
  simp only [produce, produce.construct]
  cases node.form with
  -- A path takes a number for its reference; of the others only an empty list and a function take one.
  | path global names =>
      obtain ⟨nextId, hresolve⟩ := st.resolve_touches global names
      dsimp only
      cases hr : st.resolve global names with
      | mk r st' =>
          rw [hr] at hresolve
          cases r with
          | ok v => exact ⟨st.heap, nextId, hresolve⟩
          | error f => exact ⟨st.heap, nextId, hresolve⟩
  | list items =>
      cases items with
      | nil => exact ⟨_, _, rfl⟩
      | cons item rest => exact ⟨_, _, rfl⟩
  | _ => exact ⟨_, _, rfl⟩

/-- Starting a node touches neither the scopes nor the guards, and a frame that it gives holds
nothing. -/
theorem produce_same (st : State) (node : Node) :
    (st.produce node).2.scopes = st.scopes ∧ (st.produce node).2.guards = st.guards ∧
      ∀ f, (st.produce node).1 = .ok (.frame f) → f.holding = none := by
  obtain ⟨heap, nextId, hmade⟩ := st.produce_touches node
  refine ⟨by rw [hmade], by rw [hmade], ?_⟩
  intro f hf
  simp only [produce, produce.construct] at hf
  cases hform : node.form with
  | path global names =>
      rw [hform] at hf
      dsimp only at hf
      split at hf <;> cases hf
  | list items =>
      rw [hform] at hf
      cases items with
      | nil => cases hf
      | cons item rest =>
          cases hf
          rfl
  | _ =>
      rw [hform] at hf
      cases hf <;> rfl

end State

namespace Machine

open Stepwise.Frame (values)

/-- None of the frames holds anything. -/
def Free (frames : List Frame) : Prop :=
  ∀ f ∈ frames, f.holding = none

theorem free_nil : Free [] := by
  simp [Free]

theorem free_cons {f : Frame} {frames : List Frame} (hf : f.holding = none) (h : Free frames) :
    Free (f :: frames) := by
  simpa [Free, hf] using h

theorem free_values (vs : List Value) : Free (values vs) := by
  intro f hf
  obtain ⟨v, -, rfl⟩ := List.mem_map.mp hf
  rfl

/-- What is left of a frame and of what was above it after its work: frames that hold nothing, and below
them the frame itself or what it has become, if it is still there. -/
def Left (h : Option Holding) (st : State) (below : List Frame) (m : Machine) : Prop :=
  ∃ (above : List Frame) (slot : Option Frame), m.stack = above ++ (slot.toList ++ below) ∧
    Free above ∧ Trade h st (slot.bind Frame.holding) m.state

/-- Only frames that hold nothing are left. -/
theorem Left.of_free {h : Option Holding} {st : State} {below : List Frame} {m : Machine}
    (above : List Frame) (hstack : m.stack = above ++ below) (habove : Free above)
    (htrade : Trade h st none m.state) : Left h st below m :=
  ⟨above, none, hstack, habove, htrade⟩

/-- The frame itself is left, or what it has become. -/
theorem Left.of_slot {h : Option Holding} {st : State} {below : List Frame} {f : Frame}
    {m : Machine} (above : List Frame) (hstack : m.stack = above ++ f :: below) (habove : Free above)
    (htrade : Trade h st f.holding m.state) : Left h st below m :=
  ⟨above, some f, hstack, habove, htrade⟩

theorem Left.of_same {h : Option Holding} {st st₁ : State} {below : List Frame} {m : Machine}
    (hleft : Left h st₁ below m) (hscopes : st₁.scopes = st.scopes)
    (hguards : st₁.guards = st.guards) : Left h st below m := by
  obtain ⟨above, slot, hstack, hfree, htrade⟩ := hleft
  exact ⟨above, slot, hstack, hfree, htrade.of_same hscopes hguards⟩

theorem Left.and_same {h : Option Holding} {st : State} {below : List Frame} {m m' : Machine}
    (hleft : Left h st below m) (hsame : m'.stack = m.stack)
    (hscopes : m'.state.scopes = m.state.scopes) (hguards : m'.state.guards = m.state.guards) :
    Left h st below m' := by
  obtain ⟨above, slot, hstack, hfree, htrade⟩ := hleft
  exact ⟨above, slot, hsame.trans hstack, hfree, htrade.and_same hscopes hguards⟩

section Work

variable (vs : List Value) (below : List Frame) (st : State)

theorem stepRequest_left (node : Node) (demand : Demand) :
    Left none st below (stepRequest node demand (values vs) below st).2 := by
  have hvs := free_values vs
  obtain ⟨hs, hg, hfree⟩ := { st with line := node.line }.produce_same node
  simp only [stepRequest]
  cases hp : State.produce { st with line := node.line } node with
  | mk r st' =>
      rw [hp] at hs hg hfree
      cases r with
      | error fault => exact .of_slot _ rfl hvs (.keep hs hg)
      | ok produced =>
          cases produced with
          | frame g =>
              exact .of_slot (g :: values vs) rfl (free_cons (hfree g rfl) hvs) (.keep hs hg)
          | value v =>
              dsimp only
              split
              · exact .of_slot _ rfl hvs (.keep hs hg)
              · exact .of_slot _ rfl hvs (.keep hs hg)

theorem stepFinish_left (demand : Demand) :
    Left none st below (stepFinish demand vs (values vs ++ .finish demand :: below) below st).2 := by
  simp only [stepFinish]
  split
  · split
    · exact .of_slot [] rfl free_nil (.keep rfl rfl)
    · exact .of_slot [] rfl free_nil (.keep rfl rfl)
  · exact .of_slot _ rfl (free_values _) (.keep rfl rfl)

/-- An operation that fails is gone, and one that succeeds has become its value. -/
theorem stepOperation_left (op : Op) (args : List Node) (line : Nat) :
    Left none st below
      (stepOperation op args line vs (values vs ++ .operation op args line :: below) below st).2 := by
  have hvs := free_values vs
  simp only [stepOperation]
  split
  · split
    · exact .of_slot _ rfl (free_cons rfl hvs) (.keep rfl rfl)
    · exact .of_slot _ rfl hvs (.keep rfl rfl)
  · split
    -- The operation is gone before its result is known; it held nothing anyway.
    · obtain ⟨hs, hg⟩ := { st with line := line }.apply_same op vs
      cases hr : State.apply { st with line := line } op vs with
      | mk r st' =>
          rw [hr] at hs hg
          cases r with
          | ok v => exact .of_slot [] rfl free_nil (.keep hs hg)
          | error fault => exact .of_free [] rfl free_nil (.keep hs hg)
    · exact .of_slot _ rfl hvs (.keep rfl rfl)

theorem stepList_left (items : List Node) :
    Left none st below (stepList items vs (values vs ++ .list items :: below) below st).2 := by
  have hvs := free_values vs
  simp only [stepList]
  split
  · exact .of_slot _ rfl (free_cons rfl hvs) (.keep rfl rfl)
  · split
    · exact .of_slot [] rfl free_nil (.keep rfl rfl)
    · exact .of_slot _ rfl hvs (.keep rfl rfl)

theorem stepBlock_left (statements : List Node) :
    Left none st below (stepBlock statements below st).2 := by
  cases statements with
  | nil => exact .of_slot [] rfl free_nil (.keep rfl rfl)
  | cons s rest => exact .of_slot [.request s .any] rfl (free_cons rfl free_nil) (.keep rfl rfl)

/-- A construct trades what it holds when it goes on, and what it asks for holds nothing yet. -/
theorem stepControl_left (line : Nat) (c : Control) :
    Left c.holding st below
      (stepControl line c vs (values vs ++ .control line c :: below) below st).2 := by
  have htrade := (c.resumes vs.head? { st with line := line }).trade
  simp only [Control.held] at htrade
  simp only [stepControl]
  split
  · exact .of_slot _ rfl (free_values _) (.keep rfl rfl)
  · split
    · rename_i hmove
      rw [hmove] at htrade
      exact .of_slot [] rfl free_nil (htrade.of_same rfl rfl)
    · rename_i node demand hmove
      rw [hmove] at htrade
      exact .of_slot [.request node demand] rfl (free_cons rfl free_nil) (htrade.of_same rfl rfl)
    · rename_i body hmove
      rw [hmove] at htrade
      exact .of_slot [.block body.statements] rfl (free_cons rfl free_nil) (htrade.of_same rfl rfl)
    -- Only here the frame goes away, with whatever it still held given back.
    · rename_i v hmove
      rw [hmove] at htrade
      exact .of_free [.value v] rfl (free_cons rfl free_nil) (htrade.of_same rfl rfl)

/-- The work of a frame trades what it holds and leaves the stack below it alone. -/
theorem work_left (f : Frame) (hf : f.isValue = false) :
    Left f.holding st below (work ⟨values vs ++ f :: below, st⟩).2 := by
  rw [work_values_append vs f below st hf]
  cases f with
  | value v => cases hf
  | request node demand => exact stepRequest_left vs below st node demand
  | finish demand => exact stepFinish_left vs below st demand
  | operation op args line => exact stepOperation_left vs below st op args line
  | list items => exact stepList_left vs below st items
  | block statements => exact stepBlock_left below st statements
  | control line c => exact stepControl_left vs below st line c

end Work

/-- Letting an interrupt pass or not touches neither the scopes nor the guards. -/
theorem unwind_same (i : Interrupt) (below : List Frame) (st : State) :
    (unwind i below st).2.stack = below ∧ (unwind i below st).2.state.scopes = st.scopes ∧
      (unwind i below st).2.state.guards = st.guards := by
  cases below with
  | nil => exact ⟨rfl, rfl, rfl⟩
  | cons g rest => exact ⟨rfl, rfl, rfl⟩

/-- The offer of an interrupt trades what the top frame holds and leaves the stack below it alone. -/
theorem dispatch_left (i : Interrupt) (f : Frame) (below : List Frame) (st : State) :
    Left f.holding st below (dispatch i (f :: below) st).2 := by
  have hplain : Left none st below (unwind i below st).2 := by
    obtain ⟨hstack, hs, hg⟩ := unwind_same i below st
    exact .of_free [] hstack free_nil (.keep hs hg)
  cases f with
  | control line c =>
      simp only [dispatch]
      split
      · rename_i c' st' hanswer
        exact .of_slot [] rfl free_nil (Control.handles hanswer).trade
      · exact .of_slot [] rfl free_nil (.keep rfl rfl)
      · obtain ⟨hstack, hs, hg⟩ := unwind_same i below (c.discard st)
        refine .of_free [] hstack free_nil ?_
        -- The frame is removed, so what it holds must be released by `discard`.
        have htrade := c.discard_trade st
        show Trade c.holding st none (unwind i below (c.discard st)).2.state
        exact htrade.and_same hs hg
  | _ => exact hplain

/-- An exception that is set off leaves the stack, the scopes and the guards alone. -/
theorem throwCatchable_same (cause : Catchable) (m : Machine) :
    (throwCatchable cause m).2.stack = m.stack ∧
      (throwCatchable cause m).2.state.scopes = m.state.scopes ∧
      (throwCatchable cause m).2.state.guards = m.state.guards := by
  simp only [throwCatchable, State.exceptionPayload, State.makeObject, State.raise]
  cases m.state.pending with
  | none => simp only [and_self]
  | some i => simp only [and_self]

/-- A step leaves the stack, the scopes and the guards alone, or it trades what one frame holds, above
which nothing is held, and leaves the stack below that frame alone. -/
theorem step_left (m : Machine) :
    (m.step.2.stack = m.stack ∧ m.step.2.state.scopes = m.state.scopes ∧
      m.step.2.state.guards = m.state.guards) ∨
    ∃ above f below, m.stack = above ++ f :: below ∧ Free above ∧
      Left f.holding m.state below m.step.2 := by
  rcases step_cases m with ⟨-, -, hstep⟩ | ⟨i, -, hstep⟩ | ⟨-, -, hstep, -⟩ |
    ⟨-, -, cause, m', hwork, -, hstep⟩
  · rw [hstep]
    exact Or.inl ⟨rfl, rfl, rfl⟩
  · rw [hstep, finishStep_snd]
    cases hstack : m.stack with
    | nil => exact Or.inl ⟨rfl, rfl, rfl⟩
    | cons f below =>
        refine Or.inr ⟨[], f, below, rfl, free_nil, ?_⟩
        exact (dispatch_left i f below { m.state with pending := none }).of_same rfl rfl
  · rw [hstep, finishStep_snd]
    rcases exists_values_append m.stack with ⟨vs, hstack⟩ | ⟨vs, f, below, hf, hstack⟩
    · have hm : m = ⟨values vs, m.state⟩ := by rw [← hstack]
      rw [hm, work_values]
      exact Or.inl ⟨rfl, rfl, rfl⟩
    · have hm : m = ⟨values vs ++ f :: below, m.state⟩ := by rw [← hstack]
      refine Or.inr ⟨values vs, f, below, hstack, free_values vs, ?_⟩
      rw [hm]
      exact work_left vs below m.state f hf
  -- The exception is set off after the work of the frame, which has already traded what it holds.
  · rw [hstep, finishStep_snd]
    obtain ⟨hsame, hs, hg⟩ := throwCatchable_same cause m'
    rcases exists_values_append m.stack with ⟨vs, hstack⟩ | ⟨vs, f, below, hf, hstack⟩
    · have hm : m = ⟨values vs, m.state⟩ := by rw [← hstack]
      rw [hm, work_values] at hwork
      cases hwork
    · have hm : m = ⟨values vs ++ f :: below, m.state⟩ := by rw [← hstack]
      refine Or.inr ⟨values vs, f, below, hstack, free_values vs, ?_⟩
      have hleft := work_left vs below m.state f hf
      rw [← hm, hwork] at hleft
      exact hleft.and_same hsame hs hg

end Machine

end Stepwise
