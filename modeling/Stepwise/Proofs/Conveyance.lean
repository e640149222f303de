import Stepwise.Proofs.Catching
import Stepwise.Proofs.Closure
import Stepwise.Proofs.References

/-!
# `Stepwise.Proofs.Conveyance`: a step only passes values on

Take a machine of which every value is known (`Machine.Closed`), in the sense of `Value.Known` for some property
`q` of functions and references. `Machine.Closed.step` says that a step keeps it so and that the identity
numbers grow as `State.Grows` says, if `q` holds of the function or the reference that the step makes
(`Machine.Creates`), whatever the script is and whether the step fails or not. A step makes such a value only when
it evaluates a function node or a path, or applies the operation that selects a part of a container.

Values are in four places: in memory, in the scopes, in the interrupt under way and on the stack, where also
constructs keep some between their steps (`Control.contents`). What a construct keeps came in, was kept before or
comes out of memory (`Control.Resumes.conveyed`); for the other kinds of frames there is one lemma each.
-/

set_option autoImplicit false

namespace Stepwise

/-! ### Values on the stack -/

/-- The values that a construct keeps between its steps. -/
def Control.contents : Control → List Value
  | .forEach (.source slot) _ _ _ _ => [.reference slot]
  | .forEach (.iterate slot left) _ _ _ _ => .reference slot :: left
  | .call (.args f) _ _ => [.function f]
  | .call (.body (some v)) _ _ => [v]
  | .object (.body scope) _ => [.object scope]
  | _ => []

namespace Frame

/-- The values in a frame. -/
def contents : Frame → List Value
  | .value v => [v]
  | .control _ c => c.contents
  | _ => []

/-- Every value in some frames is known. -/
def AllKnown (q : Value → Prop) (h : Heap) (frames : List Frame) : Prop :=
  ∀ f ∈ frames, ∀ v ∈ f.contents, v.Known q h

variable {q : Value → Prop} {h : Heap} {f : Frame} {frames frames' : List Frame}

theorem allKnown_cons :
    AllKnown q h (f :: frames) ↔ (∀ v ∈ f.contents, v.Known q h) ∧ AllKnown q h frames :=
  List.forall_mem_cons

theorem allKnown_append :
    AllKnown q h (frames ++ frames') ↔ AllKnown q h frames ∧ AllKnown q h frames' :=
  List.forall_mem_append

theorem allKnown_values {vs : List Value} : AllKnown q h (values vs) ↔ ∀ v ∈ vs, v.Known q h := by
  simp [AllKnown, values, contents]

end Frame

open Stepwise.Frame (AllKnown allKnown_cons allKnown_append allKnown_values)

variable {q : Value → Prop} {st : State}

theorem State.Conveys.allKnown {st' : State} (h : st.Conveys q st') {frames : List Frame}
    (hframes : AllKnown q st.heap frames) : AllKnown q st'.heap frames :=
  fun f hf v hv => h.known (hframes f hf v hv)

/-! ### Constructs -/

/-- A construct that goes on: what it keeps and what it yields is known in the state that it leaves. -/
structure Conveyed (q : Value → Prop) (st : State) (r : Resumed) : Prop where
  control : ∀ v ∈ r.control.contents, v.Known q r.state.heap
  conveys : st.Conveys q r.state
  move : Move.Yields (Value.Known q r.state.heap) r.move

theorem State.popScope_conveys (hst : st.Closed q) : st.Conveys q st.popScope where
  grows := .idle rfl fun _ => rfl
  closed :=
    { holds := ⟨hst.holds.heap, hst.holds.pending⟩
      scopes := by
        intro s hs
        rcases List.mem_cons.mp hs with rfl | hs
        · exact hst.scopes _ List.mem_cons_self
        · exact hst.scopes s (List.mem_cons_of_mem _ (List.mem_of_mem_tail hs)) }

namespace Control

section Resuming

variable {incoming : Option Value} {c c' : Control} {v : Value}

theorem afterFault_contents (h : v ∈ c.afterFault.contents) : v ∈ c.contents := by
  cases c with
  | forEach phase ran target source body => cases h
  | call phase callee args => cases h
  | _ => exact h

/-- Of what comes in a construct keeps the reference of a target or a function. -/
theorem Asks.contents {h : Heap} {node : Node} {demand : Demand} (hasks : Asks incoming h c c' node demand)
    (hv : v ∈ c'.contents) : v ∈ c.contents ∨ v ∈ incoming := by
  cases hasks with
  | source hin => exact Or.inr (by rw [hin, List.mem_singleton.mp hv]; rfl)
  | arguments hin => exact Or.inr (by rw [hin, List.mem_singleton.mp hv]; rfl)
  | _ => cases hv

theorem Starts.contents {h : Heap} {body : Block} (hstarts : Starts incoming h c c' body) :
    c'.contents = [] := by
  cases hstarts <;> rfl

theorem Settles.contents {h : Heap} {b : Bool} (hsettles : Settles incoming h c c' b) : c'.contents = [] := by
  cases hsettles <;> rfl

/-- A `for` keeps its slot, and its elements come out of a list in memory. -/
theorem Remains.known {phase : ForPhase} {ran : Bool} {target source : Node} {body : Block} {slot : Reference}
    {left : List Value} (h : Remains incoming st.heap phase slot left)
    (hc : ∀ v ∈ (forEach phase ran target source body).contents, v.Known q st.heap) (hst : st.Closed q) :
    (Value.reference slot).Known q st.heap ∧ ∀ v ∈ left, v.Known q st.heap := by
  cases h with
  | @listed slot r hin =>
      exact ⟨List.forall_mem_singleton.mp hc, fun v hv => hst.holds.heap.items r v (Array.mem_toList_iff.mp hv)⟩
  | left => exact List.forall_mem_cons.mp hc

/-- Continuing a construct with a known value. -/
theorem Resumes.conveyed {r : Resumed} (h : Resumes incoming st c r) (hst : st.Closed q)
    (hc : ∀ v ∈ c.contents, v.Known q st.heap) (hin : ∀ v ∈ incoming, v.Known q st.heap) :
    Conveyed q st r := by
  have hsame : st.Conveys q st := .refl hst
  cases h with
  | impeded _ => exact ⟨fun v hv => hc v (afterFault_contents hv), hsame, trivial⟩
  | asks hasks =>
      refine ⟨fun v hv => ?_, hsame, trivial⟩
      rcases hasks.contents hv with hv | hv
      · exact hc v hv
      · exact hin v hv
  | starts hstarts =>
      refine ⟨?_, hsame, trivial⟩
      rw [hstarts.contents]
      exact List.forall_mem_nil _
  | settles hsettles =>
      refine ⟨?_, hsame, trivial⟩
      rw [hsettles.contents]
      exact List.forall_mem_nil _
  | @element phase ran target source body slot v left hleft _ =>
      obtain ⟨hslot, hvalues⟩ := hleft.known hc hst
      obtain ⟨hv, hrest⟩ := List.forall_mem_cons.mp hvalues
      have hput := hsame.of_heap (Heap.idOf?_put slot v) (hst.holds.heap.put slot hv)
      refine ⟨List.forall_mem_cons.mpr ⟨hput.known hslot, ?_⟩, hput, trivial⟩
      exact fun w hw => hput.known (hrest w hw)
  | refused _ _ =>
      obtain ⟨hscope, -⟩ := State.refused_gives hst
      exact ⟨fun v hv => hscope.known (hc v (afterFault_contents hv)), hscope, trivial⟩
  -- The scope of a call is new, and the arguments that are bound in it come out of a list.
  | @called callee args f r _ _ _ =>
      obtain ⟨hscope, -⟩ := State.entered_gives hst
      have hvalues : ∀ v ∈ (st.heap.items r).toList, v.Known q st.entered.heap :=
        fun v hv => hscope.known (hst.holds.heap.items r v (Array.mem_toList_iff.mp hv))
      have hbind := hscope.of_heap (Heap.idOf?_bind st.newScope f.params (st.heap.items r).toList)
        (hscope.closed.holds.heap.bind st.newScope f.params hvalues)
      exact ⟨List.forall_mem_nil _, hbind, trivial⟩
  | @returned callee args returned =>
      have hresult : (returned.getD .null).Known q st.heap := by
        cases returned with
        | none => trivial
        | some v => exact List.forall_mem_singleton.mp hc
      exact ⟨List.forall_mem_nil _, State.popScope_conveys hst, hresult⟩
  | opened _ =>
      obtain ⟨hscope, hmemory⟩ := State.entered_gives hst
      exact ⟨List.forall_mem_singleton.mpr hmemory, hscope, trivial⟩
  | closed =>
      have hscope : (Value.object _).Known q st.heap := List.forall_mem_singleton.mp hc
      exact ⟨hc, State.popScope_conveys hst, hscope⟩
  | guarded => exact ⟨List.forall_mem_nil _, .of_eq hst rfl rfl rfl rfl, trivial⟩
  | unguarded => exact ⟨List.forall_mem_nil _, .of_eq hst rfl rfl rfl rfl, trivial⟩

end Resuming

/-- A construct that takes an interrupt keeps its value, or binds it. -/
theorem Handles.conveys {c c' : Control} {exit : Exit} {st' : State} (h : Handles st c exit c' st')
    (hst : st.Closed q) (hc : ∀ v ∈ c.contents, v.Known q st.heap) (hexit : exit.Carries (Value.Known q st.heap)) :
    st.Conveys q st' ∧ ∀ v ∈ c'.contents, v.Known q st'.heap := by
  have hsame : st.Conveys q st := .refl hst
  cases h with
  | continuedFor hphase =>
      rcases hphase with ⟨rfl, -⟩ | ⟨rfl, -⟩
      · exact ⟨hsame, hc⟩
      · exact ⟨hsame, List.forall_mem_nil _⟩
  | returnedCall => exact ⟨hsame, List.forall_mem_singleton.mpr hexit⟩
  | returnedObject => exact ⟨hsame, hc⟩
  | @thrown body handler name v =>
      -- The guard is given back and the value is bound in the current scope, which is an object in memory.
      have hguard : st.Conveys q { st with guards := st.guards - 1 } := .of_eq hst rfl rfl rfl rfl
      have hbound := hguard.of_heap (Heap.idOf?_modifyFields st.scopes.current _)
        (hst.holds.heap.objectSet st.scopes.current name hexit)
      exact ⟨hbound, List.forall_mem_nil _⟩
  | _ => exact ⟨hsame, List.forall_mem_nil _⟩

theorem discard_conveys (hst : st.Closed q) (c : Control) : st.Conveys q (c.discard st) := by
  unfold discard
  split
  · exact State.popScope_conveys hst
  · exact State.popScope_conveys hst
  · exact .of_eq hst rfl rfl rfl rfl
  · exact .refl hst

end Control

/-! ### Nodes -/

/-- What a node gives at once is known. -/
def Produced.Known (q : Value → Prop) (h : Heap) : Produced → Prop
  | .value v => v.Known q h
  | .frame f => ∀ v ∈ f.contents, v.Known q h

namespace State

/-- A path leads to an object in memory. -/
theorem resolve_isSome (hst : st.Closed q) {global : Bool} {names : List String} {o : ObjectRef}
    {key : String} (h : st.scopes.resolve st.heap global names = .ok (o, key)) :
    (st.heap.idOf? (.object o)).isSome := by
  unfold Scopes.resolve at h
  split at h
  · cases h
  · cases hfollow : st.heap.follow (st.scopes.start global) names.dropLast with
    | error f =>
        simp only [Scopes.start] at hfollow
        rw [hfollow] at h
        cases h
    | ok r =>
        have hr := hst.inMemory.follow (hst.inMemory.start global) hfollow
        simp only [Scopes.start] at hfollow
        rw [hfollow] at h
        cases h
        simpa [Heap.idOf?] using hr

/-- Starting a node: of all nodes only a function node makes a function, and only a path makes a
reference. -/
theorem produce_conveys (hst : st.Closed q) {node : Node}
    (hfunction : ∀ params body, node.form = .function params body →
      q (.function ⟨st.nextId, params, body⟩))
    (hpath : ∀ global names o key, node.form = .path global names →
      st.scopes.resolve st.heap global names = .ok (o, key) →
      q (.reference ⟨st.nextId, .object o, .name key⟩)) :
    st.Conveys q (st.produce node).2 ∧
      ∀ x, (st.produce node).1 = .ok x → x.Known q (st.produce node).2.heap := by
  have hsame : st.Conveys q st := .refl hst
  obtain ⟨line, form⟩ := node
  cases form with
  | path global names =>
      simp only [produce, Node.form, resolve]
      -- A reference is made to a slot that was found, so its container is in memory.
      cases hresolve : st.scopes.resolve st.heap global names with
      | error f => exact ⟨hsame, fun x hx => by cases hx⟩
      | ok slot =>
          obtain ⟨o, key⟩ := slot
          have hknown : (Value.reference ⟨st.nextId, .object o, .name key⟩).Known q st.heap :=
            ⟨hpath global names o key rfl hresolve, resolve_isSome hst hresolve⟩
          obtain ⟨hconveys, hvalue⟩ := issue_gives hst hknown
          exact ⟨hconveys, fun x hx => by cases hx; exact hvalue _ rfl⟩
  | list items =>
      cases items with
      | nil =>
          obtain ⟨hconveys, hv⟩ := makeList_gives hst #[] fun v hv => by simp at hv
          exact ⟨hconveys, fun x hx => by cases hx; exact hv⟩
      | cons item rest => exact ⟨hsame, fun x hx => by cases hx; exact List.forall_mem_nil _⟩
  -- The identity of the function is the next one.
  | function params body =>
      have hknown : (Value.function ⟨st.nextId, params, body⟩).Known q st.heap :=
        hfunction params body rfl
      obtain ⟨hconveys, hvalue⟩ := issue_gives hst hknown
      exact ⟨hconveys, fun x hx => by cases hx; exact hvalue _ rfl⟩
  | null => exact ⟨hsame, fun x hx => by cases hx; trivial⟩
  | bool b => exact ⟨hsame, fun x hx => by cases hx; trivial⟩
  | int n => exact ⟨hsame, fun x hx => by cases hx; trivial⟩
  | float y => exact ⟨hsame, fun x hx => by cases hx; trivial⟩
  | str s => exact ⟨hsame, fun x hx => by cases hx; trivial⟩
  | _ => exact ⟨hsame, fun x hx => by cases hx; exact List.forall_mem_nil _⟩

end State

namespace Machine

open Stepwise.Frame (values)

/-! ### Work -/

/-- The function or the reference that the next step makes: the step evaluates a function node or a path, or it
applies an operation that yields a reference to a slot. The number is the next one. -/
inductive Creates (m : Machine) : Value → Prop where
  | function {vs : List Value} {line : Nat} {params : List String} {body : Block} {demand : Demand}
      {below : List Frame} (hpending : m.state.pending = none)
      (hstack : m.stack = values vs ++ .request (.mk line (.function params body)) demand :: below) :
      Creates m (.function ⟨m.state.nextId, params, body⟩)
  | path {vs : List Value} {line : Nat} {global : Bool} {names : List String} {demand : Demand}
      {below : List Frame} {o : ObjectRef} {key : String} (hpending : m.state.pending = none)
      (hstack : m.stack = values vs ++ .request (.mk line (.path global names)) demand :: below)
      (hresolve : m.state.scopes.resolve m.state.heap global names = .ok (o, key)) :
      Creates m (.reference ⟨m.state.nextId, .object o, .name key⟩)
  | operation {vs : List Value} {op : Op} {args : List Node} {line : Nat} {below : List Frame}
      {container : Container} {key : Key} (hpending : m.state.pending = none)
      (hstack : m.stack = values vs ++ .operation op args line :: below)
      (hlen : vs.length = op.arity)
      (hplan : op.plan vs { m.state with line := line } = .ok (.refer container key)) :
      Creates m (.reference ⟨m.state.nextId, container, key⟩)

/-- Every value of a machine is known. -/
structure Closed (q : Value → Prop) (m : Machine) : Prop where
  stack : AllKnown q m.state.heap m.stack
  state : m.state.Closed q

/-- A state has gone over to the one of a machine, in which all is known. -/
structure Conveys (q : Value → Prop) (st : State) (m : Machine) : Prop where
  state : st.Conveys q m.state
  stack : AllKnown q m.state.heap m.stack

theorem Conveys.closed {m : Machine} (h : Conveys q st m) : m.Closed q :=
  ⟨h.stack, h.state.closed⟩

section Work

variable {vs : List Value} {below : List Frame}

/-- One more value on a stack of known values. -/
theorem Conveys.push {st' : State} (hst : st.Conveys q st') {v : Value} (hv : v.Known q st'.heap)
    (hbelow : AllKnown q st.heap below) : Conveys q st ⟨.value v :: below, st'⟩ :=
  ⟨hst, allKnown_cons.mpr ⟨List.forall_mem_singleton.mpr hv, hst.allKnown hbelow⟩⟩

theorem stepRequest_conveys (hst : st.Closed q) {node : Node} {demand : Demand}
    (hstack : AllKnown q st.heap (values vs ++ .request node demand :: below))
    (hfunction : ∀ params body, node.form = .function params body →
      q (.function ⟨st.nextId, params, body⟩))
    (hpath : ∀ global names o key, node.form = .path global names →
      st.scopes.resolve st.heap global names = .ok (o, key) →
      q (.reference ⟨st.nextId, .object o, .name key⟩)) :
    Conveys q st (stepRequest node demand (values vs) below st).2 := by
  have hline : st.Conveys q { st with line := node.line } := .of_eq hst rfl rfl rfl rfl
  obtain ⟨hconveys, hproduced⟩ := State.produce_conveys hline.closed hfunction hpath
  obtain ⟨habove, hbelow⟩ := allKnown_append.mp hstack
  replace hbelow := (allKnown_cons.mp hbelow).2
  simp only [stepRequest]
  cases hproduce : ({ st with line := node.line } : State).produce node with
  | mk r st' =>
      rw [hproduce] at hconveys hproduced
      -- The line makes no difference to the numbers.
      have hstate : st.Conveys q st' := hconveys.after rfl rfl
      cases r with
      | error f => exact ⟨hstate, hstate.allKnown hstack⟩
      | ok x =>
          cases x with
          | frame f =>
              refine ⟨hstate, allKnown_cons.mpr ⟨hproduced _ rfl, hstate.allKnown ?_⟩⟩
              exact allKnown_append.mpr ⟨habove, allKnown_cons.mpr ⟨List.forall_mem_nil _, hbelow⟩⟩
          | value v =>
              have hv : v.Known q st'.heap := hproduced _ rfl
              dsimp only
              cases hw : st'.heap.finalize demand v with
              | error f => exact ⟨hstate, hstate.allKnown hstack⟩
              | ok w =>
                  have hknown := Heap.finalize_returns hstate.closed.holds.heap demand hv w hw
                  refine ⟨hstate, allKnown_append.mpr ⟨hstate.allKnown habove, ?_⟩⟩
                  exact (Conveys.push hstate hknown hbelow).stack

theorem stepFinish_conveys (hst : st.Closed q) {demand : Demand}
    (hstack : AllKnown q st.heap (values vs ++ .finish demand :: below)) :
    Conveys q st (stepFinish demand vs (values vs ++ .finish demand :: below) below st).2 := by
  have hsame : st.Conveys q st := .refl hst
  obtain ⟨hvs, hrest⟩ := allKnown_append.mp hstack
  unfold stepFinish
  split
  · rename_i v
    have hv : v.Known q st.heap := allKnown_values.mp hvs v List.mem_cons_self
    cases hw : st.heap.finalize demand v with
    | error f => exact ⟨hsame, hrest⟩
    | ok w =>
        exact .push hsame (Heap.finalize_returns hst.holds.heap demand hv w hw)
          (allKnown_cons.mp hrest).2
  · exact ⟨hsame, hstack⟩

theorem stepOperation_conveys (hst : st.Closed q) {op : Op} {args : List Node} {line : Nat}
    (hstack : AllKnown q st.heap (values vs ++ .operation op args line :: below))
    (hrefer : ∀ container key, vs.length = op.arity →
      op.plan vs { st with line := line } = .ok (.refer container key) →
      q (.reference ⟨st.nextId, container, key⟩)) :
    Conveys q st
      (stepOperation op args line vs (values vs ++ .operation op args line :: below) below st).2 := by
  have hsame : st.Conveys q st := .refl hst
  obtain ⟨hvs, hrest⟩ := allKnown_append.mp hstack
  have hbelow := (allKnown_cons.mp hrest).2
  unfold stepOperation
  split
  · split
    · exact ⟨hsame, allKnown_cons.mpr ⟨List.forall_mem_nil _, hstack⟩⟩
    · exact ⟨hsame, hstack⟩
  · split
    · rename_i hlen
      -- All arguments are there. The plan may yield what they are, what memory has, or a new reference.
      have hline : st.Conveys q { st with line := line } := .of_eq hst rfl rfl rfl rfl
      obtain ⟨hconveys, hvalue⟩ := State.apply_gives hline.closed (allKnown_values.mp hvs)
        fun container key hplan => hrefer container key hlen hplan
      cases happly : ({ st with line := line } : State).apply op vs with
      | mk r st' =>
          rw [happly] at hconveys hvalue
          have hstate : st.Conveys q st' := hconveys.after rfl rfl
          cases r with
          | error f => exact ⟨hstate, hstate.allKnown hbelow⟩
          | ok v => exact .push hstate (hvalue v rfl) hbelow
    · exact ⟨hsame, hstack⟩

theorem stepList_conveys (hst : st.Closed q) {items : List Node}
    (hstack : AllKnown q st.heap (values vs ++ .list items :: below)) :
    Conveys q st (stepList items vs (values vs ++ .list items :: below) below st).2 := by
  have hsame : st.Conveys q st := .refl hst
  obtain ⟨hvs, hrest⟩ := allKnown_append.mp hstack
  unfold stepList
  split
  · exact ⟨hsame, allKnown_cons.mpr ⟨List.forall_mem_nil _, hstack⟩⟩
  · split
    · have hitems : ∀ v ∈ vs.toArray, v.Known q st.heap :=
        fun v hv => allKnown_values.mp hvs v (List.mem_toArray.mp hv)
      obtain ⟨hconveys, hv⟩ := State.makeList_gives hst vs.toArray hitems
      exact .push hconveys hv (allKnown_cons.mp hrest).2
    · exact ⟨hsame, hstack⟩

theorem stepBlock_conveys (hst : st.Closed q) (statements : List Node)
    (hbelow : AllKnown q st.heap below) : Conveys q st (stepBlock statements below st).2 := by
  cases statements with
  | nil => exact .push (.refl hst) trivial hbelow
  | cons s rest =>
      refine ⟨.of_eq hst rfl rfl rfl rfl, allKnown_cons.mpr ⟨List.forall_mem_nil _, ?_⟩⟩
      exact allKnown_cons.mpr ⟨List.forall_mem_nil _, hbelow⟩

theorem stepControl_conveys (hst : st.Closed q) {line : Nat} {c : Control}
    (hstack : AllKnown q st.heap (values vs ++ .control line c :: below)) :
    Conveys q st (stepControl line c vs (values vs ++ .control line c :: below) below st).2 := by
  obtain ⟨hvs, hrest⟩ := allKnown_append.mp hstack
  obtain ⟨hc, hbelow⟩ := allKnown_cons.mp hrest
  have hline : st.Conveys q { st with line := line } := .of_eq hst rfl rfl rfl rfl
  unfold stepControl
  split
  · exact ⟨.refl hst, hstack⟩
  -- The value that the construct takes is one of those on the stack.
  · have hin : ∀ v ∈ vs.head?, v.Known q st.heap :=
      fun v hv => allKnown_values.mp hvs v (List.mem_of_mem_head? hv)
    obtain ⟨hcontrol, hconveys, hmove⟩ := (c.resumes vs.head? _).conveyed hline.closed hc hin
    generalize c.resume vs.head? { st with line := line } = r at *
    obtain ⟨c', st', move⟩ := r
    have hstate : st.Conveys q st' := hconveys.after rfl rfl
    have hhere : AllKnown q st'.heap (.control line c' :: below) :=
      allKnown_cons.mpr ⟨hcontrol, hstate.allKnown hbelow⟩
    cases move with
    | error f => exact ⟨hstate, hhere⟩
    | ok move =>
        cases move with
        | eval node demand => exact ⟨hstate, allKnown_cons.mpr ⟨List.forall_mem_nil _, hhere⟩⟩
        | run body => exact ⟨hstate, allKnown_cons.mpr ⟨List.forall_mem_nil _, hhere⟩⟩
        | done v => exact .push hstate hmove hbelow

end Work

/-- The work of the top frame makes nothing but what it is said to make. -/
theorem Closed.work {m : Machine} (hm : m.Closed q) (hq : ∀ v, m.Creates v → q v)
    (hpending : m.state.pending = none) : Conveys q m.state m.work.2 := by
  obtain ⟨stack, st⟩ := m
  obtain ⟨hstack, hst⟩ := hm
  rcases exists_values_append stack with ⟨vs, rfl⟩ | ⟨vs, f, below, hf, rfl⟩
  · rw [work_values]
    exact ⟨.refl hst, hstack⟩
  · rw [work_values_append vs f below st hf]
    cases f with
    | value v => cases hf
    | request node demand =>
        obtain ⟨line, form⟩ := node
        -- The three ways to make a function or a reference are the three cases of `Creates`.
        refine stepRequest_conveys hst hstack ?_ ?_
        · rintro params body rfl
          exact hq _ (.function hpending rfl)
        · rintro global names o key rfl hresolve
          exact hq _ (.path hpending rfl hresolve)
    | finish demand => exact stepFinish_conveys hst hstack
    | operation op args line =>
        refine stepOperation_conveys hst hstack fun container key hlen hplan => ?_
        exact hq _ (.operation hpending rfl hlen hplan)
    | list items => exact stepList_conveys hst hstack
    | block statements =>
        exact stepBlock_conveys hst statements (allKnown_cons.mp (allKnown_append.mp hstack).2).2
    | control line c => exact stepControl_conveys hst hstack

/-! ### Interrupts -/

theorem unwind_conveys {st' : State} (hst : st.Conveys q st') {i : Interrupt}
    (hi : i.exit.Carries (Value.Known q st'.heap)) {below : List Frame}
    (hbelow : AllKnown q st'.heap below) : Conveys q st (unwind i below st').2 := by
  cases below with
  | nil => exact ⟨hst, hbelow⟩
  | cons f below => exact ⟨hst.raised hi, hbelow⟩

theorem dispatch_conveys (hst : st.Closed q) {i : Interrupt}
    (hi : i.exit.Carries (Value.Known q st.heap)) {stack : List Frame}
    (hstack : AllKnown q st.heap stack) : Conveys q st (dispatch i stack st).2 := by
  have hsame : st.Conveys q st := .refl hst
  cases stack with
  | nil => exact ⟨hsame, hstack⟩
  | cons f below =>
      obtain ⟨hf, hbelow⟩ := allKnown_cons.mp hstack
      cases f with
      | control line c =>
          simp only [dispatch]
          cases hanswer : c.answer i st with
          | passed =>
              -- What the frame held is released first; the interrupt goes on with the value it carries.
              have hdiscard := Control.discard_conveys hst c
              exact unwind_conveys hdiscard (hi.imp fun _ hv => hdiscard.known hv)
                (hdiscard.allKnown hbelow)
          | handled c' st' =>
              obtain ⟨hconveys, hc'⟩ := (Control.handles hanswer).conveys hst hf hi
              exact ⟨hconveys, allKnown_cons.mpr ⟨hc', hconveys.allKnown hbelow⟩⟩
          | rejected f => exact ⟨hsame, hstack⟩
      | _ => exact unwind_conveys hsame hi hbelow

/-- A catchable fault is thrown as a new object. -/
theorem throwCatchable_conveys {m : Machine} (hm : m.Closed q) (cause : Catchable) :
    Conveys q m.state (throwCatchable cause m).2 := by
  obtain ⟨hmade, hpayload⟩ := State.exceptionPayload_gives hm.state cause
  have hstack := hmade.allKnown hm.stack
  simp only [throwCatchable, State.raise]
  split
  · exact ⟨hmade, hstack⟩
  · exact ⟨hmade.raised hpayload, hstack⟩

/-! ### Steps -/

/-- A step makes nothing but what it is said to make and the containers that take a number. The fault
that becomes an exception has taken none before, so there is one number for the whole step. -/
theorem Closed.step {m : Machine} (hm : m.Closed q) (hq : ∀ v, m.Creates v → q v) :
    Conveys q m.state m.step.2 := by
  rcases step_cases m with ⟨-, -, hstep⟩ | ⟨i, hi, hstep⟩ | ⟨hpending, -, hstep, -⟩ |
    ⟨hpending, -, cause, m', hm', -, hstep⟩
  · rw [hstep]
    exact ⟨.refl hm.state, hm.stack⟩
  · rw [hstep, finishStep_snd]
    -- The interrupt is taken out of the state before it is offered.
    have hclear : m.state.Conveys q { m.state with pending := none } :=
      .of_grows hm.state (.idle rfl fun _ => rfl) rfl
        ⟨hm.state.holds.heap, fun j hj => by cases hj⟩
    have hdispatch := dispatch_conveys hclear.closed (hm.state.holds.pending i hi) hm.stack
    exact ⟨hdispatch.state.after rfl rfl, hdispatch.stack⟩
  · rw [hstep, finishStep_snd]
    exact hm.work hq hpending
  · have hwork := hm.work hq hpending
    rw [hm'] at hwork
    obtain ⟨-, -, -, line, -, hstate⟩ := (work_error hm').catchable cause rfl
    have hthrow := throwCatchable_conveys hwork.closed cause
    rw [hstate] at hthrow
    rw [hstep, finishStep_snd]
    exact ⟨hthrow.state.after rfl rfl, hthrow.stack⟩

end Machine

end Stepwise
