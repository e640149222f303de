import Mathlib.Data.List.Induction
import Stepwise.Proofs.Safety

/-!
# `Stepwise.Proofs.References`: references never become values of a script

A reference stands for a slot: the variable that an assignment writes, or the place that an index selects.
Scripts never hold one. `Program.references_stay_on_stack` says so of every state that a run comes
through, for any script whatever: no list, no object and no scope has a reference in it, none is returned
or thrown, and an operation is only ever applied to arguments as it demands them, so a reference reaches it
exactly where it is to be written through.

Memory alone does not carry this through a step, since reading takes off one level and most demands
accept any kind. What does is where values stand on the stack. `Frame.Admits` says what may be produced
above a frame that has some values already, and a stack is laid if each of its frames is what the frames
below wait for (`Machine.Laid`). Whatever removes frames from the top leaves a stack laid, so nothing is
lost when an interrupt unwinds it or a fault ends the run, and nothing is asked of the script.

What is asked of the values in memory besides is left open: `Machine.Keeps p` is for any property `p` that
memory can ask of its values, and a step keeps it if the functions that the script makes have it
(`Machine.Keeps.step`). That the values are no references is the least of these properties.
-/

set_option autoImplicit false

namespace Stepwise

/-! ### Values and frames -/

namespace Value

/-- A value that is no reference. -/
def Plain (v : Value) : Prop :=
  v.kind ≠ .reference

theorem durable_plain : Durable Plain where
  inert v hv := by
    cases v with
    | reference r => exact hv.elim
    | _ => exact fun hkind => by cases hkind
  reference r hr := hr rfl

/-- A value as a place on the stack takes it: without a demand any that may be shown, with one a value
that serves it and is as wanted. -/
def Suits (p : Value → Prop) (v : Value) (slot : Option Demand) : Prop :=
  v.Shown p ∧ ∀ d ∈ slot, v.Serves p d ∧ v.meets d.want = true

theorem Shown.suits_none {p : Value → Prop} {v : Value} (hv : v.Shown p) : v.Suits p none :=
  ⟨hv, fun d hd => by cases hd⟩

theorem Suits.of_serves {p : Value → Prop} {v : Value} {d : Demand} (hv : v.Serves p d)
    (hmeets : v.meets d.want = true) : v.Suits p (some d) :=
  ⟨hv.1, fun e he => by cases he; exact ⟨hv, hmeets⟩⟩

end Value

open Value (Plain Durable)

/-- The values that a construct keeps have a property. -/
def Control.Keeps (p : Value → Prop) : Control → Prop
  | .forEach (.iterate _ left) _ _ _ _ => ∀ v ∈ left, p v
  | .call (.args f) _ _ => p (.function f)
  | .call (.body (some v)) _ _ => p v
  | _ => True

namespace Frame

/-- The values that a frame keeps have a property. -/
def Keeps (p : Value → Prop) : Frame → Prop
  | .control _ c => c.Keeps p
  | _ => True

/-- What may be produced above a frame when it has `k` values. An operation takes one value for each of
its demands, in their order, and a list takes values that were read; a request takes none. -/
def Admits : Frame → Nat → Option Demand → Prop
  | .operation op _ _, k, slot => ∃ d, slot = some d ∧ op.demands[k]? = some d
  | .list _, _, slot => slot = some .any
  | .value _, _, _ | .request _ _, _, _ => False
  | _, _, _ => True

/-- What stands in a place of the stack: a value that suits it, or a frame whose value will. -/
def Fills (p : Value → Prop) : Frame → Option Demand → Prop
  | .value v, slot => v.Suits p slot
  | f, slot => f.Keeps p ∧ f.result = slot

theorem fills_iff {p : Value → Prop} {f : Frame} (hf : f.isValue = false) {slot : Option Demand} :
    f.Fills p slot ↔ f.Keeps p ∧ f.result = slot := by
  cases f with
  | value v => cases hf
  | _ => exact Iff.rfl

end Frame

namespace Machine

open Stepwise.Frame (values)

/-! ### Laid stacks -/

/-- The topmost frame that is no value admits this above the values that it has. -/
def Awaits (below : List Frame) (slot : Option Demand) : Prop :=
  ∀ vs f rest, takeValues [] below = (vs, f :: rest) → f.Admits vs.length slot

/-- Every frame is what the frames below it wait for. -/
def Laid (p : Value → Prop) : List Frame → Prop
  | [] => True
  | f :: below => (∃ slot, Awaits below slot ∧ f.Fills p slot) ∧ Laid p below

section Stacks

variable {p : Value → Prop} {f : Frame} {v : Value} {vs : List Value} {below : List Frame}
  {slot : Option Demand}

theorem awaits_iff (hf : f.isValue = false) :
    Awaits (values vs ++ f :: below) slot ↔ f.Admits vs.length slot := by
  have htake := takeValues_values_cons vs below hf
  constructor
  · intro h
    exact h vs f below htake
  · intro h vs' f' below' htake'
    rw [htake] at htake'
    cases htake'
    exact h

/-- A frame without values on top waits for what it admits first. -/
theorem awaits_cons (hf : f.isValue = false) (hadmits : f.Admits 0 slot) :
    Awaits (f :: below) slot :=
  show Awaits (values [] ++ f :: below) slot from (awaits_iff hf).mpr hadmits

theorem Laid.push (h : Laid p below) (hf : f.isValue = false) (hkeeps : f.Keeps p)
    (hawaits : Awaits below f.result) : Laid p (f :: below) :=
  ⟨⟨f.result, hawaits, (Frame.fills_iff hf).mpr ⟨hkeeps, rfl⟩⟩, h⟩

theorem Laid.produce (h : Laid p below) (hawaits : Awaits below slot) (hv : v.Suits p slot) :
    Laid p (.value v :: below) :=
  ⟨⟨slot, hawaits, hv⟩, h⟩

/-- What is below a frame waits for its value. -/
theorem Laid.awaits (h : Laid p (f :: below)) (hf : f.isValue = false) : Awaits below f.result := by
  obtain ⟨⟨slot, hawaits, hfills⟩, -⟩ := h
  rw [((Frame.fills_iff hf).mp hfills).2]
  exact hawaits

theorem Laid.keeps (h : Laid p (f :: below)) (hf : f.isValue = false) : f.Keeps p := by
  obtain ⟨⟨slot, -, hfills⟩, -⟩ := h
  exact ((Frame.fills_iff hf).mp hfills).1

/-- What is below the values on top. -/
theorem Laid.of_values {rest : List Frame} (h : Laid p (values vs ++ rest)) : Laid p rest := by
  induction vs using List.reverseRecOn with
  | nil => exact h
  | append_singleton vs v ih =>
      rw [Frame.values_concat, List.cons_append] at h
      exact ih h.2

/-- Each value above a frame is one that the frame admits in its place. -/
theorem Laid.admitted (h : Laid p (values vs ++ f :: below)) (hf : f.isValue = false) {i : Nat}
    (hi : vs[i]? = some v) : ∃ slot, f.Admits i slot ∧ v.Suits p slot := by
  -- The last value is on top, so the values come off from the end.
  induction vs using List.reverseRecOn with
  | nil => cases hi
  | append_singleton vs w ih =>
      rw [Frame.values_concat, List.cons_append] at h
      obtain ⟨⟨slot, hawaits, hw⟩, hrest⟩ := h
      rw [List.getElem?_append] at hi
      split at hi
      · exact ih hrest hi
      · rename_i hge
        obtain rfl : i = vs.length := by
          have hlt := (List.getElem?_eq_some_iff.mp hi).1
          simp only [List.length_singleton] at hlt
          omega
        have hv : w = v := by simpa using hi
        subst hv
        exact ⟨slot, (awaits_iff hf).mp hawaits, hw⟩

/-- Nothing is ever produced above a request. -/
theorem Laid.nil_of_request {node : Node} {demand : Demand}
    (h : Laid p (values vs ++ .request node demand :: below)) : vs = [] := by
  cases hvs : vs[0]? with
  | none => simpa using hvs
  | some v =>
      obtain ⟨slot, hadmits, -⟩ := h.admitted rfl hvs
      exact hadmits.elim

end Stacks

end Machine

/-! ### Constructs -/

/-- If a construct is done, what it yields has a property. -/
def Move.Yields (p : Value → Prop) : Except Fault Move → Prop
  | .ok (.done v) => p v
  | _ => True

/-- A construct that goes on: what it keeps and what memory holds has a property, and so has what it
yields. -/
structure Tidy (p : Value → Prop) (r : Resumed) : Prop where
  control : r.control.Keeps p
  state : r.state.Holds p
  move : Move.Yields p r.move

namespace Control

variable {p : Value → Prop} {st : State}

section Resuming

variable {incoming : Option Value} {c c' : Control}

theorem afterFault_keeps (hc : c.Keeps p) : c.afterFault.Keeps p := by
  cases c with
  | forEach phase ran target source body => trivial
  | call phase callee args => trivial
  | _ => exact hc

/-- The elements that a `for` goes through come out of a list, which memory held. -/
theorem Remains.keeps {phase : ForPhase} {ran : Bool} {target source : Node} {body : Block} {slot : Reference}
    {left : List Value} (h : Remains incoming st.heap phase slot left)
    (hc : (forEach phase ran target source body).Keeps p) (hst : st.Holds p) : ∀ v ∈ left, p v := by
  cases h with
  | @listed slot r hin => exact fun v hv => hst.heap.items r v (Array.mem_toList_iff.mp hv)
  | left => exact hc

/-- Of what comes in a construct keeps a function at most. -/
theorem Asks.keeps {node : Node} {demand : Demand} (h : Asks incoming st.heap c c' node demand)
    (hin : ∀ v ∈ incoming, v.Shown p) : c'.Keeps p := by
  cases h with
  | @arguments callee args f hf => exact hin (.function f) hf
  | _ => trivial

/-- Continuing a construct with a value that the stack may show. -/
theorem Resumes.tidy {r : Resumed} (h : Resumes incoming st c r) (hp : Durable p) (hst : st.Holds p)
    (hc : c.Keeps p) (hin : ∀ v ∈ incoming, v.Shown p) : Tidy p r := by
  cases h with
  | impeded _ => exact ⟨afterFault_keeps hc, hst, trivial⟩
  | asks hasks => exact ⟨hasks.keeps hin, hst, trivial⟩
  | starts hstarts => cases hstarts <;> exact ⟨trivial, hst, trivial⟩
  | settles hsettles => cases hsettles <;> exact ⟨trivial, hst, hp.inert _ trivial⟩
  | element hleft _ =>
      obtain ⟨hv, hrest⟩ := List.forall_mem_cons.mp (hleft.keeps hc hst)
      exact ⟨hrest, ⟨hst.heap.put _ hv, hst.pending⟩, trivial⟩
  | refused _ _ => exact ⟨afterFault_keeps hc, hst.refused, trivial⟩
  | @called callee args f r _ _ _ =>
      have hvalues : ∀ v ∈ (st.heap.items r).toList, p v :=
        fun v hv => hst.heap.items r v (Array.mem_toList_iff.mp hv)
      exact ⟨trivial, ⟨hst.entered.heap.bind st.newScope f.params hvalues, hst.pending⟩, trivial⟩
  | @returned callee args returned =>
      -- What the body has returned was kept since, and without a return there is null.
      have hresult : p (returned.getD .null) := by
        cases returned with
        | none => exact hp.inert _ trivial
        | some v => exact hc
      exact ⟨trivial, ⟨hst.heap, hst.pending⟩, hresult⟩
  | opened _ => exact ⟨trivial, hst.entered, trivial⟩
  | closed => exact ⟨trivial, ⟨hst.heap, hst.pending⟩, hp.inert _ trivial⟩
  | guarded => exact ⟨trivial, ⟨hst.heap, hst.pending⟩, trivial⟩
  | unguarded => exact ⟨trivial, ⟨hst.heap, hst.pending⟩, hp.inert _ trivial⟩

end Resuming

/-- A construct that takes an interrupt keeps its value, or binds it. -/
theorem Handles.keeps {c c' : Control} {exit : Exit} {st' : State} (h : Handles st c exit c' st')
    (hc : c.Keeps p) (hexit : exit.Carries p) (hst : st.Holds p) : c'.Keeps p ∧ st'.Holds p := by
  cases h with
  | continuedFor hphase =>
      rcases hphase with ⟨rfl, -⟩ | ⟨rfl, -⟩
      · exact ⟨hc, hst⟩
      · exact ⟨trivial, hst⟩
  | returnedCall => exact ⟨hexit, hst⟩
  | thrown => exact ⟨trivial, hst.heap.objectSet _ _ hexit, hst.pending⟩
  | _ => exact ⟨trivial, hst⟩

theorem discard_holds (hst : st.Holds p) (c : Control) : (c.discard st).Holds p := by
  unfold discard
  split
  · exact ⟨hst.heap, hst.pending⟩
  · exact ⟨hst.heap, hst.pending⟩
  · exact ⟨hst.heap, hst.pending⟩
  · exact hst

end Control

/-! ### Nodes -/

/-- What a node gives at once: a value that may be shown, or a frame that asks nothing of what is below
it. -/
def Produced.Tidy (p : Value → Prop) : Produced → Prop
  | .value v => v.Shown p
  | .frame f => f.isValue = false ∧ f.Keeps p ∧ f.result = none

/-- The function that a node makes, if it makes one, has a property. -/
def Node.Makes (p : Value → Prop) (node : Node) : Prop :=
  ∀ id params body, node.form = .function params body → p (.function ⟨id, params, body⟩)

/-- Starting a node: of all nodes only a path makes a reference, and it is one to a name in an object. -/
theorem State.produce_tidy {p : Value → Prop} (hp : Durable p) {st : State} (hst : st.Holds p)
    {node : Node} (hmakes : node.Makes p) :
    (st.produce node).2.Holds p ∧ ∀ x, (st.produce node).1 = .ok x → x.Tidy p := by
  have hinert (v : Value) (hv : v.Inert) : Produced.Tidy p (.value v) := hp.shown (hp.inert v hv)
  obtain ⟨line, form⟩ := node
  cases form with
  | path global names =>
      simp only [State.produce, Node.form]
      cases hr : st.resolve global names with
      | mk r st' =>
          simp only [State.resolve] at hr
          split at hr <;> cases hr
          · exact ⟨hst, fun x hx => by cases hx⟩
          -- The key of the new reference is a name, and its container an object.
          · exact ⟨⟨hst.heap, hst.pending⟩, fun x hx => by cases hx; exact trivial⟩
  | list items =>
      cases items with
      | nil =>
          exact ⟨hst.makeList fun v hv => by simp at hv, fun x hx => by cases hx; exact hinert _ trivial⟩
      | cons item rest => exact ⟨hst, fun x hx => by cases hx; exact ⟨rfl, trivial, rfl⟩⟩
  | function params body =>
      refine ⟨⟨hst.heap, hst.pending⟩, fun x hx => ?_⟩
      cases hx
      exact hp.shown (hmakes st.nextId params body rfl)
  | null => exact ⟨hst, fun x hx => by cases hx; exact hinert _ trivial⟩
  | bool b => exact ⟨hst, fun x hx => by cases hx; exact hinert _ trivial⟩
  | int n => exact ⟨hst, fun x hx => by cases hx; exact hinert _ trivial⟩
  | float y => exact ⟨hst, fun x hx => by cases hx; exact hinert _ trivial⟩
  | str s => exact ⟨hst, fun x hx => by cases hx; exact hinert _ trivial⟩
  | _ => exact ⟨hst, fun x hx => by cases hx; exact ⟨rfl, trivial, rfl⟩⟩

namespace Machine

open Stepwise.Frame (values)

/-! ### Work -/

/-- The invariant of a run: the stack is laid, and memory holds only values with a property. -/
structure Keeps (p : Value → Prop) (m : Machine) : Prop where
  laid : Laid p m.stack
  state : m.state.Holds p

/-- The node that is to be evaluated next makes a function with a property, if it makes one. -/
def Makes (p : Value → Prop) (m : Machine) : Prop :=
  ∀ vs node demand below, m.stack = values vs ++ .request node demand :: below → node.Makes p

section Work

variable {p : Value → Prop} {st : State} {vs : List Value} {below : List Frame}

/-- A value that is made to fit the demand of a place suits the place. -/
theorem finalize_suits (hp : Durable p) (hst : st.Holds p) {demand : Demand} {v w : Value} (hv : v.Shown p)
    (hw : st.heap.finalize demand v = .ok w) : w.Suits p (some demand) := by
  obtain ⟨hserves, hmeets⟩ :=
    (Heap.finalize_serves hp hst.heap demand hv).of_eq_ok hw
  exact .of_serves hserves hmeets

theorem stepRequest_keeps (hp : Durable p) (hst : st.Holds p) {node : Node} {demand : Demand}
    (hmakes : node.Makes p) (h : Laid p (values vs ++ .request node demand :: below)) :
    Keeps p (stepRequest node demand (values vs) below st).2 := by
  have hrest : Laid p (.request node demand :: below) := h.of_values
  have hawaits : Awaits below (some demand) := hrest.awaits rfl
  obtain rfl : vs = [] := h.nil_of_request
  have hline : State.Holds p { st with line := node.line } := ⟨hst.heap, hst.pending⟩
  obtain ⟨hst', hproduced⟩ := State.produce_tidy hp hline hmakes
  simp only [stepRequest, Frame.values_nil, List.nil_append]
  cases hproduce : ({ st with line := node.line } : State).produce node with
  | mk r st' =>
      rw [hproduce] at hst' hproduced
      cases r with
      | error f => exact ⟨hrest, hst'⟩
      | ok x =>
          cases x with
          | frame f =>
              -- The demand moves to the finish below, which takes any value.
              obtain ⟨hf, hkeeps, hresult⟩ := hproduced _ rfl
              have hfinish : Laid p (.finish demand :: below) := hrest.2.push rfl trivial hawaits
              refine ⟨hfinish.push hf hkeeps ?_, hst'⟩
              rw [hresult]
              exact awaits_cons rfl trivial
          | value v =>
              have hv : v.Shown p := hproduced _ rfl
              dsimp only
              cases hw : st'.heap.finalize demand v with
              | error f => exact ⟨hrest, hst'⟩
              | ok w => exact ⟨hrest.2.produce hawaits (finalize_suits hp hst' hv hw), hst'⟩

theorem stepFinish_keeps (hp : Durable p) (hst : st.Holds p) {demand : Demand}
    (h : Laid p (values vs ++ .finish demand :: below)) :
    Keeps p (stepFinish demand vs (values vs ++ .finish demand :: below) below st).2 := by
  have hrest : Laid p (.finish demand :: below) := h.of_values
  unfold stepFinish
  split
  · rename_i v
    obtain ⟨slot, -, hv, -⟩ := h.admitted rfl (show [v][0]? = some v from rfl)
    cases hw : st.heap.finalize demand v with
    | error f => exact ⟨hrest, hst⟩
    | ok w => exact ⟨hrest.2.produce (hrest.awaits rfl) (finalize_suits hp hst hv hw), hst⟩
  · exact ⟨h, hst⟩

/-- The values above an operation are the first of its arguments, as it demands them. -/
theorem Laid.arguments {op : Op} {args : List Node} {line : Nat}
    (h : Laid p (values vs ++ .operation op args line :: below)) {i : Nat} {v : Value}
    (hi : vs[i]? = some v) :
    ∃ d, op.demands[i]? = some d ∧ v.Serves p d ∧ v.meets d.want = true := by
  obtain ⟨slot, ⟨d, rfl, hd⟩, -, hv⟩ := h.admitted rfl hi
  exact ⟨d, hd, hv d rfl⟩

theorem stepOperation_keeps (hp : Durable p) (hst : st.Holds p) (hpending : st.pending = none) {op : Op}
    {args : List Node} {line : Nat} (h : Laid p (values vs ++ .operation op args line :: below)) :
    Keeps p (stepOperation op args line vs (values vs ++ .operation op args line :: below) below st).2 := by
  have hrest : Laid p (.operation op args line :: below) := h.of_values
  unfold stepOperation
  split
  · split
    · rename_i demand _ hdemand
      have hawaits : Awaits (values vs ++ .operation op args line :: below) (some demand) :=
        (awaits_iff rfl).mpr ⟨demand, rfl, hdemand⟩
      exact ⟨h.push rfl trivial hawaits, hst⟩
    · exact ⟨h, hst⟩
  · split
    · rename_i hlen
      -- Each argument was admitted for the demand in its place.
      have hargs : ServesEach p vs op.demands := by
        intro i v d hv hd
        obtain ⟨e, he, hserves, -⟩ := h.arguments hv
        rw [hd] at he
        cases he
        exact hserves
      have hline : State.Holds p { st with line := line } := ⟨hst.heap, hst.pending⟩
      obtain ⟨hsafe, hst'⟩ := State.apply_keeps hp hline hpending hargs hlen
      cases happly : ({ st with line := line } : State).apply op vs with
      | mk r st' =>
          rw [happly] at hsafe hst'
          cases hsafe with
          | error hf => exact ⟨hrest.2, hst'⟩
          | ok hv => exact ⟨hrest.2.produce (hrest.awaits rfl) hv.suits_none, hst'⟩
    · exact ⟨h, hst⟩

theorem stepList_keeps (hp : Durable p) (hst : st.Holds p) {items : List Node}
    (h : Laid p (values vs ++ .list items :: below)) :
    Keeps p (stepList items vs (values vs ++ .list items :: below) below st).2 := by
  have hrest : Laid p (.list items :: below) := h.of_values
  unfold stepList
  split
  · exact ⟨h.push rfl trivial ((awaits_iff rfl).mpr rfl), hst⟩
  · split
    · -- The elements were read, so a list can hold them.
      have helements : ∀ v ∈ vs.toArray, p v := by
        intro v hv
        obtain ⟨i, hi⟩ := List.mem_iff_getElem?.mp (List.mem_toArray.mp hv)
        obtain ⟨slot, rfl, -, hsuits⟩ := h.admitted rfl hi
        exact (hsuits .any rfl).1.2 rfl
      have hv : p (st.makeList vs.toArray).1 := hp.inert _ trivial
      exact ⟨hrest.2.produce (hrest.awaits rfl) (hp.shown hv).suits_none, hst.makeList helements⟩
    · exact ⟨h, hst⟩

theorem stepBlock_keeps (hp : Durable p) (hst : st.Holds p) {statements : List Node}
    (h : Laid p (.block statements :: below)) : Keeps p (stepBlock statements below st).2 := by
  have hawaits : Awaits below none := h.awaits rfl
  cases statements with
  | nil =>
      have hnull : p .null := hp.inert _ trivial
      exact ⟨h.2.produce hawaits (hp.shown hnull).suits_none, hst⟩
  | cons s rest =>
      have hblock : Laid p (.block rest :: below) := h.2.push rfl trivial hawaits
      exact ⟨hblock.push rfl trivial (awaits_cons rfl trivial), hst.heap, hst.pending⟩

theorem stepControl_keeps (hp : Durable p) (hst : st.Holds p) {line : Nat} {c : Control}
    (h : Laid p (values vs ++ .control line c :: below)) :
    Keeps p (stepControl line c vs (values vs ++ .control line c :: below) below st).2 := by
  have hrest : Laid p (.control line c :: below) := h.of_values
  have hawaits : Awaits below none := hrest.awaits rfl
  have hline : State.Holds p { st with line := line } := ⟨hst.heap, hst.pending⟩
  unfold stepControl
  split
  · exact ⟨h, hst⟩
  -- The value that came in is gone: a construct keeps elements of lists, the function that it calls and
  -- returned values only.
  · have hin : ∀ v ∈ vs.head?, v.Shown p := by
      intro v hv
      rw [List.head?_eq_getElem?] at hv
      obtain ⟨slot, -, hshown, -⟩ := h.admitted rfl hv
      exact hshown
    obtain ⟨hcontrol, hstate, hmove⟩ := (c.resumes vs.head? _).tidy hp hline (hrest.keeps rfl) hin
    generalize c.resume vs.head? { st with line := line } = r at *
    obtain ⟨c', st', move⟩ := r
    have hhere : Laid p (.control line c' :: below) := hrest.2.push rfl hcontrol hawaits
    cases move with
    | error f => exact ⟨hhere, hstate⟩
    | ok move =>
        cases move with
        | eval node demand => exact ⟨hhere.push rfl trivial (awaits_cons rfl trivial), hstate⟩
        | run body => exact ⟨hhere.push rfl trivial (awaits_cons rfl trivial), hstate⟩
        | done v =>
            have hv : p v := hmove
            exact ⟨hrest.2.produce hawaits (hp.shown hv).suits_none, hstate⟩

end Work

/-- The work of the top frame keeps the invariant. -/
theorem Keeps.work {p : Value → Prop} (hp : Durable p) {m : Machine} (hm : m.Keeps p) (hmakes : m.Makes p)
    (hpending : m.state.pending = none) : m.work.2.Keeps p := by
  obtain ⟨stack, st⟩ := m
  obtain ⟨hlaid, hst⟩ := hm
  rcases exists_values_append stack with ⟨vs, rfl⟩ | ⟨vs, f, below, hf, rfl⟩
  · rw [work_values]
    exact ⟨hlaid, hst⟩
  · rw [work_values_append vs f below st hf]
    cases f with
    | value v => cases hf
    | request node demand => exact stepRequest_keeps hp hst (hmakes vs node demand below rfl) hlaid
    | finish demand => exact stepFinish_keeps hp hst hlaid
    | operation op args line => exact stepOperation_keeps hp hst hpending hlaid
    | list items => exact stepList_keeps hp hst hlaid
    | block statements => exact stepBlock_keeps hp hst hlaid.of_values
    | control line c => exact stepControl_keeps hp hst hlaid

/-! ### Interrupts -/

section Interrupts

variable {p : Value → Prop} {st : State} {i : Interrupt}

theorem unwind_keeps (hst : st.Holds p) (hi : i.exit.Carries p) {below : List Frame}
    (h : Laid p below) : Keeps p (unwind i below st).2 := by
  cases below with
  | nil => exact ⟨trivial, hst⟩
  | cons f below => exact ⟨h, hst.heap, fun j hj => by cases hj; exact hi⟩

theorem dispatch_keeps (hst : st.Holds p) (hi : i.exit.Carries p) {stack : List Frame}
    (h : Laid p stack) : Keeps p (dispatch i stack st).2 := by
  cases stack with
  | nil => exact ⟨trivial, hst⟩
  | cons f below =>
      cases f with
      | control line c =>
          simp only [dispatch]
          cases hanswer : c.answer i st with
          | passed => exact unwind_keeps (Control.discard_holds hst c) hi h.2
          | handled c' st' =>
              -- The construct stays in its place, so what is below still waits for it.
              obtain ⟨hc', hst'⟩ := (Control.handles hanswer).keeps (h.keeps rfl) hi hst
              exact ⟨h.2.push rfl hc' (h.awaits rfl), hst'⟩
          | rejected f => exact ⟨h, hst⟩
      | _ => exact unwind_keeps hst hi h.2

/-- A catchable fault is thrown as an object. -/
theorem throwCatchable_keeps (hp : Durable p) {m : Machine} (hm : m.Keeps p) (cause : Catchable) :
    Keeps p (throwCatchable cause m).2 := by
  have hmade := hm.state.exceptionPayload hp cause
  simp only [throwCatchable, State.raise]
  split
  · exact ⟨hm.laid, hmade⟩
  · exact ⟨hm.laid, hmade.heap, fun j hj => by cases hj; exact hp.inert _ trivial⟩

end Interrupts

/-! ### Runs -/

/-- Every step keeps the invariant, also one that fails. -/
theorem Keeps.step {p : Value → Prop} (hp : Durable p) {m : Machine} (hm : m.Keeps p)
    (hmakes : m.Makes p) : m.step.2.Keeps p := by
  rcases step_cases m with ⟨-, -, hstep⟩ | ⟨i, hi, hstep⟩ | ⟨hpending, -, hstep, -⟩ |
    ⟨hpending, -, cause, m', hm', -, hstep⟩
  · rw [hstep]
    exact hm
  · rw [hstep, finishStep_snd]
    -- The interrupt is taken out of the state before it is offered.
    have hclear : State.Holds p { m.state with pending := none } :=
      ⟨hm.state.heap, fun j hj => by cases hj⟩
    exact dispatch_keeps hclear (hm.state.pending i hi) hm.laid
  · rw [hstep, finishStep_snd]
    exact hm.work hp hmakes hpending
  · have hwork := hm.work hp hmakes hpending
    rw [hm'] at hwork
    rw [hstep, finishStep_snd]
    exact throwCatchable_keeps hp hwork cause

/-- A machine that is about to run a script, whatever script it is. -/
theorem keeps_start (p : Value → Prop) (root : Block) (limit : Nat) (seed : Seed) (sink : Sink) :
    Keeps p (start root limit seed sink) where
  laid := Laid.push (f := .block root.statements) trivial rfl trivial fun vs f rest h => by cases h
  state :=
    { heap := Heap.holds_empty.newObject 1 fun e he => by cases he
      pending := fun i hi => by cases hi }

/-- No reference is in memory, and the stack is laid. -/
abbrev Clean (m : Machine) : Prop :=
  m.Keeps Plain

theorem clean_after (root : Block) (limit : Nat) (seed : Seed) (sink : Sink) (n : Nat) :
    Clean ((start root limit seed sink).after n) := by
  induction n with
  | zero => exact keeps_start Plain root limit seed sink
  | succ n ih =>
      -- Whatever function a script makes, it is no reference.
      have hmakes : Makes Plain ((start root limit seed sink).after n) :=
        fun _ _ _ _ _ _ _ _ _ hkind => by cases hkind
      exact ih.step Value.durable_plain hmakes

end Machine

/-- A value that is wanted as a reference is one. -/
theorem Value.exists_reference {v : Value} (hv : v.meets .reference = true) :
    ∃ r, v = .reference r := by
  cases v with
  | reference r => exact ⟨r, rfl⟩
  | _ => cases hv

/-- An operation that asks for no more arguments has them all, as it demands them. -/
theorem Machine.Laid.complete {p : Value → Prop} {vs : List Value} {op : Op} {nodes : List Node}
    {line : Nat} {below : List Frame} (h : Laid p (Frame.values vs ++ .operation op nodes line :: below))
    (hle : op.arity ≤ vs.length) :
    vs.length = op.arity ∧
      ∀ (i : Nat) (d : Demand), op.demands[i]? = some d →
        ∃ v, vs[i]? = some v ∧ v.Serves p d ∧ v.meets d.want = true := by
  have hlen : vs.length = op.arity := by
    -- A value too many would have no demand.
    by_contra hne
    have hlt : op.arity < vs.length := by omega
    obtain ⟨d, hd, -⟩ := h.arguments (List.getElem?_eq_getElem hlt)
    have hbound : op.arity < op.demands.length := (List.getElem?_eq_some_iff.mp hd).1
    exact Nat.lt_irrefl _ hbound
  refine ⟨hlen, fun i d hd => ?_⟩
  have hi : i < vs.length := by
    rw [hlen]
    exact (List.getElem?_eq_some_iff.mp hd).1
  have hv := List.getElem?_eq_getElem hi
  obtain ⟨e, he, hserves⟩ := h.arguments hv
  rw [hd] at he
  cases he
  exact ⟨vs[i], hv, hserves⟩

/-- References never become values of a script. However often the program of a script is advanced, be the
script well-formed or not,

- no element of a list, no field of an object or a scope and no value that is being returned or
  thrown is a reference;
- when an operation is applied, it has as many arguments as it takes; each is as wanted, each that is to
  be read is no reference, and each that is to be written through is a reference to a name in an object or
  to an index in a list. -/
theorem Program.references_stay_on_stack (root : Block) (settings : Settings) (source : Option String)
    (n : Nat) :
    let m := (Program.after ⟨settings.machine root, source, none⟩ n).machine
    (∀ r, ∀ v ∈ m.state.heap.items r, v.kind ≠ .reference) ∧
    (∀ r, ∀ e ∈ (m.state.heap.fields r).entries, e.2.kind ≠ .reference) ∧
    (∀ i ∈ m.state.pending, ∀ v, i.exit = .returned v ∨ i.exit = .thrown v → v.kind ≠ .reference) ∧
    ∀ vs op nodes line below,
      Machine.takeValues [] m.stack = (vs, .operation op nodes line :: below) → op.arity ≤ vs.length →
      m.work =
        (match ({ m.state with line := line } : State).apply op vs with
          | (.ok v, st) => (.ok (), ⟨.value v :: below, st⟩)
          | (.error f, st) => (.error f, ⟨below, st⟩)) ∧
      vs.length = op.arity ∧
      ∀ (i : Nat) (d : Demand), op.demands[i]? = some d →
        ∃ v, vs[i]? = some v ∧ v.meets d.want = true ∧ (d.deref = true → v.kind ≠ .reference) ∧
          (d = .target → ∃ r, v = .reference r ∧ r.Paired) := by
  intro m
  -- The program is at a machine that its start comes to.
  have hm : m.Clean := by
    obtain ⟨k, hk⟩ := exists_machine_eq_after ⟨settings.machine root, source, none⟩ n
    show Machine.Clean (Program.after ⟨settings.machine root, source, none⟩ n).machine
    rw [hk]
    exact Machine.clean_after root settings.maxCallDepth settings.seed settings.sink k
  refine ⟨hm.state.heap.items, hm.state.heap.fields, ?_, ?_⟩
  · intro i hi v hv
    have hcarries := hm.state.pending i hi
    rcases hv with hv | hv
    · rw [hv] at hcarries
      exact hcarries
    · rw [hv] at hcarries
      exact hcarries
  · intro vs op nodes line below htake hle
    generalize m = machine at hm htake ⊢
    obtain ⟨stack, st⟩ := machine
    obtain rfl := Machine.eq_of_takeValues htake
    -- The arguments of the operation are those that its demands ask for, and there are no more of them.
    obtain ⟨hlen, hargs⟩ := hm.laid.complete hle
    refine ⟨?_, hlen, fun i d hd => ?_⟩
    · rw [Machine.work_values_append vs _ below st rfl]
      exact (if_neg (Nat.not_lt.mpr hle)).trans (if_pos hlen)
    · obtain ⟨v, hv, hserves, hmeets⟩ := hargs i d hd
      refine ⟨v, hv, hmeets, hserves.2, ?_⟩
      rintro rfl
      obtain ⟨r, rfl⟩ := Value.exists_reference hmeets
      exact ⟨r, rfl, hserves.1⟩

/-- An assignment, when it is applied: its first argument is the variable and not what it holds. -/
theorem Program.references_of_assignment :
    let nodes : List Node := [.mk 0 (.path false ["x"]), .mk 0 (.int 1)]
    let root : Block := .mk 0 [.mk 0 (.op .assign nodes)]
    let m := (Program.after ⟨({} : Settings).machine root, none, none⟩ 6).machine
    ∃ r below, Machine.takeValues [] m.stack
        = ([.reference r, .int 1], .operation .assign nodes 0 :: below) ∧ r.Paired := by
  intro nodes root m
  obtain ⟨r, below, htake⟩ : ∃ r below, Machine.takeValues [] m.stack
      = ([.reference r, .int 1], .operation .assign nodes 0 :: below) := ⟨_, _, rfl⟩
  obtain ⟨-, -, hargs⟩ :=
    (references_stay_on_stack root {} none 6).2.2.2 _ _ _ _ _ htake (Nat.le_refl 2)
  obtain ⟨v, hv, -, -, htarget⟩ := hargs 0 .target rfl
  obtain ⟨q, rfl, hq⟩ := htarget rfl
  cases hv
  exact ⟨r, below, htake, hq⟩

end Stepwise
