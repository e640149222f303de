import Stepwise.Proofs.Shape

/-!
# `Stepwise.Proofs.Preservation`: every step keeps the shape of the stack

`Machine.Sound` is the invariant of a run: every frame and the state are sound, the stack is loose, and
it is tight while no interrupt is under way. `Machine.Sound.step` says that a step keeps it and has no internal
fault. A step is the work of one frame or the offer of an interrupt to one, so there is one lemma for each
kind of frame; those for constructs rest on `Control.Resumes.goes` and `Control.Handles.sound`, which say
what a construct asks for next and that it can go on with that.
-/

set_option autoImplicit false

namespace Stepwise

/-! ### Constructs -/

/-- What a construct does next: it asks for a value that it needs, it runs a block and needs no value, or
it yields a sound value. -/
def Move.Follows (c : Control) : Move → Prop
  | .eval node demand => node.isWellFormed = true ∧ c.needs = some demand
  | .run body => body.isWellFormed = true ∧ c.needs = none
  | .done v => v.Sound

/-- A construct that goes on stays sound and so does the state, and no interrupt is set off or lost. -/
structure Goes (st : State) (r : Resumed) : Prop where
  control : r.control.Sound
  state : r.state.Sound
  pending : r.state.pending = st.pending
  move : Safe (Move.Follows r.control) r.move

/-- A construct that goes on and leaves the state as it is. -/
theorem Goes.here {st : State} {c : Control} {move : Except Fault Move} (hst : st.Sound)
    (hc : c.Sound) (hmove : Safe (Move.Follows c) move) : Goes st ⟨c, st, move⟩ :=
  ⟨hc, hst, rfl, hmove⟩

namespace Control

variable {st : State}

section Resuming

variable {incoming : Option Value} {c c' : Control} {f : Fault}

theorem afterFault_sound (hc : c.Sound) : c.afterFault.Sound := by
  cases c with
  | forEach phase ran target source body => exact ⟨hc.1, hc.2.1, hc.2.2.1, trivial⟩
  | call phase callee args => exact ⟨hc.1, hc.2.1, trivial⟩
  | _ => exact hc

/-- The slot of a `for` pairs its container with a key that fits it, and the elements that are left are those
of a list in memory. -/
theorem Remains.sound {phase : ForPhase} {ran : Bool} {target source : Node} {body : Block} {slot : Reference}
    {left : List Value} (h : Remains incoming st.heap phase slot left)
    (hc : (forEach phase ran target source body).Sound) (hst : st.Sound) :
    slot.Paired ∧ ∀ v ∈ left, v.Stored := by
  obtain ⟨-, -, -, hphase⟩ := hc
  cases h with
  | @listed slot r hin => exact ⟨hphase, fun v hv => hst.heap.items r v (Array.mem_toList_iff.mp hv)⟩
  | left => exact hphase

/-- With the value that it needs, a construct is impeded by a fault of the script. -/
theorem Impeded.isLocal (h : Impeded incoming st.heap c f) (hc : c.Sound) (hst : st.Sound)
    (hin : ∀ d ∈ c.needs, ∃ v, incoming = some v ∧ v.Fits (some d)) : f.isLocal = true := by
  cases h with
  | missing hneeds hnone =>
      obtain ⟨d, hd⟩ := Option.isSome_iff_exists.mp hneeds
      obtain ⟨v, rfl, -⟩ := hin d hd
      cases hnone
  | target _ hslot => exact (st.heap.asReference_fails _ f hslot).isLocal
  | source _ hlist => exact (st.heap.asList_fails _ f hlist).isLocal
  | element hleft hwritable => exact (st.heap.writable_fails _ f hwritable).2 (hleft.sound hc hst).1
  | callee _ hfunction => exact (st.heap.asFunction_fails _ f hfunction).isLocal
  | arguments _ hlist => exact (st.heap.asList_fails _ f hlist).isLocal
  | arity _ _ => rfl

/-- A construct asks for a value that it then needs. It keeps what came in: the reference of a target, or a
function, which memory held. -/
theorem Asks.sound {node : Node} {demand : Demand} (h : Asks incoming st.heap c c' node demand) (hc : c.Sound)
    (hin : ∀ d ∈ c.needs, ∃ v, incoming = some v ∧ v.Fits (some d)) :
    c'.Sound ∧ node.isWellFormed = true ∧ c'.needs = some demand := by
  cases h with
  | condition => exact ⟨hc, hc.1, rfl⟩
  | left => exact ⟨hc, hc.1, rfl⟩
  | right _ _ => exact ⟨hc, hc.2, rfl⟩
  | again _ => exact ⟨hc, hc.1, rfl⟩
  | target => exact ⟨⟨hc.1, hc.2.1, hc.2.2.1, trivial⟩, hc.1, rfl⟩
  -- The target was demanded, so what came in fits, and its reference is sound.
  | source hslot =>
      obtain ⟨v, rfl, hv⟩ := hin _ rfl
      cases hslot
      exact ⟨⟨hc.1, hc.2.1, hc.2.2.1, hv.1⟩, hc.2.1, rfl⟩
  | callee => exact ⟨⟨hc.1, hc.2.1, trivial⟩, hc.1, rfl⟩
  | arguments hf =>
      obtain ⟨v, rfl, hv⟩ := hin _ rfl
      cases hf
      exact ⟨⟨hc.1, hc.2.1, hv.1⟩, hc.2.1, rfl⟩

theorem Starts.sound {body : Block} (h : Starts incoming st.heap c c' body) (hc : c.Sound) :
    c'.Sound ∧ body.isWellFormed = true ∧ c'.needs = none := by
  cases h with
  | branch _ _ => exact ⟨hc, hc.2, rfl⟩
  | round _ _ => exact ⟨hc, hc.2, rfl⟩
  | handler => exact ⟨hc, hc.2, rfl⟩

theorem Settles.sound {b : Bool} (h : Settles incoming st.heap c c' b) (hc : c.Sound) : c'.Sound := by
  cases h with
  | exhausted _ => exact ⟨hc.1, hc.2.1, hc.2.2.1, trivial⟩
  | _ => exact hc

/-- Continuing a construct with the value it needs. -/
theorem Resumes.goes {r : Resumed} (h : Resumes incoming st c r) (hc : c.Sound) (hst : st.Sound)
    (hin : ∀ d ∈ c.needs, ∃ v, incoming = some v ∧ v.Fits (some d)) : Goes st r := by
  cases h with
  | impeded himpeded => exact .here hst (afterFault_sound hc) (.error (himpeded.isLocal hc hst hin))
  | asks hasks =>
      obtain ⟨hc', hnode, hneeds⟩ := hasks.sound hc hin
      exact .here hst hc' (.ok ⟨hnode, hneeds⟩)
  | starts hstarts =>
      obtain ⟨hc', hbody, hneeds⟩ := hstarts.sound hc
      exact .here hst hc' (.ok ⟨hbody, hneeds⟩)
  | settles hsettles => exact .here hst (hsettles.sound hc) (.ok trivial)
  -- The element that is written and those that are left are values that the list had.
  | element hleft _ =>
      obtain ⟨hslot, hvalues⟩ := hleft.sound hc hst
      obtain ⟨hv, hrest⟩ := List.forall_mem_cons.mp hvalues
      exact
        { control := ⟨hc.1, hc.2.1, hc.2.2.1, hslot, hrest⟩
          state := ⟨(hst.heap.holds.put _ hv).sound, hst.pending⟩
          pending := rfl
          move := .ok ⟨hc.2.2.1, rfl⟩ }
  | refused _ _ => exact ⟨afterFault_sound hc, hst.holds.refused.sound, rfl, .error rfl⟩
  -- The parameters are bound to what is in the list of arguments.
  | @called callee args g r hfound _ _ =>
      have hvalues : ∀ v ∈ (st.heap.items r).toList, v.Stored :=
        fun v hv => hst.heap.items r v (Array.mem_toList_iff.mp hv)
      exact
        { control := ⟨hc.1, hc.2.1, trivial⟩
          state := ⟨(hst.holds.entered.heap.bind st.newScope g.params hvalues).sound, hst.pending⟩
          pending := rfl
          move := .ok ⟨hc.2.2, rfl⟩ }
  | @returned callee args returned =>
      have hresult : (returned.getD .null).Sound := by
        cases returned with
        | none => trivial
        | some v => exact Value.Stored.sound hc.2.2
      exact ⟨⟨hc.1, hc.2.1, trivial⟩, ⟨hst.heap, hst.pending⟩, rfl, .ok hresult⟩
  | opened _ => exact ⟨hc, hst.holds.entered.sound, rfl, .ok ⟨hc, rfl⟩⟩
  | closed => exact ⟨hc, ⟨hst.heap, hst.pending⟩, rfl, .ok trivial⟩
  | guarded => exact ⟨hc, ⟨hst.heap, hst.pending⟩, rfl, .ok ⟨hc.1, rfl⟩⟩
  | unguarded => exact ⟨hc, ⟨hst.heap, hst.pending⟩, rfl, .ok trivial⟩

end Resuming

/-- A construct that takes an interrupt can go on without a value. -/
theorem Handles.sound {c c' : Control} {exit : Exit} {st' : State} (h : Handles st c exit c' st') (hc : c.Sound)
    (hexit : exit.Stored) (hst : st.Sound) : c'.Sound ∧ c'.needs = none ∧ st'.Sound := by
  cases h with
  | brokeWhile => exact ⟨hc, rfl, hst⟩
  | continuedWhile => exact ⟨hc, rfl, hst⟩
  | brokeFor => exact ⟨⟨hc.1, hc.2.1, hc.2.2.1, trivial⟩, rfl, hst⟩
  | continuedFor hphase =>
      obtain ⟨htarget, hsource, hbody, hphases⟩ := hc
      rcases hphase with ⟨rfl, hneeds⟩ | ⟨rfl, -⟩
      · exact ⟨⟨htarget, hsource, hbody, hphases⟩, hneeds, hst⟩
      · exact ⟨⟨htarget, hsource, hbody, trivial⟩, rfl, hst⟩
  | returnedCall => exact ⟨⟨hc.1, hc.2.1, hexit⟩, rfl, hst⟩
  | returnedObject => exact ⟨hc, rfl, hst⟩
  | thrown => exact ⟨hc, rfl, ⟨(hst.heap.holds.objectSet _ _ hexit).sound, hst.pending⟩⟩

theorem answer_rejected {c : Control} {i : Interrupt} {f : Fault}
    (h : c.answer i st = .rejected f) : f.isLocal = true := by
  rw [eq_of_rejected h]
  rfl

theorem discard_sound (hst : st.Sound) (c : Control) :
    (c.discard st).Sound ∧ (c.discard st).pending = st.pending := by
  unfold discard
  split
  · exact ⟨⟨hst.heap, hst.pending⟩, rfl⟩
  · exact ⟨⟨hst.heap, hst.pending⟩, rfl⟩
  · exact ⟨⟨hst.heap, hst.pending⟩, rfl⟩
  · exact ⟨hst, rfl⟩

end Control

/-! ### Nodes -/

/-- What a node gives at once: a sound value, or a sound frame that can work next and yields any
value. -/
def Produced.Sound : Produced → Prop
  | .value v => v.Sound
  | .frame f => f.Sound ∧ f.isValue = false ∧ f.result = none ∧ f.Takes []

/-- Starting a well-formed node. -/
theorem State.produce_sound {st : State} {node : Node} (hst : st.Sound)
    (hnode : node.isWellFormed = true) :
    Safe Produced.Sound (st.produce node).1 ∧ (st.produce node).2.Sound ∧
      (st.produce node).2.pending = st.pending := by
  have hconstruct (line : Nat) (c : Control) (hc : c.Sound) (hneeds : c.needs = none) :
      Produced.Sound (.frame (.control line c)) := by
    refine ⟨hc, rfl, rfl, Nat.zero_le 1, ?_⟩
    rw [hneeds]
    intro d hd
    cases hd
  obtain ⟨line, form⟩ := node
  cases form with
  | path global names =>
      have hfails := st.resolve_fails global names
      -- An empty path would be an internal fault.
      have hne : names ≠ [] := by
        rintro rfl
        cases hnode
      simp only [State.produce, Node.form]
      cases hr : st.resolve global names with
      | mk r st' =>
          rw [hr] at hfails
          simp only [State.resolve] at hr
          split at hr <;> cases hr
          · exact ⟨.error ((hfails _ rfl).2 hne), hst, rfl⟩
          · exact ⟨.ok trivial, ⟨hst.heap, hst.pending⟩, rfl⟩
  | list items =>
      cases items with
      | nil =>
          exact ⟨.ok trivial, (hst.holds.makeList fun v hv => by simp at hv).sound, rfl⟩
      | cons item rest =>
          exact ⟨.ok ⟨hnode, rfl, rfl, Nat.zero_le _, fun v hv => by cases hv⟩, hst, rfl⟩
  | block body =>
      obtain ⟨line, statements⟩ := body
      exact ⟨.ok ⟨hnode, rfl, rfl, Nat.zero_le 1⟩, hst, rfl⟩
  | function params body => exact ⟨.ok hnode, ⟨hst.heap, hst.pending⟩, rfl⟩
  | op op args =>
      simp only [Node.isWellFormed, Form.isWellFormed, Bool.and_eq_true, decide_eq_true_eq] at hnode
      exact ⟨.ok ⟨hnode, rfl, rfl, Nat.zero_le _, trivial⟩, hst, rfl⟩
  | ifThen cond body =>
      simp only [Node.isWellFormed, Form.isWellFormed, Bool.and_eq_true] at hnode
      exact ⟨.ok (hconstruct line _ hnode rfl), hst, rfl⟩
  | whileDo cond body =>
      simp only [Node.isWellFormed, Form.isWellFormed, Bool.and_eq_true] at hnode
      exact ⟨.ok (hconstruct line _ hnode rfl), hst, rfl⟩
  | forEach target source body =>
      simp only [Node.isWellFormed, Form.isWellFormed, Bool.and_eq_true, and_assoc] at hnode
      obtain ⟨htarget, hsource, hbody⟩ := hnode
      exact ⟨.ok (hconstruct line _ ⟨htarget, hsource, hbody, trivial⟩ rfl), hst, rfl⟩
  | call callee args =>
      simp only [Node.isWellFormed, Form.isWellFormed, Bool.and_eq_true] at hnode
      exact ⟨.ok (hconstruct line _ ⟨hnode.1, hnode.2, trivial⟩ rfl), hst, rfl⟩
  | object body => exact ⟨.ok (hconstruct line _ hnode rfl), hst, rfl⟩
  | andAlso left right =>
      simp only [Node.isWellFormed, Form.isWellFormed, Bool.and_eq_true] at hnode
      exact ⟨.ok (hconstruct line _ hnode rfl), hst, rfl⟩
  | orElse left right =>
      simp only [Node.isWellFormed, Form.isWellFormed, Bool.and_eq_true] at hnode
      exact ⟨.ok (hconstruct line _ hnode rfl), hst, rfl⟩
  | tryCatch body name handler =>
      simp only [Node.isWellFormed, Form.isWellFormed, Bool.and_eq_true] at hnode
      exact ⟨.ok (hconstruct line _ hnode rfl), hst, rfl⟩
  | _ => exact ⟨.ok trivial, hst, rfl⟩

namespace Machine

open Stepwise.Frame (values)

/-! ### Work -/

/-- The invariant of a run. -/
structure Sound (m : Machine) : Prop where
  frames : ∀ f ∈ m.stack, f.Sound
  state : m.state.Sound
  loose : Loose m.stack
  tight : m.state.pending = none → Tight m.stack

/-- An outcome that keeps the invariant; a fault has the property `p`. After a fault the stack need not be
tight, but no interrupt is under way, so that one can be set off for a catchable fault. -/
structure Kept (p : Fault → Prop) (o : Outcome) : Prop where
  frames : ∀ f ∈ o.2.stack, f.Sound
  state : o.2.state.Sound
  loose : Loose o.2.stack
  tight : o.1 = .ok () → o.2.state.pending = none → Tight o.2.stack
  fails : Fails (fun f => p f ∧ o.2.state.pending = none) o.1

theorem Kept.of_tight {p : Fault → Prop} {m : Machine} (hframes : ∀ f ∈ m.stack, f.Sound)
    (hstate : m.state.Sound) (htight : Tight m.stack) : Kept p (.ok (), m) where
  frames := hframes
  state := hstate
  loose := htight.loose
  tight _ _ := htight
  fails := .ok ()

theorem Kept.of_fault {p : Fault → Prop} {m : Machine} {f : Fault} (hframes : ∀ f ∈ m.stack, f.Sound)
    (hstate : m.state.Sound) (hloose : Loose m.stack) (hf : p f)
    (hpending : m.state.pending = none) : Kept p (.error f, m) where
  frames := hframes
  state := hstate
  loose := hloose
  tight h := by cases h
  fails := .error ⟨hf, hpending⟩

theorem sound_cons {f : Frame} {below : List Frame} (hf : f.Sound) (hbelow : ∀ g ∈ below, g.Sound) :
    ∀ g ∈ f :: below, g.Sound := by
  intro g hg
  rcases List.mem_cons.mp hg with rfl | hg
  · exact hf
  · exact hbelow g hg

section Work

variable {st : State} {below : List Frame}

theorem stepRequest_kept (hst : st.Sound) (hpending : st.pending = none)
    (hframes : ∀ f ∈ below, f.Sound) {node : Node} {demand : Demand}
    (hnode : node.isWellFormed = true) (hbelow : Context (some demand) below) :
    Kept (·.isLocal) (stepRequest node demand [] below st) := by
  have hrequest : ∀ f ∈ Frame.request node demand :: below, f.Sound := sound_cons hnode hframes
  have hline : State.Sound { st with line := node.line } := ⟨hst.heap, hst.pending⟩
  obtain ⟨hsafe, hst', hpending'⟩ := State.produce_sound hline hnode
  simp only [stepRequest, List.nil_append]
  cases hr : ({ st with line := node.line } : State).produce node with
  | mk r st' =>
      rw [hr] at hsafe hst' hpending'
      replace hpending' : st'.pending = none := hpending'.trans hpending
      cases hsafe with
      | error hf => exact .of_fault hrequest hst' (.frame rfl hbelow) hf hpending'
      | @ok produced hproduced =>
          cases produced with
          | frame f =>
              obtain ⟨hf, hvalue, hresult, htakes⟩ := hproduced
              -- The frame may yield any value, and the finish that waits for it makes the value fit.
              have hfinish : Context f.result (.finish demand :: below) := by
                rw [hresult]
                show Context none (values [] ++ .finish demand :: below)
                exact .frame rfl (fun v hv => ⟨v, rfl, hv.1⟩) hbelow
              exact .of_tight (sound_cons hf (sound_cons trivial hframes)) hst'
                (hfinish.push hvalue htakes)
          | value v =>
              have hfinal := Heap.finalize_safe hst'.heap demand hproduced
              dsimp only
              cases hv : st'.heap.finalize demand v with
              | error f =>
                  exact .of_fault hrequest hst' (.frame rfl hbelow) (hfinal.of_eq_error hv) hpending'
              | ok w =>
                  have hw : w.Fits (some demand) := hfinal.of_eq_ok hv
                  exact .of_tight (sound_cons hw.1 hframes) hst' (hbelow.tight hw)

theorem stepFinish_kept (hst : st.Sound) (hpending : st.pending = none)
    (hframes : ∀ f ∈ below, f.Sound) {demand : Demand} {v : Value} (hv : v.Sound)
    (stack : List Frame) (hbelow : Context (some demand) below) :
    Kept (·.isLocal) (stepFinish demand [v] stack below st) := by
  have hfinal := Heap.finalize_safe hst.heap demand hv
  simp only [stepFinish]
  cases hw : st.heap.finalize demand v with
  | error f =>
      exact .of_fault (sound_cons trivial hframes) hst (.frame rfl hbelow) (hfinal.of_eq_error hw)
        hpending
  | ok w =>
      have hfits : w.Fits (some demand) := hfinal.of_eq_ok hw
      exact .of_tight (sound_cons hfits.1 hframes) hst (hbelow.tight hfits)

theorem stepOperation_kept (hst : st.Sound) (hpending : st.pending = none) {op : Op}
    {args : List Node} {line : Nat} {vs : List Value}
    (hframes : ∀ f ∈ values vs ++ .operation op args line :: below, f.Sound)
    (htakes : (Frame.operation op args line).Takes vs) (hbelow : Context none below) :
    Kept (·.isLocal)
      (stepOperation op args line vs (values vs ++ .operation op args line :: below) below st) := by
  obtain ⟨hle, hfits⟩ := htakes
  have hop : (Frame.operation op args line).Sound := hframes _ (by simp)
  have hrest : ∀ f ∈ below, f.Sound := fun f hf => hframes f (by simp [hf])
  simp only [stepOperation]
  split
  · rename_i hlt
    -- Both look-ups succeed: a well-formed operation has a node for each of its demands.
    have hargs : vs.length < args.length := Nat.lt_of_lt_of_le hlt hop.1
    have hnode : args[vs.length]? = some args[vs.length] := List.getElem?_eq_getElem hargs
    have hdemand : op.demands[vs.length]? = some op.demands[vs.length] :=
      List.getElem?_eq_getElem hlt
    rw [hnode, hdemand]
    have hwell : args[vs.length].isWellFormed = true :=
      Node.allWellFormed_iff.mp hop.2 _ (List.getElem_mem hargs)
    have hcontext : Context (some op.demands[vs.length])
        (values vs ++ .operation op args line :: below) := by
      refine .frame rfl (fun v hv => ⟨?_, hfits.concat hdemand hv⟩) hbelow
      rw [List.length_append]
      exact hlt
    exact .of_tight (sound_cons hwell hframes) hst (hcontext.request _)
  · split
    · rename_i hlen
      -- There is exactly one value for each demand, so the operation can be applied.
      have hline : State.Sound { st with line := line } := ⟨hst.heap, hst.pending⟩
      obtain ⟨hsafe, hst'⟩ := State.apply_sound hline hpending hfits hlen
      cases happly : ({ st with line := line } : State).apply op vs with
      | mk r st' =>
          rw [happly] at hsafe hst'
          cases hsafe with
          | error hf =>
              have hpending' : st'.pending = none := by
                rw [State.apply_error happly]
                exact hpending
              exact .of_fault hrest hst' hbelow.loose hf hpending'
          | ok hv => exact .of_tight (sound_cons hv hrest) hst' (hbelow.tight hv.fits_none)
    · omega

theorem stepList_kept (hst : st.Sound) {items : List Node} {vs : List Value}
    (hframes : ∀ f ∈ values vs ++ .list items :: below, f.Sound)
    (htakes : (Frame.list items).Takes vs) (hbelow : Context none below) :
    Kept (·.isLocal) (stepList items vs (values vs ++ .list items :: below) below st) := by
  obtain ⟨hle, hstored⟩ := htakes
  have hitems : (Frame.list items).Sound := hframes _ (by simp)
  have hrest : ∀ f ∈ below, f.Sound := fun f hf => hframes f (by simp [hf])
  simp only [stepList]
  split
  · rename_i node hnode
    have hwell : node.isWellFormed = true :=
      Node.allWellFormed_iff.mp hitems node (List.mem_of_getElem? hnode)
    have hlt : vs.length < items.length := (List.getElem?_eq_some_iff.mp hnode).1
    -- The element that is asked for will be one more value above the list.
    have hcontext : Context (some .any) (values vs ++ .list items :: below) := by
      refine .frame rfl (fun v hv => ⟨?_, ?_⟩) hbelow
      · rw [List.length_append]
        exact hlt
      · intro w hw
        rcases List.mem_append.mp hw with hw | hw
        · exact hstored w hw
        · rw [List.mem_singleton.mp hw]
          exact hv.2 _ rfl rfl
    exact .of_tight (sound_cons hwell hframes) hst (hcontext.request _)
  · rename_i hnone
    have hlen : items.length ≤ vs.length := List.getElem?_eq_none_iff.mp hnone
    rw [if_pos (Nat.le_antisymm hle hlen)]
    have hmade := (hst.holds.makeList fun v hv => hstored v (List.mem_toArray.mp hv)).sound
    have hv : (st.makeList vs.toArray).1.Stored := trivial
    exact .of_tight (sound_cons hv.sound hrest) hmade (hbelow.tight (hv.fits none))

theorem stepBlock_kept (hst : st.Sound) {statements : List Node}
    (hframes : ∀ f ∈ below, f.Sound) (hwell : Node.allWellFormed statements = true)
    (hbelow : Context none below) : Kept (·.isLocal) (stepBlock statements below st) := by
  cases statements with
  | nil =>
      have hnull : Value.null.Stored := trivial
      exact .of_tight (sound_cons hnull.sound hframes) hst (hbelow.tight (hnull.fits none))
  | cons s rest =>
      simp only [Node.allWellFormed, Bool.and_eq_true] at hwell
      have hcontext : Context (some .any) (.block rest :: below) := by
        show Context (some .any) (values [] ++ .block rest :: below)
        exact .frame rfl (fun v _ => Nat.le_refl 1) hbelow
      exact .of_tight (sound_cons hwell.1 (sound_cons hwell.2 hframes)) ⟨hst.heap, hst.pending⟩
        (hcontext.request s)

theorem stepControl_kept (hst : st.Sound) (hpending : st.pending = none) {line : Nat} {c : Control}
    {vs : List Value} (hframes : ∀ f ∈ below, f.Sound) (hc : c.Sound)
    (htakes : (Frame.control line c).Takes vs) (stack : List Frame) (hbelow : Context none below) :
    Kept (·.isLocal) (stepControl line c vs stack below st) := by
  obtain ⟨hle, hneeds⟩ := htakes
  have hline : State.Sound { st with line := line } := ⟨hst.heap, hst.pending⟩
  have hin : ∀ d ∈ c.needs, ∃ v, vs.head? = some v ∧ v.Fits (some d) := by
    intro d hd
    obtain ⟨v, rfl, hv⟩ := hneeds d hd
    exact ⟨v, rfl, hv⟩
  obtain ⟨hcontrol, hstate, hpending', hmove⟩ := (c.resumes _ _).goes hc hline hin
  have hhere : ∀ f ∈ Frame.control line (c.resume vs.head? { st with line := line }).control :: below,
      f.Sound := sound_cons hcontrol hframes
  unfold stepControl
  split
  · simp at hle
  -- From here on only what `Resumes.goes` says about the result matters.
  · generalize hresume : c.resume vs.head? { st with line := line } = r at *
    obtain ⟨c', st', move⟩ := r
    dsimp only at *
    cases hmove with
    | error hf =>
        exact .of_fault hhere hstate (.frame rfl hbelow) hf (hpending'.trans hpending)
    | @ok move hfollows =>
        cases move with
        | eval node demand =>
            obtain ⟨hnode, hdemand⟩ := hfollows
            -- The construct has moved to the phase that needs this very value.
            have hcontext : Context (some demand) (.control line c' :: below) := by
              show Context (some demand) (values [] ++ .control line c' :: below)
              refine .frame rfl (fun v hv => ⟨Nat.le_refl 1, ?_⟩) hbelow
              rw [hdemand]
              intro d hd
              cases hd
              exact ⟨v, rfl, hv⟩
            exact .of_tight (sound_cons hnode hhere) hstate (hcontext.request node)
        | run body =>
            obtain ⟨hbody, hnone⟩ := hfollows
            -- A block yields null, which the construct drops: it needs no value now.
            have hcontext : Context none (.control line c' :: below) := by
              show Context none (values [] ++ .control line c' :: below)
              refine .frame rfl (fun v hv => ⟨Nat.le_refl 1, ?_⟩) hbelow
              rw [hnone]
              intro d hd
              cases hd
            have hblock : (Frame.block body.statements).Sound :=
              Node.allWellFormed_iff.mpr (Block.isWellFormed_iff.mp hbody)
            exact .of_tight (sound_cons hblock hhere) hstate
              (Context.push (f := .block body.statements) hcontext rfl (Nat.zero_le 1))
        | done v =>
            exact .of_tight (sound_cons hfollows hframes) hstate
              (hbelow.tight (Value.Sound.fits_none hfollows))

end Work

/-- The work of the top frame of a tight stack keeps the invariant, and its faults are local. -/
theorem Sound.work_kept {m : Machine} (hm : m.Sound) (hpending : m.state.pending = none)
    (hwork : m.hasWork = true) : Kept (·.isLocal) m.work := by
  obtain ⟨stack, st⟩ := m
  have hframes : ∀ f ∈ stack, f.Sound := hm.frames
  have hst : st.Sound := hm.state
  have htight : Tight stack := hm.tight hpending
  -- A tight stack is a single value, which leaves no work, or has a frame with all the values that it
  -- takes.
  cases htight with
  | done v =>
      have hp : st.pending = none := hpending
      simp [hasWork, hp] at hwork
  | @working vs f below hf htakes hbelow =>
      have hself : f.Sound := hframes f (by simp)
      have hrest : ∀ g ∈ below, g.Sound := fun g hg => hframes g (by simp [hg])
      rw [work_values_append vs f below st hf]
      cases f with
      | value v => cases hf
      | request node demand =>
          obtain rfl : vs = [] := htakes
          exact stepRequest_kept hst hpending hrest hself hbelow
      | finish demand =>
          obtain ⟨v, rfl, hv⟩ := htakes
          exact stepFinish_kept hst hpending hrest hv _ hbelow
      | operation op args line => exact stepOperation_kept hst hpending hframes htakes hbelow
      | list items => exact stepList_kept hst hframes htakes hbelow
      | block statements => exact stepBlock_kept hst hrest hself hbelow
      | control line c => exact stepControl_kept hst hpending hrest hself htakes _ hbelow

/-! ### Interrupts -/

section Interrupts

variable {st : State} {below : List Frame} {i : Interrupt}

theorem unhandled_not_internal (i : Interrupt) (h : Heap) : (i.unhandled h).isInternal = false := by
  unfold Interrupt.unhandled
  split
  · rfl
  · rfl

/-- An interrupt that goes on to the frame below, or that nothing answers. -/
theorem unwind_kept (hst : st.Sound) (hpending : st.pending = none) (hi : i.exit.Stored)
    (hframes : ∀ f ∈ below, f.Sound) (hloose : Loose below) :
    Kept (·.isInternal = false) (unwind i below st) := by
  cases below with
  | nil => exact .of_fault hframes hst .nil (unhandled_not_internal i st.heap) hpending
  | cons f below =>
      exact
        { frames := hframes
          state := ⟨hst.heap, fun j hj => by cases hj; exact hi⟩
          loose := hloose
          tight := fun _ hnone => by cases hnone
          fails := .ok () }

theorem dispatch_kept {stack : List Frame} (hst : st.Sound) (hpending : st.pending = none)
    (hi : i.exit.Stored) (hframes : ∀ f ∈ stack, f.Sound) (hloose : Loose stack) :
    Kept (·.isInternal = false) (dispatch i stack st) := by
  cases stack with
  | nil => exact .of_fault hframes hst .nil (unhandled_not_internal i st.heap) hpending
  | cons f below =>
      have hrest : ∀ g ∈ below, g.Sound := fun g hg => hframes g (List.mem_cons_of_mem f hg)
      cases f with
      | control line c =>
          have hc : c.Sound := hframes _ List.mem_cons_self
          have hbelow : Context none below := hloose.context rfl
          simp only [dispatch]
          cases hanswer : c.answer i st with
          | passed =>
              obtain ⟨hst', hpending'⟩ := Control.discard_sound hst c
              exact unwind_kept hst' (hpending'.trans hpending) hi hrest hloose.tail
          | handled c' st' =>
              obtain ⟨hc', hneeds, hst'⟩ := (Control.handles hanswer).sound hc hi hst
              -- All values above the construct are gone, and it needs none to go on.
              have htakes : (Frame.control line c').Takes [] := by
                refine ⟨Nat.zero_le 1, ?_⟩
                rw [hneeds]
                intro d hd
                cases hd
              exact .of_tight (sound_cons hc' hrest) hst' (Context.push hbelow rfl htakes)
          | rejected f =>
              have hlocal : f.isLocal = true := Control.answer_rejected hanswer
              exact .of_fault hframes hst hloose (Fault.isInternal_of_isLocal hlocal) hpending
      | _ => exact unwind_kept hst hpending hi hrest hloose.tail

/-- A catchable fault under a guard sets an exception off: no interrupt is in its way. -/
theorem throwCatchable_kept {m : Machine} {cause : Catchable} (hframes : ∀ f ∈ m.stack, f.Sound)
    (hst : m.state.Sound) (hloose : Loose m.stack) (hpending : m.state.pending = none) :
    Kept (·.isInternal = false) (throwCatchable cause m) := by
  have hmade := (hst.holds.exceptionPayload Value.durable_stored cause).sound
  have hnone : (m.state.exceptionPayload cause).2.pending = none := hpending
  simp only [throwCatchable, State.raise]
  rw [hnone]
  exact
    { frames := hframes
      state := ⟨hmade.heap, fun j hj => by cases hj; trivial⟩
      loose := hloose
      tight := fun _ hnone => by cases hnone
      fails := .ok () }

end Interrupts

/-! ### Steps -/

/-- The answer of a step that keeps the invariant: it is no internal fault, and frames and state stay
sound even after a fault. -/
structure StepKept (r : Except Fault Bool × Machine) : Prop where
  fails : Fails (fun f => f.isInternal = false) r.1
  frames : ∀ f ∈ r.2.stack, f.Sound
  state : r.2.state.Sound
  sound : ∀ more, r.1 = .ok more → r.2.Sound

theorem Kept.finishStep {p : Fault → Prop} {o : Outcome} (h : Kept p o)
    (hp : ∀ f, p f → f.isInternal = false) : StepKept (finishStep o) := by
  obtain ⟨r, m⟩ := o
  cases r with
  | ok u =>
      exact
        { fails := .ok _
          frames := h.frames
          state := h.state
          sound := fun _ _ => ⟨h.frames, h.state, h.loose, h.tight rfl⟩ }
  -- A machine that has failed is not run again, so nothing is asked of its values.
  | error f =>
      exact
        { fails := .error (hp f (h.fails f rfl).1)
          frames := h.frames
          state := h.state
          sound := fun more hmore => by cases hmore }

/-- Every step keeps the invariant. -/
theorem Sound.step {m : Machine} (hm : m.Sound) : StepKept m.step := by
  rcases step_cases m with ⟨-, -, hstep⟩ | ⟨i, hi, hstep⟩ | ⟨hpending, hwork, hstep, -⟩ |
    ⟨hpending, hwork, cause, m', hm', -, hstep⟩
  · rw [hstep]
    exact ⟨.ok _, hm.frames, hm.state, fun _ _ => hm⟩
  · rw [hstep]
    -- The interrupt is taken out of the state before it is offered.
    have hclear : State.Sound { m.state with pending := none } :=
      ⟨hm.state.heap, fun j hj => by cases hj⟩
    exact (dispatch_kept hclear rfl (hm.state.pending i hi) hm.frames hm.loose).finishStep fun _ h => h
  · rw [hstep]
    exact (hm.work_kept hpending hwork).finishStep fun _ h => Fault.isInternal_of_isLocal h
  · rw [hstep]
    have hkept := hm.work_kept hpending hwork
    rw [hm'] at hkept
    -- The frame that failed has set no interrupt off, so the exception is the only one.
    have hnone : m'.state.pending = none := (hkept.fails _ rfl).2
    exact (throwCatchable_kept hkept.frames hkept.state hkept.loose hnone).finishStep fun _ h => h

/-- A machine that is about to run a well-formed script. -/
theorem sound_start {root : Block} (hroot : root.isWellFormed = true) (limit : Nat) (seed : Seed)
    (sink : Sink) : (start root limit seed sink).Sound := by
  have hblock : (Frame.block root.statements).Sound :=
    Node.allWellFormed_iff.mpr (Block.isWellFormed_iff.mp hroot)
  have htight : Tight [.block root.statements] :=
    Context.push (f := .block root.statements) .bottom rfl (Nat.zero_le 1)
  exact
    { frames := sound_cons hblock fun f hf => by cases hf
      state :=
        { heap := (Heap.holds_empty.newObject 1 fun e he => by cases he).sound
          pending := fun i hi => by cases hi }
      loose := htight.loose
      tight := fun _ => htight }

end Machine

end Stepwise
