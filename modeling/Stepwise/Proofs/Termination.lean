import Stepwise.Proofs.Driving
import Stepwise.Proofs.Footprint
import Stepwise.Proofs.Refinement
import Stepwise.Proofs.StackBound

/-!
# `Stepwise.Proofs.Termination`: scripts that always come to an end

A script can only go on forever by a `while`, by a call, or by a `continue` in the target or the source of a
`for`, which starts that loop anew. `Machine.halts_of_straight` says that every other script stops after a
number of steps, whatever it computes: a `for` goes through the elements that its list had when it was found,
so a body that lets the list grow adds no rounds.

The proof goes through the evaluator of `Stepwise.Proofs.Evaluator`, which counts its nesting down from a bound
and gives up at zero. For these scripts the weight of a node is a bound that is large enough (`ends_eval`): no
part of a node is as heavy as the node, and the rounds of a `for` do not count. What has to be carried along is
that a node without a `continue` in it does not end with one (`Evaluation.Ends`), so that a `for` gets past
its list. The machine shows what the evaluator says (`Machine.shown_eval`), and the statements of a script
follow one by one.
-/

set_option autoImplicit false

namespace Stepwise

/-! ### Trees -/

mutual

/-- Whether the forms of a node and of all nodes in it have a property, the bodies of functions included. -/
def Node.every (p : Form → Bool) : Node → Bool
  | .mk _ form => p form && form.everyInside p

/-- Whether the forms of all nodes inside a form have a property. -/
def Form.everyInside (p : Form → Bool) : Form → Bool
  | .list items => Node.allEvery p items
  | .block body => body.every p
  | .function _ body => body.every p
  | .op _ args => Node.allEvery p args
  | .ifThen cond body => cond.every p && body.every p
  | .whileDo cond body => cond.every p && body.every p
  | .forEach target source body => target.every p && source.every p && body.every p
  | .call callee args => callee.every p && args.every p
  | .object body => body.every p
  | .andAlso left right => left.every p && right.every p
  | .orElse left right => left.every p && right.every p
  | .tryCatch body _ handler => body.every p && handler.every p
  | .null | .bool _ | .int _ | .float _ | .str _ | .path _ _ => true

/-- Whether the forms of all nodes in a block have a property. -/
def Block.every (p : Form → Bool) : Block → Bool
  | .mk _ statements => Node.allEvery p statements

/-- Whether the forms of all nodes in a list have a property. -/
def Node.allEvery (p : Form → Bool) : List Node → Bool
  | [] => true
  | n :: nodes => n.every p && Node.allEvery p nodes

end

namespace Form

/-- Whether a form is no `continue`. -/
def isCalm : Form → Bool
  | .op .continueLoop _ => false
  | _ => true

/-- Whether a form cannot come back to a part of itself without end: it is no `while` and no call, and if it is
a `for`, there is no `continue` in its target and its source. -/
def isStraight : Form → Bool
  | .whileDo _ _ | .call _ _ => false
  | .forEach target source _ => target.every isCalm && source.every isCalm
  | _ => true

/-- The nodes that the evaluation of a form evaluates. The body of a function is none of them. -/
def parts : Form → List Node
  | .list items => items
  | .block body => body.statements
  | .op _ args => args
  | .ifThen cond body => cond :: body.statements
  | .whileDo cond body => cond :: body.statements
  | .forEach target source body => target :: source :: body.statements
  | .call callee args => [callee, args]
  | .object body => body.statements
  | .andAlso left right => [left, right]
  | .orElse left right => [left, right]
  | .tryCatch body _ handler => body.statements ++ handler.statements
  | .null | .bool _ | .int _ | .float _ | .str _ | .path _ _ | .function _ _ => []

end Form

theorem Node.allEvery_iff {p : Form → Bool} {nodes : List Node} :
    Node.allEvery p nodes = true ↔ ∀ n ∈ nodes, n.every p = true := by
  induction nodes with
  | nil => simp [Node.allEvery]
  | cons n nodes ih => simp [Node.allEvery, ih]

theorem Block.every_iff {p : Form → Bool} {b : Block} :
    b.every p = true ↔ ∀ n ∈ b.statements, n.every p = true := by
  obtain ⟨line, statements⟩ := b
  rw [Block.every]
  exact Node.allEvery_iff

/-- What holds inside a form holds of its parts. -/
theorem Form.every_of_mem_parts {p : Form → Bool} {form : Form} {n : Node}
    (h : form.everyInside p = true) (hn : n ∈ form.parts) : n.every p = true := by
  cases form with
  | list items =>
      have hitems : Node.allEvery p items = true := by simpa [everyInside] using h
      exact Node.allEvery_iff.mp hitems n hn
  | op op args =>
      have hargs : Node.allEvery p args = true := by simpa [everyInside] using h
      exact Node.allEvery_iff.mp hargs n hn
  | _ =>
      simp only [everyInside, Bool.and_eq_true, Block.every_iff] at h
      grind [parts]

/-- A node in a list weighs no more than the list. -/
theorem Node.weight_le_totalWeight {nodes : List Node} {n : Node} (hn : n ∈ nodes) :
    n.weight ≤ Node.totalWeight nodes := by
  obtain ⟨k, hk⟩ := List.getElem?_of_mem hn
  have hle := Node.add_weight_le hk
  omega

/-- A statement weighs less than its block. -/
theorem Block.weight_of_mem {b : Block} {n : Node} (hn : n ∈ b.statements) : n.weight < b.weight := by
  have hle := Node.weight_le_totalWeight hn
  rw [b.weight_eq]
  omega

/-- A part weighs no more than the form that it is a part of. -/
theorem Form.weight_of_mem_parts {form : Form} {n : Node} (hn : n ∈ form.parts) :
    n.weight ≤ form.weight := by
  cases form with
  | list items =>
      have hle : n.weight ≤ Node.totalWeight items := Node.weight_le_totalWeight hn
      rw [weight]
      omega
  | op op args =>
      have hle : n.weight ≤ Node.totalWeight args := Node.weight_le_totalWeight hn
      rw [weight]
      omega
  | _ => grind [parts, weight, → Block.weight_of_mem]

/-! ### Evaluations that end -/

/-- Only a `continue` comes down to leaving by one. -/
theorem Op.eq_continueLoop_of_plan {op : Op} {args : List Value} {st : State}
    (h : op.plan args st = .ok (.leave .continued)) : op = .continueLoop := by
  have hleaves : op.leaves = true := (op.plan_yields st args).of_eq_ok h
  cases op with
  | continueLoop => rfl
  | returnValue => rcases args with _ | ⟨x, _ | ⟨y, _ | ⟨z, _ | _⟩⟩⟩ <;> cases h
  | breakLoop => rcases args with _ | ⟨x, _ | ⟨y, _ | ⟨z, _ | _⟩⟩⟩ <;> cases h
  | throwValue => rcases args with _ | ⟨x, _ | ⟨y, _ | ⟨z, _ | _⟩⟩⟩ <;> cases h
  | _ => cases hleaves

namespace Evaluation

/-- An evaluation comes to an end, and leaves no interrupt under way in the state. If it is `calm`, it does not
end with a `continue`. -/
def Ends {α : Type} (calm : Bool) : Evaluation α → Prop
  | none => False
  | some (.value _, st) => st.pending = none
  | some (.interrupt i, st) => st.pending = none ∧ (calm = true → i.exit ≠ .continued)
  | some (.fault _, _) => True

variable {α β : Type} {calm inner : Bool}

/-- What goes on after an evaluation ends if it does so after every value and every interrupt. -/
theorem Ends.handle {e : Evaluation α} {onValue : α → State → Evaluation β}
    {onInterrupt : Interrupt → State → Evaluation β} (he : e.Ends inner)
    (hvalue : ∀ a st, st.pending = none → (onValue a st).Ends calm)
    (hinterrupt : ∀ i st, st.pending = none → (inner = true → i.exit ≠ .continued) →
      (onInterrupt i st).Ends calm) :
    (e.handle onValue onInterrupt).Ends calm := by
  match e, he with
  | some (.value a, st), hp => exact hvalue a st hp
  | some (.interrupt i, st), ⟨hp, hcalm⟩ => exact hinterrupt i st hp hcalm
  | some (.fault f, st), _ => trivial

/-- What goes on after a value ends if it does so after every value. -/
theorem Ends.andThen {e : Evaluation α} {k : α → State → Evaluation β} (he : e.Ends calm)
    (hk : ∀ a st, st.pending = none → (k a st).Ends calm) : (e.andThen k).Ends calm :=
  he.handle hk fun _ _ hp hcalm => ⟨hp, hcalm⟩

theorem Ends.loose {e : Evaluation α} (he : e.Ends calm) : e.Ends false := by
  match e, he with
  | some (.value a, st), hp => exact hp
  | some (.interrupt i, st), ⟨hp, _⟩ => exact ⟨hp, nofun⟩
  | some (.fault f, st), _ => trivial

/-- A fault ends an evaluation; as an exception it is no `continue`. -/
theorem ends_fail {st : State} (hp : st.pending = none) (f : Fault) :
    (st.fail f : Evaluation α).Ends calm := by
  unfold State.fail
  split
  · split
    · exact ⟨hp, fun _ => nofun⟩
    · trivial
  · trivial

theorem ends_attempt {st : State} (hp : st.pending = none) {r : Except Fault α} {k : α → Evaluation β}
    (hk : ∀ a, (k a).Ends calm) : (st.attempt r k).Ends calm := by
  cases r with
  | ok a => exact hk a
  | error f => exact ends_fail hp f

/-- An operation that is no `continue` does not set one off. -/
theorem ends_applied {st : State} (hp : st.pending = none) {op : Op} (args : List Value)
    (hop : calm = true → op ≠ .continueLoop) : (st.applied op args).Ends calm := by
  have hplanned : ∀ exit, op.plan args st = .ok (.leave exit) → calm = true → exit ≠ .continued := by
    rintro exit hplan hcalm rfl
    exact hop hcalm (Op.eq_continueLoop_of_plan hplan)
  simp only [State.applied, State.apply]
  cases hplan : op.plan args st with
  | error f => exact ends_fail hp f
  | ok e =>
      dsimp only
      -- An exit is the only effect that leaves an interrupt.
      by_cases hleave : ∃ exit, e = .leave exit
      · obtain ⟨exit, rfl⟩ := hleave
        simp only [State.perform, State.raise, hp]
        exact ⟨rfl, hplanned exit hplan⟩
      · -- Nothing else sets an interrupt off, so there is none to end with.
        have hpending : (st.perform e).2.pending = none :=
          (State.perform_pending fun exit heq => hleave ⟨exit, heq⟩).trans hp
        cases hdone : st.perform e with
        | mk r st' =>
            rw [hdone] at hpending
            dsimp only at hpending
            cases r with
            | error f => exact ends_fail hpending f
            | ok v =>
                simp only [hpending]
                exact hpending

end Evaluation

/-! ### Constructs -/

/-- An evaluator comes to an end on some nodes, with every demand and in every state. -/
def EndsOn (ev : Evaluator) (calm : Bool) (nodes : List Node) : Prop :=
  ∀ n ∈ nodes, ∀ demand st, st.pending = none → (ev n demand st).Ends calm

section Constructs

open Evaluation (ends_fail ends_attempt ends_applied)

variable {ev : Evaluator} {calm : Bool} {st : State}

theorem EndsOn.subset {nodes others : List Node} (h : EndsOn ev calm nodes) (hsub : others ⊆ nodes) :
    EndsOn ev calm others :=
  fun n hn => h n (hsub hn)

/-- What is calm ends in any case. -/
theorem EndsOn.loose {nodes : List Node} (h : EndsOn ev calm nodes) : EndsOn ev false nodes :=
  fun n hn demand st hp => (h n hn demand st hp).loose

theorem ends_evalAll {nodes : List (Node × Demand)} (h : EndsOn ev calm (nodes.map Prod.fst))
    (hp : st.pending = none) : (evalAll ev nodes st).Ends calm := by
  induction nodes generalizing st with
  | nil => exact hp
  | cons pair rest ih =>
      obtain ⟨node, demand⟩ := pair
      have hrest : EndsOn ev calm (rest.map Prod.fst) := h.subset (by simp)
      refine (h node (by simp) demand st hp).andThen fun v st hp => ?_
      refine (ih hrest hp).andThen fun vs st hp => ?_
      exact hp

theorem ends_evalBlock {statements : List Node} (h : EndsOn ev calm statements) (hp : st.pending = none) :
    (evalBlock ev statements st).Ends calm := by
  induction statements generalizing st with
  | nil => exact hp
  | cons s rest ih =>
      refine (h s (by simp) .any (st.atLine s.line) hp).andThen fun v st hp => ?_
      exact ih (h.subset (by simp)) hp

theorem ends_evalOperation {op : Op} {args : List Node} (line : Nat) (h : EndsOn ev calm args)
    (hop : calm = true → op ≠ .continueLoop) (hp : st.pending = none) :
    (evalOperation ev op args line st).Ends calm := by
  have hargs : EndsOn ev calm ((args.zip op.demands).map Prod.fst) := by
    refine h.subset ?_
    intro n hn
    obtain ⟨pair, hpair, rfl⟩ := List.mem_map.mp hn
    exact (List.of_mem_zip hpair).1
  refine (ends_evalAll hargs hp).andThen fun vs st hp => ?_
  split
  · exact ends_fail hp _
  · have hline : (st.atLine line).pending = none := hp
    exact ends_applied hline vs hop

theorem ends_evalList {items : List Node} (h : EndsOn ev calm items) (hp : st.pending = none) :
    (evalList ev items st).Ends calm := by
  have hitems : EndsOn ev calm ((items.map fun node => (node, Demand.any)).map Prod.fst) := by
    simpa [Function.comp_def] using h
  refine (ends_evalAll hitems hp).andThen fun vs st hp => ?_
  exact hp

theorem ends_evalIf {cond : Node} {body : Block} (line : Nat) (h : EndsOn ev calm (cond :: body.statements))
    (hp : st.pending = none) : (evalIf ev cond body line st).Ends calm := by
  refine (h cond (by simp) .any (st.atLine line) hp).andThen fun v st hp => ?_
  split
  · have hbody : (evalBlock ev body.statements (st.atLine line)).Ends calm :=
      ends_evalBlock (h.subset (by simp)) hp
    refine hbody.andThen fun _ st hp => ?_
    exact hp
  · exact hp

theorem ends_evalShortCircuit (stop : Bool) {left right : Node} (line : Nat)
    (h : EndsOn ev calm [left, right]) (hp : st.pending = none) :
    (evalShortCircuit ev stop left right line st).Ends calm := by
  refine (h left (by simp) .any (st.atLine line) hp).andThen fun v st hp => ?_
  split
  · exact hp
  · refine (h right (by simp) .any (st.atLine line) hp).andThen fun v st hp => ?_
    exact hp

/-- A loop takes a `continue`, so it ends with one only if it does so later. -/
theorem ends_loopExit (line : Nat) (ran : Bool) {again : State → Evaluation Value} (i : Interrupt)
    (hagain : i.exit = .continued → (again st).Ends calm) (hp : st.pending = none) :
    (loopExit line ran again i st).Ends calm := by
  unfold loopExit
  split
  · exact hp
  · rename_i hexit
    exact hagain hexit
  · rename_i hexit
    exact ⟨hp, fun _ => hexit⟩

/-- The rounds of a `for` end, since each has one element less to go. -/
theorem ends_evalElements (slot : Reference) {body : Block} (line : Nat) (left : List Value) (ran : Bool)
    (h : EndsOn ev false body.statements) (hp : st.pending = none) :
    (evalElements ev slot body line left ran st).Ends calm := by
  induction left generalizing ran st with
  | nil => exact hp
  | cons v left ih =>
      have hline : (st.atLine line).pending = none := hp
      refine ends_attempt hline fun heap => ?_
      have hbody : (evalBlock ev body.statements { st.atLine line with heap := heap }).Ends false :=
        ends_evalBlock h hp
      refine hbody.handle ?_ ?_
      · intro _ st hp
        exact ih true hp
      · intro i st hp _
        exact ends_loopExit line true i (fun _ => ih true hp) hp

/-- A `for` that may be started once ends: nothing before its first element starts it anew. -/
theorem ends_evalFor {target source : Node} {body : Block} (line n : Nat)
    (hheader : EndsOn ev true [target, source]) (hbody : EndsOn ev false body.statements)
    (hp : st.pending = none) : (evalFor ev target source body line (n + 1) st).Ends calm := by
  -- An exit before the first element ends the loop, unless it is a `continue`, and there is none in the
  -- header.
  have hexit (i : Interrupt) (st : State) (hp : st.pending = none)
      (hi : (true = true) → i.exit ≠ .continued) :
      (loopExit line false (evalFor ev target source body line n) i st).Ends calm :=
    ends_loopExit line false i (fun heq => absurd heq (hi rfl)) hp
  refine (hheader target (by simp) .target (st.atLine line) hp).handle ?_ hexit
  intro t st hp
  have hline : (st.atLine line).pending = none := hp
  refine ends_attempt hline fun slot => ?_
  refine (hheader source (by simp) (.value .list) (st.atLine line) hp).handle ?_ hexit
  intro s st hp
  have hline : (st.atLine line).pending = none := hp
  refine ends_attempt hline fun r => ?_
  exact ends_evalElements slot line _ false hbody hp

theorem ends_evalInScope {body : Block} (line : Nat) (onReturn : Option Value → Value)
    (h : EndsOn ev false body.statements) (hp : st.pending = none) :
    (evalInScope ev body line onReturn st).Ends calm := by
  refine (ends_evalBlock h hp).handle ?_ ?_
  · intro _ st hp
    exact hp
  · intro i st hp _
    split
    · exact hp
    · rename_i v hexit
      exact ⟨hp, fun _ => by rw [hexit]; nofun⟩
    · exact ends_fail hp _

theorem ends_evalObject {body : Block} (line : Nat) (h : EndsOn ev false body.statements)
    (hp : st.pending = none) : (evalObject ev body line st).Ends calm := by
  unfold evalObject
  rcases (st.atLine line).pushScope_cases with ⟨-, hpush⟩ | ⟨-, hpush⟩
  · rw [hpush]
    have hp' : (st.atLine line).refused.pending = none := hp
    exact ends_fail hp' _
  · rw [hpush]
    have hp' : (st.atLine line).entered.pending = none := hp
    exact ends_evalInScope line _ h hp'

theorem ends_evalTry {body : Block} (name : String) {handler : Block} (line : Nat)
    (h : EndsOn ev calm (body.statements ++ handler.statements)) (hp : st.pending = none) :
    (evalTry ev body name handler line st).Ends calm := by
  have hbody : EndsOn ev calm body.statements := h.subset (by simp)
  have hhandler : EndsOn ev calm handler.statements := h.subset (by simp)
  have hguarded : State.pending { st.atLine line with guards := st.guards + 1 } = none := hp
  refine (ends_evalBlock hbody hguarded).handle ?_ ?_
  · intro _ st hp
    exact hp
  · intro i st hp hi
    dsimp only
    split
    -- The handler runs without the guard, and what it leaves is what the `try` leaves.
    · refine (ends_evalBlock hhandler ?_).andThen fun _ st hp => ?_
      · exact hp
      · exact hp
    · exact ⟨hp, hi⟩

/-- A node that is straight and whose parts end comes to an end; a `for` needs one round to be started. -/
theorem ends_evalForm {n : Nat} {node : Node} (hstraight : node.form.isStraight = true)
    (hcalm : calm = true → node.form.isCalm = true) (hparts : EndsOn ev calm node.form.parts)
    (hheader : ∀ target source body, node.form = .forEach target source body →
      0 < n ∧ EndsOn ev true [target, source])
    (hp : st.pending = none) : (evalForm ev n node st).Ends calm := by
  unfold evalForm
  cases hform : node.form with
  | null => exact hp
  | bool b => exact hp
  | int i => exact hp
  | float x => exact hp
  | str s => exact hp
  | path global names =>
      have hpending : (st.resolve global names).2.pending = none := by
        obtain ⟨nextId, hresolve⟩ := st.resolve_touches global names
        rw [hresolve]
        exact hp
      exact ends_attempt hpending fun v => hpending
  | list items =>
      rw [hform] at hparts
      exact ends_evalList hparts hp
  | block body =>
      rw [hform] at hparts
      exact ends_evalBlock hparts hp
  | function params body => exact hp
  | op op args =>
      rw [hform] at hparts hcalm
      refine ends_evalOperation _ hparts ?_ hp
      rintro hc rfl
      cases hcalm hc
  | ifThen cond body =>
      rw [hform] at hparts
      exact ends_evalIf _ hparts hp
  | whileDo cond body =>
      rw [hform] at hstraight
      cases hstraight
  | forEach target source body =>
      rw [hform] at hparts
      have hbody : EndsOn ev calm body.statements := hparts.subset (by simp [Form.parts])
      -- One start is enough: target and source are calm, so only a `continue` of the body comes back to the
      -- loop.
      obtain ⟨hpos, htargets⟩ := hheader target source body hform
      obtain ⟨k, rfl⟩ : ∃ k, n = k + 1 := Nat.exists_eq_succ_of_ne_zero (by omega)
      exact ends_evalFor _ k htargets hbody.loose hp
  -- A call is not straight: the body of the callee is no part of the form.
  | call callee args =>
      rw [hform] at hstraight
      cases hstraight
  | object body =>
      rw [hform] at hparts
      exact ends_evalObject _ hparts.loose hp
  | andAlso left right =>
      rw [hform] at hparts
      exact ends_evalShortCircuit false _ hparts hp
  | orElse left right =>
      rw [hform] at hparts
      exact ends_evalShortCircuit true _ hparts hp
  | tryCatch body name handler =>
      rw [hform] at hparts
      exact ends_evalTry name _ hparts hp

end Constructs

/-- A bound of its weight is enough for a straight node. The induction is on the bound: a part weighs less than
its node. -/
theorem ends_eval {n : Nat} {node : Node} (hweight : node.weight ≤ n)
    (hstraight : node.every Form.isStraight = true) {calm : Bool}
    (hcalm : calm = true → node.every Form.isCalm = true) (demand : Demand) {st : State}
    (hp : st.pending = none) : (eval n node demand st).Ends calm := by
  induction n generalizing node calm demand st with
  | zero =>
      have hpos := node.weight_pos
      omega
  | succ n ih =>
      obtain ⟨line, form⟩ := node
      simp only [Node.every, Bool.and_eq_true] at hstraight hcalm
      simp only [Node.weight] at hweight
      have hparts : EndsOn (eval n) calm form.parts := by
        intro m hm demand st hp
        have hle := Form.weight_of_mem_parts hm
        refine ih (by omega) (Form.every_of_mem_parts hstraight.2 hm) (fun hc => ?_) demand hp
        exact Form.every_of_mem_parts (hcalm hc).2 hm
      -- The header of a `for` is calm whether the loop itself is or not.
      have hheader : ∀ target source body, form = .forEach target source body →
          0 < n ∧ EndsOn (eval n) true [target, source] := by
        rintro target source body rfl
        have hquiet : target.every Form.isCalm = true ∧ source.every Form.isCalm = true := by
          simpa [Form.isStraight] using hstraight.1
        have hpart : ∀ m ∈ [target, source], m.weight ≤ n ∧ m.every Form.isStraight = true := by
          intro m hm
          have hmem : m ∈ (Form.forEach target source body).parts :=
            List.mem_append_left body.statements hm
          have hle := Form.weight_of_mem_parts hmem
          exact ⟨by omega, Form.every_of_mem_parts hstraight.2 hmem⟩
        refine ⟨Nat.lt_of_lt_of_le target.weight_pos (hpart target (by simp)).1, ?_⟩
        intro m hm demand st hp
        refine ih (hpart m hm).1 (hpart m hm).2 (fun _ => ?_) demand hp
        rcases List.mem_pair.mp hm with rfl | rfl
        · exact hquiet.1
        · exact hquiet.2
      have hform : (evalForm (eval n) n (.mk line form) (st.atLine line)).Ends calm :=
        ends_evalForm hstraight.1 (fun hc => (hcalm hc).1) hparts hheader hp
      refine hform.andThen fun v st hp => ?_
      exact Evaluation.ends_attempt hp fun w => hp

/-! ### The machine -/

namespace Machine

open Stepwise.Frame (values)

/-- Some step of a machine does not say that work remains. -/
def Halts (m : Machine) : Prop :=
  ∃ k, (m.after k).step.1 ≠ .ok true

/-- A machine halts if it does so after a step. -/
theorem Halts.of_step {m : Machine} (h : m.step.2.Halts) : m.Halts := by
  obtain ⟨k, hk⟩ := h
  rw [after_step] at hk
  exact ⟨k + 1, hk⟩

/-- A machine halts if it does so after a run. -/
theorem Halts.of_runs {base : List Frame} {k : Nat} {m m' : Machine} (hruns : Runs base k m m')
    (h : m'.Halts) : m.Halts := by
  induction hruns with
  | refl m => exact h
  | step hbusy hstep _ ih =>
      refine Halts.of_step ?_
      rw [hstep]
      exact ih h

/-- The statements of a script end one after the other. A value that is left by one of them is dropped, and an
interrupt that leaves one finds no frame that takes it. -/
theorem halts_statements {n : Nat} {statements : List Node} (h : EndsOn (eval n) false statements)
    (vs : List Value) {st : State} (hp : st.pending = none) :
    Halts ⟨values vs ++ [.block statements], st⟩ := by
  induction statements generalizing vs st with
  | nil =>
      have hbusy := busy_values_append vs [] st (f := .block []) rfl
      have hstep := step_of_work hp hbusy.hasWork (work_values_append vs (.block []) [] st rfl)
      refine ⟨0, ?_⟩
      show (step ⟨values vs ++ [.block []], st⟩).1 ≠ .ok true
      rw [hstep]
      simp [hasWork, hp]
  | cons s rest ih =>
      have hbusy := busy_values_append vs [] st (f := .block (s :: rest)) rfl
      have hstep := step_of_work hp hbusy.hasWork (work_values_append vs (.block (s :: rest)) [] st rfl)
      have hshown := shown_eval n s .any (st.atLine s.line) [.block rest] (by simp) hp
      have hends := h s (by simp) .any (st.atLine s.line) hp
      refine Halts.of_step ?_
      rw [hstep]
      show Halts ⟨[.request s .any, .block rest], st.atLine s.line⟩
      cases heval : eval n s .any (st.atLine s.line) with
      | none =>
          rw [heval] at hends
          exact hends.elim
      | some answer =>
          rw [heval] at hshown
          obtain ⟨outcome, st'⟩ := answer
          cases outcome with
          | value v =>
              obtain ⟨hp', k, hruns⟩ := hshown
              exact Halts.of_runs hruns (ih (fun m hm => h m (by simp [hm])) [v] hp')
          -- Nothing is left below the statements, so the interrupt under way is an error of the run.
          | interrupt i =>
              obtain ⟨hp', k, hruns⟩ := hshown
              refine Halts.of_runs hruns ⟨0, ?_⟩
              intro hmore
              cases hmore
          | fault f =>
              obtain ⟨k, m', m'', hruns, hbusy', hstep', hst'⟩ := hshown
              refine Halts.of_runs hruns ⟨0, ?_⟩
              show m'.step.1 ≠ .ok true
              rw [hstep']
              intro hmore
              cases hmore

/-- A script without `while` and without calls comes to its end, unless there is a `continue` in the target or
the source of a `for`: after a number of steps that say that work remains, one says that none remains, or
fails. -/
theorem halts_of_straight {root : Block} (h : root.every Form.isStraight = true) (limit : Nat)
    (seed : Seed) (sink : Sink) :
    ∃ k, (∀ j < k, ((start root limit seed sink).after j).step.1 = .ok true) ∧
      (((start root limit seed sink).after k).step.1 = .ok false ∨
        ∃ f, ((start root limit seed sink).after k).step.1 = .error f) := by
  classical
  -- The weight of the script is fuel enough for each of its statements, in any state.
  have hends : EndsOn (eval root.weight) false root.statements := by
    intro s hs demand st hp
    have hweight : s.weight ≤ root.weight := Nat.le_of_lt (Block.weight_of_mem hs)
    refine ends_eval hweight (Block.every_iff.mp h s hs) ?_ demand hp
    nofun
  have hhalts : Halts (start root limit seed sink) := halts_statements hends [] rfl
  -- The end is taken at the first step that does not say that work remains, so that all before it do.
  refine ⟨Nat.find hhalts, ?_, ?_⟩
  · intro j hj
    exact not_not.mp (Nat.find_min hhalts hj)
  · have hlast := Nat.find_spec hhalts
    cases hstep : ((start root limit seed sink).after (Nat.find hhalts)).step.1 with
    | error f => exact Or.inr ⟨f, rfl⟩
    | ok more =>
        rw [hstep] at hlast
        cases more with
        | false => exact Or.inl rfl
        | true => exact absurd rfl hlast

/-- A `for` that lets its own list grow in every round and goes on from the handler of a `try`. -/
theorem halts_of_growing_list :
    let list : Node := .mk 0 (.path false ["l"])
    let element : Node := .mk 1 (.path false ["x"])
    let grow : Node := .mk 2 (.op .push [list, element])
    let leave : Node := .mk 3 (.tryCatch (.mk 3 [.mk 3 (.op .throwValue [element])]) "e"
      (.mk 3 [.mk 3 (.op .continueLoop [])]))
    let root : Block := .mk 0
      [.mk 0 (.op .assign [list, .mk 0 (.list [.mk 0 (.int 4)])]),
        .mk 1 (.forEach element list (.mk 1 [grow, leave]))]
    root.every Form.isStraight = true ∧
      ∃ k, (∀ j < k, ((start root 9 7 .unlimited).after j).step.1 = .ok true) ∧
        (((start root 9 7 .unlimited).after k).step.1 = .ok false ∨
          ∃ f, ((start root 9 7 .unlimited).after k).step.1 = .error f) := by
  intro list element grow leave root
  have hstraight : root.every Form.isStraight = true := by decide
  exact ⟨hstraight, halts_of_straight hstraight 9 7 .unlimited⟩

end Machine

end Stepwise
