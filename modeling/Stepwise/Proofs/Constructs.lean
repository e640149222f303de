import Stepwise.Proofs.Plans
import Stepwise.Proofs.Resuming
import Stepwise.Proofs.Running

/-!
# `Stepwise.Proofs.Constructs`: each construct on the machine and in the evaluator

One lemma for each construct of a script: if the machine shows what an evaluator `ev` says of every node
(`Shown n ev`), the frame of the construct shows what the evaluator of the construct says over `ev`.

Blocks, operations and lists come first, since they have no phases of their own. What collects values goes
by induction on the nodes that are left (`shows_evalAll`), with the values so far on top of its frame.
The constructs follow, in the order of their parts. Loops share the way they answer an interrupt
(`IsLoop`), and so do a call and an object literal, which hold a scope (`HoldsScope`); the rounds of a
loop go by induction on the bound of the evaluator or on the elements that are left.
-/

set_option autoImplicit false

namespace Stepwise

/-! ### Evaluations in a row -/

namespace Evaluation

/-- Going on twice is going on with the whole rest. -/
theorem andThen_assoc {α β γ : Type} (e : Evaluation α) (f : α → State → Evaluation β)
    (g : β → State → Evaluation γ) :
    (e.andThen f).andThen g = e.andThen fun a st => (f a st).andThen g := by
  match e with
  | none => rfl
  | some (.value _, _) => rfl
  | some (.interrupt _, _) => rfl
  | some (.fault _, _) => rfl

end Evaluation

/-- The first of several nodes, and then the others. -/
theorem evalAll_cons_andThen {β : Type} (ev : Evaluator) (node : Node) (demand : Demand)
    (rest : List (Node × Demand)) (st : State) (k : List Value → State → Evaluation β) :
    (evalAll ev ((node, demand) :: rest) st).andThen k =
      (ev node demand st).andThen fun v st =>
        (evalAll ev rest st).andThen fun vs st => k (v :: vs) st := by
  rw [evalAll, Evaluation.andThen_assoc]
  congr 1
  funext v st
  rw [Evaluation.andThen_assoc]
  rfl

namespace Machine

open Stepwise.Frame (values)

/-- The machine does with a request what an evaluator does with its node. -/
def Shown (n : Nat) (ev : Evaluator) : Prop :=
  ∀ (node : Node) (demand : Demand) (st : State) (base : List Frame), base ≠ [] →
    st.pending = none → Shows base n ⟨.request node demand :: base, st⟩ (ev node demand st)

section Constructs

variable {ev : Evaluator} {n : Nat} {base : List Frame} {st : State}

/-- Whatever values are left on top of it, a block goes on with its next statement. -/
theorem shows_evalBlock (hev : Shown n ev) (hbase : base ≠ []) (statements : List Node)
    (vs : List Value) (st : State) (hp : st.pending = none) :
    Shows base n ⟨values vs ++ .block statements :: base, st⟩ (evalBlock ev statements st) := by
  induction statements generalizing vs st with
  | nil =>
      have hlen : 0 < base.length := List.length_pos_iff.mpr hbase
      refine (Shows.of_work vs rfl hp (work_values_append vs _ base st rfl) ?_ (.yield hp)).mono
        (Nat.le_succ n)
      simp
      omega
  | cons s rest ih =>
      refine (Shows.of_work vs rfl hp (work_values_append vs _ base st rfl) (by simp) ?_).mono
        (Nat.le_succ n)
      -- The statement leaves its value above the block, which drops it in its next step; so the
      -- induction hypothesis has to hold for any values above.
      refine (hev s .any (st.atLine s.line) (.block rest :: base) (by simp) hp).handle_frame ?_ ?_
      · intro v st hp
        exact ih [v] st hp
      · intro i st hp
        exact Shows.pass_plain hbase hp [.block rest] (by simp)

/-- A frame that collects values asks for the nodes that are left, and goes on with the values of all. The
induction is on what is left, and `vs` are the values so far. -/
theorem shows_evalAll_from (hev : Shown n ev) (hbase : base ≠ []) {f : Frame} (hf : f.isValue = false)
    (hplain : ∀ line c, f ≠ .control line c) (nodes : List (Node × Demand))
    (k : List Value → State → Evaluation Value)
    (hask : ∀ (vs : List Value) (st : State) (node : Node) (demand : Demand),
      nodes[vs.length]? = some (node, demand) → work ⟨values vs ++ f :: base, st⟩ =
        (.ok (), ⟨.request node demand :: (values vs ++ f :: base), st⟩))
    (hdone : ∀ (vs : List Value) (st : State), vs.length = nodes.length → st.pending = none →
      Shows base n ⟨values vs ++ f :: base, st⟩ (k vs st))
    (left : List (Node × Demand)) (vs : List Value) (hleft : nodes.drop vs.length = left)
    (hvs : vs.length ≤ nodes.length) (hp : st.pending = none) :
    Shows base n ⟨values vs ++ f :: base, st⟩
      ((evalAll ev left st).andThen fun ws st => k (vs ++ ws) st) := by
  induction left generalizing vs st with
  | nil =>
      have hlen := List.drop_eq_nil_iff.mp hleft
      show Shows base n _ (k (vs ++ []) st)
      rw [List.append_nil]
      exact hdone vs st (by omega) hp
  | cons pair left ih =>
      obtain ⟨node, demand⟩ := pair
      have hget : nodes[vs.length]? = some (node, demand) := by
        rw [← List.head?_drop, hleft]
        rfl
      have hrest : nodes.drop (vs.length + 1) = left := by
        rw [← List.drop_drop, hleft]
        rfl
      have hlt : vs.length < nodes.length := (List.getElem?_eq_some_iff.mp hget).1
      -- The values so far and the frame itself are the frames above which the next node is evaluated.
      have hstack : values vs ++ f :: base = (values vs ++ [f]) ++ base := by simp
      have hreq := hev node demand st ((values vs ++ [f]) ++ base) (by simp) hp
      rw [evalAll_cons_andThen]
      refine (Shows.of_work vs hf hp (hask vs st node demand hget) (by simp; omega) ?_).mono
        (Nat.le_succ n)
      rw [hstack]
      refine hreq.handle ?_ ?_
      · intro v st hp
        have h := ih (vs ++ [v]) (by simpa using hrest) (by simp; omega) hp
        rw [Frame.values_concat, List.cons_append, hstack] at h
        simpa only [List.append_assoc, List.singleton_append] using h
      · intro i st hp
        refine Shows.pass_plain hbase hp _ ?_
        intro g hg line c
        rcases List.mem_append.mp hg with hg | hg
        · intro heq
          have hval := Frame.isValue_of_mem_values hg
          rw [heq] at hval
          cases hval
        · rw [List.mem_singleton.mp hg]
          exact hplain line c

/-- A frame that collects values asks for one node after the other, and goes on with all their values. -/
theorem shows_evalAll (hev : Shown n ev) (hbase : base ≠ []) {f : Frame} (hf : f.isValue = false)
    (hplain : ∀ line c, f ≠ .control line c) (nodes : List (Node × Demand))
    {k : List Value → State → Evaluation Value}
    (hask : ∀ (vs : List Value) (st : State) (node : Node) (demand : Demand),
      nodes[vs.length]? = some (node, demand) → work ⟨values vs ++ f :: base, st⟩ =
        (.ok (), ⟨.request node demand :: (values vs ++ f :: base), st⟩))
    (hdone : ∀ (vs : List Value) (st : State), vs.length = nodes.length → st.pending = none →
      Shows base n ⟨values vs ++ f :: base, st⟩ (k vs st)) (hp : st.pending = none) :
    Shows base n ⟨f :: base, st⟩ ((evalAll ev nodes st).andThen k) :=
  shows_evalAll_from hev hbase hf hplain nodes k hask hdone nodes [] rfl (Nat.zero_le _) hp

/-- An operation is applied in one step. If it sets an interrupt off, its value goes and the interrupt
is under way above the base; a catchable fault under a guard leaves it there at once. -/
theorem shows_applied (hbase : base ≠ []) {op : Op} {args : List Node} {line : Nat}
    {vs : List Value} (hvs : vs.length = op.arity) (hp : st.pending = none) :
    Shows base n ⟨values vs ++ .operation op args line :: base, st⟩
      ((st.atLine line).applied op vs) := by
  have hlen : 0 < base.length := List.length_pos_iff.mpr hbase
  have hwork := work_values_append vs (.operation op args line) base st rfl
  simp only [stepOperation, hvs, Nat.lt_irrefl, if_false, if_true] at hwork
  simp only [State.applied, State.atLine]
  cases happly : State.apply { st with line := line } op vs with
  | mk r st' =>
      rw [happly] at hwork
      cases r with
      | ok v =>
          dsimp only at hwork ⊢
          cases hp' : st'.pending with
          | none =>
              exact (Shows.of_work vs rfl hp hwork (by simp; omega) (.yield hp')).mono (Nat.le_succ n)
          -- The value that was yielded along with the interrupt is the first frame to be removed.
          | some i =>
              have hpass : Shows base n
                  ⟨[.value v] ++ base, { { st' with pending := none } with pending := some i }⟩
                  (some (.interrupt i, { st' with pending := none })) :=
                Shows.pass_plain hbase rfl [.value v] (by simp)
              have hst' : st' = { { st' with pending := none } with pending := some i } := by
                rw [← hp']
              rw [hst'] at hwork
              exact (Shows.of_work vs rfl hp hwork (by simp; omega) hpass).mono (Nat.le_succ n)
      | error f =>
          cases f with
          | catchable cause =>
              have hbusy := busy_values_append vs base st (f := .operation op args line) rfl
              have hst' : st'.pending = none := by
                rw [State.apply_error happly]
                exact hp
              dsimp only at hwork ⊢
              -- A failed operation has kept the state, so no interrupt is in the way of the exception.
              by_cases hg : 0 < st'.guards
              · simp only [State.fail, hg, if_true]
                have hstep := step_of_catchable hp hbusy.hasWork hwork hg hst'
                refine (Shows.of_step hbusy hstep (.interrupt ?_)).mono (Nat.le_succ n)
                exact hst'
              · simp only [State.fail, hg, if_false]
                exact ⟨0, _, _, .refl _, hbusy,
                  step_of_fault hp hbusy.hasWork hwork (fun _ _ => Nat.eq_zero_of_not_pos hg), rfl⟩
          | _ => exact Shows.of_fault vs rfl hp hwork rfl

/-- An operation with its arguments. -/
theorem shows_evalOperation (hev : Shown n ev) (hbase : base ≠ []) (op : Op) (args : List Node)
    (line : Nat) (hp : st.pending = none) :
    Shows base n ⟨.operation op args line :: base, st⟩ (evalOperation ev op args line st) := by
  unfold evalOperation
  refine shows_evalAll hev hbase rfl (by simp) (args.zip op.demands) ?_ ?_ hp
  -- As long as arguments are missing, the operation asks for the next one with its demand.
  · intro vs st node demand hget
    obtain ⟨harg, hdemand⟩ := List.getElem?_zip_eq_some.mp hget
    have hlt : vs.length < op.arity := (List.getElem?_eq_some_iff.mp hdemand).1
    rw [work_values_append vs _ base st rfl]
    simp only [stepOperation, hlt, if_true, harg, hdemand]
  · intro vs st hvs hp
    rw [List.length_zip] at hvs
    by_cases hlt : vs.length < op.arity
    · -- Too few arguments: the operation asks for one that is not there.
      have harg : args[vs.length]? = none := by
        refine List.getElem?_eq_none ?_
        have : vs.length < op.demands.length := hlt
        omega
      have hwork := work_values_append vs (.operation op args line) base st rfl
      simp only [stepOperation, hlt, if_true, harg] at hwork
      simp only [hlt, if_true]
      exact Shows.of_fault vs rfl hp hwork rfl
    -- All arguments are there: there are as many demands as the arity says.
    · simp only [hlt, if_false]
      refine shows_applied hbase ?_ hp
      have : op.arity = op.demands.length := rfl
      omega

/-- A list literal. -/
theorem shows_evalList (hev : Shown n ev) (hbase : base ≠ []) (items : List Node)
    (hp : st.pending = none) :
    Shows base n ⟨.list items :: base, st⟩ (evalList ev items st) := by
  have hlen : 0 < base.length := List.length_pos_iff.mpr hbase
  unfold evalList
  refine shows_evalAll hev hbase rfl (by simp) (items.map fun node => (node, .any)) ?_ ?_ hp
  -- As long as there are fewer values than items the frame asks for the next one; then it makes the list.
  · intro vs st node demand hget
    rw [work_values_append vs _ base st rfl]
    rw [List.getElem?_map] at hget
    obtain ⟨item, hitem, heq⟩ := Option.map_eq_some_iff.mp hget
    cases heq
    simp only [stepList, hitem]
  · intro vs st hvs hp
    rw [List.length_map] at hvs
    have hitem : items[vs.length]? = none := List.getElem?_eq_none (by omega)
    have hwork := work_values_append vs (.list items) base st rfl
    simp only [stepList, hitem, if_pos hvs] at hwork
    exact (Shows.of_work vs rfl hp hwork (by simp; omega) (.yield hp)).mono (Nat.le_succ n)

/-- The body of a construct runs above its frame. -/
theorem shows_body (hev : Shown n ev) (f : Frame) (base : List Frame) (body : Block) (st : State)
    (hp : st.pending = none) :
    Shows (f :: base) n ⟨.block body.statements :: f :: base, st⟩
      (evalBlock ev body.statements st) :=
  shows_evalBlock hev (by simp) body.statements [] st hp

/-- An `if`. -/
theorem shows_evalIf (hev : Shown n ev) (hbase : base ≠ []) (cond : Node) (body : Block)
    (line : Nat) (hp : st.pending = none) :
    Shows base n ⟨.control line (.ifThen .start cond body) :: base, st⟩
      (evalIf ev cond body line st) := by
  -- The condition first; then the body or the end, or an interrupt that passes.
  refine (Shows.of_eval none hp rfl ?_).mono (Nat.le_succ n)
  refine (hev cond .any (st.atLine line) _ (by simp) hp).handle_frame ?_ ?_
  · intro v st hp
    cases htruth : st.heap.truthy v with
    | true =>
        have hresume : (Control.ifThen .condition cond body).resume (some v) (st.atLine line)
            = ⟨.ifThen .body cond body, st.atLine line, .ok (.run body)⟩ :=
          Control.resume_eq_iff.mpr (.starts (.branch rfl htruth))
        refine (Shows.of_run (some v) hp hresume ?_).mono (Nat.le_succ n)
        refine (shows_body hev _ base body (st.atLine line) hp).handle_frame ?_ ?_
        · intro v st hp
          exact Shows.of_done (some v) hbase hp hp rfl
        · intro i st hp
          exact Shows.of_passed hbase hp rfl hp
    | false =>
        have hresume : (Control.ifThen .condition cond body).resume (some v) (st.atLine line)
            = ⟨.ifThen .condition cond body, st.atLine line, .ok (.done (.bool false))⟩ :=
          Control.resume_eq_iff.mpr (.settles (.skipped rfl htruth))
        exact Shows.of_done (some v) hbase hp hp hresume
  · intro i st hp
    exact Shows.of_passed hbase hp rfl hp

/-- A conjunction or a disjunction. -/
theorem shows_evalShortCircuit (hev : Shown n ev) (hbase : base ≠ []) (stop : Bool)
    (left right : Node) (line : Nat) (hp : st.pending = none) :
    Shows base n ⟨.control line (.shortCircuit stop .start left right) :: base, st⟩
      (evalShortCircuit ev stop left right line st) := by
  refine (Shows.of_eval none hp rfl ?_).mono (Nat.le_succ n)
  refine (hev left .any (st.atLine line) _ (by simp) hp).handle_frame ?_ ?_
  · intro v st hp
    -- The left operand settles it, or the right one is asked for.
    by_cases hstop : st.heap.truthy v = stop
    · have hresume : (Control.shortCircuit stop .condition left right).resume (some v)
          (st.atLine line)
          = ⟨.shortCircuit stop .condition left right, st.atLine line, .ok (.done (.bool stop))⟩ :=
        Control.resume_eq_iff.mpr (.settles (.decided rfl hstop))
      simp only [hstop, if_true]
      exact Shows.of_done (some v) hbase hp hp hresume
    · have hresume : (Control.shortCircuit stop .condition left right).resume (some v)
          (st.atLine line)
          = ⟨.shortCircuit stop .body left right, st.atLine line, .ok (.eval right .any)⟩ :=
        Control.resume_eq_iff.mpr (.asks (.right rfl hstop))
      simp only [hstop, if_false]
      refine (Shows.of_eval (some v) hp hresume ?_).mono (Nat.le_succ n)
      refine (hev right .any (st.atLine line) _ (by simp) hp).handle_frame ?_ ?_
      · intro v st hp
        exact Shows.of_done (some v) hbase hp hp rfl
      · intro i st hp
        exact Shows.of_passed hbase hp rfl hp
  · intro i st hp
    exact Shows.of_passed hbase hp rfl hp

/-- What makes a construct a loop: a break leaves it in `broken`, where it is done, a continue leaves it
in `next`, and other interrupts pass. -/
structure IsLoop (c broken next : Control) (ran : Bool) : Prop where
  onBreak : ∀ i st, i.exit = .broke → c.answer i st = .handled broken st
  onContinue : ∀ i st, i.exit = .continued → c.answer i st = .handled next st
  onOther : ∀ i st, i.exit ≠ .broke → i.exit ≠ .continued → c.answer i st = .passed
  keeps : ∀ st, c.discard st = st
  done : ∀ st, broken.resume none st = ⟨broken, st, .ok (.done (.bool ran))⟩

theorem isLoop_while (phase : WhilePhase) (ran : Bool) (cond : Node) (body : Block) :
    IsLoop (.whileDo phase ran cond body) (.whileDo .broken ran cond body)
      (.whileDo .check ran cond body) ran where
  onBreak i st hi := by simp only [Control.answer, hi]
  onContinue i st hi := by simp only [Control.answer, hi]
  onOther i st hb hc := by
    cases hi : i.exit with
    | broke => exact absurd hi hb
    | continued => exact absurd hi hc
    | _ => simp only [Control.answer, hi]
  keeps st := rfl
  done st := rfl

/-- Before its first element a `for` that goes on starts anew. -/
theorem isLoop_for_start {phase : ForPhase} (ran : Bool) (target source : Node) (body : Block)
    (hphase : phase = .target ∨ ∃ slot, phase = .source slot) :
    IsLoop (.forEach phase ran target source body) (.forEach .broken ran target source body)
      (.forEach .start ran target source body) ran where
  onBreak i st hi := by simp only [Control.answer, hi]
  onContinue i st hi := by
    rcases hphase with rfl | ⟨slot, rfl⟩
    · simp only [Control.answer, hi]
    · simp only [Control.answer, hi]
  onOther i st hb hc := by
    cases hi : i.exit with
    | broke => exact absurd hi hb
    | continued => exact absurd hi hc
    | _ => simp only [Control.answer, hi]
  keeps st := rfl
  done st := rfl

/-- With a body under way a `for` that goes on is at its next element already. -/
theorem isLoop_for_iterate (slot : Reference) (left : List Value) (ran : Bool) (target source : Node)
    (body : Block) :
    IsLoop (.forEach (.iterate slot left) ran target source body)
      (.forEach .broken ran target source body)
      (.forEach (.iterate slot left) ran target source body) ran where
  onBreak i st hi := by simp only [Control.answer, hi]
  onContinue i st hi := by simp only [Control.answer, hi]
  onOther i st hb hc := by
    cases hi : i.exit with
    | broke => exact absurd hi hb
    | continued => exact absurd hi hc
    | _ => simp only [Control.answer, hi]
  keeps st := rfl
  done st := rfl

/-- A loop and an interrupt of one of its parts. -/
theorem shows_loopExit (hbase : base ≠ []) {c broken next : Control} {line : Nat} {ran : Bool}
    {again : State → Evaluation Value} (hloop : IsLoop c broken next ran)
    (hagain : ∀ st, st.pending = none → Shows base n ⟨.control line next :: base, st⟩ (again st))
    (i : Interrupt) (st : State) (hp : st.pending = none) :
    Shows base n ⟨.control line c :: base, { st with pending := some i }⟩
      (loopExit line ran again i st) := by
  -- A return or an exception passes, and a loop has nothing to give back.
  have hpass (hb : i.exit ≠ .broke) (hc : i.exit ≠ .continued) :
      Shows base n ⟨.control line c :: base, { st with pending := some i }⟩
        (some (.interrupt i, st)) := by
    have hp' : (c.discard st).pending = none := by rw [hloop.keeps]; exact hp
    rw [← congrArg (fun st => some (Ending.interrupt i, st)) (hloop.keeps st)]
    exact Shows.of_passed hbase hp (hloop.onOther i st hb hc) hp'
  cases hi : i.exit with
  | broke =>
      simp only [loopExit, hi]
      refine (Shows.of_handled hp (hloop.onBreak i st hi) ?_).mono (Nat.le_succ n)
      exact Shows.of_done none hbase hp hp (hloop.done _)
  | continued =>
      simp only [loopExit, hi]
      exact (Shows.of_handled hp (hloop.onContinue i st hi) (hagain st hp)).mono (Nat.le_succ n)
  | returned v =>
      simp only [loopExit, hi]
      exact hpass (by simp [hi]) (by simp [hi])
  | thrown v =>
      simp only [loopExit, hi]
      exact hpass (by simp [hi]) (by simp [hi])

/-- A `while` before a round, with at most `k` rounds to go. -/
theorem shows_evalWhile (hev : Shown n ev) (hbase : base ≠ []) (cond : Node) (body : Block)
    (line : Nat) (k : Nat) (hk : k ≤ n) (incoming : Option Value) {phase : WhilePhase}
    (hphase : phase = .check ∨ phase = .body) (ran : Bool) (st : State) (hp : st.pending = none) :
    Shows base k ⟨values incoming.toList ++ .control line (.whileDo phase ran cond body) :: base, st⟩
      (evalWhile ev cond body line k ran st) := by
  induction k generalizing incoming phase ran st with
  | zero => exact ⟨_, .refl _, busy_values_append _ base st rfl⟩
  | succ k ih =>
      have hresume : (Control.whileDo phase ran cond body).resume incoming (st.atLine line)
          = ⟨.whileDo .condition ran cond body, st.atLine line, .ok (.eval cond .any)⟩ :=
        Control.resume_eq_iff.mpr (.asks (.again hphase))
      -- A `continue` comes back to the check with one round less to go, from the condition or the body.
      have hagain (ran : Bool) (st : State) (hp : st.pending = none) :
          Shows base k ⟨.control line (.whileDo .check ran cond body) :: base, st⟩
            (evalWhile ev cond body line k ran st) :=
        ih (by omega) none (Or.inl rfl) ran st hp
      -- The condition and the body have the bound `n` of the evaluator, which is at least the rounds left.
      refine Shows.of_eval incoming hp hresume ?_
      have hcond := hev cond .any (st.atLine line)
        (.control line (.whileDo .condition ran cond body) :: base) (by simp) hp
      refine (hcond.mono (by omega)).handle_frame ?_ ?_
      · intro v st hp
        cases htruth : st.heap.truthy v with
        | true =>
            have hresume : (Control.whileDo .condition ran cond body).resume (some v) (st.atLine line)
                = ⟨.whileDo .body true cond body, st.atLine line, .ok (.run body)⟩ :=
              Control.resume_eq_iff.mpr (.starts (.round rfl htruth))
            refine (Shows.of_run (some v) hp hresume ?_).mono (Nat.le_succ k)
            have hbody := shows_body hev (.control line (.whileDo .body true cond body)) base body
              (st.atLine line) hp
            refine (hbody.mono (by omega)).handle_frame ?_ ?_
            · intro v st hp
              exact ih (by omega) (some v) (Or.inr rfl) true st hp
            · exact shows_loopExit hbase (isLoop_while .body true cond body) (hagain true)
        | false =>
            have hresume : (Control.whileDo .condition ran cond body).resume (some v) (st.atLine line)
                = ⟨.whileDo .condition ran cond body, st.atLine line, .ok (.done (.bool ran))⟩ :=
              Control.resume_eq_iff.mpr (.settles (.ended rfl htruth))
            exact Shows.of_done (some v) hbase hp hp hresume
      · exact shows_loopExit hbase (isLoop_while .condition ran cond body) (hagain ran)

/-- A `for` at its next element. The construct may come there from its source or from a body. -/
theorem shows_evalElements (hev : Shown n ev) (hbase : base ≠ []) (target source : Node)
    (body : Block) (line : Nat) (slot : Reference) (left : List Value) (c : Control)
    (incoming : Option Value) (ran : Bool) (st : State) (hp : st.pending = none)
    (hresume : c.resume incoming (st.atLine line)
      = Control.nextElement ran target source body slot left (st.atLine line)) :
    Shows base n ⟨values incoming.toList ++ .control line c :: base, st⟩
      (evalElements ev slot body line left ran st) := by
  induction left generalizing c incoming ran st with
  | nil => exact Shows.of_done incoming hbase hp hp hresume
  | cons v left ih =>
      simp only [evalElements, Heap.write]
      simp only [Control.nextElement, State.atLine] at hresume
      cases hw : st.heap.writable slot with
      | error f =>
          rw [hw] at hresume
          exact Shows.of_failed incoming hp hresume (st.heap.writable_fails slot f hw).1.uncatchable
      | ok u =>
          rw [hw] at hresume
          refine (Shows.of_run incoming hp hresume ?_).mono (Nat.le_succ n)
          have hbody := shows_body hev
            (.control line (.forEach (.iterate slot left) true target source body)) base body
            { st.atLine line with heap := st.heap.put slot v } hp
          -- The construct has the elements after this one, whether the body ends or continues.
          refine hbody.handle_frame ?_ ?_
          · intro v st hp
            exact ih _ (some v) true st hp rfl
          · refine shows_loopExit hbase (isLoop_for_iterate slot left true target source body) ?_
            intro st hp
            exact ih _ none true st hp rfl

/-- A `for` at its start, which it may come back to at most `k` times. -/
theorem shows_evalFor (hev : Shown n ev) (hbase : base ≠ []) (target source : Node) (body : Block)
    (line : Nat) (k : Nat) (hk : k ≤ n) (st : State) (hp : st.pending = none) :
    Shows base k ⟨.control line (.forEach .start false target source body) :: base, st⟩
      (evalFor ev target source body line k st) := by
  induction k generalizing st with
  | zero => exact ⟨_, .refl _, busy_values_append [] base st rfl⟩
  | succ k ih =>
      -- Only a `continue` in the target or the source comes back here; one in the body goes to the next
      -- element.
      have hagain (st : State) (hp : st.pending = none) := ih (by omega) st hp
      refine Shows.of_eval none hp rfl ?_
      have htarget := hev target .target (st.atLine line)
        (.control line (.forEach .target false target source body) :: base) (by simp) hp
      refine (htarget.mono (by omega)).handle_frame ?_ ?_
      · intro t st hp
        cases ht : st.heap.asReference t with
        | error f =>
            have hresume : (Control.forEach .target false target source body).resume (some t)
                (st.atLine line)
                = ⟨.forEach .broken false target source body, st.atLine line, .error f⟩ :=
              Control.resume_eq_iff.mpr (.impeded (.target rfl ht))
            exact Shows.of_failed (some t) hp hresume (st.heap.asReference_fails t f ht).quiet.uncatchable
        | ok slot =>
            have hresume : (Control.forEach .target false target source body).resume (some t)
                (st.atLine line)
                = ⟨.forEach (.source slot) false target source body, st.atLine line,
                    .ok (.eval source (.value .list))⟩ := by
              simp only [Control.resume, Control.resumeFor, Control.expectValue_bind, State.atLine, ht]
            refine (Shows.of_eval (some t) hp hresume ?_).mono (Nat.le_succ k)
            have hsource := hev source (.value .list) (st.atLine line)
              (.control line (.forEach (.source slot) false target source body) :: base) (by simp) hp
            refine (hsource.mono (by omega)).handle_frame ?_ ?_
            · intro s st hp
              cases hs : st.heap.asList s with
              | error f =>
                  have hresume : (Control.forEach (.source slot) false target source body).resume
                      (some s) (st.atLine line)
                      = ⟨.forEach .broken false target source body, st.atLine line, .error f⟩ :=
                    Control.resume_eq_iff.mpr (.impeded (.source rfl hs))
                  exact Shows.of_failed (some s) hp hresume (st.heap.asList_fails s f hs).quiet.uncatchable
              | ok r =>
                  refine (shows_evalElements hev hbase target source body line slot _ _ (some s) false
                    st hp ?_).mono (by omega)
                  simp only [Control.resume, Control.resumeFor, Control.expectValue_bind, State.atLine, hs]
            · exact shows_loopExit hbase
                (isLoop_for_start false target source body (Or.inr ⟨slot, rfl⟩)) hagain
      · exact shows_loopExit hbase (isLoop_for_start false target source body (Or.inl rfl)) hagain

/-- What makes a construct hold a scope while its body runs: a return leaves it in `closing`, a break or a
continue is refused, an exception passes, and the scope is released on the way out. -/
structure HoldsScope (c : Control) (closing : Value → Control) (result : Option Value → Value) :
    Prop where
  onReturn : ∀ i st v, i.exit = .returned v → c.answer i st = .handled (closing v) st
  onJump : ∀ i st, i.exit = .broke ∨ i.exit = .continued →
    c.answer i st = .rejected (.invalidInterrupt i.signal)
  onThrow : ∀ i st v, i.exit = .thrown v → c.answer i st = .passed
  releases : ∀ st, c.discard st = st.popScope
  done : ∀ incoming st, ∃ c', c.resume incoming st = ⟨c', st.popScope, .ok (.done (result none))⟩
  closed : ∀ v st, ∃ c',
    (closing v).resume none st = ⟨c', st.popScope, .ok (.done (result (some v)))⟩

theorem holdsScope_call (callee args : Node) :
    HoldsScope (.call (.body none) callee args) (fun v => .call (.body (some v)) callee args)
      (fun v => v.getD .null) where
  onReturn i st v hi := by simp only [Control.answer, hi]
  onJump i st hi := by rcases hi with hi | hi <;> simp only [Control.answer, hi]
  onThrow i st v hi := by simp only [Control.answer, hi]
  releases st := rfl
  done incoming st := ⟨_, rfl⟩
  closed v st := ⟨_, rfl⟩

theorem holdsScope_object (scope : ObjectRef) (body : Block) :
    HoldsScope (.object (.body scope) body) (fun _ => .object (.body scope) body)
      (fun _ => .object scope) where
  onReturn i st v hi := by simp only [Control.answer, hi]
  onJump i st hi := by rcases hi with hi | hi <;> simp only [Control.answer, hi]
  onThrow i st v hi := by simp only [Control.answer, hi]
  releases st := rfl
  done incoming st := ⟨_, rfl⟩
  closed v st := ⟨_, rfl⟩

/-- The body of a construct that holds a scope, and how the construct ends. -/
theorem shows_evalInScope (hev : Shown n ev) (hbase : base ≠ []) {c : Control}
    {closing : Value → Control} {result : Option Value → Value}
    (hc : HoldsScope c closing result) (body : Block) (line : Nat) (hp : st.pending = none) :
    Shows base n ⟨.block body.statements :: .control line c :: base, st⟩
      (evalInScope ev body line result st) := by
  refine (shows_body hev (.control line c) base body st hp).handle_frame ?_ ?_
  · intro v st hp
    obtain ⟨c', hresume⟩ := hc.done (some v) (st.atLine line)
    exact Shows.of_done (some v) hbase hp hp hresume
  · intro i st hp
    cases hi : i.exit with
    | returned v =>
        obtain ⟨c', hresume⟩ := hc.closed v (st.atLine line)
        refine (Shows.of_handled hp (hc.onReturn i st v hi) ?_).mono (Nat.le_succ n)
        exact Shows.of_done none hbase hp hp hresume
    | thrown v =>
        have hp' : (c.discard st).pending = none := by
          rw [hc.releases]
          exact hp
        -- An exception passes, and the scope goes with the construct.
        show Shows base n _ (some (.interrupt i, st.popScope))
        rw [← hc.releases]
        exact Shows.of_passed hbase hp (hc.onThrow i st v hi) hp'
    | broke => exact Shows.of_rejected hp (hc.onJump i st (Or.inl hi))
    | continued => exact Shows.of_rejected hp (hc.onJump i st (Or.inr hi))

/-- A call whose arguments are there. -/
theorem shows_enter (hev : Shown n ev) (hbase : base ≠ []) (callee args : Node) (line : Nat)
    (f : Function) (v : Value) (hp : st.pending = none) :
    Shows base n ⟨.value v :: .control line (.call (.args f) callee args) :: base, st⟩
      ((st.atLine line).attempt (st.heap.asList v) fun r =>
        let values := st.heap.items r
        if values.size ≠ f.arity then (st.atLine line).fail (.arityMismatch f.arity values.size)
        else
          match (st.atLine line).pushScope with
          | (.error fault, st) => st.fail fault
          | (.ok scope, st) =>
            let heap := Control.bind st.heap scope f.params values.toList
            evalInScope ev f.body line (fun v => v.getD .null) { st with heap := heap }) := by
  cases hv : st.heap.asList v with
  -- Each way out of the call before its body runs leaves the construct at its start.
  | error fault =>
      have hresume : (Control.call (.args f) callee args).resume (some v) (st.atLine line)
          = ⟨.call .start callee args, st.atLine line, .error fault⟩ :=
        Control.resume_eq_iff.mpr (.impeded (.arguments rfl hv))
      exact Shows.of_failed (some v) hp hresume (st.heap.asList_fails v fault hv).quiet.uncatchable
  | ok r =>
      have hresume : (Control.call (.args f) callee args).resume (some v) (st.atLine line)
          = Control.enter f (st.heap.items r) callee args (st.atLine line) := by
        simp only [Control.resume, Control.resumeCall, Control.expectValue_bind, State.atLine, hv]
      simp only [State.attempt]
      simp only [Control.enter] at hresume
      by_cases hcount : (st.heap.items r).size ≠ f.arity
      · rw [if_pos hcount] at hresume ⊢
        exact Shows.of_failed (some v) hp hresume rfl
      · rw [if_neg hcount] at hresume ⊢
        rcases (st.atLine line).pushScope_cases with ⟨-, hpush⟩ | ⟨-, hpush⟩
        · rw [hpush] at hresume ⊢
          exact Shows.of_failed (some v) hp hresume rfl
        · rw [hpush] at hresume ⊢
          refine (Shows.of_run (some v) hp hresume ?_).mono (Nat.le_succ n)
          exact shows_evalInScope hev hbase (holdsScope_call callee args) f.body line hp

/-- A call. -/
theorem shows_evalCall (hev : Shown n ev) (hbase : base ≠ []) (callee args : Node) (line : Nat)
    (hp : st.pending = none) :
    Shows base n ⟨.control line (.call .start callee args) :: base, st⟩
      (evalCall ev callee args line st) := by
  refine (Shows.of_eval none hp rfl ?_).mono (Nat.le_succ n)
  refine (hev callee (.value .function) (st.atLine line) _ (by simp) hp).handle_frame ?_ ?_
  · intro v st hp
    -- What is to be called must be a function before the arguments are looked at.
    cases hv : st.heap.asFunction v with
    | error f =>
        have hresume : (Control.call .callee callee args).resume (some v) (st.atLine line)
            = ⟨.call .start callee args, st.atLine line, .error f⟩ :=
          Control.resume_eq_iff.mpr (.impeded (.callee rfl hv))
        exact Shows.of_failed (some v) hp hresume (st.heap.asFunction_fails v f hv).quiet.uncatchable
    | ok f =>
        have hresume : (Control.call .callee callee args).resume (some v) (st.atLine line)
            = ⟨.call (.args f) callee args, st.atLine line, .ok (.eval args (.value .list))⟩ := by
          simp only [Control.resume, Control.resumeCall, Control.expectValue_bind, State.atLine, hv]
        refine (Shows.of_eval (some v) hp hresume ?_).mono (Nat.le_succ n)
        refine (hev args (.value .list) (st.atLine line) _ (by simp) hp).handle_frame ?_ ?_
        · intro v st hp
          exact shows_enter hev hbase callee args line f v hp
        · intro i st hp
          exact Shows.of_passed hbase hp rfl hp
  · intro i st hp
    exact Shows.of_passed hbase hp rfl hp

/-- An object literal. -/
theorem shows_evalObject (hev : Shown n ev) (hbase : base ≠ []) (body : Block) (line : Nat)
    (hp : st.pending = none) :
    Shows base n ⟨.control line (.object .start body) :: base, st⟩ (evalObject ev body line st) := by
  simp only [evalObject]
  -- The scope is pushed before anything of the body is evaluated, and this is where the limit is checked.
  rcases (st.atLine line).pushScope_cases with ⟨hfull, hpush⟩ | ⟨hroom, hpush⟩
  · rw [hpush]
    have hresume : (Control.object .start body).resume none (st.atLine line)
        = ⟨.object .start body, (st.atLine line).refused, .error (.recursionLimit st.scopes.limit)⟩ :=
      Control.resume_eq_iff.mpr (.refused trivial hfull)
    exact Shows.of_failed none hp hresume rfl
  · rw [hpush]
    have hresume : (Control.object .start body).resume none (st.atLine line)
        = ⟨.object (.body (st.atLine line).newScope) body, (st.atLine line).entered, .ok (.run body)⟩ :=
      Control.resume_eq_iff.mpr (.opened hroom)
    refine (Shows.of_run none hp hresume ?_).mono (Nat.le_succ n)
    exact shows_evalInScope hev hbase (holdsScope_object _ body) body line hp

/-- A `try` that has caught an exception. -/
theorem shows_handler (hev : Shown n ev) (hbase : base ≠ []) (body : Block) (name : String)
    (handler : Block) (line : Nat) (hp : st.pending = none) :
    Shows base n ⟨.control line (.tryCatch .caught body name handler) :: base, st⟩
      ((evalBlock ev handler.statements (st.atLine line)).andThen fun _ st =>
        (st.atLine line).yield (.bool true)) := by
  have hresume : (Control.tryCatch .caught body name handler).resume none (st.atLine line)
      = ⟨.tryCatch .handler body name handler, st.atLine line, .ok (.run handler)⟩ := rfl
  refine (Shows.of_run none hp hresume ?_).mono (Nat.le_succ n)
  refine (shows_body hev _ base handler (st.atLine line) hp).handle_frame ?_ ?_
  · intro v st hp
    exact Shows.of_done (some v) hbase hp hp rfl
  · intro i st hp
    exact Shows.of_passed hbase hp rfl hp

/-- A `try`. -/
theorem shows_evalTry (hev : Shown n ev) (hbase : base ≠ []) (body : Block) (name : String)
    (handler : Block) (line : Nat) (hp : st.pending = none) :
    Shows base n ⟨.control line (.tryCatch .start body name handler) :: base, st⟩
      (evalTry ev body name handler line st) := by
  have hresume : (Control.tryCatch .start body name handler).resume none (st.atLine line)
      = ⟨.tryCatch .body body name handler, { st.atLine line with guards := st.guards + 1 },
          .ok (.run body)⟩ := rfl
  refine (Shows.of_run none hp hresume ?_).mono (Nat.le_succ n)
  refine (shows_body hev _ base body { st.atLine line with guards := st.guards + 1 } hp).handle_frame
    ?_ ?_
  · intro v st hp
    exact Shows.of_done (some v) hbase hp hp rfl
  · intro i st hp
    cases hi : i.exit with
    -- The guard goes before the handler runs, so a throw in the handler is not caught here.
    | thrown v =>
        have hanswer : (Control.tryCatch .body body name handler).answer i st
            = .handled (.tryCatch .caught body name handler)
              { st with
                guards := st.guards - 1
                heap := st.heap.objectSet st.scopes.current name v } := by
          simp only [Control.answer, hi]
        refine (Shows.of_handled hp hanswer ?_).mono (Nat.le_succ n)
        exact shows_handler hev hbase body name handler line hp
    | _ =>
        refine Shows.of_passed hbase hp ?_ hp
        simp only [Control.answer, hi]

end Constructs

end Machine

end Stepwise
