import Stepwise.Proofs.Constructs
import Stepwise.Proofs.Holding

/-!
# `Stepwise.Proofs.Refinement`: the machine refines the evaluator

`request_refines_eval` says that the machine and the evaluator of `Stepwise.Proofs.Evaluator` agree on
every node, above every stack. A request turns into the value or the frame of its node in one step
(`produce_cases`), and that frame shows what the evaluator says by the lemma of its construct; so the
machine shows every bound of the evaluator (`shown_eval`). The other direction needs no second
simulation: a machine that stops after `k` steps has an evaluation with the bound `k + 1`, and its
ending is the one the machine shows, since a machine has one ending only.
-/

set_option autoImplicit false

namespace Stepwise

namespace Machine

section Nodes

variable {ev : Evaluator} {n : Nat} {base : List Frame} {st : State}

/-- What a node gives at once is what it says: its value, its fault, or a frame that shows it. -/
theorem produce_cases (hev : Shown n ev) (node : Node) (hp : st.pending = none) :
    (∃ v st', st.produce node = (.ok (.value v), st') ∧ st'.pending = none ∧
      evalForm ev n node st = st'.yield v) ∨
    (∃ f st', st.produce node = (.error f, st') ∧ f.isCatchable = false ∧
      evalForm ev n node st = st'.fail f) ∨
    (∃ f, st.produce node = (.ok (.frame f), st) ∧ f.isValue = false ∧
      ∀ base, base ≠ [] → Shows base n ⟨f :: base, st⟩ (evalForm ev n node st)) := by
  simp only [State.produce, State.produce.construct, evalForm]
  cases node.form with
  | path global names =>
      have hfails := st.resolve_fails global names
      have hpending : (st.resolve global names).2.pending = none := by
        obtain ⟨nextId, hresolve⟩ := st.resolve_touches global names
        rw [hresolve]
        exact hp
      dsimp only
      cases hr : st.resolve global names with
      | mk r st' =>
          rw [hr] at hfails hpending
          cases r with
          | ok v => exact Or.inl ⟨v, st', rfl, hpending, rfl⟩
          | error f => exact Or.inr (Or.inl ⟨f, st', rfl, (hfails f rfl).1.uncatchable, rfl⟩)
  -- The rest is one lemma for each construct, whose frame shows what the evaluator says.
  | list items =>
      cases items with
      | nil => exact Or.inl ⟨_, _, rfl, hp, rfl⟩
      | cons item rest =>
          exact Or.inr (Or.inr ⟨_, rfl, rfl, fun base hbase => shows_evalList hev hbase _ hp⟩)
  | block body =>
      exact Or.inr (Or.inr ⟨_, rfl, rfl, fun base hbase => shows_evalBlock hev hbase _ [] st hp⟩)
  | op op args =>
      exact Or.inr (Or.inr
        ⟨_, rfl, rfl, fun base hbase => shows_evalOperation hev hbase op args _ hp⟩)
  | ifThen cond body =>
      exact Or.inr (Or.inr ⟨_, rfl, rfl, fun base hbase => shows_evalIf hev hbase cond body _ hp⟩)
  | whileDo cond body =>
      exact Or.inr (Or.inr ⟨_, rfl, rfl, fun base hbase =>
        shows_evalWhile hev hbase cond body _ n (Nat.le_refl n) none (Or.inl rfl) false st hp⟩)
  | forEach target source body =>
      exact Or.inr (Or.inr ⟨_, rfl, rfl, fun base hbase =>
        shows_evalFor hev hbase target source body _ n (Nat.le_refl n) st hp⟩)
  | call callee args =>
      exact Or.inr (Or.inr
        ⟨_, rfl, rfl, fun base hbase => shows_evalCall hev hbase callee args _ hp⟩)
  | object body =>
      exact Or.inr (Or.inr ⟨_, rfl, rfl, fun base hbase => shows_evalObject hev hbase body _ hp⟩)
  | andAlso left right =>
      exact Or.inr (Or.inr ⟨_, rfl, rfl, fun base hbase =>
        shows_evalShortCircuit hev hbase false left right _ hp⟩)
  | orElse left right =>
      exact Or.inr (Or.inr ⟨_, rfl, rfl, fun base hbase =>
        shows_evalShortCircuit hev hbase true left right _ hp⟩)
  | tryCatch body name handler =>
      exact Or.inr (Or.inr
        ⟨_, rfl, rfl, fun base hbase => shows_evalTry hev hbase body name handler _ hp⟩)
  | _ => exact Or.inl ⟨_, _, rfl, hp, rfl⟩

/-- A produced value is made to fit its demand. -/
theorem shows_finish (hbase : base ≠ []) (demand : Demand) (v : Value) (hp : st.pending = none) :
    Shows base n ⟨.value v :: .finish demand :: base, st⟩
      (st.attempt (st.heap.finalize demand v) st.yield) := by
  have hlen : 0 < base.length := List.length_pos_iff.mpr hbase
  have hwork := work_values_append [v] (.finish demand) base st rfl
  simp only [stepFinish] at hwork
  cases hv : st.heap.finalize demand v with
  | error f =>
      rw [hv] at hwork
      exact Shows.of_fault [v] rfl hp hwork (st.heap.finalize_fails demand v f hv).1.uncatchable
  | ok w =>
      rw [hv] at hwork
      exact (Shows.of_work [v] rfl hp hwork (by simp; omega) (.yield hp)).mono (Nat.le_succ n)

end Nodes

/-- The machine does with a request what the evaluator does with its node. The induction is on the bound:
a request takes one step, and its parts have one less to go. -/
theorem shown_eval (n : Nat) : Shown n (eval n) := by
  induction n with
  -- Without a bound nothing is claimed but that the request is there to be worked on.
  | zero =>
      intro node demand st base hbase hp
      exact ⟨_, .refl _, busy_values_append [] base st rfl⟩
  | succ n ih =>
      intro node demand st base hbase hp
      have hlen : 0 < base.length := List.length_pos_iff.mpr hbase
      have hwork := work_values_append [] (.request node demand) base st rfl
      have hline : { st with line := node.line } = st.atLine node.line := rfl
      simp only [stepRequest, hline] at hwork
      simp only [eval]
      rcases produce_cases ih node (show (st.atLine node.line).pending = none from hp) with
        ⟨v, st', hproduce, hp', heval⟩ | ⟨f, st', hproduce, hf, heval⟩ | ⟨f, hproduce, hf, hshows⟩
      · rw [hproduce] at hwork
        rw [heval]
        show Shows base (n + 1) _ (st'.attempt (st'.heap.finalize demand v) st'.yield)
        cases hv : st'.heap.finalize demand v with
        | error f =>
            simp only [hv] at hwork
            exact Shows.of_fault [] rfl hp hwork (st'.heap.finalize_fails demand v f hv).1.uncatchable
        | ok w =>
            simp only [hv] at hwork
            exact Shows.of_work [] rfl hp hwork (by simp; omega) (.yield hp')
      · rw [hproduce] at hwork
        rw [heval]
        have hfail : (st'.fail f : Evaluation Value).andThen (fun v st =>
            st.attempt (st.heap.finalize demand v) st.yield) = st'.fail f := by
          cases f with
          | catchable cause => cases hf
          | _ => rfl
        rw [hfail]
        exact Shows.of_fault [] rfl hp hwork hf
      · rw [hproduce] at hwork
        refine Shows.of_work [] rfl hp hwork (by simp) ?_
        refine (hshows (.finish demand :: base) (by simp)).handle_frame ?_ ?_
        · intro v st hp
          exact shows_finish hbase demand v hp
        · intro i st hp
          exact Shows.pass_plain hbase hp [.finish demand] (by simp)

/-! ### Both directions -/

/-- The evaluator's bound only has to be large enough: it is if the machine stops after `k` steps. -/
theorem exists_eval_of_stops {node : Node} {demand : Demand} {st : State} {base : List Frame}
    (hbase : base ≠ []) (hp : st.pending = none) {k : Nat} {m : Machine}
    (hruns : Runs base k ⟨.request node demand :: base, st⟩ m) (hstops : Stops base m) :
    ∃ n x, eval n node demand st = some x := by
  -- The bound `k + 1` would certify `k + 1` steps if it were too small, but the machine stops before.
  have hshown := shown_eval (k + 1) node demand st base hbase hp
  cases heval : eval (k + 1) node demand st with
  | some x => exact ⟨k + 1, x, heval⟩
  | none =>
      rw [heval] at hshown
      obtain ⟨m', hlong, -⟩ := hshown
      have hone : Runs base 1 m m' := hruns.rest hlong
      cases hone with
      | step hbusy hstep _ => exact absurd hstep (hstops hbusy _)

/-- The machine refines the evaluator. A request for a node above any stack ends with a value on that
stack exactly if the evaluator yields that value, with an interrupt under way above that stack exactly
if the evaluator ends with that interrupt, and with a fault exactly if the evaluator ends with that
fault, each time in the same state; and the machine goes on forever exactly if no bound is large enough
for the evaluator. Until then no step touches the stack below the request. -/
theorem request_refines_eval (node : Node) (demand : Demand) (st : State) (base : List Frame)
    (hbase : base ≠ []) (hp : st.pending = none) :
    (∀ v st', (∃ n, eval n node demand st = some (.value v, st')) ↔
      st'.pending = none ∧
        ∃ k, Runs base k ⟨.request node demand :: base, st⟩ ⟨.value v :: base, st'⟩) ∧
    (∀ i st', (∃ n, eval n node demand st = some (.interrupt i, st')) ↔
      st'.pending = none ∧
        ∃ k, Runs base k ⟨.request node demand :: base, st⟩ ⟨base, { st' with pending := some i }⟩) ∧
    (∀ f st', (∃ n, eval n node demand st = some (.fault f, st')) ↔
      ∃ k m m', Runs base k ⟨.request node demand :: base, st⟩ m ∧ Busy base m ∧
        m.step = (.error f, m') ∧ m'.state = st') ∧
    ((∀ n, eval n node demand st = none) ↔
      ∀ k, ∃ m, Runs base k ⟨.request node demand :: base, st⟩ m ∧ Busy base m) := by
  have hshown (n : Nat) := shown_eval n node demand st base hbase hp
  -- An ending of the machine is the ending of the evaluator, since both are unique.
  have hback (x : Ending Value × State)
      (hx : Shows base 0 ⟨.request node demand :: base, st⟩ (some x)) :
      ∃ n, eval n node demand st = some x := by
    obtain ⟨k, m, hruns, hended⟩ := hx.exists_ended
    obtain ⟨n, y, heval⟩ := exists_eval_of_stops hbase hp hruns hended.stops
    have hy := (hshown n).mono (Nat.zero_le n)
    rw [heval] at hy
    exact ⟨n, heval.trans (congrArg some (hy.unique hx))⟩
  refine ⟨?_, ?_, ?_, ?_⟩
  · intro v st'
    constructor
    · rintro ⟨n, heval⟩
      have h := hshown n
      rwa [heval] at h
    · exact hback (.value v, st')
  · intro i st'
    constructor
    · rintro ⟨n, heval⟩
      have h := hshown n
      rwa [heval] at h
    · exact hback (.interrupt i, st')
  · intro f st'
    constructor
    · rintro ⟨n, heval⟩
      have h := hshown n
      rwa [heval] at h
    · exact hback (.fault f, st')
  · constructor
    · intro hnone k
      have h := hshown k
      rwa [hnone k] at h
    · intro hforever n
      cases heval : eval n node demand st with
      | none => rfl
      | some x =>
          have h := hshown n
          rw [heval] at h
          obtain ⟨k, m, hruns, hended⟩ := h.exists_ended
          -- The machine would have to go on past its ending.
          obtain ⟨m', hlong, -⟩ := hforever (k + 1)
          have hone : Runs base 1 m m' := hruns.rest hlong
          cases hone with
          | step hbusy hstep _ => exact absurd hstep (hended.stops hbusy _)

/-- A break in the middle of an operand ends the loop around it, which has run its body. -/
theorem request_while_break :
    ∃ k, Runs [.block []] k
      ⟨[.request (.mk 2 (.whileDo (.mk 2 (.bool true)) (.mk 2 [.mk 3 (.op (.arith .add)
        [.mk 3 (.int 1), .mk 4 (.op .breakLoop [])])]))) .any, .block []],
        (start (.mk 0 []) 9 7 .unlimited).state⟩
      ⟨[.value (.bool true), .block []], (start (.mk 0 []) 9 7 .unlimited).state.atLine 2⟩ :=
  (((request_refines_eval _ .any (start (.mk 0 []) 9 7 .unlimited).state [.block []] (by simp)
    rfl).1 (.bool true) _).mp ⟨5, rfl⟩).2

end Machine

end Stepwise
