import Stepwise.Proofs.Conveyance

/-!
# `Stepwise.Proofs.Provenance`: identity numbers over a whole run

The identity numbers of a run and where they come from. `Machine.Occurs` says of a value that it is somewhere in a
machine, and `Machine.HandsOut` of a number that the next step takes it from the source of numbers.

A run starts with the global scope only, from a machine that is `Bare`. By `Closed.step` every function and every
reference that occurs later was made by a step before (`Bare.closed_after`), and the numbers grow in every
step (`Bare.grows`). So a value with a number is a container in memory, or some step took the number for it
(`Bare.origin`), and from this `identities_never_reused` follows: a number belongs to one value for the whole
run, also if a step fails, and whether the fault is caught or not.
-/

set_option autoImplicit false

namespace Stepwise

namespace Machine

open Stepwise.Frame (values)

variable {q q' : Value → Prop} {m : Machine} {v w : Value}

/-! ### The values of a machine -/

/-- A value occurs in a machine: it is in memory, a scope, on the stack or in the interrupt under way, or
it is the container of a reference that occurs. -/
inductive Occurs (m : Machine) : Value → Prop where
  | memory {c : Container} (hc : (m.state.heap.idOf? c).isSome) : Occurs m c.value
  | item {r : ListRef} {v : Value} (hv : v ∈ m.state.heap.items r) : Occurs m v
  | field {r : ObjectRef} {e : String × Value} (he : e ∈ (m.state.heap.fields r).entries) :
      Occurs m e.2
  | scope {s : ObjectRef} (hs : s ∈ m.state.scopes.global :: m.state.scopes.inner) :
      Occurs m (.object s)
  | stack {f : Frame} {v : Value} (hf : f ∈ m.stack) (hv : v ∈ f.contents) : Occurs m v
  | pending {i : Interrupt} {v : Value} (hi : m.state.pending = some i)
      (hv : i.exit = .returned v ∨ i.exit = .thrown v) : Occurs m v
  | slot {r : Reference} (hr : Occurs m (.reference r)) : Occurs m r.container.value

/-- The next step takes a number from the source of numbers. -/
def HandsOut (m : Machine) (id : Nat) : Prop :=
  m.state.nextId ≤ id ∧ id < m.step.2.state.nextId

theorem Closed.known (hm : m.Closed q) (hv : m.Occurs v) : v.Known q m.state.heap := by
  induction hv with
  | memory hc => exact Value.known_value.mpr hc
  | item hv => exact hm.state.holds.heap.items _ _ hv
  | field he => exact hm.state.holds.heap.fields _ _ he
  | scope hs => exact hm.state.scopes _ hs
  | stack hf hv => exact hm.stack _ hf _ hv
  | pending hi hv =>
      have hcarries := hm.state.holds.pending _ hi
      rcases hv with hv | hv
      · rw [hv] at hcarries
        exact hcarries
      · rw [hv] at hcarries
        exact hcarries
  | slot _ ih => exact Value.known_value.mpr ih.2

/-- It is enough that a property goes over to another one for the values that occur. -/
theorem Closed.imp (hm : m.Closed q) (h : ∀ v, m.Occurs v → q v → q' v) : m.Closed q' := by
  have hknown (v : Value) (hv : m.Occurs v) : v.Known q' m.state.heap :=
    (hm.known hv).imp (h v hv) fun _ hc => hc
  refine ⟨fun f hf v hv => hknown v (.stack hf hv), ⟨⟨?_, fun i hi => ?_⟩, hm.state.scopes⟩⟩
  · exact ⟨fun r v hv => hknown v (.item hv), fun r e he => hknown e.2 (.field he)⟩
  · cases hexit : i.exit with
    | returned v => exact hknown v (.pending hi (Or.inl hexit))
    | thrown v => exact hknown v (.pending hi (Or.inr hexit))
    | broke => trivial
    | continued => trivial

/-! ### Steps that make a function or a reference -/

/-- A stack can be cut at its topmost frame that is no value in one way only. -/
theorem cut_unique {vs ws : List Value} {f g : Frame} {below rest : List Frame}
    (hf : m.stack = values vs ++ f :: below) (hg : m.stack = values ws ++ g :: rest)
    (hf' : f.isValue = false) (hg' : g.isValue = false) : vs = ws ∧ f = g := by
  have htake : (vs, f :: below) = (ws, g :: rest) := by
    rw [← takeValues_values_cons vs below hf', ← takeValues_values_cons ws rest hg', ← hf, hg]
  cases htake
  exact ⟨rfl, rfl⟩

theorem stepRequest_state (node : Node) (demand : Demand) (above below : List Frame) (st : State) :
    (stepRequest node demand above below st).2.state = ({ st with line := node.line }.produce node).2 := by
  simp only [stepRequest]
  cases ({ st with line := node.line } : State).produce node with
  | mk r st' =>
      cases r with
      | error f => rfl
      | ok x =>
          cases x with
          | frame f => rfl
          | value v =>
              dsimp only
              split <;> rfl

theorem stepOperation_state {op : Op} {vs : List Value} (hlen : vs.length = op.arity) (args : List Node)
    (line : Nat) (stack below : List Frame) (st : State) :
    (stepOperation op args line vs stack below st).2.state = ({ st with line := line }.apply op vs).2 := by
  rw [stepOperation, if_neg (by omega), if_pos hlen]
  cases ({ st with line := line } : State).apply op vs with
  | mk r st' =>
      cases r with
      | ok v => rfl
      | error f => rfl

namespace Creates

/-- What is made has the next number. -/
theorem id?_eq (hv : m.Creates v) (h : Heap) : h.id? v = some m.state.nextId := by
  cases hv with
  | function _ _ => rfl
  | path _ _ _ => rfl
  | operation _ _ _ _ => rfl

/-- A step makes one function or one reference at most. -/
theorem unique (hv : m.Creates v) (hw : m.Creates w) : v = w := by
  -- What is created is read off the frame at work and the state, and both are the same for the two.
  cases hv with
  | function _ hstack =>
      cases hw with
      | function _ hstack' =>
          cases (cut_unique hstack hstack' rfl rfl).2
          rfl
      | path _ hstack' _ => cases (cut_unique hstack hstack' rfl rfl).2
      | operation _ hstack' _ _ => cases (cut_unique hstack hstack' rfl rfl).2
  | path _ hstack hresolve =>
      cases hw with
      | function _ hstack' => cases (cut_unique hstack hstack' rfl rfl).2
      | path _ hstack' hresolve' =>
          cases (cut_unique hstack hstack' rfl rfl).2
          rw [hresolve] at hresolve'
          cases hresolve'
          rfl
      | operation _ hstack' _ _ => cases (cut_unique hstack hstack' rfl rfl).2
  | operation _ hstack _ hplan =>
      cases hw with
      | function _ hstack' => cases (cut_unique hstack hstack' rfl rfl).2
      | path _ hstack' _ => cases (cut_unique hstack hstack' rfl rfl).2
      | operation _ hstack' _ hplan' =>
          obtain ⟨rfl, hframe⟩ := cut_unique hstack hstack' rfl rfl
          cases hframe
          rw [hplan] at hplan'
          cases hplan'
          rfl

theorem pending (hv : m.Creates v) : m.state.pending = none := by
  cases hv with
  | function hpending _ => exact hpending
  | path hpending _ _ => exact hpending
  | operation hpending _ _ _ => exact hpending

theorem hasWork (hv : m.Creates v) : m.hasWork = true := by
  obtain ⟨stack, st⟩ := m
  cases hv with
  | function _ hstack =>
      obtain rfl := hstack
      exact (busy_values_append _ _ st rfl).hasWork
  | path _ hstack _ =>
      obtain rfl := hstack
      exact (busy_values_append _ _ st rfl).hasWork
  | operation _ hstack _ _ =>
      obtain rfl := hstack
      exact (busy_values_append _ _ st rfl).hasWork

/-- The work takes a number and leaves memory as it is. It may fail after that: a path may lead nowhere. -/
theorem work (hv : m.Creates v) :
    m.work.2.state.nextId = m.state.nextId + 1 ∧ m.work.2.state.heap = m.state.heap := by
  obtain ⟨stack, st⟩ := m
  cases hv with
  | function _ hstack =>
      obtain rfl := hstack
      rw [work_values_append _ _ _ _ rfl]
      dsimp only
      rw [stepRequest_state]
      exact ⟨rfl, rfl⟩
  -- The number is taken before the reference is looked at, so this holds of a failed path as well.
  | path _ hstack hresolve =>
      obtain rfl := hstack
      rw [work_values_append _ _ _ _ rfl]
      dsimp only
      rw [stepRequest_state]
      simp only [State.produce, Node.form, State.resolve, hresolve]
      exact ⟨rfl, rfl⟩
  | operation _ hstack hlen hplan =>
      obtain rfl := hstack
      rw [work_values_append _ _ _ _ rfl]
      dsimp only
      rw [stepOperation_state hlen]
      simp only [State.apply, hplan]
      exact ⟨rfl, rfl⟩

/-- No exception is made out of the fault of such a step: the fault is none that a script can catch. -/
theorem step (hv : m.Creates v) :
    m.step.2.state.nextId = m.state.nextId + 1 ∧ m.step.2.state.heap = m.state.heap := by
  obtain ⟨hnext, hheap⟩ := hv.work
  rcases step_cases m with ⟨-, hno, -⟩ | ⟨i, hi, -⟩ | ⟨-, -, hstep, -⟩ | ⟨-, -, cause, m', hm', -, -⟩
  · rw [hv.hasWork] at hno
    cases hno
  · rw [hv.pending] at hi
    cases hi
  · rw [hstep, finishStep_snd]
    exact ⟨hnext, hheap⟩
  · obtain ⟨-, -, -, line, -, hstate⟩ := (work_error hm').catchable cause rfl
    rw [hm', hstate] at hnext
    exact absurd hnext (Nat.succ_ne_self _).symm

end Creates

/-! ### Runs -/

/-- A machine that is yet to run: each container has a number of its own, and there are no functions and no
references. -/
structure Bare (m : Machine) : Prop where
  closed : m.Closed fun _ => False
  numbered : m.state.Numbered

theorem bare_start (root : Block) (limit : Nat) (seed : Seed) (sink : Sink) :
    (start root limit seed sink).Bare := by
  -- The global scope is all that is in memory.
  have hglobal (c : Container) :
      (start root limit seed sink).state.heap.idOf? c = if c = .object ⟨0⟩ then some 1 else none := by
    have hempty : Heap.empty.idOf? c = none := by
      cases c with
      | list r => simp [Heap.idOf?, Heap.list?, Heap.empty]
      | object r => simp [Heap.idOf?, Heap.object?, Heap.empty]
    exact (Heap.idOf?_newObject 1 .empty c).trans (by rw [hempty]; rfl)
  refine ⟨⟨?_, ⟨⟨?_, ?_⟩, ?_⟩⟩, ⟨?_, ?_⟩⟩
  · exact Frame.allKnown_cons.mpr ⟨List.forall_mem_nil _, List.forall_mem_nil _⟩
  · exact Heap.holds_empty.newObject 1 fun e he => by cases he
  · exact fun i hi => by cases hi
  · intro s hs
    obtain rfl := List.mem_singleton.mp hs
    rw [hglobal]
    rfl
  · intro c id hc
    rw [hglobal] at hc
    split at hc
    · cases hc
      exact Nat.lt_succ_self 1
    · cases hc
  · intro c d id hc hd
    rw [hglobal] at hc hd
    split at hc
    · split at hd
      · rename_i hc' hd'
        rw [hc', hd']
      · cases hd
    · cases hc

namespace Bare

variable {n k id : Nat}

/-- Every function and every reference of a run was made by a step before. -/
theorem closed_after (hm : m.Bare) (n : Nat) : (m.after n).Closed fun v => ∃ k < n, (m.after k).Creates v := by
  induction n with
  | zero => exact hm.closed.imp fun v _ hv => hv.elim
  | succ n ih =>
      -- The property must not change in the step, so the step is among those that count before it is done.
      have hprev : (m.after n).Closed fun v => ∃ k < n + 1, (m.after k).Creates v :=
        ih.imp fun v _ ⟨k, hk, hv⟩ => ⟨k, Nat.lt_succ_of_lt hk, hv⟩
      exact (hprev.step fun v hv => ⟨n, Nat.lt_succ_self n, hv⟩).closed

theorem grows (hm : m.Bare) (n : Nat) : (m.after n).state.Grows (m.after (n + 1)).state := by
  have hclosed : (m.after n).Closed fun _ => True := (hm.closed_after n).imp fun _ _ _ => trivial
  exact (hclosed.step fun _ _ => trivial).state.grows

theorem numbered_after (hm : m.Bare) (n : Nat) : (m.after n).state.Numbered := by
  induction n with
  | zero => exact hm.numbered
  | succ n ih => exact (hm.grows n).numbered ih

theorem precedes (hm : m.Bare) (h : k ≤ n) : (m.after k).state.Precedes (m.after n).state := by
  induction h with
  | refl => exact .refl _
  | step _ ih => exact ih.trans (hm.grows _).precedes

/-- A number that a step takes for a function or a reference is below the next number from then on. -/
theorem nextId_lt (hm : m.Bare) (hv : (m.after k).Creates v) (hk : k < n) :
    (m.after k).state.nextId < (m.after n).state.nextId :=
  calc (m.after k).state.nextId
    _ < (m.after (k + 1)).state.nextId := by
        rw [show (m.after (k + 1)).state.nextId = _ from hv.step.1]
        exact Nat.lt_succ_self _
    _ ≤ (m.after n).state.nextId := (hm.precedes hk).nextId_le

/-- Where a number comes from: it is that of a container in memory, or a step took it for a function or a
reference. -/
theorem origin (hm : m.Bare) (hv : (m.after n).Occurs v) (hid : (m.after n).state.heap.id? v = some id) :
    (∃ c : Container, v = c.value ∧ (m.after n).state.heap.idOf? c = some id) ∨
      ∃ k < n, (m.after k).Creates v ∧ id = (m.after k).state.nextId := by
  have hmade (h : ∃ k < n, (m.after k).Creates v) :
      ∃ k < n, (m.after k).Creates v ∧ id = (m.after k).state.nextId := by
    obtain ⟨k, hk, hcreates⟩ := h
    rw [hcreates.id?_eq] at hid
    cases hid
    exact ⟨k, hk, hcreates, rfl⟩
  have hknown := (hm.closed_after n).known hv
  cases v with
  -- A number of a container is read from memory; a function and a reference carry theirs with them.
  | list r => exact Or.inl ⟨.list r, rfl, hid⟩
  | object r => exact Or.inl ⟨.object r, rfl, hid⟩
  | function f => exact Or.inr (hmade hknown)
  | reference r => exact Or.inr (hmade hknown.1)
  | _ => cases hid

theorem id_lt (hm : m.Bare) (hv : (m.after n).Occurs v) (hid : (m.after n).state.heap.id? v = some id) :
    id < (m.after n).state.nextId := by
  rcases hm.origin hv hid with ⟨c, -, hc⟩ | ⟨k, hk, hcreates, rfl⟩
  · exact (hm.numbered_after n).below c id hc
  · exact hm.nextId_lt hcreates hk

/-- No two steps take one number for a function or a reference. -/
theorem creates_unique (hm : m.Bare) (hv : (m.after k).Creates v) (hw : (m.after n).Creates w)
    (hid : (m.after k).state.nextId = (m.after n).state.nextId) : k = n ∧ v = w := by
  rcases Nat.lt_trichotomy k n with hlt | rfl | hlt
  · have := hm.nextId_lt hv hlt
    omega
  · exact ⟨rfl, hv.unique hw⟩
  · have := hm.nextId_lt hw hlt
    omega

/-- No container has a number that a step takes for a function or a reference: when the step took it, the
number was too large for the containers there were, and those made later have larger ones. -/
theorem idOf?_ne (hm : m.Bare) (hv : (m.after k).Creates v) (n : Nat) (c : Container) :
    (m.after n).state.heap.idOf? c ≠ some (m.after k).state.nextId := by
  intro hc
  have hlt := (hm.numbered_after n).below c _ hc
  -- The number was handed out before the container was there with it.
  have hk : k < n := by
    by_contra hle
    have := (hm.precedes (Nat.le_of_not_lt hle)).nextId_le
    omega
  have hnext : (m.after (k + 1)).state.nextId = (m.after k).state.nextId + 1 := hv.step.1
  have hheap : (m.after (k + 1)).state.heap = (m.after k).state.heap := hv.step.2
  -- So the container is there right after the step, and hence before it, as memory is the same.
  have hlater := hm.precedes (show k + 1 ≤ n from hk)
  have hafter := hlater.fresh c _ hc (by omega)
  rw [hheap] at hafter
  exact absurd ((hm.numbered_after k).below c _ hafter) (Nat.lt_irrefl _)

/-- A number belongs to one value for the whole run. -/
theorem id_inj (hm : m.Bare) (hv : (m.after n).Occurs v) (hw : (m.after k).Occurs w)
    (hidv : (m.after n).state.heap.id? v = some id) (hidw : (m.after k).state.heap.id? w = some id) :
    v = w := by
  rcases hm.origin hv hidv with ⟨c, rfl, hc⟩ | ⟨i, -, hcreates, rfl⟩
  · rcases hm.origin hw hidw with ⟨d, rfl, hd⟩ | ⟨j, -, hcreates', rfl⟩
    -- Two containers are compared at the later of the two times.
    · have hc' := (hm.precedes (Nat.le_max_left n k)).keeps c id hc
      have hd' := (hm.precedes (Nat.le_max_right n k)).keeps d id hd
      rw [(hm.numbered_after (max n k)).unique c d id hc' hd']
    · exact absurd hc (hm.idOf?_ne hcreates' n c)
  · rcases hm.origin hw hidw with ⟨d, rfl, hd⟩ | ⟨j, -, hcreates', hid⟩
    · exact absurd hd (hm.idOf?_ne hcreates k d)
    · exact (hm.creates_unique hcreates hcreates' hid).2

/-- The number of a value that is new after a step was handed out by that step. -/
theorem handsOut_of_new (hm : m.Bare) (hv : (m.after (n + 1)).Occurs v) (hnew : ¬ (m.after n).Occurs v)
    (hid : (m.after (n + 1)).state.heap.id? v = some id) : (m.after n).HandsOut id := by
  refine ⟨?_, hm.id_lt hv hid⟩
  -- A function or a reference was there before the step, or the step makes it.
  have hprev : (m.after n).Closed fun v => (m.after n).Occurs v ∨ (m.after n).Creates v :=
    (hm.closed_after n).imp fun v hv _ => Or.inl hv
  have hknown := (hprev.step fun v hv => Or.inr hv).closed.known hv
  have hmade (h : (m.after n).Occurs v ∨ (m.after n).Creates v) : (m.after n).state.nextId ≤ id := by
    have hcreates := h.resolve_left hnew
    rw [hcreates.id?_eq] at hid
    cases hid
    exact Nat.le_refl _
  -- A container with a smaller number would have been in memory.
  have hmemory (c : Container) (hc : v = c.value) : (m.after n).state.nextId ≤ id := by
    subst hc
    by_contra hlt
    rw [Heap.id?_value] at hid
    have hold := (hm.grows n).precedes.fresh c id hid (Nat.lt_of_not_le hlt)
    exact hnew (.memory (by rw [hold]; rfl))
  cases v with
  | list r => exact hmemory (.list r) rfl
  | object r => exact hmemory (.object r) rfl
  | function f => exact hmade hknown
  | reference r => exact hmade hknown.1
  | _ => cases hid

end Bare

/-- Identity numbers over a run from the start of a script, whatever its steps return. Each list, object,
function and reference that occurs has a number below the next one. A number belongs to one value for the whole
run. A function or a reference was made by the one step that took its number, when it evaluated a node or
applied an operation. What is new after a step has a number that the step handed out, and such a number is
larger than all numbers before. -/
theorem identities_never_reused (root : Block) (limit : Nat) (seed : Seed) (sink : Sink) :
    let run := (start root limit seed sink).after
    (∀ n v, (run n).Occurs v → v.kind ∈ [Kind.list, .object, .function, .reference] →
      ∃ id, (run n).state.heap.id? v = some id ∧ id < (run n).state.nextId) ∧
    (∀ n k v w id, (run n).Occurs v → (run k).Occurs w →
      (run n).state.heap.id? v = some id → (run k).state.heap.id? w = some id → v = w) ∧
    (∀ n v id, (run n).Occurs v → v.kind ∈ [Kind.function, .reference] →
      (run n).state.heap.id? v = some id →
      ∃ k < n, (run k).Creates v ∧ (run k).HandsOut id ∧
        ∀ j w, (run j).Creates w → (run j).state.heap.id? w = some id → j = k) ∧
    (∀ n v id, (run (n + 1)).Occurs v → ¬ (run n).Occurs v →
      (run (n + 1)).state.heap.id? v = some id → (run n).HandsOut id) ∧
    ∀ k id, (run k).HandsOut id →
      (∀ j < k, ∀ id', (run j).HandsOut id' → id' < id) ∧
      ∀ n ≤ k, ∀ v id', (run n).Occurs v → (run n).state.heap.id? v = some id' → id' < id := by
  intro run
  have hm := bare_start root limit seed sink
  refine ⟨fun n v hv hkind => ?_, fun n k v w id => hm.id_inj, fun n v id hv hkind hid => ?_,
    fun n v id => hm.handsOut_of_new, fun k id hk => ⟨fun j hj id' hj' => ?_, fun n hn v id' hv hid => ?_⟩⟩
  · obtain ⟨id, hid⟩ : ∃ id, (run n).state.heap.id? v = some id := by
      -- What occurs is known to memory, and a list or an object of memory has a number.
      have hknown := (hm.closed_after n).known hv
      cases v with
      | list r => exact Option.isSome_iff_exists.mp hknown
      | object r => exact Option.isSome_iff_exists.mp hknown
      | function f => exact ⟨f.id, rfl⟩
      | reference r => exact ⟨r.id, rfl⟩
      | _ => simp [Value.kind] at hkind
    exact ⟨id, hid, hm.id_lt hv hid⟩
  -- A number goes back to where it was handed out: to a container, or to the step that created the value.
  · rcases hm.origin hv hid with ⟨c, rfl, -⟩ | ⟨k, hk, hcreates, rfl⟩
    · cases c with
      | list r => simp [Container.value, Value.kind] at hkind
      | object r => simp [Container.value, Value.kind] at hkind
    · refine ⟨k, hk, hcreates, ⟨Nat.le_refl _, hm.nextId_lt hcreates (Nat.lt_succ_self k)⟩, ?_⟩
      intro j w hw hidw
      rw [hw.id?_eq] at hidw
      exact (hm.creates_unique hw hcreates (Option.some.inj hidw)).1
  · exact Nat.lt_of_lt_of_le hj'.2 (Nat.le_trans (hm.precedes hj).nextId_le hk.1)
  -- What occurs before a step has a number below the next one then.
  · have hlt := hm.id_lt hv hid
    exact Nat.lt_of_lt_of_le hlt (Nat.le_trans (hm.precedes hn).nextId_le hk.1)

/-- Removing from an empty list in a `try`, with a function in the handler: the exception has a larger number
than all that was there before the fault, and the function, which is made after the fault was caught, has
the number of no other step. -/
theorem identities_of_caught_fault :
    let body : Block := .mk 1 [.mk 1 (.op .pop [.mk 1 (.list []), .mk 1 (.int 0)])]
    let handler : Block := .mk 2 [.mk 2 (.function [] (.mk 2 []))]
    let run := (start (.mk 1 [.mk 1 (.tryCatch body "e" handler)]) 9 7 .unlimited).after
    let f : Value := .function ⟨4, [], .mk 2 []⟩
    (run 9).HandsOut 3 ∧ (run 10).Occurs (.object ⟨1⟩) ∧
      (run 10).state.heap.id? (.object ⟨1⟩) = some 3 ∧
      (∀ v id, (run 9).Occurs v → (run 9).state.heap.id? v = some id → id < 3) ∧
      ∃ k < 16, (run k).Creates f ∧ (run k).HandsOut 4 ∧
        ∀ j w, (run j).Creates w → (run j).state.heap.id? w = some 4 → j = k := by
  intro body handler run f
  obtain ⟨-, -, hsource, -, hlarger⟩ :=
    identities_never_reused (.mk 1 [.mk 1 (.tryCatch body "e" handler)]) 9 7 .unlimited
  have hfault : (run 9).HandsOut 3 := ⟨by decide, by decide⟩
  have hexception : (run 10).Occurs (.object ⟨1⟩) := .memory (c := .object ⟨1⟩) rfl
  have hfunction : (run 16).Occurs f := .stack (f := .value f) List.mem_cons_self List.mem_cons_self
  exact ⟨hfault, hexception, rfl, (hlarger 9 3 hfault).2 9 (Nat.le_refl 9),
    hsource 16 f 4 hfunction (by decide) rfl⟩

end Machine

end Stepwise
