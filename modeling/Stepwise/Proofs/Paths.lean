import Stepwise.Proofs.Footprint

/-!
# `Stepwise.Proofs.Paths`: a path and a chain of indices

A variable with a path of names and the same names given to the index operator one after the other address
the same slot. The two are found in different ways: a path is followed from object to object, and each name
but the last is looked up; the index operator makes a reference for every name, and the reference is read
when the next name comes.

* `State.path_addresses_indexed_slot`: one succeeds if and only if the other does, and then what is written
  through one is read through the other. Neither touches memory, and a path that fails takes no identity.

The two fail with different faults where a name leads to something that is no object. The induction is on
the names that are left, from the slot that the names so far have led to (`indexEach_cases`). What is
written can be read only if the object is in memory, so the last part is about states whose objects are
(`State.InMemory`): a handle is made together with its object, and objects are never taken away.
-/

set_option autoImplicit false

namespace Stepwise

/-- The scope that a path starts from. -/
def Scopes.start (s : Scopes) (global : Bool) : ObjectRef :=
  if global then s.global else s.current

/-! ### Objects in memory -/

theorem Heap.get?_of_objectGet {h : Heap} {o : ObjectRef} {key : String} {v : Value}
    (hget : h.objectGet o key = .ok v) : (h.fields o).get? key = some v := by
  unfold objectGet at hget
  split at hget
  · rename_i w hw
    cases hget
    exact hw
  · cases hget

namespace State

/-- The objects that names can lead to are in memory: the scopes, and the objects in fields. -/
structure InMemory (st : State) : Prop where
  scope : ∀ o ∈ st.scopes.global :: st.scopes.inner, (st.heap.object? o).isSome
  field : ∀ o key q, (st.heap.fields o).get? key = some (.object q) → (st.heap.object? q).isSome

namespace InMemory

variable {st : State}

theorem start (hst : st.InMemory) (global : Bool) : (st.heap.object? (st.scopes.start global)).isSome := by
  apply hst.scope
  cases global with
  | true => exact List.mem_cons_self
  | false =>
      show st.scopes.inner.head?.getD st.scopes.global ∈ st.scopes.global :: st.scopes.inner
      cases st.scopes.inner with
      | nil => simp
      | cons o rest => simp

/-- Names lead from an object in memory to an object in memory. -/
theorem follow (hst : st.InMemory) {o q : ObjectRef} (ho : (st.heap.object? o).isSome) {names : List String}
    (hfollow : st.heap.follow o names = .ok q) : (st.heap.object? q).isSome := by
  induction names generalizing o with
  | nil =>
      cases hfollow
      exact ho
  | cons name names ih =>
      have hstep : (st.heap.objectGet o name >>= fun v => st.heap.asObject v >>= fun next =>
          st.heap.follow next names) = .ok q := hfollow
      cases hget : st.heap.objectGet o name with
      | error f =>
          rw [hget] at hstep
          cases hstep
      | ok v =>
          rw [hget] at hstep
          cases v with
          -- Only an object leads on, and a field of an object in memory is in memory.
          | object next => exact ih (hst.field o name next (Heap.get?_of_objectGet hget)) hstep
          | _ => cases hstep

end InMemory

/-! ### Chains of indices -/

/-- Indexes by one name after another. What the names so far have led to is read first. -/
def indexEach (st : State) (v : Value) : List String → Except Fault Value × State
  | [] => (.ok v, st)
  | name :: names =>
    match st.heap.deref v with
    | .error f => (.error f, st)
    | .ok w =>
      match st.apply .index [w, .str name] with
      | (.error f, st) => (.error f, st)
      | (.ok v, st) => st.indexEach v names

/-- Indexes a variable by one name after another. -/
def indexVariable (st : State) (global : Bool) (name : String) (names : List String) :
    Except Fault Value × State :=
  match st.resolve global [name] with
  | (.error f, st) => (.error f, st)
  | (.ok v, st) => st.indexEach v names

/-- Only an object has a slot for a name. -/
theorem apply_index (st : State) (w : Value) (name : String) :
    st.apply .index [w, .str name] =
      match w with
      | .object o => (.ok (.reference ⟨st.nextId, .object o, .name name⟩), { st with nextId := st.nextId + 1 })
      | w => (.error (.unsupportedOperands .index w.kind .string), st) := by
  cases w with
  | _ => rfl

/-- From the slot of an object, indexing by more names leads to the slot that following all names but the
last leads to, or it fails where following fails. It makes one reference for each name. -/
theorem indexEach_cases (st : State) (id : Nat) (o : ObjectRef) (key : String) (names : List String) :
    (∃ q id', st.heap.follow o (key :: names).dropLast = .ok q ∧
      st.indexEach (.reference ⟨id, .object o, .name key⟩) names =
        (.ok (.reference ⟨id', .object q, .name (names.getLastD key)⟩),
          { st with nextId := st.nextId + names.length })) ∨
    (∃ f g k, st.heap.follow o (key :: names).dropLast = .error f ∧
      st.indexEach (.reference ⟨id, .object o, .name key⟩) names =
        (.error g, { st with nextId := st.nextId + k })) := by
  induction names generalizing st id o key with
  | nil => exact Or.inl ⟨o, id, rfl, rfl⟩
  | cons name names ih =>
      have hfollow : st.heap.follow o (key :: name :: names).dropLast =
          st.heap.objectGet o key >>= fun w => st.heap.asObject w >>= fun q =>
            st.heap.follow q (name :: names).dropLast := rfl
      have hindex : st.indexEach (.reference ⟨id, .object o, .name key⟩) (name :: names) =
          match st.heap.objectGet o key with
          | .error f => (.error f, st)
          | .ok w =>
            match st.apply .index [w, .str name] with
            | (.error f, st) => (.error f, st)
            | (.ok v, st) => st.indexEach v names := rfl
      rw [hfollow, hindex]
      cases st.heap.objectGet o key with
      | error f => exact Or.inr ⟨f, f, 0, rfl, rfl⟩
      | ok w =>
          dsimp only
          rw [apply_index]
          cases w with
          | object q =>
              -- The next reference is to a slot of the object that was read.
              have hlast : (name :: names).getLastD key = names.getLastD name := List.getLastD_cons
              rcases ih { st with nextId := st.nextId + 1 } st.nextId q name with
                ⟨q', id', hq', hrun⟩ | ⟨f, g, k, hf, hrun⟩
              · left
                refine ⟨q', id', hq', ?_⟩
                dsimp only
                rw [hrun, hlast]
                simp only [List.length_cons, Nat.add_assoc, Nat.add_comm 1]
              · right
                refine ⟨f, g, k + 1, hf, ?_⟩
                dsimp only
                rw [hrun]
                simp only [Nat.add_assoc, Nat.add_comm 1]
          | _ => exact Or.inr ⟨_, _, 0, rfl, rfl⟩

theorem resolve_eq (st : State) (global : Bool) (name : String) (names : List String) :
    st.resolve global (name :: names) =
      match st.heap.follow (st.scopes.start global) (name :: names).dropLast with
      | .error f => (.error f, st)
      | .ok q =>
        (.ok (.reference ⟨st.nextId, .object q, .name (names.getLastD name)⟩),
          { st with nextId := st.nextId + 1 }) := by
  have hlast : (name :: names).getLast? = some (names.getLastD name) := by
    rw [List.getLast?_cons, List.getLastD_eq_getLast?]
  rw [resolve, Scopes.resolve, hlast, Scopes.start]
  dsimp only
  cases st.heap.follow (if global then st.scopes.global else st.scopes.current)
      (name :: names).dropLast with
  | error f => rfl
  | ok q => rfl

/-- A path and a chain of indices make references to one slot of the object that the path leads to, or
both fail. -/
theorem resolve_indexVariable_cases (st : State) (global : Bool) (name : String) (names : List String) :
    (∃ q id id', st.heap.follow (st.scopes.start global) (name :: names).dropLast = .ok q ∧
      st.resolve global (name :: names) =
        (.ok (.reference ⟨id, .object q, .name (names.getLastD name)⟩),
          { st with nextId := st.nextId + 1 }) ∧
      st.indexVariable global name names =
        (.ok (.reference ⟨id', .object q, .name (names.getLastD name)⟩),
          { st with nextId := st.nextId + 1 + names.length })) ∨
    (∃ f g k, st.resolve global (name :: names) = (.error f, st) ∧
      st.indexVariable global name names = (.error g, { st with nextId := st.nextId + k })) := by
  -- A single name has a slot in the scope itself, whatever is in it.
  have hvariable : st.indexVariable global name names =
      State.indexEach { st with nextId := st.nextId + 1 }
        (.reference ⟨st.nextId, .object (st.scopes.start global), .name name⟩) names := by
    rw [indexVariable, resolve_eq]
    rfl
  rw [hvariable, resolve_eq]
  rcases indexEach_cases { st with nextId := st.nextId + 1 } st.nextId (st.scopes.start global) name
    names with ⟨q, id', hq, hrun⟩ | ⟨f, g, k, hf, hrun⟩
  · left
    exact ⟨q, st.nextId, id', hq, by rw [hq], hrun⟩
  · right
    refine ⟨f, g, 1 + k, by rw [hf], ?_⟩
    rw [hrun, Nat.add_assoc]

/-! ### One slot -/

/-- What is assigned to a field of an object in memory is read through every reference to the field. -/
theorem deref_of_assign {st : State} {o : ObjectRef} (ho : (st.heap.object? o).isSome) (i j : Nat)
    (key : String) (x : Value) :
    ∃ later, st.apply .assign [.reference ⟨i, .object o, .name key⟩, x] =
        (.ok (.reference ⟨i, .object o, .name key⟩), later) ∧
      later.heap.deref (.reference ⟨j, .object o, .name key⟩) = .ok x := by
  refine ⟨{ st with heap := st.heap.objectSet o key x }, rfl, ?_⟩
  have hcontainer : (st.heap.idOf? (.object o)).isSome := by simpa [Heap.idOf?] using ho
  -- The identity of a reference has no part in where it leads.
  exact Heap.read_put (r := ⟨j, .object o, .name key⟩) rfl hcontainer x

/-- A path and a chain of indices with the same names succeed together, and then they refer to the slot of
the last name in one object, which need not be there yet. Memory stays as it is, and a path that fails takes
no identity. What is assigned through one of the two references is read through the other. -/
theorem path_addresses_indexed_slot (st : State) (global : Bool) (name : String) (names : List String) :
    ((∃ v, (st.resolve global (name :: names)).1 = .ok v) ↔
      ∃ w, (st.indexVariable global name names).1 = .ok w) ∧
    (∀ v w, (st.resolve global (name :: names)).1 = .ok v →
      (st.indexVariable global name names).1 = .ok w →
      (∃ o id id', v = .reference ⟨id, .object o, .name (names.getLastD name)⟩ ∧
        w = .reference ⟨id', .object o, .name (names.getLastD name)⟩) ∧
      (st.InMemory → ∀ x,
        (∃ later, st.apply .assign [v, x] = (.ok v, later) ∧ later.heap.deref w = .ok x) ∧
        ∃ later, st.apply .assign [w, x] = (.ok w, later) ∧ later.heap.deref v = .ok x)) ∧
    (st.resolve global (name :: names)).2.heap = st.heap ∧
    (st.indexVariable global name names).2.heap = st.heap ∧
    ∀ f, (st.resolve global (name :: names)).1 = .error f → (st.resolve global (name :: names)).2 = st := by
  -- Path and chain follow the same names, so they find the same object or fail both.
  rcases st.resolve_indexVariable_cases global name names with
    ⟨o, id, id', hfollow, hpath, hchain⟩ | ⟨f, g, k, hpath, hchain⟩
  · rw [hpath, hchain]
    refine ⟨⟨fun _ => ⟨_, rfl⟩, fun _ => ⟨_, rfl⟩⟩, ?_, rfl, rfl, ?_⟩
    · rintro v w ⟨⟩ ⟨⟩
      refine ⟨⟨o, id, id', rfl, rfl⟩, ?_⟩
      intro hst x
      -- The object that was found is in memory, so a write to it can be read.
      have ho := hst.follow (hst.start global) hfollow
      exact ⟨deref_of_assign ho id id' _ x, deref_of_assign ho id' id _ x⟩
    · intro f hf
      cases hf
  · rw [hpath, hchain]
    refine ⟨⟨?_, ?_⟩, ?_, rfl, rfl, fun _ _ => rfl⟩
    · rintro ⟨v, ⟨⟩⟩
    · rintro ⟨w, ⟨⟩⟩
    · rintro v w ⟨⟩

/-- A scope that is a field of itself, and a name that it does not have yet. -/
theorem path_addresses_indexed_slot_of_cycle :
    let fields := Fields.empty.insert "self" (.object ⟨0⟩)
    let st : State := { (default : State) with heap := ⟨#[], #[⟨1, fields⟩]⟩, nextId := 2 }
    let path : Value := .reference ⟨2, .object ⟨0⟩, .name "new"⟩
    let chain : Value := .reference ⟨4, .object ⟨0⟩, .name "new"⟩
    (st.resolve false ["self", "self", "new"]).1 = .ok path ∧
      (st.indexVariable false "self" ["self", "new"]).1 = .ok chain ∧ st.InMemory ∧
      ∀ x, ∃ later, st.apply .assign [path, x] = (.ok path, later) ∧ later.heap.deref chain = .ok x := by
  intro fields st path chain
  have hpath : (st.resolve false ["self", "self", "new"]).1 = .ok path := by rfl
  have hchain : (st.indexVariable false "self" ["self", "new"]).1 = .ok chain := by rfl
  have hst : st.InMemory := by
    refine ⟨?_, ?_⟩
    · intro o ho
      cases List.mem_singleton.mp ho
      rfl
    · intro ⟨i⟩ key q hget
      cases i with
      | succ i => cases hget
      | zero =>
          have hfield : fields.get? key = some (.object q) := hget
          -- The scope has one field, and what that refers to is the scope.
          by_cases hkey : key = "self"
          · rw [Fields.get?_insert, if_pos hkey] at hfield
            cases hfield
            rfl
          · rw [Fields.get?_insert, if_neg hkey] at hfield
            cases hfield
  have hsame := (path_addresses_indexed_slot st false "self" ["self", "new"]).2.1 path chain hpath hchain
  exact ⟨hpath, hchain, hst, fun x => (hsame.2 hst x).1⟩

end State

end Stepwise
