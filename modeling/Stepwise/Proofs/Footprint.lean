import Stepwise.Proofs.Holding
import Stepwise.Proofs.Identity
import Stepwise.Proofs.Plans
import Stepwise.Proofs.Storage

/-!
# `Stepwise.Proofs.Footprint`: what an operation leaves alone

Lists and objects are shared, so a script sees a change through every handle of what was changed. Two
results say how far a change goes. `State.failed_operation_changes_nothing`: an operation that fails has
changed nothing, unless the sink refused what it printed. `State.operation_footprint`: an operation that
succeeds changes no container that was there before it, except the one that it is meant to change
(`Op.changes`), and of that one only the slot that it was given if it writes through a reference. A list
that it makes is a new one, so nothing that is done to that list reaches what the operation was given, nor
the other way round.

Both follow from `Op.plan_yields`, which says what an operation comes down to, and from what each effect
does to memory. `Heap.Agree` compares one container in two heaps; the lemmas about it are one for each way
to change a heap.
-/

set_option autoImplicit false

namespace Stepwise

/-! ### Memory -/

namespace Heap

/-- A container is the same in two heaps. -/
def Agree (h h' : Heap) : Container → Prop
  | .list r => h'.list? r = h.list? r
  | .object r => h'.object? r = h.object? r

/-- A heap after a change of what is in one container. -/
inductive Changed (h : Heap) : Container → Heap → Prop where
  | items (r : ListRef) (f : Array Value → Array Value) : Changed h (.list r) (h.modifyItems r f)
  | fields (r : ObjectRef) (f : Fields → Fields) : Changed h (.object r) (h.modifyFields r f)

/-- The container of a reference is the same in two heaps but for the slot of the reference: a list has its
other elements in their places, and an object has its other fields in their order. -/
def AgreeBut (h h' : Heap) (r : Reference) : Prop :=
  match r.container, r.key with
  | .list l, .index i =>
    h'.idOf? (.list l) = h.idOf? (.list l) ∧ (h'.items l).size = (h.items l).size ∧
      ∀ j, resolveIndex i (h.items l).size ≠ some j → (h'.items l)[j]? = (h.items l)[j]?
  | .object o, .name s =>
    h'.idOf? (.object o) = h.idOf? (.object o) ∧
      (h'.fields o).entries.filter (·.1 ≠ s) = (h.fields o).entries.filter (·.1 ≠ s)
  | _, _ => False

variable {h h₁ h₂ : Heap} {c d : Container}

theorem Agree.refl (h : Heap) (c : Container) : h.Agree h c := by
  cases c with
  | list r => rfl
  | object r => rfl

theorem Agree.trans (h₁₂ : h.Agree h₁ c) (h₂₃ : h₁.Agree h₂ c) : h.Agree h₂ c := by
  cases c with
  | list r => exact Eq.trans h₂₃ h₁₂
  | object r => exact Eq.trans h₂₃ h₁₂

/-- A change of one container leaves every other one alone. -/
theorem Changed.agree (hchanged : h.Changed d h₁) (hne : c ≠ d) : h.Agree h₁ c := by
  cases hchanged with
  | items r f =>
      cases c with
      | list q =>
          -- Two handles of lists are different in their positions.
          have hindex : r.index ≠ q.index := by
            intro heq
            obtain ⟨i⟩ := r
            obtain ⟨j⟩ := q
            exact hne (by rw [show i = j from heq])
          simp [Agree, list?, modifyItems, Array.getElem?_modify, hindex]
      | object q => rfl
  | fields r f =>
      cases c with
      | list q => rfl
      | object q =>
          have hindex : r.index ≠ q.index := by
            intro heq
            obtain ⟨i⟩ := r
            obtain ⟨j⟩ := q
            exact hne (by rw [show i = j from heq])
          simp [Agree, object?, modifyFields, Array.getElem?_modify, hindex]

/-- Writing through a reference changes its container, if anything. -/
theorem put_cases (h : Heap) (r : Reference) (v : Value) :
    h.Changed r.container (h.put r v) ∨ h.put r v = h := by
  unfold put
  split
  · rename_i o s hcontainer _
    rw [hcontainer]
    exact Or.inl (.fields o _)
  · rename_i l i hcontainer _
    rw [hcontainer]
    exact Or.inl (.items l _)
  · exact Or.inr rfl

theorem agree_put (r : Reference) (v : Value) (hne : c ≠ r.container) : h.Agree (h.put r v) c := by
  rcases h.put_cases r v with hchanged | heq
  · exact hchanged.agree hne
  · rw [heq]
    exact .refl h c

/-- A new list takes a place of its own. -/
theorem agree_newList (id : Nat) (items : Array Value) (hne : c ≠ .list ⟨h.lists.size⟩) :
    h.Agree (h.newList id items).2 c := by
  cases c with
  | list r =>
      have hindex : r.index ≠ h.lists.size := by
        intro heq
        obtain ⟨i⟩ := r
        exact hne (by rw [show i = h.lists.size from heq])
      simp [Agree, list?, newList, Array.getElem?_push, hindex]
  | object r => rfl

/-- There is nothing yet in the place of a new list. -/
theorem ne_of_isSome_idOf? (hc : (h.idOf? c).isSome) : c ≠ .list ⟨h.lists.size⟩ := by
  rintro rfl
  simp [idOf?, list?] at hc

theorem idOf?_modifyItems (r : ListRef) (f : Array Value → Array Value) (c : Container) :
    (h.modifyItems r f).idOf? c = h.idOf? c := by
  cases c with
  | list q =>
      simp only [idOf?, list?, modifyItems, Array.getElem?_modify]
      split
      · simp [Option.map_map, Function.comp_def]
      · rfl
  | object q => rfl

theorem idOf?_modifyFields (r : ObjectRef) (f : Fields → Fields) (c : Container) :
    (h.modifyFields r f).idOf? c = h.idOf? c := by
  cases c with
  | list q => rfl
  | object q =>
      simp only [idOf?, object?, modifyFields, Array.getElem?_modify]
      split
      · simp [Option.map_map, Function.comp_def]
      · rfl

end Heap

/-- Binding a key leaves the other fields as they were. -/
theorem Fields.filter_insertEntry (key : String) (v : Value) (entries : List (String × Value)) :
    (insertEntry key v entries).filter (·.1 ≠ key) = entries.filter (·.1 ≠ key) := by
  induction entries with
  | nil => simp [insertEntry]
  | cons e rest ih =>
      by_cases hkey : e.1 = key
      · simp [insertEntry, hkey]
      · simpa [insertEntry, hkey] using ih

namespace Heap

variable {h h₁ h₂ : Heap}

/-- Writing a slot changes nothing of its container but the slot. -/
theorem agreeBut_put {r : Reference} (hpaired : r.Paired) (v : Value) : h.AgreeBut (h.put r v) r := by
  obtain ⟨id, container, key⟩ := r
  cases container with
  | list l =>
      cases key with
      | name s => exact hpaired.elim
      | index i =>
          refine ⟨idOf?_modifyItems l _ (.list l), ?_⟩
          show ((h.listPut l i v).items l).size = (h.items l).size ∧
            ∀ j, _ → ((h.listPut l i v).items l)[j]? = (h.items l)[j]?
          unfold listPut
          -- The elements are those from before, or the ones with the new value at its position.
          rcases h.items_modifyItems l l _ with hitems | hitems
          · rw [hitems]
            exact ⟨rfl, fun _ _ => rfl⟩
          · rw [hitems]
            split
            · rename_i p hp
              refine ⟨Array.size_setIfInBounds, ?_⟩
              intro j hj
              have hpj : p ≠ j := by
                rintro rfl
                exact hj hp
              exact Array.getElem?_setIfInBounds_ne hpj
            · exact ⟨rfl, fun _ _ => rfl⟩
  | object o =>
      cases key with
      | name s =>
          refine ⟨idOf?_modifyFields o _ (.object o), ?_⟩
          show ((h.objectSet o s v).fields o).entries.filter _ = _
          unfold objectSet
          -- The same for the fields, where binding a key leaves the entries of the others in their order.
          rcases h.fields_modifyFields o o _ with hfields | hfields
          · rw [hfields]
          · rw [hfields]
            exact Fields.filter_insertEntry s v _
      | index i => exact hpaired.elim

theorem items_modifyItems_self {r : ListRef} (hr : (h.list? r).isSome) (f : Array Value → Array Value) :
    (h.modifyItems r f).items r = f (h.items r) := by
  obtain ⟨cell, hcell⟩ := Option.isSome_iff_exists.mp hr
  have hget : h.lists[r.index]? = some cell := hcell
  simp [items, list?, modifyItems, Array.getElem?_modify, hget]

theorem fields_modifyFields_self {r : ObjectRef} (hr : (h.object? r).isSome) (f : Fields → Fields) :
    (h.modifyFields r f).fields r = f (h.fields r) := by
  obtain ⟨cell, hcell⟩ := Option.isSome_iff_exists.mp hr
  have hget : h.objects[r.index]? = some cell := hcell
  simp [fields, object?, modifyFields, Array.getElem?_modify, hget]

/-- A slot that can be written, of a container in memory, gives back what was written to it. -/
theorem read_put {r : Reference} (hwritable : h.writable r = .ok ()) (hc : (h.idOf? r.container).isSome)
    (v : Value) : (h.put r v).read r = .ok v := by
  obtain ⟨id, container, key⟩ := r
  cases container with
  | list l =>
      cases key with
      | name s => cases hwritable
      | index i =>
          have hl : (h.list? l).isSome := by simpa [idOf?] using hc
          -- The index addresses a position before the write, and the write keeps the length.
          obtain ⟨p, hp⟩ : ∃ p, resolveIndex i (h.items l).size = some p := by
            simp only [writable, listCheck] at hwritable
            split at hwritable
            · exact ⟨_, by assumption⟩
            · cases hwritable
          have hlt : p < (h.items l).size := (resolveIndex_eq_some_iff.mp hp).1
          have hitems : (h.listPut l i v).items l = (h.items l).setIfInBounds p v := by
            rw [listPut, items_modifyItems_self hl, hp]
          show (h.listPut l i v).listGet l i = .ok v
          simp [listGet, hitems, hp, hlt]
  | object o =>
      cases key with
      | name s =>
          have ho : (h.object? o).isSome := by simpa [idOf?] using hc
          show (h.objectSet o s v).objectGet o s = .ok v
          rw [objectGet, objectSet, fields_modifyFields_self ho, Fields.get?_insert, if_pos rfl]
      | index i => cases hwritable

/-- A slot that can be read can be written, and its container is in memory. -/
theorem writable_of_read {r : Reference} {v : Value} (hread : h.read r = .ok v) :
    h.writable r = .ok () ∧ (h.idOf? r.container).isSome := by
  obtain ⟨id, container, key⟩ := r
  cases container with
  | list l =>
      cases key with
      | name s => cases hread
      | index i =>
          have hget : h.listGet l i = .ok v := hread
          simp only [listGet] at hget
          split at hget
          · rename_i w hw
            obtain ⟨p, hp, hitem⟩ := Option.bind_eq_some_iff.mp hw
            refine ⟨by simp [writable, listCheck, hp], ?_⟩
            -- A list that is not in memory has no elements.
            cases hl : h.list? l with
            | some cell => simp [idOf?, hl]
            | none => simp [items, hl] at hitem
          · cases hget
  | object o =>
      cases key with
      | name s =>
          refine ⟨rfl, ?_⟩
          have hget : h.objectGet o s = .ok v := hread
          cases ho : h.object? o with
          | some cell => simp [idOf?, ho]
          | none => simp [objectGet, fields, ho, Fields.get?, Fields.empty] at hget
      | index i => cases hread

/-- What was there before a change of the slot may be looked up in an earlier heap with the same
container. -/
theorem AgreeBut.of_agree {r : Reference} (hagree : h.Agree h₁ r.container)
    (hbut : h₁.AgreeBut h₂ r) : h.AgreeBut h₂ r := by
  obtain ⟨id, container, key⟩ := r
  cases container with
  | list l =>
      cases key with
      -- A list has no slot with a name, nor an object one with an index.
      | name s => exact hbut.elim
      | index i =>
          have hlist : h₁.list? l = h.list? l := hagree
          simpa only [AgreeBut, idOf?, items, hlist] using hbut
  | object o =>
      cases key with
      | name s =>
          have hobject : h₁.object? o = h.object? o := hagree
          simpa only [AgreeBut, idOf?, fields, hobject] using hbut
      | index i => exact hbut.elim

/-- The key of a reference that can be written fits its container, which is in another place than a new
list. -/
theorem paired_of_writable {r : Reference} (hwritable : h.writable r = .ok ()) :
    r.Paired ∧ r.container ≠ .list ⟨h.lists.size⟩ := by
  obtain ⟨id, container, key⟩ := r
  cases container with
  | list l =>
      cases key with
      | name s => cases hwritable
      | index i =>
          refine ⟨trivial, ?_⟩
          rintro ⟨⟩
          -- A list that is not made yet has no items, so no index of it is in range.
          have hnone : resolveIndex i 0 = none := by
            rw [← Option.not_isSome_iff_eq_none, isSome_resolveIndex_iff]
            omega
          simp [writable, listCheck, items, list?, hnone] at hwritable
  | object o =>
      cases key with
      | name s =>
          refine ⟨trivial, ?_⟩
          rintro ⟨⟩
      | index i => cases hwritable

end Heap

/-! ### Effects -/

/-- The container that an effect changes. -/
def Effect.target : Effect → Option Container
  | .store r _ => some r.container
  | .push r _ | .popItem r _ => some (.list r)
  | .popField r _ => some (.object r)
  | _ => none

namespace State

variable {st : State} {e : Effect}

theorem realize_agree (p : Product) {c : Container} (hne : c ≠ .list ⟨st.heap.lists.size⟩) :
    st.heap.Agree (st.realize p).2.heap c := by
  cases p with
  | value v => exact .refl st.heap c
  | list items => exact Heap.agree_newList st.nextId items hne

/-- An effect changes no container that was there but its target. -/
theorem perform_agree {c : Container} (hc : (st.heap.idOf? c).isSome) (htarget : e.target ≠ some c) :
    st.heap.Agree (st.perform e).2.heap c := by
  have hnew := Heap.ne_of_isSome_idOf? hc
  have hne {d : Container} (hd : e.target = some d) : c ≠ d := by
    rintro rfl
    exact htarget hd
  have hperformed := st.performed e
  generalize st.perform e = o at hperformed
  cases hperformed with
  | yield p => exact realize_agree p hnew
  -- The product is made first, and the slot is written in the heap that has it.
  | store hwritable => exact (realize_agree _ hnew).trans (Heap.agree_put _ _ (hne rfl))
  | push r v => exact (Heap.Changed.items r _).agree (hne rfl)
  | popItem hpopped => exact (Heap.Changed.items _ _).agree (hne rfl)
  | popField hpopped => exact (Heap.Changed.fields _ _).agree (hne rfl)
  | _ => exact .refl st.heap c

/-- A store that succeeds changes nothing of the container but the slot. -/
theorem perform_store {r : Reference} {p : Product} {v : Value}
    (hok : (st.perform (.store r p)).1 = .ok v) :
    st.heap.AgreeBut (st.perform (.store r p)).2.heap r := by
  have hperformed := st.performed (.store r p)
  generalize st.perform (.store r p) = o at hperformed hok
  cases hperformed with
  | store hwritable =>
      obtain ⟨hpaired, hnew⟩ := Heap.paired_of_writable hwritable
      exact (Heap.agreeBut_put hpaired _).of_agree (realize_agree p hnew)
  | failed hplanned => cases hok

/-- An effect sets an interrupt off only if that is what it is. -/
theorem perform_pending (hleave : ∀ exit, e ≠ .leave exit) : (st.perform e).2.pending = st.pending := by
  have hrealize (p : Product) : (st.realize p).2.pending = st.pending := by
    cases p with
    | value v => rfl
    | list items => rfl
  have hperformed := st.performed e
  generalize st.perform e = o at hperformed
  cases hperformed with
  | leave hpending => exact absurd rfl (hleave _)
  | yield p => exact hrealize p
  | store hwritable => exact hrealize _
  | _ => rfl

/-- A list that is yielded without being shared was not there before. -/
theorem perform_unshared {p : Product} {r : ListRef} (hp : p.Unshared)
    (hok : (st.perform (.yield p)).1 = .ok (.list r)) :
    st.heap.list? r = none ∧ ((st.perform (.yield p)).2.heap.list? r).isSome := by
  cases p with
  | value v =>
      have hv : v = .list r := by
        cases hok
        rfl
      exact absurd hv (hp r)
  | list items =>
      cases hok
      show st.heap.lists[st.heap.lists.size]? = none ∧
        ((st.heap.lists.push ⟨st.nextId, items⟩)[st.heap.lists.size]?).isSome
      simp

end State

/-! ### Operations -/

/-- The container that an operation is meant to change: the one of the slot that it writes, or the one that
it puts something into or takes something out of. -/
def Op.changes (op : Op) (args : List Value) : Option Container :=
  match args.head? with
  | some (.reference r) => if op.assigns then some r.container else none
  | some (.list r) => if op = .push ∨ op = .pop then some (.list r) else none
  | some (.object r) => if op = .pop then some (.object r) else none
  | _ => none

namespace Effect.Suits

variable {op : Op} {args : List Value} {e : Effect}

/-- An effect that suits an operation has no other target than the operation is meant to have. -/
theorem changes_eq (h : e.Suits op args) {c : Container} (hc : e.target = some c) :
    op.changes args = some c := by
  cases e with
  | store r p =>
      obtain ⟨hassigns, hhead⟩ := h
      simpa [Op.changes, hhead, hassigns, target] using hc
  | push r v =>
      obtain ⟨rfl, hhead⟩ := h
      simpa [Op.changes, hhead, target] using hc
  | popItem r index =>
      obtain ⟨rfl, hhead⟩ := h
      simpa [Op.changes, hhead, target] using hc
  | popField r key =>
      obtain ⟨rfl, hhead⟩ := h
      simpa [Op.changes, hhead, target] using hc
  | _ => cases hc

/-- An operation that writes through a reference comes down to a store. -/
theorem exists_store (h : e.Suits op args) (hassigns : op.assigns = true) :
    ∃ r p, e = .store r p ∧ args.head? = some (.reference r) := by
  cases e with
  | store r p => exact ⟨r, p, rfl, h.2⟩
  | yield p =>
      rw [h.1] at hassigns
      cases hassigns
  | refer container key => cases h; cases hassigns
  | push r v => cases h.1; cases hassigns
  | popItem r index => cases h.1; cases hassigns
  | popField r key => cases h.1; cases hassigns
  | print text => cases h; cases hassigns
  | random => cases h; cases hassigns
  | randomInt low high => cases h; cases hassigns
  | leave exit =>
      rw [(Op.plain_of_leaves h).1] at hassigns
      cases hassigns

/-- An operation that makes lists comes down to a product that is no list that exists already. -/
theorem exists_yield (h : e.Suits op args) (hmakes : op.makesList = true) :
    ∃ p, e = .yield p ∧ p.Unshared := by
  cases e with
  | yield p => exact ⟨p, rfl, h.2 hmakes⟩
  | refer container key => cases h; cases hmakes
  | push r v => cases h.1; cases hmakes
  | popItem r index => cases h.1; cases hmakes
  | popField r key => cases h.1; cases hmakes
  | print text => cases h; cases hmakes
  | random => cases h; cases hmakes
  | randomInt low high => cases h; cases hmakes
  | store r p =>
      rw [Op.makesList_of_assigns h.1] at hmakes
      cases hmakes
  | leave exit =>
      rw [(Op.plain_of_leaves h).2] at hmakes
      cases hmakes

end Effect.Suits

namespace State

variable (st : State) (op : Op) (args : List Value)

/-- An operation that fails has changed nothing, unless the sink refused what it printed. -/
theorem failed_operation_changes_nothing (f : Fault) (hfail : (st.apply op args).1 = .error f)
    (houtput : ∀ text, f ≠ .output text) : (st.apply op args).2 = st := by
  have happly : st.apply op args = (.error f, (st.apply op args).2) := by
    rw [← hfail]
  rcases apply_error_cases happly with ⟨-, hst⟩ | ⟨-, ⟨text, hf⟩, -⟩
  · exact hst
  · exact absurd hf (houtput text)

/-- An increment that goes too far is found out after the slot of a list has been read, and the list stays
as it is. -/
theorem failed_increment_changes_nothing :
    let st := { (default : State) with heap := ⟨#[⟨1, #[.int 9223372036854775807]⟩], #[]⟩ }
    (st.apply .increment [.reference ⟨2, .list ⟨0⟩, .index (-1)⟩]).2 = st :=
  failed_operation_changes_nothing _ _ _ (.overflow .increment) rfl nofun

/-- The footprint of an operation. Of the containers that were there, one that succeeds changes no other
than the one it is meant to change, and of that one only the slot of the reference if it writes through one.
A list that it makes was not there, so that no change of that list, at any time, reaches a container that
was, and no change of such a container reaches the list. The scopes stay as they are, and an interrupt is
set off only by the four operations that are for this. -/
theorem operation_footprint :
    (∀ v, (st.apply op args).1 = .ok v →
      (∀ c, (st.heap.idOf? c).isSome → op.changes args ≠ some c →
        st.heap.Agree (st.apply op args).2.heap c) ∧
      (op.assigns = true → ∃ r, args.head? = some (.reference r) ∧
        st.heap.AgreeBut (st.apply op args).2.heap r) ∧
      (op.makesList = true → ∀ r, v = .list r →
        st.heap.list? r = none ∧ ((st.apply op args).2.heap.list? r).isSome ∧
        ∀ (later later' : Heap) (c : Container), (st.heap.idOf? c).isSome →
          (later.Changed (.list r) later' → later.Agree later' c) ∧
          (later.Changed c later' → later.Agree later' (.list r)))) ∧
    (st.apply op args).2.scopes = st.scopes ∧
    ((st.apply op args).2.pending ≠ st.pending → op.leaves = true) := by
  refine ⟨?_, (st.apply_same op args).1, ?_⟩
  · intro v hok
    rcases st.apply_cases op args with ⟨f, -, happly⟩ | ⟨e, hsuits, happly⟩
    · rw [happly] at hok
      cases hok
    -- The operation succeeded, so it came down to an effect that suits it.
    rw [happly] at hok ⊢
    refine ⟨?_, ?_, ?_⟩
    · intro c hc hchanges
      refine perform_agree hc ?_
      intro htarget
      exact hchanges (hsuits.changes_eq htarget)
    · intro hassigns
      obtain ⟨r, p, rfl, hhead⟩ := hsuits.exists_store hassigns
      exact ⟨r, hhead, perform_store hok⟩
    · rintro hmakes r rfl
      obtain ⟨p, rfl, hp⟩ := hsuits.exists_yield hmakes
      obtain ⟨hnone, hsome⟩ := perform_unshared hp hok
      refine ⟨hnone, hsome, ?_⟩
      intro later later' c hc
      -- A container that was there is not the new list.
      have hne : c ≠ .list r := by
        rintro rfl
        simp [Heap.idOf?, hnone] at hc
      exact ⟨fun hchanged => hchanged.agree hne, fun hchanged => hchanged.agree hne.symm⟩
  · intro hpending
    -- A failed operation leaves the interrupt alone as well as everything else.
    rcases st.apply_cases op args with ⟨f, -, happly⟩ | ⟨e, hsuits, happly⟩
    · rw [happly] at hpending
      exact absurd rfl hpending
    · rw [happly] at hpending
      cases hleaves : op.leaves with
      | true => rfl
      | false =>
          refine absurd (perform_pending ?_) hpending
          rintro exit rfl
          have hset : op.leaves = true := hsuits
          rw [hleaves] at hset
          cases hset

/-- A list pushed to itself is changed and nothing else is. A list merged with itself stays as it is, and the
list that comes of it is a third one: neither of the two follows what is done to the other. -/
theorem operation_footprint_of_aliased :
    let st := { (default : State) with heap := ⟨#[⟨1, #[.int 7]⟩, ⟨2, #[.int 8]⟩], #[]⟩ }
    let l : Value := .list ⟨0⟩
    let pushed := (st.apply .push [l, l]).2.heap
    let merged := (st.apply .merge [l, l]).2.heap
    pushed.items ⟨0⟩ = #[.int 7, l] ∧ st.heap.Agree pushed (.list ⟨1⟩) ∧
      (st.apply .merge [l, l]).1 = .ok (.list ⟨2⟩) ∧ merged.items ⟨2⟩ = #[.int 7, .int 7] ∧
      st.heap.Agree merged (.list ⟨0⟩) ∧
      merged.Agree (merged.listPush ⟨2⟩ l) (.list ⟨0⟩) ∧
      merged.Agree (merged.listPush ⟨0⟩ l) (.list ⟨2⟩) := by
  intro st l pushed merged
  obtain ⟨hpush, -⟩ := st.operation_footprint .push [l, l]
  obtain ⟨hmerge, -⟩ := st.operation_footprint .merge [l, l]
  obtain ⟨hpushed, -, -⟩ := hpush l rfl
  obtain ⟨hmerged, -, hnew⟩ := hmerge (.list ⟨2⟩) rfl
  obtain ⟨-, -, hapart⟩ := hnew rfl ⟨2⟩ rfl
  refine ⟨rfl, hpushed (.list ⟨1⟩) rfl (by decide), rfl, rfl, hmerged (.list ⟨0⟩) rfl (by decide), ?_, ?_⟩
  · exact (hapart merged _ (.list ⟨0⟩) rfl).1 (.items ⟨2⟩ _)
  · exact (hapart merged _ (.list ⟨0⟩) rfl).2 (.items ⟨0⟩ _)

end State

end Stepwise
