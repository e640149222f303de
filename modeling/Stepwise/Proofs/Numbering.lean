import Stepwise.Proofs.Paths

/-!
# `Stepwise.Proofs.Numbering`: how identity numbers are handed out

A state has one source of identity numbers, which only counts up. `State.Grows` lists what can become of the
numbers in a step: nothing happens, a number is handed out and memory stays as it is, or a container is made
that has the number. So a step hands out one number at most.

What holds over a whole run follows from this list alone. In a state that is `Numbered` each container has a
number of its own below the next one, and growing keeps it so. A state that `Precedes` another has no greater
next number, its containers keep their numbers, and all others have numbers from its next one on.
-/

set_option autoImplicit false

namespace Stepwise

/-! ### Memory -/

namespace Heap

variable {h h' : Heap}

@[simp] theorem id?_value (h : Heap) (c : Container) : h.id? c.value = h.idOf? c := by
  cases c with
  | list r => rfl
  | object r => rfl

/-- A container that is the same in two heaps has the same number. -/
theorem Agree.idOf?_eq {c : Container} (hagree : h.Agree h' c) : h'.idOf? c = h.idOf? c := by
  cases c with
  | list r => exact congrArg (Option.map ListCell.id) hagree
  | object r => exact congrArg (Option.map ObjectCell.id) hagree

/-- A new list has the number that it is made with. -/
theorem idOf?_newList (id : Nat) (items : Array Value) (c : Container) :
    (h.newList id items).2.idOf? c = if c = .list ⟨h.lists.size⟩ then some id else h.idOf? c := by
  split
  · rename_i hc
    subst hc
    simp [idOf?, list?, newList]
  · rename_i hc
    exact (agree_newList id items hc).idOf?_eq

/-- A new object has the number that it is made with. -/
theorem idOf?_newObject (id : Nat) (fields : Fields) (c : Container) :
    (h.newObject id fields).2.idOf? c =
      if c = .object ⟨h.objects.size⟩ then some id else h.idOf? c := by
  cases c with
  | list r => rfl
  | object r =>
      obtain ⟨i⟩ := r
      simp only [idOf?, object?, newObject, Array.getElem?_push, Container.object.injEq,
        ObjectRef.mk.injEq]
      split <;> rfl

theorem idOf?_put (r : Reference) (v : Value) (c : Container) : (h.put r v).idOf? c = h.idOf? c := by
  unfold put
  split
  · exact idOf?_modifyFields _ _ c
  · exact idOf?_modifyItems _ _ c
  · rfl

/-- Binding parameters changes the fields of a scope only. -/
theorem idOf?_bind (scope : ObjectRef) (names : List String) (vs : List Value) (c : Container) :
    (Control.bind h scope names vs).idOf? c = h.idOf? c := by
  induction names generalizing h vs with
  | nil => rfl
  | cons name names ih =>
      cases vs with
      | nil => rfl
      | cons v vs => exact (ih vs).trans (idOf?_modifyFields _ _ c)

end Heap

namespace State

variable {st st₁ st' : State}

/-! ### One step -/

/-- What can become of the identity numbers in a step. -/
inductive Grows (st st' : State) : Prop where
  | idle (hnext : st'.nextId = st.nextId) (hids : ∀ c, st'.heap.idOf? c = st.heap.idOf? c)
  /-- A number is handed out, and no container has it. -/
  | issued (hnext : st'.nextId = st.nextId + 1) (hids : ∀ c, st'.heap.idOf? c = st.heap.idOf? c)
  /-- A container is made. -/
  | made (c : Container) (hnext : st'.nextId = st.nextId + 1) (hnew : st.heap.idOf? c = none)
      (hids : ∀ d, st'.heap.idOf? d = if d = c then some st.nextId else st.heap.idOf? d)

/-- Each container has a number below the next one, and no other container has that number. -/
structure Numbered (st : State) : Prop where
  below : ∀ c id, st.heap.idOf? c = some id → id < st.nextId
  unique : ∀ c d id, st.heap.idOf? c = some id → st.heap.idOf? d = some id → c = d

/-- A state comes before another one: the containers of the first keep their numbers, and the others have
numbers from its next one on. -/
structure Precedes (st st' : State) : Prop where
  nextId_le : st.nextId ≤ st'.nextId
  keeps : ∀ c id, st.heap.idOf? c = some id → st'.heap.idOf? c = some id
  fresh : ∀ c id, st'.heap.idOf? c = some id → id < st.nextId → st.heap.idOf? c = some id

namespace Grows

theorem refl (st : State) : st.Grows st :=
  .idle rfl fun _ => rfl

/-- What follows may change all but the numbers. -/
theorem and_idle (h : st.Grows st₁) (hnext : st'.nextId = st₁.nextId)
    (hids : ∀ c, st'.heap.idOf? c = st₁.heap.idOf? c) : st.Grows st' := by
  cases h with
  | idle hnext₁ hids₁ => exact .idle (hnext.trans hnext₁) fun c => (hids c).trans (hids₁ c)
  | issued hnext₁ hids₁ => exact .issued (hnext.trans hnext₁) fun c => (hids c).trans (hids₁ c)
  | made c hnext₁ hnew hids₁ =>
      exact .made c (hnext.trans hnext₁) hnew fun d => (hids d).trans (hids₁ d)

/-- What came before may have changed all but memory and the next number. -/
theorem of_eq (h : st₁.Grows st') (hnext : st₁.nextId = st.nextId) (hheap : st₁.heap = st.heap) :
    st.Grows st' := by
  cases h with
  | idle hnext₁ hids => exact .idle (hnext₁.trans hnext) (hheap ▸ hids)
  | issued hnext₁ hids => exact .issued (hnext ▸ hnext₁) (hheap ▸ hids)
  | made c hnext₁ hnew hids => exact .made c (hnext ▸ hnext₁) (hheap ▸ hnew) (hheap ▸ hnext ▸ hids)

theorem makeList (st : State) (items : Array Value) : st.Grows (st.makeList items).2 := by
  refine .made (.list ⟨st.heap.lists.size⟩) rfl ?_ fun d => Heap.idOf?_newList st.nextId items d
  simp [Heap.idOf?, Heap.list?]

theorem makeObject (st : State) (fields : Fields) : st.Grows (st.makeObject fields).2 := by
  refine .made (.object ⟨st.heap.objects.size⟩) rfl ?_ fun d => Heap.idOf?_newObject st.nextId fields d
  simp [Heap.idOf?, Heap.object?]

theorem precedes (h : st.Grows st') : st.Precedes st' := by
  cases h with
  | idle hnext hids =>
      exact ⟨by omega, fun c id hc => (hids c).trans hc, fun c id hc _ => (hids c).symm.trans hc⟩
  | issued hnext hids =>
      exact ⟨by omega, fun c id hc => (hids c).trans hc, fun c id hc _ => (hids c).symm.trans hc⟩
  | made c hnext hnew hids =>
      refine ⟨by omega, fun d id hd => ?_, fun d id hd hlt => ?_⟩
      · rw [hids d, if_neg]
        · exact hd
        · rintro rfl
          rw [hnew] at hd
          cases hd
      · rw [hids d] at hd
        split at hd
        · cases hd
          omega
        · exact hd

/-- A new container takes a number that no container has. -/
theorem numbered (h : st.Grows st') (hst : st.Numbered) : st'.Numbered := by
  cases h with
  | idle hnext hids =>
      refine ⟨fun c id hc => ?_, fun c d id hc hd => ?_⟩
      · rw [hnext]
        exact hst.below c id ((hids c).symm.trans hc)
      · exact hst.unique c d id ((hids c).symm.trans hc) ((hids d).symm.trans hd)
  | issued hnext hids =>
      refine ⟨fun c id hc => ?_, fun c d id hc hd => ?_⟩
      · have hlt := hst.below c id ((hids c).symm.trans hc)
        omega
      · exact hst.unique c d id ((hids c).symm.trans hc) ((hids d).symm.trans hd)
  | made c hnext hnew hids =>
      -- A container of the later heap is the new one, or it was there and has a smaller number.
      have hcases (d : Container) (id : Nat) (hd : st'.heap.idOf? d = some id) :
          (d = c ∧ id = st.nextId) ∨ (st.heap.idOf? d = some id ∧ id < st.nextId) := by
        rw [hids d] at hd
        split at hd
        · rename_i heq
          cases hd
          exact Or.inl ⟨heq, rfl⟩
        · exact Or.inr ⟨hd, hst.below d id hd⟩
      refine ⟨fun d id hd => ?_, fun d e id hd he => ?_⟩
      · rcases hcases d id hd with ⟨-, rfl⟩ | ⟨-, hlt⟩ <;> omega
      · rcases hcases d id hd with ⟨rfl, hid⟩ | ⟨hd, hlt⟩
        · rcases hcases e id he with ⟨rfl, -⟩ | ⟨-, hlt⟩
          · rfl
          · omega
        · rcases hcases e id he with ⟨-, hid⟩ | ⟨he, -⟩
          · omega
          · exact hst.unique d e id hd he

end Grows

/-! ### Several steps -/

namespace Precedes

theorem refl (st : State) : st.Precedes st :=
  ⟨Nat.le_refl _, fun _ _ hc => hc, fun _ _ hc _ => hc⟩

theorem trans (h : st.Precedes st₁) (h' : st₁.Precedes st') : st.Precedes st' where
  nextId_le := Nat.le_trans h.nextId_le h'.nextId_le
  keeps c id hc := h'.keeps c id (h.keeps c id hc)
  fresh c id hc hlt := h.fresh c id (h'.fresh c id hc (Nat.lt_of_lt_of_le hlt h.nextId_le)) hlt

/-- What is in memory stays there. -/
theorem isSome (h : st.Precedes st') {c : Container} (hc : (st.heap.idOf? c).isSome) :
    (st'.heap.idOf? c).isSome := by
  obtain ⟨id, hid⟩ := Option.isSome_iff_exists.mp hc
  rw [h.keeps c id hid]
  rfl

end Precedes

end State

end Stepwise
