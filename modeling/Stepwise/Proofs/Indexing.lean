import Stepwise.Proofs.Footprint

/-!
# `Stepwise.Proofs.Indexing`: one rule for all indices

An index of a list or a text counts from the front, or from the end if it is negative. Reading, writing and
removing an element and taking a character of a text all go by the same rule: `InRange` says which indices
stand for a position, and `position` which one it is. Neither of them mentions `resolveIndex`, which the
operations use; `resolveIndex_of_inRange` and `resolveIndex_of_not_inRange` tie the two together, and each
operation then has one equation inside the range and one outside of it.

* `State.indices_address_positions`: the operations succeed exactly inside the range, and two indices are
  aliases of one element exactly if they have one position.
-/

set_option autoImplicit false

namespace Stepwise

/-! ### Positions -/

/-- An index stands for a position in a sequence of `len` elements. -/
def InRange (len : Nat) (i : Int64) : Prop :=
  -(len : Int) ≤ i.toInt ∧ i.toInt < len

instance (len : Nat) (i : Int64) : Decidable (InRange len i) :=
  inferInstanceAs (Decidable (_ ∧ _))

/-- The position that an index stands for; a negative index counts from the end. -/
def position (len : Nat) (i : Int64) : Nat :=
  if 0 ≤ i.toInt then i.toInt.toNat else (len + i.toInt).toNat

section

variable {len : Nat} {i : Int64}

theorem position_lt (h : InRange len i) : position len i < len := by
  obtain ⟨hlow, hhigh⟩ := h
  unfold position
  split
  · omega
  · omega

theorem resolveIndex_of_inRange (h : InRange len i) : resolveIndex i len = some (position len i) := by
  have hlt : position len i < len := position_lt h
  obtain ⟨hlow, hhigh⟩ := h
  refine resolveIndex_eq_some_iff.mpr ⟨hlt, ?_⟩
  unfold position
  split
  · omega
  · omega

theorem resolveIndex_of_not_inRange (h : ¬ InRange len i) : resolveIndex i len = none := by
  rw [← Option.not_isSome_iff_eq_none, isSome_resolveIndex_iff]
  exact h

end

/-! ### Lists -/

namespace Heap

variable {h : Heap} {r : ListRef} {i : Int64}

/-- A list that has a position is in memory. -/
theorem isSome_list?_of_inRange (hi : InRange (h.items r).size i) : (h.list? r).isSome := by
  have hlt : position (h.items r).size i < (h.items r).size := position_lt hi
  cases hr : h.list? r with
  | some cell => rfl
  | none => simp [items, hr] at hlt

theorem listGet_of_inRange (hi : InRange (h.items r).size i) {v : Value}
    (hv : (h.items r)[position (h.items r).size i]? = some v) : h.listGet r i = .ok v := by
  simp only [listGet, resolveIndex_of_inRange hi, Option.bind_some, hv]

theorem listGet_of_not_inRange (hi : ¬ InRange (h.items r).size i) :
    h.listGet r i = .error (.indexOutOfBounds i (h.items r).size) := by
  simp only [listGet, resolveIndex_of_not_inRange hi, Option.bind_none]

theorem write_of_inRange (hi : InRange (h.items r).size i) (id : Nat) (v : Value) :
    h.write ⟨id, .list r, .index i⟩ v = .ok (h.listPut r i v) := by
  show (h.listCheck r i).map _ = _
  rw [listCheck, resolveIndex_of_inRange hi]
  rfl

theorem write_of_not_inRange (hi : ¬ InRange (h.items r).size i) (id : Nat) (v : Value) :
    h.write ⟨id, .list r, .index i⟩ v = .error (.indexOutOfBounds i (h.items r).size) := by
  show (h.listCheck r i).map _ = _
  rw [listCheck, resolveIndex_of_not_inRange hi]
  rfl

theorem items_listPut (hi : InRange (h.items r).size i) (v : Value) :
    (h.listPut r i v).items r = (h.items r).setIfInBounds (position (h.items r).size i) v := by
  rw [listPut, items_modifyItems_self (isSome_list?_of_inRange hi), resolveIndex_of_inRange hi]

theorem items_listErase (hi : InRange (h.items r).size i) :
    ((h.listErase r i).items r).toList = (h.items r).toList.eraseIdx (position (h.items r).size i) := by
  rw [listErase, items_modifyItems_self (isSome_list?_of_inRange hi), resolveIndex_of_inRange hi]
  show ((h.items r).eraseIdxIfInBounds _).toList = _
  rw [Array.eraseIdxIfInBounds_eq, dif_pos (position_lt hi), Array.toList_eraseIdx]

/-- After an element is replaced, exactly the indices with its position give the new one. Every other index
gives what it gave before, and fails as it failed before. -/
theorem listGet_listPut (hi : InRange (h.items r).size i) (v : Value) (j : Int64) :
    (h.listPut r i v).listGet r j =
      if InRange (h.items r).size j ∧ position (h.items r).size j = position (h.items r).size i then .ok v
      else h.listGet r j := by
  have hitems := items_listPut hi v
  have hsize : ((h.listPut r i v).items r).size = (h.items r).size := by
    rw [hitems, Array.size_setIfInBounds]
  by_cases hj : InRange (h.items r).size j
  · have hj' : InRange ((h.listPut r i v).items r).size j := by rwa [hsize]
    -- An index has at most one other of the same position, so it is positions that are compared.
    by_cases hsame : position (h.items r).size j = position (h.items r).size i
    · rw [if_pos ⟨hj, hsame⟩]
      refine listGet_of_inRange hj' ?_
      rw [hsize, hitems, hsame, Array.getElem?_setIfInBounds_self_of_lt (position_lt hi)]
    · rw [if_neg fun hboth => hsame hboth.2]
      obtain ⟨w, hw⟩ : ∃ w, (h.items r)[position (h.items r).size j]? = some w :=
        ⟨_, Array.getElem?_eq_getElem (position_lt hj)⟩
      rw [listGet_of_inRange hj hw]
      refine listGet_of_inRange hj' ?_
      rw [hsize, hitems, Array.getElem?_setIfInBounds_ne (Ne.symm hsame), hw]
  · have hj' : ¬ InRange ((h.listPut r i v).items r).size j := by rwa [hsize]
    rw [if_neg fun hboth => hj hboth.1, listGet_of_not_inRange hj, listGet_of_not_inRange hj', hsize]

end Heap

/-! ### Operations -/

namespace State

variable {st : State} {i : Int64}

theorem apply_pop (st : State) (r : ListRef) (i : Int64) :
    st.apply .pop [.list r, .int i] =
      match st.heap.listPopped r i with
      | .error f => (.error f, st)
      | .ok v => (.ok v, { st with heap := st.heap.listErase r i }) := by
  rfl

theorem apply_index_text (st : State) (s : String) (i : Int64) :
    st.apply .index [.str s, .int i] =
      match (resolveIndex i s.length).bind fun p => s.toList[p]? with
      | some c => (.ok (.str (String.singleton c)), st)
      | none => (.error (.indexOutOfBounds i s.length), st) := by
  have hplan : Op.plan .index [.str s, .int i] st =
      match (resolveIndex i s.length).bind fun p => s.toList[p]? with
      | some c => .ok (.value (.str (String.singleton c)))
      | none => .error (.indexOutOfBounds i s.length) := rfl
  rw [apply, hplan]
  cases (resolveIndex i s.length).bind fun p => s.toList[p]? with
  | some c => rfl
  | none => rfl

theorem apply_pop_of_inRange {r : ListRef} (hi : InRange (st.heap.items r).size i) {v : Value}
    (hv : (st.heap.items r)[position (st.heap.items r).size i]? = some v) :
    st.apply .pop [.list r, .int i] = (.ok v, { st with heap := st.heap.listErase r i }) := by
  have hpopped : st.heap.listPopped r i = .ok v := by
    simp only [Heap.listPopped, resolveIndex_of_inRange hi, Option.bind_some, hv]
  rw [apply_pop, hpopped]

theorem apply_pop_of_not_inRange {r : ListRef} (hi : ¬ InRange (st.heap.items r).size i) :
    st.apply .pop [.list r, .int i] =
      (.error (.catchable (.invalidIndex ("List index '" ++ Number.writeInt i ++ "' out of bounds"))),
        st) := by
  rw [apply_pop, Heap.listPopped, resolveIndex_of_not_inRange hi]
  rfl

theorem apply_index_of_inRange {s : String} (hi : InRange s.length i) {c : Char}
    (hc : s.toList[position s.length i]? = some c) :
    st.apply .index [.str s, .int i] = (.ok (.str (String.singleton c)), st) := by
  rw [apply_index_text, resolveIndex_of_inRange hi, Option.bind_some, hc]

theorem apply_index_of_not_inRange {s : String} (hi : ¬ InRange s.length i) :
    st.apply .index [.str s, .int i] = (.error (.indexOutOfBounds i s.length), st) := by
  rw [apply_index_text, resolveIndex_of_not_inRange hi, Option.bind_none]

/-- All operations with an index address the same position, and they succeed exactly if the index lies
between the length and its opposite. An element that is written is read through every index of its position,
and all other indices give what they gave before. An element that is removed is the one that was read, and the
rest keeps its order. Outside the range nothing is changed; removing then fails so that a script can catch
it. -/
theorem indices_address_positions (st : State) (i : Int64) :
    (∀ (r : ListRef) (id : Nat),
      let items := st.heap.items r
      let place := position items.size
      let slot := fun j => Reference.mk id (.list r) (.index j)
      (InRange items.size i → ∃ v, items[place i]? = some v ∧ st.heap.read (slot i) = .ok v ∧
        (∀ w, ∃ heap, st.heap.write (slot i) w = .ok heap ∧
          heap.items r = items.setIfInBounds (place i) w ∧
          ∀ j, heap.read (slot j) =
            if InRange items.size j ∧ place j = place i then .ok w else st.heap.read (slot j)) ∧
        ∃ later, st.apply .pop [.list r, .int i] = (.ok v, later) ∧
          (later.heap.items r).toList = items.toList.eraseIdx (place i)) ∧
      (¬ InRange items.size i → st.heap.read (slot i) = .error (.indexOutOfBounds i items.size) ∧
        (∀ w, st.heap.write (slot i) w = .error (.indexOutOfBounds i items.size)) ∧
        st.apply .pop [.list r, .int i] =
          (.error (.catchable (.invalidIndex ("List index '" ++ Number.writeInt i ++ "' out of bounds"))),
            st))) ∧
    (∀ s : String,
      (InRange s.length i → ∃ c, s.toList[position s.length i]? = some c ∧
        st.apply .index [.str s, .int i] = (.ok (.str (String.singleton c)), st)) ∧
      (¬ InRange s.length i →
        st.apply .index [.str s, .int i] = (.error (.indexOutOfBounds i s.length), st))) := by
  refine ⟨?_, ?_⟩
  · intro r id items place slot
    refine ⟨?_, ?_⟩
    · intro hi
      -- An index in range addresses a position, where there is an element.
      obtain ⟨v, hv⟩ : ∃ v, items[place i]? = some v := ⟨_, Array.getElem?_eq_getElem (position_lt hi)⟩
      refine ⟨v, hv, Heap.listGet_of_inRange hi hv, ?_, ?_⟩
      · intro w
        exact ⟨st.heap.listPut r i w, Heap.write_of_inRange hi id w, Heap.items_listPut hi w,
          Heap.listGet_listPut hi w⟩
      · exact ⟨_, apply_pop_of_inRange hi hv, Heap.items_listErase hi⟩
    · intro hi
      exact ⟨Heap.listGet_of_not_inRange hi, Heap.write_of_not_inRange hi id, apply_pop_of_not_inRange hi⟩
  · intro s
    refine ⟨?_, apply_index_of_not_inRange⟩
    intro hi
    -- The characters of a text are as many as its length says.
    have hlt : position s.length i < s.toList.length := by
      rw [String.length_toList]
      exact position_lt hi
    exact ⟨_, List.getElem?_eq_getElem hlt, apply_index_of_inRange hi (List.getElem?_eq_getElem hlt)⟩

/-- The last element of a list, written through its negative index, is read through the other one; one index
further down there is nothing. -/
theorem indices_address_positions_of_last :
    let st : State := { (default : State) with heap := ⟨#[⟨1, #[.int 10, .int 20, .int 30]⟩], #[]⟩ }
    InRange 3 (-1) ∧ ¬ InRange 3 (-4) ∧
      (∃ heap, st.heap.write ⟨2, .list ⟨0⟩, .index (-1)⟩ .null = .ok heap ∧
        heap.read ⟨2, .list ⟨0⟩, .index 2⟩ = .ok .null) ∧
      (∃ later, st.apply .pop [.list ⟨0⟩, .int (-1)] = (.ok (.int 30), later) ∧
        (later.heap.items ⟨0⟩).toList = [.int 10, .int 20]) ∧
      st.apply .pop [.list ⟨0⟩, .int (-4)] =
        (.error (.catchable (.invalidIndex "List index '-4' out of bounds")), st) := by
  intro st
  have hlast : InRange 3 (-1) := by decide
  have hbeyond : ¬ InRange 3 (-4) := by decide
  obtain ⟨v, hv, -, hwrite, hpop⟩ := ((indices_address_positions st (-1)).1 ⟨0⟩ 2).1 hlast
  obtain rfl : Value.int 30 = v := Option.some.inj hv
  refine ⟨hlast, hbeyond, ?_, hpop, (((indices_address_positions st (-4)).1 ⟨0⟩ 2).2 hbeyond).2.2⟩
  obtain ⟨heap, hheap, -, hread⟩ := hwrite .null
  exact ⟨heap, hheap, (hread 2).trans (if_pos (by decide))⟩

end State

end Stepwise
