import Stepwise.Heap.Equality

/-!
# `Stepwise.Proofs.Identity`: containers and their identity numbers

Comparing and writing values tell containers apart by their identity numbers, and not by their handles.
`idOf?_inj` says that this is the same if no two containers of the heap have one number.
-/

set_option autoImplicit false

namespace Stepwise

/-- A container as a value. -/
def Container.value : Container → Value
  | .list r => .list r
  | .object r => .object r

namespace Heap

variable {h : Heap}

/-- The identity of a container in memory. -/
def idOf? (h : Heap) : Container → Option Nat
  | .list r => (h.list? r).map ListCell.id
  | .object r => (h.object? r).map ObjectCell.id

/-- The place of a container in the list of all identities: the lists come first. -/
def place (h : Heap) : Container → Nat
  | .list r => r.index
  | .object r => h.lists.size + r.index

/-- A container in memory has its identity in its place. -/
theorem getElem?_ids_place {c : Container} {id : Nat} (hc : h.idOf? c = some id) :
    h.ids[h.place c]? = some id := by
  cases c with
  | list r =>
      obtain ⟨cell, hcell, rfl⟩ := Option.map_eq_some_iff.mp hc
      have hlt : r.index < h.lists.size := (Array.getElem?_eq_some_iff.mp hcell).1
      have hget : h.lists.toList[r.index]? = some cell := by simpa [list?] using hcell
      rw [ids, place, List.getElem?_append_left (by simpa using hlt), List.getElem?_map, hget]
      rfl
  | object r =>
      obtain ⟨cell, hcell, rfl⟩ := Option.map_eq_some_iff.mp hc
      have hget : h.objects.toList[r.index]? = some cell := by simpa [object?] using hcell
      rw [ids, place, List.getElem?_append_right (by simp), List.getElem?_map]
      simp [hget]

/-- Two containers in memory do not share a place. -/
theorem place_inj {c d : Container} (hc : (h.idOf? c).isSome) (hd : (h.idOf? d).isSome)
    (hplace : h.place c = h.place d) : c = d := by
  -- The places of lists lie below those of objects.
  have hlist (r : ListRef) (hr : (h.idOf? (.list r)).isSome) : r.index < h.lists.size := by
    simpa [idOf?, list?] using hr
  cases c with
  | list r =>
      cases d with
      | list q =>
          obtain ⟨i⟩ := r
          obtain ⟨j⟩ := q
          rw [show i = j from hplace]
      | object q =>
          have hlt := hlist r hc
          simp only [place] at hplace
          omega
  | object r =>
      cases d with
      | list q =>
          have hlt := hlist q hd
          simp only [place] at hplace
          omega
      | object q =>
          obtain ⟨i⟩ := r
          obtain ⟨j⟩ := q
          rw [show i = j from Nat.add_left_cancel hplace]

/-- If all identities differ, a container is known by its identity. -/
theorem idOf?_inj (hids : h.ids.Nodup) {c d : Container} {id : Nat} (hc : h.idOf? c = some id)
    (hd : h.idOf? d = some id) : c = d := by
  have hc' := getElem?_ids_place hc
  have hlt : h.place c < h.ids.length := (List.getElem?_eq_some_iff.mp hc').1
  refine place_inj (by simp [hc]) (by simp [hd]) ((List.getElem?_inj hlt hids).mp ?_)
  rw [hc', getElem?_ids_place hd]

end Heap

end Stepwise
