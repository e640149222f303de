import Stepwise.Heap.Display

/-!
# `Stepwise.Heap.Equality`: equality of values

`Heap.equal` compares two values by their contents. Two containers that are compared again, which is
told by their two identities, are assumed to be equal, so cyclic data can be compared too. The loop
keeps the pairs that are still to be compared in a worklist; it ends because every pair of identities
is assumed at most once.
-/

set_option autoImplicit false

namespace Stepwise

/-- Whether two numbers are equal: integers exactly, others as floats. -/
def Numeric.equal : Numeric → Numeric → Bool
  | int m, int n => m == n
  | m, n => m.toFloat == n.toFloat

/-- Whether two values that are not both lists and not both objects are equal. -/
def Value.scalarEqual : Value → Value → Bool
  | .null, .null => true
  | .str s, .str t => s == t
  | .function f, .function g => f.id == g.id
  | .reference r, .reference q => r.id == q.id
  | v, w =>
    match v.numeric?, w.numeric? with
    | some m, some n => m.equal n
    | _, _ => false

/-- Whether two values are the same container, function or reference. -/
def Value.same : Value → Value → Bool
  | .list r, .list q => r == q
  | .object r, .object q => r == q
  | .function f, .function g => f.id == g.id
  | .reference r, .reference q => r.id == q.id
  | _, _ => false

namespace Heap

/-- What a pair of values comes down to. -/
inductive Confrontation where
  /-- It is settled without a look into containers. -/
  | settled (equal : Bool)
  /-- Two containers with their identities, and the pairs of their parts; there are none if the
  containers do not even have the same shape. -/
  | containers (ids : Nat × Nat) (parts : Option (List (Value × Value)))

/-- The pairs of the elements of two lists of one length. -/
def itemPairs (x y : Array Value) : Option (List (Value × Value)) :=
  if x.size = y.size then some (x.toList.zip y.toList) else none

/-- The pairs of the values of two objects under the same keys, in the order of the first. -/
def fieldPairs (x y : Fields) : Option (List (Value × Value)) :=
  if x.size = y.size then
    x.entries.mapM fun e => (y.get? e.1).map fun v => (e.2, v)
  else none

/-- Sets two values against each other. -/
def confront (h : Heap) : Value → Value → Confrontation
  | .list r, .list q =>
    if r = q then .settled true
    else
      match h.list? r, h.list? q with
      | some x, some y => .containers (x.id, y.id) (itemPairs x.items y.items)
      | _, _ => .settled false
  | .object r, .object q =>
    if r = q then .settled true
    else
      match h.object? r, h.object? q with
      | some x, some y => .containers (x.id, y.id) (fieldPairs x.fields y.fields)
      | _, _ => .settled false
  | v, w => .settled (v.scalarEqual w)

/-- The pairs of identities of the heap. -/
def idPairs (h : Heap) : List (Nat × Nat) :=
  h.ids.flatMap fun a => h.ids.map fun b => (a, b)

/-- The pairs of identities that are not assumed yet. -/
def openPairs (h : Heap) (assumed : List (Nat × Nat)) : Nat :=
  (h.idPairs.filter fun p => !assumed.contains p).length

/-- The identity of a list in memory is one of the heap's. -/
theorem id_mem_ids_of_list? {h : Heap} {r : ListRef} {cell : ListCell} (hr : h.list? r = some cell) :
    cell.id ∈ h.ids := by
  have hmem : cell ∈ h.lists.toList := by
    simpa using Array.mem_of_getElem? hr
  exact List.mem_append_left _ (List.mem_map_of_mem hmem)

/-- The identity of an object in memory is one of the heap's. -/
theorem id_mem_ids_of_object? {h : Heap} {r : ObjectRef} {cell : ObjectCell}
    (hr : h.object? r = some cell) : cell.id ∈ h.ids := by
  have hmem : cell ∈ h.objects.toList := by
    simpa using Array.mem_of_getElem? hr
  exact List.mem_append_right _ (List.mem_map_of_mem hmem)

/-- A confrontation of containers has identities of the heap. -/
theorem mem_idPairs {h : Heap} {v w : Value} {p : Nat × Nat} {parts : Option (List (Value × Value))}
    (hc : h.confront v w = .containers p parts) : p ∈ h.idPairs := by
  have hpair : ∀ {a b : Nat}, a ∈ h.ids → b ∈ h.ids → (a, b) ∈ h.idPairs := by
    intro a b ha hb
    exact List.mem_flatMap.mpr ⟨a, ha, List.mem_map.mpr ⟨b, hb, rfl⟩⟩
  unfold confront at hc
  split at hc
  · split at hc
    · cases hc
    · split at hc
      · rename_i hx hy
        cases hc
        exact hpair (id_mem_ids_of_list? hx) (id_mem_ids_of_list? hy)
      · cases hc
  · split at hc
    · cases hc
    · split at hc
      · rename_i hx hy
        cases hc
        exact hpair (id_mem_ids_of_object? hx) (id_mem_ids_of_object? hy)
      · cases hc
  · cases hc

/-- Assuming a pair leaves fewer pairs open. -/
theorem openPairs_cons_lt {h : Heap} {assumed : List (Nat × Nat)} {p : Nat × Nat}
    (hp : p ∈ h.idPairs) (hnew : p ∉ assumed) : h.openPairs (p :: assumed) < h.openPairs assumed := by
  refine length_filter_lt (a := p) ?_ hp ?_ ?_
  · intro x hx
    simp only [List.contains_eq_mem, List.mem_cons, Bool.not_eq_true', decide_eq_false_iff_not,
      not_or] at hx ⊢
    exact hx.2
  · simpa using hnew
  · simp

/-- Whether all pairs of the worklist are equal under the assumed pairs of identities. The parts of a
container come before the rest of the work, the last part first. -/
def equalAll (h : Heap) (assumed : List (Nat × Nat)) (work : List (Value × Value)) : Bool :=
  match work with
  | [] => true
  | (v, w) :: work =>
    match _hc : h.confront v w with
    | .settled equal => equal && equalAll h assumed work
    | .containers p parts =>
      -- A pair that was met before is not opened again: this is what ends the comparison of cycles.
      if _hp : p ∈ assumed then equalAll h assumed work
      else
        match parts with
        | none => false
        | some parts => equalAll h (p :: assumed) (parts.reverse ++ work)
termination_by (h.openPairs assumed, work.length)
decreasing_by
  · exact Prod.Lex.right _ (Nat.lt_succ_self _)
  · exact Prod.Lex.right _ (Nat.lt_succ_self _)
  · exact Prod.Lex.left _ _ (openPairs_cons_lt (mem_idPairs _hc) _hp)

/-- Whether two values are equal by their contents. -/
def equal (h : Heap) (v w : Value) : Bool :=
  h.equalAll [] [(v, w)]

end Heap

end Stepwise
