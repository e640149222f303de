import Stepwise.Heap.Cast

/-!
# `Stepwise.Scope`: the chain of scopes

A scope is an object whose fields are variables. The global scope is always there, and each running
call and object literal puts one scope on top of it, up to a limit. Only the top scope and the global
scope are ever looked into.
-/

set_option autoImplicit false

namespace Stepwise

/-- The global scope and the scopes on top of it, the innermost first. -/
structure Scopes where
  global : ObjectRef
  inner : List ObjectRef
  /-- How many scopes may stand on top of the global one. -/
  limit : Nat
deriving DecidableEq, Repr, Inhabited

namespace Scopes

/-- Only the global scope. -/
def ofGlobal (global : ObjectRef) (limit : Nat) : Scopes :=
  ⟨global, [], limit⟩

/-- The number of scopes on top of the global one. -/
def depth (s : Scopes) : Nat :=
  s.inner.length

/-- The scope that plain paths start from. -/
def current (s : Scopes) : ObjectRef :=
  s.inner.head?.getD s.global

/-- Puts a scope on top, unless the limit is reached. -/
def push (s : Scopes) (scope : ObjectRef) : Except Fault Scopes :=
  if s.limit ≤ s.depth then .error (.recursionLimit s.limit)
  else .ok { s with inner := scope :: s.inner }

/-- The scope that `pop` removes; the global scope stays. -/
def top? (s : Scopes) : Option ObjectRef :=
  s.inner.head?

/-- Removes the top scope; the global scope stays. -/
def pop (s : Scopes) : Scopes :=
  { s with inner := s.inner.tail }

/-- A scope is refused exactly if the limit is reached. -/
theorem push_eq_error_iff {s : Scopes} {scope : ObjectRef} {f : Fault} :
    s.push scope = .error f ↔ s.limit ≤ s.depth ∧ f = .recursionLimit s.limit := by
  by_cases h : s.limit ≤ s.depth <;> simp [push, h, eq_comm]

/-- A scope that is not refused comes to the top of the others. -/
theorem push_eq_ok_iff {s t : Scopes} {scope : ObjectRef} :
    s.push scope = .ok t ↔ s.depth < s.limit ∧ t = { s with inner := scope :: s.inner } := by
  by_cases h : s.limit ≤ s.depth
  · simp [push, h, Nat.not_lt.mpr h]
  · simp [push, h, Nat.not_le.mp h, eq_comm]

end Scopes

namespace Heap

/-- Follows names from an object through objects. -/
def follow (h : Heap) (start : ObjectRef) : List String → Except Fault ObjectRef
  | [] => .ok start
  | name :: names => do
    let v ← h.objectGet start name
    let next ← h.asObject v
    h.follow next names

end Heap

namespace Scopes

/-- The object and the key that a path addresses. All names but the last must lead through objects;
the last one need not exist. -/
def resolve (s : Scopes) (h : Heap) (global : Bool) (path : List String) :
    Except Fault (ObjectRef × String) :=
  match path.getLast? with
  | none => .error (.internal "empty variable path")
  -- The last name is only looked at by who reads or writes the slot.
  | some last => do
    let object ← h.follow (if global then s.global else s.current) path.dropLast
    return (object, last)

end Scopes

end Stepwise
