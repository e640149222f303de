import Stepwise.Fault
import Stepwise.Heap.Fields
import Stepwise.Text.Quoted

/-!
# `Stepwise.Heap`: lists and objects in memory

The heap holds a cell for every list and every object that a run has made; a handle is the position of
its cell. Each cell has the identity number that it was made with. What can fail is checked first and
changes nothing; the change itself cannot fail.

A list index counts from the front, or from the end if it is negative (`resolveIndex`);
`isSome_resolveIndex_iff` says which indices address an element, and `resolveIndex_eq_some_iff` which
one.
-/

set_option autoImplicit false

namespace Stepwise

/-- A list in memory. -/
structure ListCell where
  id : Nat
  items : Array Value
deriving Inhabited

/-- An object in memory. -/
structure ObjectCell where
  id : Nat
  fields : Fields
deriving Inhabited

/-- All lists and objects in memory. -/
structure Heap where
  lists : Array ListCell
  objects : Array ObjectCell
deriving Inhabited

/-- The position that an index addresses in a sequence of `len` elements; a negative index counts from
the end. -/
def resolveIndex (index : Int64) (len : Nat) : Option Nat :=
  let i := index.toInt
  let position := if i < 0 then i + len else i
  if 0 ≤ position ∧ position < len then some position.toNat else none

/-- An index addresses a position exactly if it lies between the length and its opposite. -/
theorem isSome_resolveIndex_iff (index : Int64) (len : Nat) :
    (resolveIndex index len).isSome ↔ -(len : Int) ≤ index.toInt ∧ index.toInt < len := by
  simp only [resolveIndex]
  split <;> split <;> simp <;> omega

/-- The position lies in the sequence, and it is the index or the index counted from the end. -/
theorem resolveIndex_eq_some_iff {index : Int64} {len position : Nat} :
    resolveIndex index len = some position ↔
      position < len ∧ (index.toInt = position ∨ index.toInt + len = position) := by
  simp only [resolveIndex]
  split <;> split <;> simp only [Option.some.injEq, reduceCtorEq, false_iff] <;> omega

namespace Heap

/-- Nothing in memory. -/
def empty : Heap := ⟨#[], #[]⟩

/-! ### Making and reading cells -/

/-- Makes a list with a given identity. -/
def newList (h : Heap) (id : Nat) (items : Array Value) : ListRef × Heap :=
  (⟨h.lists.size⟩, { h with lists := h.lists.push ⟨id, items⟩ })

/-- Makes an object with a given identity. -/
def newObject (h : Heap) (id : Nat) (fields : Fields) : ObjectRef × Heap :=
  (⟨h.objects.size⟩, { h with objects := h.objects.push ⟨id, fields⟩ })

/-- The cell of a list. -/
def list? (h : Heap) (r : ListRef) : Option ListCell :=
  h.lists[r.index]?

/-- The cell of an object. -/
def object? (h : Heap) (r : ObjectRef) : Option ObjectCell :=
  h.objects[r.index]?

/-- The elements of a list. -/
def items (h : Heap) (r : ListRef) : Array Value :=
  match h.list? r with
  | some cell => cell.items
  | none => #[]

/-- The fields of an object. -/
def fields (h : Heap) (r : ObjectRef) : Fields :=
  match h.object? r with
  | some cell => cell.fields
  | none => .empty

/-- The identity of a value that has one. -/
def id? (h : Heap) : Value → Option Nat
  | .list r => (h.list? r).map ListCell.id
  | .object r => (h.object? r).map ObjectCell.id
  | .function f => some f.id
  | .reference r => some r.id
  | _ => none

/-- Changes the elements of a list. -/
def modifyItems (h : Heap) (r : ListRef) (f : Array Value → Array Value) : Heap :=
  { h with lists := h.lists.modify r.index fun cell => { cell with items := f cell.items } }

/-- Changes the fields of an object. -/
def modifyFields (h : Heap) (r : ObjectRef) (f : Fields → Fields) : Heap :=
  { h with objects := h.objects.modify r.index fun cell => { cell with fields := f cell.fields } }

/-! ### Lists -/

/-- The element at an index. -/
def listGet (h : Heap) (r : ListRef) (index : Int64) : Except Fault Value :=
  let items := h.items r
  match (resolveIndex index items.size).bind fun i => items[i]? with
  | some v => .ok v
  | none => .error (.indexOutOfBounds index items.size)

/-- Whether an index addresses an element. -/
def listCheck (h : Heap) (r : ListRef) (index : Int64) : Except Fault Unit :=
  let len := (h.items r).size
  match resolveIndex index len with
  | some _ => .ok ()
  | none => .error (.indexOutOfBounds index len)

/-- Replaces the element at an index that addresses one. -/
def listPut (h : Heap) (r : ListRef) (index : Int64) (v : Value) : Heap :=
  h.modifyItems r fun items =>
    match resolveIndex index items.size with
    | some i => items.setIfInBounds i v
    | none => items

/-- Appends an element. -/
def listPush (h : Heap) (r : ListRef) (v : Value) : Heap :=
  h.modifyItems r fun items => items.push v

/-- The element that removing at an index yields; a bad index is catchable. -/
def listPopped (h : Heap) (r : ListRef) (index : Int64) : Except Fault Value :=
  let items := h.items r
  match (resolveIndex index items.size).bind fun i => items[i]? with
  | some v => .ok v
  | none =>
    let text := "List index '" ++ Number.writeInt index ++ "' out of bounds"
    .error (.catchable (.invalidIndex text))

/-- Removes the element at an index that addresses one. -/
def listErase (h : Heap) (r : ListRef) (index : Int64) : Heap :=
  h.modifyItems r fun items =>
    match resolveIndex index items.size with
    | some i => items.eraseIdxIfInBounds i
    | none => items

/-! ### Objects -/

/-- The value under a key. -/
def objectGet (h : Heap) (r : ObjectRef) (key : String) : Except Fault Value :=
  match (h.fields r).get? key with
  | some v => .ok v
  | none => .error (.missingKey key)

/-- Binds a key. -/
def objectSet (h : Heap) (r : ObjectRef) (key : String) (v : Value) : Heap :=
  h.modifyFields r fun fields => fields.insert key v

/-- Unbinds a key. -/
def objectErase (h : Heap) (r : ObjectRef) (key : String) : Heap :=
  h.modifyFields r fun fields => fields.erase key

/-! ### References -/

/-- The fault of a reference whose key does not fit its container. -/
def mismatch (key : Key) : Fault :=
  let shown := match key with
    | .name s => "Name(" ++ Text.doubleQuoted s ++ ")"
    | .index i => "Index(" ++ Number.writeInt i ++ ")"
  .internal ("variable reference with mismatched key " ++ shown)

/-- Reads the slot of a reference. -/
def read (h : Heap) (r : Reference) : Except Fault Value :=
  match r.container, r.key with
  | .object o, .name s => h.objectGet o s
  | .list l, .index i => h.listGet l i
  | _, key => .error (mismatch key)

/-- Whether the slot of a reference can be written. A field need not exist, an element must. -/
def writable (h : Heap) (r : Reference) : Except Fault Unit :=
  match r.container, r.key with
  | .object _, .name _ => .ok ()
  | .list l, .index i => h.listCheck l i
  | _, key => .error (mismatch key)

/-- Writes the slot of a reference that can be written. -/
def put (h : Heap) (r : Reference) (v : Value) : Heap :=
  match r.container, r.key with
  | .object o, .name s => h.objectSet o s v
  | .list l, .index i => h.listPut l i v
  | _, _ => h

/-- Writes the slot of a reference. -/
def write (h : Heap) (r : Reference) (v : Value) : Except Fault Heap :=
  (h.writable r).map fun _ => h.put r v

/-- Replaces a reference by the value of its slot. -/
def deref (h : Heap) : Value → Except Fault Value
  | .reference r => h.read r
  | v => .ok v

/-! ### Truth -/

/-- Whether a value counts as true in a condition. -/
def truthy (h : Heap) : Value → Bool
  | .null => false
  | .bool b => b
  | .int n => n != 0
  | .float x => x != 0.0
  | .str s => !s.isEmpty
  | .list r => !(h.items r).isEmpty
  | .object r => (h.fields r).size != 0
  | .function _ | .reference _ => true

end Heap

end Stepwise
