import Stepwise.Value

/-!
# `Stepwise.Heap.Fields`: the fields of an object

Fields are kept in the order in which their keys were bound. Binding a key again keeps its place, and
erasing a key keeps the order of the others: `get?_insert`, `keys_insert` and `keys_erase` say so.
-/

set_option autoImplicit false

namespace Stepwise

/-- The fields of an object, in insertion order. -/
structure Fields where
  entries : List (String × Value)
deriving Inhabited

namespace Fields

/-- No fields. -/
def empty : Fields := ⟨[]⟩

/-- The number of fields. -/
def size (f : Fields) : Nat :=
  f.entries.length

/-- The keys in order. -/
def keys (f : Fields) : List String :=
  f.entries.map Prod.fst

/-- The values in the order of their keys. -/
def values (f : Fields) : List Value :=
  f.entries.map Prod.snd

/-- The value under a key. -/
def get? (f : Fields) (key : String) : Option Value :=
  f.entries.lookup key

/-- Binds a key in a list of entries: in its place if it is there, at the end if not. -/
def insertEntry (key : String) (v : Value) : List (String × Value) → List (String × Value)
  | [] => [(key, v)]
  | e :: rest => if e.1 = key then (key, v) :: rest else e :: insertEntry key v rest

/-- Binds a key. -/
def insert (f : Fields) (key : String) (v : Value) : Fields :=
  ⟨insertEntry key v f.entries⟩

/-- Unbinds a key. -/
def erase (f : Fields) (key : String) : Fields :=
  ⟨f.entries.eraseP fun e => e.1 == key⟩

/-- Only the bound key gets a new value. -/
theorem get?_insert (f : Fields) (key : String) (v : Value) (k : String) :
    (f.insert key v).get? k = if k = key then some v else f.get? k := by
  obtain ⟨entries⟩ := f
  simp only [insert, get?]
  induction entries with
  | nil =>
      by_cases hk : k = key
      · simp [insertEntry, hk]
      · simp [insertEntry, List.lookup_cons, List.lookup_nil, hk, beq_false_of_ne hk]
  | cons e rest ih =>
      obtain ⟨name, w⟩ := e
      by_cases hn : name = key
      · by_cases hk : k = key
        · simp [insertEntry, hn, hk]
        · simp [insertEntry, List.lookup_cons, hn, hk, beq_false_of_ne hk]
      · by_cases hk : k = name
        · simp [insertEntry, hn, hk]
        · simp [insertEntry, List.lookup_cons, hn, ih, beq_false_of_ne hk]

/-- A key that is there keeps its place, and a new one comes last. -/
theorem keys_insert (f : Fields) (key : String) (v : Value) :
    (f.insert key v).keys = if key ∈ f.keys then f.keys else f.keys ++ [key] := by
  obtain ⟨entries⟩ := f
  simp only [insert, keys]
  induction entries with
  | nil => rfl
  | cons e rest ih =>
      by_cases hn : e.1 = key
      · simp [insertEntry, hn]
      · have hn' : ¬ key = e.1 := fun h => hn h.symm
        simp only [insertEntry, hn, if_false, List.map_cons, ih, List.mem_cons, hn', false_or]
        by_cases hkey : key ∈ rest.map Prod.fst <;> simp [hkey]

/-- Unbinding a key takes it out of the order and leaves the rest. -/
theorem keys_erase (f : Fields) (key : String) : (f.erase key).keys = f.keys.erase key := by
  obtain ⟨entries⟩ := f
  simp only [erase, keys]
  induction entries with
  | nil => rfl
  | cons e rest ih => by_cases hn : e.1 = key <;> simp [hn, ih]

end Fields

end Stepwise
