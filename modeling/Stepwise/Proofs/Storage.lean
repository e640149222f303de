import Stepwise.Machine.Control
import Stepwise.Operation.Effect
import Stepwise.Proofs.Faults
import Stepwise.Proofs.WellFormed

/-!
# `Stepwise.Proofs.Storage`: what values memory and the stack hold

Memory never holds a reference: what is bound, appended, returned or thrown was read first
(`Value.Stored`). A reference exists on the stack only, and its key fits its container (`Value.Sound`).
Both say of a function that its body is well-formed, so that a call runs a well-formed block.

How values move has nothing to do with what is asked of a function. So the lemmas about memory are about
any property `p` of the values in it: `Heap.Holds p` is kept by each change that writes only such
values, and reading gives such a value. The stack may show a reference besides (`Value.Shown`), and
a demand that reads references leaves none (`Value.Serves`).

`Safe q r` says of a result that it is no fault or a local one, and that what it gives has the property
`q`. `plan_safe` and `perform_keeps` say so of every operation on arguments that serve its demands: the
effect it comes down to keeps memory as it should be, and so does carrying it out.
-/

set_option autoImplicit false

namespace Stepwise

/-! ### Values -/

namespace Value

/-- A value that memory may hold: no reference, and no function with an ill-formed body. -/
def Stored : Value → Prop
  | .reference _ => False
  | .function f => f.body.isWellFormed = true
  | _ => True

/-- A value that the stack may hold: also a reference whose key fits its container. -/
def Sound : Value → Prop
  | .reference r => r.Paired
  | v => v.Stored

/-- A value as a demand leaves it: a demand that reads references leaves none. Without a demand, any
value that the stack may hold will do. -/
def Fits (v : Value) (slot : Option Demand) : Prop :=
  v.Sound ∧ ∀ d ∈ slot, d.deref = true → v.Stored

theorem Stored.sound {v : Value} (h : v.Stored) : v.Sound := by
  cases v with
  | reference r => exact h.elim
  | _ => exact h

theorem Stored.fits {v : Value} (h : v.Stored) (slot : Option Demand) : v.Fits slot :=
  ⟨h.sound, fun _ _ _ => h⟩

theorem Sound.fits_none {v : Value} (h : v.Sound) : v.Fits none :=
  ⟨h, fun _ hd => by cases hd⟩

/-- A value that is neither a function nor a reference. -/
def Inert : Value → Prop
  | .function _ | .reference _ => False
  | _ => True

/-- A value without an identity number. -/
def Scalar : Value → Prop
  | .list _ | .object _ | .function _ | .reference _ => False
  | _ => True

theorem Scalar.inert {v : Value} (h : v.Scalar) : v.Inert := by
  cases v with
  | function f => exact h.elim
  | reference r => exact h.elim
  | _ => trivial

/-- A value that the stack may show if memory holds values with the property `p`: such a value, or a
reference whose key fits its container. -/
def Shown (p : Value → Prop) : Value → Prop
  | .reference r => r.Paired
  | v => p v

/-- A shown value as a demand leaves it: a demand that reads references leaves none. -/
def Serves (p : Value → Prop) (d : Demand) (v : Value) : Prop :=
  v.Shown p ∧ (d.deref = true → p v)

/-- A property that memory can ask of its values: it is one of functions only, and no reference
has it. -/
structure Durable (p : Value → Prop) : Prop where
  inert : ∀ v : Value, v.Inert → p v
  reference : ∀ r : Reference, ¬ p (.reference r)

theorem Durable.scalar {p : Value → Prop} (hp : Durable p) (v : Value) (hv : v.Scalar) : p v :=
  hp.inert v hv.inert

theorem durable_stored : Durable Stored where
  inert v hv := by
    cases v with
    | function f => exact hv.elim
    | reference r => exact hv.elim
    | _ => trivial
  reference r hr := hr

theorem Durable.shown {p : Value → Prop} (hp : Durable p) {v : Value} (hv : p v) : v.Shown p := by
  cases v with
  | reference r => exact absurd hv (hp.reference r)
  | _ => exact hv

theorem sound_iff_shown {v : Value} : v.Sound ↔ v.Shown Stored := by
  cases v with
  | _ => exact Iff.rfl

theorem fits_iff_serves {v : Value} {d : Demand} : v.Fits (some d) ↔ v.Serves Stored d := by
  rw [Fits, Serves, sound_iff_shown]
  simp

end Value

theorem Numeric.scalar_toValue (n : Numeric) : n.toValue.Scalar := by
  cases n with
  | int i => trivial
  | float x => trivial

/-- Values that fit the first of some demands, one each. -/
def FitsEach : List Value → List Demand → Prop
  | [], _ => True
  | _ :: _, [] => False
  | v :: vs, d :: ds => v.Fits (some d) ∧ FitsEach vs ds

/-- One more value that fits the next demand. -/
theorem FitsEach.concat {ds : List Demand} {vs : List Value} {d : Demand} {v : Value}
    (h : FitsEach vs ds) (hd : ds[vs.length]? = some d) (hv : v.Fits (some d)) :
    FitsEach (vs ++ [v]) ds := by
  -- The new value meets the first demand that is left, at the end of the recursion.
  induction vs generalizing ds with
  | nil =>
      cases ds with
      | nil => cases hd
      | cons e ds =>
          cases hd
          exact ⟨hv, trivial⟩
  | cons w vs ih =>
      cases ds with
      | nil => exact h.elim
      | cons e ds => exact ⟨h.1, ih h.2 hd⟩

/-- Values of which each serves the demand in its place. -/
def ServesEach (p : Value → Prop) (vs : List Value) (ds : List Demand) : Prop :=
  ∀ (i : Nat) (v : Value) (d : Demand), vs[i]? = some v → ds[i]? = some d → v.Serves p d

theorem FitsEach.serves {ds : List Demand} {vs : List Value} (h : FitsEach vs ds) :
    ServesEach Value.Stored vs ds := by
  induction vs generalizing ds with
  | nil => exact fun i v d hv => by cases hv
  | cons w vs ih =>
      cases ds with
      | nil => exact h.elim
      | cons e ds =>
          intro i v d hv hd
          cases i with
          | zero =>
              cases hv
              cases hd
              exact Value.fits_iff_serves.mp h.1
          | succ i => exact ih h.2 i v d hv hd

/-- An exit whose value memory may hold. -/
def Exit.Stored : Exit → Prop
  | .returned v | .thrown v => v.Stored
  | _ => True

/-- An exit whose value has a property. -/
def Exit.Carries (p : Value → Prop) : Exit → Prop
  | .returned v | .thrown v => p v
  | _ => True

theorem Exit.stored_iff_carries {e : Exit} : e.Stored ↔ e.Carries Value.Stored := by
  cases e with
  | _ => exact Iff.rfl

/-! ### Results with local faults only -/

/-- A result that is no fault or a local one; what it gives has the property `q`. -/
inductive Safe {α : Type} (q : α → Prop) : Except Fault α → Prop where
  | ok {a : α} (h : q a) : Safe q (.ok a)
  | error {f : Fault} (h : f.isLocal = true) : Safe q (.error f)

namespace Safe

variable {α β : Type} {p : α → Prop} {q : β → Prop}

theorem of_fails {r : Except Fault α} (hr : Fails (fun f => f.isLocal = true) r)
    (h : ∀ a, r = .ok a → p a) : Safe p r := by
  cases r with
  | ok a => exact .ok (h a rfl)
  | error f => exact .error (hr f rfl)

theorem of_ordinary {r : Except Fault α} (hr : Fails Fault.Ordinary r) : Safe (fun _ => True) r :=
  of_fails (hr.imp fun _ hf => hf.isLocal) fun _ _ => trivial

theorem of_eq_ok {r : Except Fault α} {a : α} (hr : Safe p r) (h : r = .ok a) : p a := by
  subst h
  cases hr with
  | ok ha => exact ha

theorem of_eq_error {r : Except Fault α} {f : Fault} (hr : Safe p r) (h : r = .error f) :
    f.isLocal = true := by
  subst h
  cases hr with
  | error hf => exact hf

theorem bind {r : Except Fault α} {k : α → Except Fault β} (hr : Safe p r)
    (hk : ∀ a, p a → Safe q (k a)) : Safe q (r >>= k) := by
  cases hr with
  | ok h => exact hk _ h
  | error h => exact .error h

theorem map {r : Except Fault α} {g : α → β} (hr : Safe p r) (hg : ∀ a, p a → q (g a)) :
    Safe q (r.map g) := by
  cases hr with
  | ok h => exact .ok (hg _ h)
  | error h => exact .error h

theorem imp {q : α → Prop} {r : Except Fault α} (hr : Safe p r) (h : ∀ a, p a → q a) :
    Safe q r := by
  cases hr with
  | ok ha => exact .ok (h _ ha)
  | error hf => exact .error hf

end Safe

/-! ### Memory -/

/-- Lists and objects hold only values with a property. -/
structure Heap.Holds (p : Value → Prop) (h : Heap) : Prop where
  items : ∀ r, ∀ v ∈ h.items r, p v
  fields : ∀ r, ∀ e ∈ (h.fields r).entries, p e.2

/-- Lists and objects hold only values that memory may hold. -/
structure Heap.Sound (h : Heap) : Prop where
  items : ∀ r, ∀ v ∈ h.items r, v.Stored
  fields : ∀ r, ∀ e ∈ (h.fields r).entries, e.2.Stored

namespace Fields

/-- Binding a key adds its entry at most. -/
theorem mem_insertEntry {key : String} {v : Value} {entries : List (String × Value)}
    {e : String × Value} (h : e ∈ insertEntry key v entries) : e = (key, v) ∨ e ∈ entries := by
  induction entries with
  | nil => exact Or.inl (List.mem_singleton.mp h)
  | cons e' rest ih =>
      rw [insertEntry] at h
      split at h
      · rcases List.mem_cons.mp h with rfl | h
        · exact Or.inl rfl
        · exact Or.inr (List.mem_cons_of_mem e' h)
      · rcases List.mem_cons.mp h with rfl | h
        · exact Or.inr List.mem_cons_self
        · exact (ih h).imp_right (List.mem_cons_of_mem e')

/-- The value under a key is in an entry. -/
theorem exists_mem_of_get? {f : Fields} {key : String} {v : Value} (h : f.get? key = some v) :
    ∃ e ∈ f.entries, e.2 = v := by
  obtain ⟨before, after, hentries, -⟩ := List.lookup_eq_some_iff.mp h
  exact ⟨(key, v), by simp [hentries], rfl⟩

end Fields

namespace Heap

variable {h : Heap} {p : Value → Prop}

theorem holds_empty : Heap.empty.Holds p where
  items r v hv := by simp [items, list?, empty] at hv
  fields r e he := by simp [fields, object?, empty, Fields.empty] at he

/-- The cells after one is made. -/
theorem items_newList (h : Heap) (id : Nat) (items : Array Value) (r : ListRef) :
    (h.newList id items).2.items r = if r.index = h.lists.size then items else h.items r := by
  simp only [newList, Heap.items, list?, Array.getElem?_push]
  by_cases hr : r.index = h.lists.size
  · rw [if_pos hr, if_pos hr]
  · rw [if_neg hr, if_neg hr]

theorem fields_newObject (h : Heap) (id : Nat) (fields : Fields) (r : ObjectRef) :
    (h.newObject id fields).2.fields r = if r.index = h.objects.size then fields else h.fields r := by
  simp only [newObject, Heap.fields, object?, Array.getElem?_push]
  by_cases hr : r.index = h.objects.size
  · rw [if_pos hr, if_pos hr]
  · rw [if_neg hr, if_neg hr]

/-- A list that is changed, or another one. -/
theorem items_modifyItems (h : Heap) (r q : ListRef) (f : Array Value → Array Value) :
    (h.modifyItems r f).items q = h.items q ∨ (h.modifyItems r f).items q = f (h.items q) := by
  simp only [modifyItems, items, list?, Array.getElem?_modify]
  by_cases heq : r.index = q.index
  · rw [if_pos heq]
    cases h.lists[q.index]? with
    | none => exact Or.inl rfl
    | some cell => exact Or.inr rfl
  · rw [if_neg heq]
    exact Or.inl rfl

theorem fields_modifyFields (h : Heap) (r q : ObjectRef) (f : Fields → Fields) :
    (h.modifyFields r f).fields q = h.fields q ∨ (h.modifyFields r f).fields q = f (h.fields q) := by
  simp only [modifyFields, fields, object?, Array.getElem?_modify]
  by_cases heq : r.index = q.index
  · rw [if_pos heq]
    cases h.objects[q.index]? with
    | none => exact Or.inl rfl
    | some cell => exact Or.inr rfl
  · rw [if_neg heq]
    exact Or.inl rfl

namespace Holds

theorem newList (hh : h.Holds p) (id : Nat) {items : Array Value} (hitems : ∀ v ∈ items, p v) :
    (h.newList id items).2.Holds p where
  items r v hv := by
    rw [items_newList] at hv
    split at hv
    · exact hitems v hv
    · exact hh.items r v hv
  fields := hh.fields

theorem newObject (hh : h.Holds p) (id : Nat) {fields : Fields}
    (hfields : ∀ e ∈ fields.entries, p e.2) : (h.newObject id fields).2.Holds p where
  items := hh.items
  fields r e he := by
    rw [fields_newObject] at he
    split at he
    · exact hfields e he
    · exact hh.fields r e he

theorem modifyItems (hh : h.Holds p) (r : ListRef) {f : Array Value → Array Value}
    (hf : ∀ items : Array Value, (∀ v ∈ items, p v) → ∀ v ∈ f items, p v) :
    (h.modifyItems r f).Holds p where
  items q := by
    rcases items_modifyItems h r q f with heq | heq
    · rw [heq]
      exact hh.items q
    · rw [heq]
      exact hf _ (hh.items q)
  fields := hh.fields

theorem modifyFields (hh : h.Holds p) (r : ObjectRef) {f : Fields → Fields}
    (hf : ∀ fields : Fields, (∀ e ∈ fields.entries, p e.2) →
      ∀ e ∈ (f fields).entries, p e.2) : (h.modifyFields r f).Holds p where
  items := hh.items
  fields q := by
    rcases fields_modifyFields h r q f with heq | heq
    · rw [heq]
      exact hh.fields q
    · rw [heq]
      exact hf _ (hh.fields q)

theorem listPut (hh : h.Holds p) (r : ListRef) (index : Int64) {v : Value} (hv : p v) :
    (h.listPut r index v).Holds p := by
  refine hh.modifyItems r fun items hitems w hw => ?_
  split at hw
  · rcases Array.mem_or_eq_of_mem_setIfInBounds hw with hw | rfl
    · exact hitems w hw
    · exact hv
  · exact hitems w hw

theorem listPush (hh : h.Holds p) (r : ListRef) {v : Value} (hv : p v) :
    (h.listPush r v).Holds p := by
  refine hh.modifyItems r fun items hitems w hw => ?_
  rcases Array.mem_push.mp hw with hw | rfl
  · exact hitems w hw
  · exact hv

theorem listErase (hh : h.Holds p) (r : ListRef) (index : Int64) :
    (h.listErase r index).Holds p := by
  refine hh.modifyItems r fun items hitems w hw => ?_
  split at hw
  · rw [Array.eraseIdxIfInBounds_eq] at hw
    split at hw
    · exact hitems w (Array.mem_of_mem_eraseIdx hw)
    · exact hitems w hw
  · exact hitems w hw

theorem objectSet (hh : h.Holds p) (r : ObjectRef) (key : String) {v : Value} (hv : p v) :
    (h.objectSet r key v).Holds p := by
  refine hh.modifyFields r fun fields hfields e he => ?_
  rcases Fields.mem_insertEntry he with rfl | he
  · exact hv
  · exact hfields e he

theorem objectErase (hh : h.Holds p) (r : ObjectRef) (key : String) :
    (h.objectErase r key).Holds p :=
  hh.modifyFields r fun _ hfields e he => hfields e (List.mem_of_mem_eraseP he)

theorem put (hh : h.Holds p) (r : Reference) {v : Value} (hv : p v) : (h.put r v).Holds p := by
  unfold Heap.put
  split
  · exact hh.objectSet _ _ hv
  · exact hh.listPut _ _ hv
  · exact hh

/-- Binding parameters keeps a property of memory, one parameter after the other. -/
theorem bind (hh : h.Holds p) (scope : ObjectRef) (names : List String) {vs : List Value}
    (hvs : ∀ v ∈ vs, p v) : (Control.bind h scope names vs).Holds p := by
  -- The heap changes with each name, so it is generalized together with the values.
  induction names generalizing h vs with
  | nil => exact hh
  | cons name names ih =>
      cases vs with
      | nil => exact hh
      | cons v vs =>
          exact ih (hh.objectSet scope name (hvs v List.mem_cons_self))
            fun w hw => hvs w (List.mem_cons_of_mem v hw)

theorem sound (hh : h.Holds Value.Stored) : h.Sound :=
  ⟨hh.items, hh.fields⟩

end Holds

theorem Sound.holds (hh : h.Sound) : h.Holds Value.Stored :=
  ⟨hh.items, hh.fields⟩

/-! ### Reading and casts -/

theorem objectGet_safe (hh : h.Holds p) (r : ObjectRef) (key : String) :
    Safe p (h.objectGet r key) := by
  unfold objectGet
  split
  · rename_i v hv
    obtain ⟨e, he, rfl⟩ := Fields.exists_mem_of_get? hv
    exact .ok (hh.fields r e he)
  · exact .error rfl

/-- The element that an index addresses. -/
theorem Holds.of_resolveIndex (hh : h.Holds p) {r : ListRef} {index : Int64} {v : Value}
    (hv : ((resolveIndex index (h.items r).size).bind fun i => (h.items r)[i]?) = some v) : p v := by
  obtain ⟨i, -, hi⟩ := Option.bind_eq_some_iff.mp hv
  exact hh.items r v (Array.mem_of_getElem? hi)

theorem listGet_safe (hh : h.Holds p) (r : ListRef) (index : Int64) :
    Safe p (h.listGet r index) := by
  unfold listGet
  dsimp only
  split
  · rename_i v hv
    exact .ok (hh.of_resolveIndex hv)
  · exact .error rfl

theorem listPopped_safe (hh : h.Holds p) (r : ListRef) (index : Int64) :
    Safe p (h.listPopped r index) := by
  unfold listPopped
  dsimp only
  split
  · rename_i v hv
    exact .ok (hh.of_resolveIndex hv)
  · exact .error rfl

/-- A slot gives what memory holds. -/
theorem read_safe (hh : h.Holds p) {r : Reference} (hr : r.Paired) : Safe p (h.read r) := by
  obtain ⟨id, container, key⟩ := r
  cases container with
  | object o =>
      cases key with
      | name s => exact objectGet_safe hh o s
      | index i => exact hr.elim
  | list l =>
      cases key with
      | name s => exact hr.elim
      | index i => exact listGet_safe hh l i

theorem writable_safe (h : Heap) {r : Reference} (hr : r.Paired) :
    Safe (fun _ => True) (h.writable r) :=
  .of_fails ((h.writable_fails r).imp fun _ hf => hf.2 hr) fun _ _ => trivial

theorem deref_safe (hh : h.Holds p) {v : Value} (hv : v.Shown p) : Safe p (h.deref v) := by
  cases v with
  | reference r => exact read_safe hh hv
  | _ => exact .ok hv

/-- A value that is made to fit a demand serves it and is as wanted. -/
theorem finalize_serves (hp : Value.Durable p) (hh : h.Holds p) (d : Demand) {v : Value}
    (hv : v.Shown p) : Safe (fun w => w.Serves p d ∧ w.meets d.want = true) (h.finalize d v) := by
  rw [finalize_eq]
  refine Safe.bind (p := fun w => w.Serves p d) ?_ fun w hw => ?_
  · split
    · exact (deref_safe hh hv).imp fun w hw => ⟨hp.shown hw, fun _ => hw⟩
    -- Without reading, the value is what it was, and the demand promises nothing about memory.
    · rename_i hderef
      exact .ok ⟨hv, fun htrue => absurd htrue hderef⟩
  · split
    · rename_i hmeets
      exact .ok ⟨hw, hmeets⟩
    · exact .error rfl

/-- A value that is made to fit a demand fits it. -/
theorem finalize_safe (hh : h.Sound) (d : Demand) {v : Value} (hv : v.Sound) :
    Safe (fun w => w.Fits (some d)) (h.finalize d v) :=
  (finalize_serves Value.durable_stored hh.holds d (Value.sound_iff_shown.mp hv)).imp
    fun _ hw => Value.fits_iff_serves.mpr hw.1

theorem asReference_safe (h : Heap) {v : Value} (hv : v.Shown p) :
    Safe Reference.Paired (h.asReference v) := by
  cases v with
  | reference r => exact .ok hv
  | _ => exact .error rfl

end Heap

end Stepwise
