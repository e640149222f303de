import Stepwise.State

/-!
# `Stepwise.Proofs.Faults`: which faults a function can have

Three kinds of faults matter to the machine. A catchable one may become an exception, an internal one
says that the machine is in a state that no script leads to, and the fault of an interrupt that nothing
answers brings the line of the interrupt along. A fault of neither of the last two kinds is local: it
belongs to the line that the machine is at. A fourth kind is the refusal of a scope. `Fails p r` says that a
result is no fault or a fault with the property `p`. The lemmas say of each function of the heap, the scopes
and the state that its faults are neither catchable nor a refusal (`Fault.Quiet`), and under which condition
they are local: a reference must pair an object with a name or a list with an index (`Reference.Paired`), and
a path must not be empty.
-/

set_option autoImplicit false

namespace Stepwise

namespace Fault

/-- Whether a script can catch a fault. -/
def isCatchable : Fault → Bool
  | catchable _ => true
  | _ => false

/-- Whether a fault is the machine's own. -/
def isInternal : Fault → Bool
  | internal _ => true
  | _ => false

/-- Whether a fault is the script's and belongs to the line that the machine is at. -/
def isLocal : Fault → Bool
  | internal _ | unhandledInterrupt _ _ | uncaughtException _ _ => false
  | _ => true

theorem isInternal_of_isLocal {f : Fault} (h : f.isLocal = true) : f.isInternal = false := by
  cases f with
  | internal text => cases h
  | _ => rfl

theorem line?_of_isLocal {f : Fault} (h : f.isLocal = true) : f.line? = none := by
  cases f with
  | unhandledInterrupt signal line => cases h
  | uncaughtException shown line => cases h
  | _ => rfl

/-- Whether a fault is the refusal of a scope. -/
def isRefusal : Fault → Bool
  | recursionLimit _ => true
  | _ => false

/-- A fault that a script cannot catch and that is no refusal of a scope. -/
structure Quiet (f : Fault) : Prop where
  uncatchable : f.isCatchable = false
  granted : f.isRefusal = false

/-- A quiet fault that is local. -/
structure Ordinary (f : Fault) : Prop where
  quiet : f.Quiet
  isLocal : f.isLocal = true

end Fault

/-- A reference to a name in an object or to an index in a list. -/
def Reference.Paired (r : Reference) : Prop :=
  match r.container, r.key with
  | .object _, .name _ | .list _, .index _ => True
  | _, _ => False

/-- If a result is a fault, the fault has a property. -/
def Fails {α : Type} (p : Fault → Prop) (r : Except Fault α) : Prop :=
  ∀ f, r = .error f → p f

namespace Fails

variable {α β : Type} {p q : Fault → Prop}

theorem ok (a : α) : Fails p (.ok a) := by
  intro f h
  cases h

theorem error {f : Fault} (h : p f) : Fails p (.error f : Except Fault α) := by
  intro g hg
  cases hg
  exact h

theorem imp {r : Except Fault α} (h : Fails p r) (hpq : ∀ f, p f → q f) : Fails q r :=
  fun f hf => hpq f (h f hf)

/-- What goes on after a result fails as the result does or as the rest does. -/
theorem bind {r : Except Fault α} {k : α → Except Fault β} (hr : Fails p r)
    (hk : ∀ a, r = .ok a → Fails p (k a)) : Fails p (r >>= k) := by
  cases r with
  | ok a => exact hk a rfl
  | error f => exact error (hr f rfl)

theorem map {r : Except Fault α} {g : α → β} (hr : Fails p r) : Fails p (r.map g) := by
  cases r with
  | ok a => exact ok (g a)
  | error f => exact error (hr f rfl)

end Fails

namespace Heap

variable (h : Heap)

/-! ### Casts -/

theorem wantFault_ordinary (want : Want) (v : Value) : (h.wantFault want v).Ordinary :=
  ⟨⟨rfl, rfl⟩, rfl⟩

theorem asNumeric_fails (v : Value) : Fails Fault.Ordinary (h.asNumeric v) := by
  simp only [asNumeric]
  split
  · exact .ok _
  · exact .error (h.wantFault_ordinary _ v)

theorem asInt_fails (v : Value) : Fails Fault.Ordinary (h.asInt v) := by
  simp only [asInt]
  split
  · exact .ok _
  · exact .error (h.wantFault_ordinary _ v)

theorem asFloat_fails (v : Value) : Fails Fault.Ordinary (h.asFloat v) :=
  (h.asNumeric_fails v).map

theorem asStr_fails (v : Value) : Fails Fault.Ordinary (h.asStr v) := by
  cases v with
  | str s => exact .ok s
  | _ => exact .error (h.wantFault_ordinary _ _)

theorem asList_fails (v : Value) : Fails Fault.Ordinary (h.asList v) := by
  cases v with
  | list r => exact .ok r
  | _ => exact .error (h.wantFault_ordinary _ _)

theorem asObject_fails (v : Value) : Fails Fault.Ordinary (h.asObject v) := by
  cases v with
  | object r => exact .ok r
  | _ => exact .error (h.wantFault_ordinary _ _)

theorem asFunction_fails (v : Value) : Fails Fault.Ordinary (h.asFunction v) := by
  cases v with
  | function f => exact .ok f
  | _ => exact .error (h.wantFault_ordinary _ _)

theorem asReference_fails (v : Value) : Fails Fault.Ordinary (h.asReference v) := by
  cases v with
  | reference r => exact .ok r
  | _ => exact .error (h.wantFault_ordinary _ _)

/-! ### Slots -/

theorem objectGet_fails (r : ObjectRef) (key : String) :
    Fails Fault.Ordinary (h.objectGet r key) := by
  simp only [objectGet]
  split
  · exact .ok _
  · exact .error ⟨⟨rfl, rfl⟩, rfl⟩

theorem listGet_fails (r : ListRef) (index : Int64) : Fails Fault.Ordinary (h.listGet r index) := by
  simp only [listGet]
  split
  · exact .ok _
  · exact .error ⟨⟨rfl, rfl⟩, rfl⟩

theorem listCheck_fails (r : ListRef) (index : Int64) :
    Fails Fault.Ordinary (h.listCheck r index) := by
  simp only [listCheck]
  split
  · exact .ok _
  · exact .error ⟨⟨rfl, rfl⟩, rfl⟩

/-- Reading a slot fails with a fault that is not local only if the key does not fit the
container. -/
theorem read_fails (r : Reference) :
    Fails (fun f => f.Quiet ∧ (r.Paired → f.isLocal = true)) (h.read r) := by
  obtain ⟨id, container, key⟩ := r
  cases container with
  | object o =>
      cases key with
      | name s => exact (h.objectGet_fails o s).imp fun f hf => ⟨hf.quiet, fun _ => hf.isLocal⟩
      | index i => exact .error ⟨⟨rfl, rfl⟩, fun hpair => hpair.elim⟩
  | list l =>
      cases key with
      | name s => exact .error ⟨⟨rfl, rfl⟩, fun hpair => hpair.elim⟩
      | index i => exact (h.listGet_fails l i).imp fun f hf => ⟨hf.quiet, fun _ => hf.isLocal⟩

/-- Checking a slot fails with a fault that is not local only if the key does not fit the
container. -/
theorem writable_fails (r : Reference) :
    Fails (fun f => f.Quiet ∧ (r.Paired → f.isLocal = true)) (h.writable r) := by
  obtain ⟨id, container, key⟩ := r
  cases container with
  | object o =>
      cases key with
      | name s => exact .ok ()
      | index i => exact .error ⟨⟨rfl, rfl⟩, fun hpair => hpair.elim⟩
  | list l =>
      cases key with
      | name s => exact .error ⟨⟨rfl, rfl⟩, fun hpair => hpair.elim⟩
      | index i => exact (h.listCheck_fails l i).imp fun f hf => ⟨hf.quiet, fun _ => hf.isLocal⟩

/-- A value is first read if it is a reference and the demand asks for that, and then tested. -/
theorem finalize_eq (d : Demand) (v : Value) :
    h.finalize d v =
      (if d.deref then h.deref v else .ok v) >>= fun w =>
        if w.meets d.want then .ok w else .error (h.wantFault d.want w) := by
  simp only [finalize]
  split <;> rfl

/-- Making a value fit fails with a fault that is not local only if it is a reference whose key does not
fit its container. -/
theorem finalize_fails (d : Demand) (v : Value) :
    Fails (fun f => f.Quiet ∧ ((∀ r, v = .reference r → r.Paired) → f.isLocal = true)) (h.finalize d v) := by
  rw [finalize_eq]
  refine Fails.bind ?_ fun w _ => ?_
  · split
    · cases v with
      | reference r =>
          exact (h.read_fails r).imp fun f hf => ⟨hf.1, fun hpair => hf.2 (hpair r rfl)⟩
      | _ => exact .ok _
    · exact .ok v
  · split
    · exact .ok w
    · exact .error ⟨⟨rfl, rfl⟩, fun _ => rfl⟩

/-! ### Scopes -/

theorem follow_fails (start : ObjectRef) (names : List String) :
    Fails Fault.Ordinary (h.follow start names) := by
  induction names generalizing start with
  | nil => exact .ok start
  | cons name names ih =>
      exact (h.objectGet_fails start name).bind fun v _ => (h.asObject_fails v).bind fun r _ => ih r

end Heap

/-- Resolving a path fails with a fault that is not local only if the path is empty. -/
theorem Scopes.resolve_fails (s : Scopes) (h : Heap) (global : Bool) (path : List String) :
    Fails (fun f => f.Quiet ∧ (path ≠ [] → f.isLocal = true))
      (s.resolve h global path) := by
  simp only [Scopes.resolve]
  split
  · rename_i hnone
    exact .error ⟨⟨rfl, rfl⟩, fun hne => absurd (List.getLast?_eq_none_iff.mp hnone) hne⟩
  · exact ((h.follow_fails _ _).imp fun f hf => ⟨hf.quiet, fun _ => hf.isLocal⟩).bind fun o _ => .ok _

namespace State

variable (st : State)

theorem resolve_fails (global : Bool) (path : List String) :
    Fails (fun f => f.Quiet ∧ (path ≠ [] → f.isLocal = true))
      (st.resolve global path).1 := by
  intro f hf
  refine st.scopes.resolve_fails st.heap global path f ?_
  simp only [resolve] at hf
  split at hf
  · rename_i hr
    cases hf
    exact hr
  · cases hf

end State

end Stepwise
