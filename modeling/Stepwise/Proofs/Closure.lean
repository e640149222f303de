import Stepwise.Proofs.Effects
import Stepwise.Proofs.Numbering

/-!
# `Stepwise.Proofs.Closure`: no value comes from nowhere

Every value that an operation keeps or yields was given to it, is read from memory, is made by it, or has no
identity. Take any property `q` of functions and references. A value is known (`Value.Known`) if it is a container
in memory, or a function or a reference with the property `q`; the container of a reference must be in memory
too. A state is closed if each value in it is known (`State.Closed`).

`State.Conveys` says that a state goes over to a closed one and that the numbers grow as they do in one step.
`State.apply_gives` says so of every operation on known values, and that its value is known: nothing is asked
of the arguments besides, neither their number nor their kind. No operation makes a function, and the only
one that makes a reference is the one that selects a part of a container, so `q` must hold of that reference.
-/

set_option autoImplicit false

namespace Stepwise

/-! ### Known values -/

theorem Safe.returns {α : Type} {p : α → Prop} {r : Except Fault α} (h : Safe p r) : Returns p r :=
  fun _ ha => h.of_eq_ok ha

theorem Yields.returns {α : Type} {p : α → Prop} {r : Except Fault α} (h : Yields p r) : Returns p r :=
  fun _ ha => h.of_eq_ok ha

theorem Exit.Carries.imp {p p' : Value → Prop} {e : Exit} (he : e.Carries p) (h : ∀ v, p v → p' v) :
    e.Carries p' := by
  cases e with
  | returned v => exact h v he
  | thrown v => exact h v he
  | _ => trivial

theorem State.Holds.imp {p p' : Value → Prop} {st : State} (hst : st.Holds p) (h : ∀ v, p v → p' v) :
    st.Holds p' where
  heap := ⟨fun r v hv => h v (hst.heap.items r v hv), fun r e he => h e.2 (hst.heap.fields r e he)⟩
  pending i hi := (hst.pending i hi).imp h

namespace Value

variable {q q' : Value → Prop} {h h' : Heap} {v : Value}

/-- A container in memory, or a function or a reference with a property; the container of a reference is in
memory. -/
def Known (q : Value → Prop) (h : Heap) : Value → Prop
  | .list r => (h.idOf? (.list r)).isSome
  | .object r => (h.idOf? (.object r)).isSome
  | .function f => q (.function f)
  | .reference r => q (.reference r) ∧ (h.idOf? r.container).isSome
  | _ => True

theorem Scalar.known (hv : v.Scalar) : v.Known q h := by
  cases v with
  | list r => exact hv.elim
  | object r => exact hv.elim
  | function f => exact hv.elim
  | reference r => exact hv.elim
  | _ => trivial

theorem known_value {c : Container} : c.value.Known q h ↔ (h.idOf? c).isSome := by
  cases c with
  | list r => exact Iff.rfl
  | object r => exact Iff.rfl

/-- A known value stays known while containers are only added. -/
theorem Known.imp (hv : v.Known q h) (hq : q v → q' v)
    (hmemory : ∀ c, (h.idOf? c).isSome → (h'.idOf? c).isSome) : v.Known q' h' := by
  cases v with
  | list r => exact hmemory (.list r) hv
  | object r => exact hmemory (.object r) hv
  | function f => exact hq hv
  | reference r => exact ⟨hq hv.1, hmemory r.container hv.2⟩
  | _ => trivial

end Value

/-! ### Closed states -/

theorem Scopes.current_mem (s : Scopes) : s.current ∈ s.global :: s.inner := by
  obtain ⟨global, inner, limit⟩ := s
  cases inner with
  | nil => exact List.mem_cons_self
  | cons o rest => exact List.mem_cons_of_mem _ List.mem_cons_self

namespace State

variable {q : Value → Prop} {st st' : State} {v : Value}

/-- Each value in memory and of an interrupt under way is known, and the scopes are in memory. -/
structure Closed (q : Value → Prop) (st : State) : Prop where
  holds : st.Holds (Value.Known q st.heap)
  scopes : ∀ s ∈ st.scopes.global :: st.scopes.inner, (st.heap.idOf? (.object s)).isSome

/-- A state goes over to a closed one, and the numbers grow as in one step. -/
structure Conveys (q : Value → Prop) (st st' : State) : Prop where
  grows : st.Grows st'
  closed : st'.Closed q

/-- A result and the state that it comes with: the state has gone over to that one, and the value is
known. -/
structure Gives (q : Value → Prop) (st : State) (o : Except Fault Value × State) : Prop where
  conveys : st.Conveys q o.2
  value : ∀ v, o.1 = .ok v → v.Known q o.2.heap

theorem Closed.inMemory (hst : st.Closed q) : st.InMemory where
  scope o ho := by simpa [Heap.idOf?] using hst.scopes o ho
  field o key r hget := by
    obtain ⟨e, he, hvalue⟩ := Fields.exists_mem_of_get? hget
    have hknown := hst.holds.heap.fields o e he
    rw [hvalue] at hknown
    simpa [Value.Known, Heap.idOf?] using hknown

theorem Grows.known (h : st.Grows st') (hv : v.Known q st.heap) : v.Known q st'.heap :=
  hv.imp (fun hq => hq) fun _ hc => h.precedes.isSome hc

namespace Conveys

theorem known (h : st.Conveys q st') (hv : v.Known q st.heap) : v.Known q st'.heap :=
  h.grows.known hv

theorem refl (hst : st.Closed q) : st.Conveys q st :=
  ⟨.refl st, hst⟩

/-- A state that grows, and in which all values were known before; the scopes stay. -/
theorem of_grows (hst : st.Closed q) (hgrows : st.Grows st') (hscopes : st'.scopes = st.scopes)
    (hholds : st'.Holds (Value.Known q st.heap)) : st.Conveys q st' where
  grows := hgrows
  closed :=
    { holds := hholds.imp fun _ hv => hgrows.known hv
      scopes := fun s hs => hgrows.precedes.isSome (hst.scopes s (hscopes ▸ hs)) }

/-- A change of nothing that matters here. -/
theorem of_eq (hst : st.Closed q) (hheap : st'.heap = st.heap) (hnext : st'.nextId = st.nextId)
    (hscopes : st'.scopes = st.scopes) (hpending : st'.pending = st.pending) : st.Conveys q st' := by
  refine .of_grows hst (.idle hnext fun c => by rw [hheap]) hscopes ⟨?_, ?_⟩
  · rw [hheap]
    exact hst.holds.heap
  · rw [hpending]
    exact hst.holds.pending

/-- What came before may have changed all but memory and the next number. -/
theorem after {st₁ : State} (h : st₁.Conveys q st') (hnext : st₁.nextId = st.nextId)
    (hheap : st₁.heap = st.heap) : st.Conveys q st' :=
  ⟨h.grows.of_eq hnext hheap, h.closed⟩

/-- A change of memory after which the numbers are as they were. -/
theorem of_heap (h : st.Conveys q st') {heap : Heap} (hids : ∀ c, heap.idOf? c = st'.heap.idOf? c)
    (hheap : heap.Holds (Value.Known q st'.heap)) : st.Conveys q { st' with heap := heap } := by
  have hidle : st'.Grows { st' with heap := heap } := .idle rfl hids
  exact ⟨h.grows.and_idle rfl hids, (of_grows h.closed hidle rfl ⟨hheap, h.closed.holds.pending⟩).closed⟩

/-- An interrupt sets off with a known value. -/
theorem raised (h : st.Conveys q st') {i : Interrupt} (hi : i.exit.Carries (Value.Known q st'.heap)) :
    st.Conveys q { st' with pending := some i } where
  grows := h.grows.and_idle rfl fun _ => rfl
  closed :=
    { holds := ⟨h.closed.holds.heap, fun j hj => by cases hj; exact hi⟩
      scopes := h.closed.scopes }

end Conveys

/-! ### Making values -/

theorem makeList_gives (hst : st.Closed q) (items : Array Value)
    (hitems : ∀ v ∈ items, v.Known q st.heap) :
    st.Conveys q (st.makeList items).2 ∧ (st.makeList items).1.Known q (st.makeList items).2.heap := by
  have hgrows := Grows.makeList st items
  refine ⟨.of_grows hst hgrows rfl (hst.holds.makeList hitems), ?_⟩
  show ((st.heap.newList st.nextId items).2.idOf? (.list ⟨st.heap.lists.size⟩)).isSome
  rw [Heap.idOf?_newList, if_pos rfl]
  rfl

theorem makeObject_gives (hst : st.Closed q) (fields : Fields)
    (hfields : ∀ e ∈ fields.entries, e.2.Known q st.heap) :
    st.Conveys q (st.makeObject fields).2 ∧
      ((st.makeObject fields).2.heap.idOf? (.object (st.makeObject fields).1)).isSome := by
  have hgrows := Grows.makeObject st fields
  refine ⟨.of_grows hst hgrows rfl (hst.holds.makeObject hfields), ?_⟩
  show ((st.heap.newObject st.nextId fields).2.idOf? (.object ⟨st.heap.objects.size⟩)).isSome
  rw [Heap.idOf?_newObject, if_pos rfl]
  rfl

/-- A scope is a new object; it is in memory even if the limit refuses it. -/
theorem refused_gives (hst : st.Closed q) :
    st.Conveys q st.refused ∧ (st.refused.heap.idOf? (.object st.newScope)).isSome :=
  makeObject_gives hst .empty fun e he => by cases he

theorem entered_gives (hst : st.Closed q) :
    st.Conveys q st.entered ∧ (st.entered.heap.idOf? (.object st.newScope)).isSome := by
  obtain ⟨hmade, hscope⟩ := refused_gives hst
  refine ⟨⟨hmade.grows.and_idle rfl fun _ => rfl, ⟨hmade.closed.holds.heap, hmade.closed.holds.pending⟩, ?_⟩,
    hscope⟩
  intro s hs
  -- The new scope is between the global one and the others.
  simp only [entered, List.mem_cons] at hs
  rcases hs with rfl | rfl | hs
  · exact hmade.closed.scopes _ List.mem_cons_self
  · exact hscope
  · exact hmade.closed.scopes s (List.mem_cons_of_mem _ hs)

/-- The object by which a script sees a fault holds two texts. -/
theorem exceptionPayload_gives (hst : st.Closed q) (cause : Catchable) :
    st.Conveys q (st.exceptionPayload cause).2 ∧
      (st.exceptionPayload cause).1.Known q (st.exceptionPayload cause).2.heap := by
  refine makeObject_gives hst _ fun e he => ?_
  rcases Fields.mem_insertEntry he with rfl | he
  · trivial
  · rcases Fields.mem_insertEntry he with rfl | he
    · trivial
    · cases he

/-- A function or a reference takes a number and is kept nowhere yet. -/
theorem issue_gives (hst : st.Closed q) (hv : v.Known q st.heap) :
    st.Gives q (.ok v, { st with nextId := st.nextId + 1 }) where
  conveys := .of_grows hst (.issued rfl fun _ => rfl) rfl ⟨hst.holds.heap, hst.holds.pending⟩
  value w hw := by
    cases hw
    exact hv

theorem realize_gives (hst : st.Closed q) {product : Product}
    (hproduct : product.Keeps (Value.Known q st.heap)) :
    st.Conveys q (st.realize product).2 ∧ (st.realize product).1.Known q (st.realize product).2.heap := by
  cases product with
  | value v => exact ⟨.refl hst, hproduct⟩
  | list items => exact makeList_gives hst items hproduct

end State

/-! ### Planning -/

/-- The values that an effect keeps, writes through or yields have a property. -/
def Effect.Uses (p : Value → Prop) : Effect → Prop
  | .yield product => product.Keeps p
  | .refer container _ => p container.value
  | .store r product => p (.reference r) ∧ product.Keeps p
  | .push r v => p (.list r) ∧ p v
  | .leave exit => exit.Carries p
  | _ => True

section Planning

variable {p : Value → Prop} {h : Heap}

theorem Effect.IsScalar.uses (hp : ∀ v : Value, v.Scalar → p v) {e : Effect} (he : e.IsScalar) :
    e.Uses p := by
  obtain ⟨v, hv, rfl⟩ := he
  exact hp v hv

namespace Heap

/-- A slot gives what memory holds, be the reference paired or not. -/
theorem read_returns (hh : h.Holds p) (r : Reference) : Returns p (h.read r) := by
  unfold read
  split
  · exact (objectGet_safe hh _ _).returns
  · exact (listGet_safe hh _ _).returns
  · exact .error _

theorem deref_returns (hh : h.Holds p) {v : Value} (hv : p v) : Returns p (h.deref v) := by
  cases v with
  | reference r => exact read_returns hh r
  | _ => exact .ok hv

theorem finalize_returns (hh : h.Holds p) (d : Demand) {v : Value} (hv : p v) :
    Returns p (h.finalize d v) := by
  rw [finalize_eq]
  refine Returns.bind (p := p) ?_ fun w hw => ?_
  · split
    · exact deref_returns hh hv
    · exact .ok hv
  · split
    · exact .ok hw
    · exact .error _

/-- A part of a container is a slot of it, and a part of a text is a text. -/
theorem index_uses (hp : ∀ v : Value, v.Scalar → p v) {x : Value} (key : Value) (hx : p x) :
    Returns (Effect.Uses p) (index x key) := by
  unfold index
  split
  · exact .ok hx
  · split
    · exact .ok hx
    · split
      · exact .ok (hp _ trivial)
      · exact .error _
    · exact .error _

theorem change_uses (hh : h.Holds p) {f : Value → Except Fault Product}
    (hf : ∀ v, Returns (Product.Keeps p) (f v)) {target : Value} (ht : p target) :
    Returns (Effect.Uses p) (h.change f target) := by
  refine (h.asReference_yields target).returns.bind fun r hr => ?_
  refine (read_returns hh r).bind fun v _ => ?_
  exact (hf v).bind fun product hproduct => .ok ⟨hr ▸ ht, hproduct⟩

theorem shift_keeps (hp : ∀ v : Value, v.Scalar → p v) (op : Op) (delta : Int) (v : Value) :
    Returns (Product.Keeps p) (do
      let n ← h.asNumeric v
      return Product.value (← n.shift op delta).toValue) :=
  (h.asNumeric_yields v).returns.bind fun n _ =>
    (Yields.of_numeric (n.shift_fails op delta)).returns.bind fun m _ => .ok (hp _ m.scalar_toValue)

end Heap

namespace Op

variable {st : State} {op : Op} {x y z : Value}

theorem planNone_uses (hp : ∀ v : Value, v.Scalar → p v)
    (hscopes : ∀ s ∈ st.scopes.global :: st.scopes.inner, p (.object s)) :
    Returns (Effect.Uses p) (planNone st op) := by
  cases op with
  | localScope => exact .ok (hscopes _ st.scopes.current_mem)
  | globalScope => exact .ok (hscopes _ List.mem_cons_self)
  | breakLoop => exact .ok trivial
  | continueLoop => exact .ok trivial
  | pi => exact .ok (hp _ trivial)
  | random => exact .ok trivial
  | _ => exact .error _

theorem planOne_uses (hp : ∀ v : Value, v.Scalar → p v) (hh : st.heap.Holds p) (hx : p x) :
    Returns (Effect.Uses p) (planOne st x op) := by
  -- Most operations yield a scalar, and a scalar has the property. What remains is what an operation takes
  -- out of memory or hands on.
  have hscalar {r : Except Fault Effect} (hr : Safe Effect.IsScalar r) : Returns (Effect.Uses p) r :=
    hr.returns.imp fun _ he => he.uses hp
  cases op with
  | neg => exact hscalar (st.heap.onNumeric_scalar Numeric.negate_fails x)
  | not => exact .ok (hp _ trivial)
  | increment => exact Heap.change_uses hh (Heap.shift_keeps hp _ _) hx
  | decrement => exact Heap.change_uses hh (Heap.shift_keeps hp _ _) hx
  | invert =>
      refine Heap.change_uses hh (fun v => ?_) hx
      exact .ok (hp _ trivial)
  | print => exact .ok trivial
  | returnValue => exact .ok hx
  | throwValue => exact .ok hx
  | len => exact (st.heap.length_scalar x).returns.map hp
  | upper => exact (st.heap.asStr_yields x).returns.bind fun s _ => .ok (hp _ trivial)
  | lower => exact (st.heap.asStr_yields x).returns.bind fun s _ => .ok (hp _ trivial)
  | range =>
      exact (st.heap.asInt_yields x).returns.bind fun stop _ =>
        .ok fun v hv => hp v (countTo_scalar stop v hv)
  | keys =>
      refine (st.heap.asObject_yields x).returns.bind fun r _ => .ok fun v hv => ?_
      obtain ⟨key, -, rfl⟩ := List.mem_map.mp (List.mem_toArray.mp hv)
      exact hp _ trivial
  -- The elements are the fields of the object, which have the property in memory.
  | values =>
      refine (st.heap.asObject_yields x).returns.bind fun r _ => .ok fun v hv => ?_
      obtain ⟨e, he, rfl⟩ := List.mem_map.mp (List.mem_toArray.mp hv)
      exact hh.fields r e he
  | abs => exact hscalar (st.heap.onNumeric_scalar Numeric.absolute_fails x)
  | floor => exact hscalar (st.heap.onNumeric_scalar (Numeric.rounded_fails _) x)
  | ceil => exact hscalar (st.heap.onNumeric_scalar (Numeric.rounded_fails _) x)
  | round => exact hscalar (st.heap.onNumeric_scalar (Numeric.rounded_fails _) x)
  | sqrt => exact hscalar (st.heap.onFloat_scalar _ _ x)
  | log => exact hscalar (st.heap.onFloat_scalar _ _ x)
  | sin => exact hscalar (st.heap.onFloat_scalar Float.sin (fun _ => none) x)
  | cos => exact hscalar (st.heap.onFloat_scalar Float.cos (fun _ => none) x)
  | tan => exact hscalar (st.heap.onFloat_scalar Float.tan (fun _ => none) x)
  | str => exact .ok (hp _ trivial)
  | int => exact (st.heap.toInt_scalar x).returns.map hp
  | float => exact (st.heap.toFloat_scalar x).returns.map hp
  | type => exact .ok (hp _ trivial)
  | _ => exact .error _

theorem planTwo_uses (hp : ∀ v : Value, v.Scalar → p v) (hh : st.heap.Holds p) (hx : p x) (hy : p y) :
    Returns (Effect.Uses p) (planTwo st x y op) := by
  -- The greater or the lesser of two values is one of the two.
  have hselect (wanted : Ordering) : Returns (Effect.Uses p) (select st.heap wanted x y) := by
    refine (select_safe st.heap wanted).returns.imp fun e he => ?_
    rcases he with rfl | rfl
    · exact hx
    · exact hy
  cases op with
  | arith a => exact (Heap.arithmetic_keeps hp hh a x y).returns.map fun _ hproduct => hproduct
  | compare c => exact (st.heap.compareValues_safe c x y).returns.map fun b _ => hp _ trivial
  | equal => exact .ok (hp _ trivial)
  | differ => exact .ok (hp _ trivial)
  | index => exact Heap.index_uses hp y hx
  | assign => exact (st.heap.asReference_yields x).returns.bind fun r hr => .ok ⟨hr ▸ hx, hy⟩
  | update a => exact Heap.change_uses hh (fun v => (Heap.arithmetic_keeps hp hh a v y).returns) hx
  | sliceAfter =>
      exact (st.heap.asInt_yields y).returns.bind fun start _ =>
        (Heap.slice_keeps hp hh x start none).returns.bind fun _ hproduct => .ok hproduct
  | find => exact (st.heap.find_scalar x y).returns.map hp
  -- An element of the new list is one of the two lists it is made from.
  | merge =>
      refine (st.heap.asList_yields x).returns.bind fun r _ => ?_
      refine (st.heap.asList_yields y).returns.bind fun r' _ => .ok fun v hv => ?_
      rcases Array.mem_append.mp hv with hv | hv
      · exact hh.items r v hv
      · exact hh.items r' v hv
  | pop =>
      simp only [planTwo]
      split
      · exact (st.heap.asInt_yields y).returns.bind fun i _ => .ok trivial
      · exact (st.heap.asObject_yields _).returns.bind fun r _ =>
          (st.heap.asStr_yields y).returns.bind fun key _ => .ok trivial
  | push => exact (st.heap.asList_yields x).returns.bind fun r hr => .ok ⟨hr ▸ hx, hy⟩
  | max => exact hselect .gt
  | min => exact hselect .lt
  | randomInt =>
      refine (st.heap.asInt_yields x).returns.bind fun low _ => ?_
      refine (st.heap.asInt_yields y).returns.bind fun high _ => ?_
      split
      · exact .error _
      · exact .ok trivial
  | _ => exact .error _

theorem planThree_uses (hp : ∀ v : Value, v.Scalar → p v) (hh : st.heap.Holds p) :
    Returns (Effect.Uses p) (planThree st x y z op) := by
  cases op with
  | slice =>
      exact (st.heap.asInt_yields y).returns.bind fun start _ =>
        (st.heap.asInt_yields z).returns.bind fun stop _ =>
          (Heap.slice_keeps hp hh x start (some stop)).returns.bind fun _ hproduct => .ok hproduct
  | replace =>
      exact (st.heap.asStr_yields x).returns.bind fun s _ =>
        (st.heap.asStr_yields y).returns.bind fun pattern _ =>
          (st.heap.asStr_yields z).returns.bind fun replacement _ => .ok (hp _ trivial)
  | rangeStep =>
      exact (st.heap.asInt_yields x).returns.bind fun start _ =>
        (st.heap.asInt_yields y).returns.bind fun stop _ =>
          (st.heap.asInt_yields z).returns.bind fun step _ =>
            -- The numbers of a range are scalars, whatever its bounds are.
            (steppedRange_scalar start stop step).returns.bind fun items hitems =>
              .ok fun v hv => hp v (hitems v hv)
  | _ => exact .error _

/-- Whatever an operation is given, the effect uses values that it was given or that the state has. -/
theorem plan_uses (hp : ∀ v : Value, v.Scalar → p v) (hh : st.heap.Holds p)
    (hscopes : ∀ s ∈ st.scopes.global :: st.scopes.inner, p (.object s)) {args : List Value}
    (hargs : ∀ v ∈ args, p v) : Returns (Effect.Uses p) (op.plan args st) := by
  match args, hargs with
  | [], _ => exact planNone_uses hp hscopes
  | [x], hargs => exact planOne_uses hp hh (hargs x (by simp))
  | [x, y], hargs => exact planTwo_uses hp hh (hargs x (by simp)) (hargs y (by simp))
  | [x, y, z], _ => exact planThree_uses hp hh
  | _ :: _ :: _ :: _ :: _, _ => exact .error _

end Op

end Planning

/-! ### Carrying out -/

namespace State

variable {q : Value → Prop} {st : State}

/-- Carrying an effect out on known values. -/
theorem perform_gives (hst : st.Closed q) {e : Effect} (he : e.Uses (Value.Known q st.heap))
    (hrefer : ∀ container key, e = .refer container key → q (.reference ⟨st.nextId, container, key⟩)) :
    st.Gives q (st.perform e) := by
  have hok {v : Value} {st' : State} (hconveys : st.Conveys q st') (hv : v.Known q st'.heap) :
      st.Gives q (.ok v, st') :=
    ⟨hconveys, fun w hw => by cases hw; exact hv⟩
  have hsame : st.Conveys q st := .refl hst
  have hperformed := st.performed e
  generalize st.perform e = o at hperformed
  cases hperformed with
  | yield product =>
      obtain ⟨hconveys, hv⟩ := realize_gives hst he
      exact hok hconveys hv
  | refer container key =>
      exact issue_gives hst ⟨hrefer container key rfl, Value.known_value.mp he⟩
  -- The product is made first, and the slot is written in the heap that has it.
  | @store r product hwritable =>
      obtain ⟨hconveys, hv⟩ := realize_gives hst he.2
      have hput := hconveys.of_heap (Heap.idOf?_put r _) (hconveys.closed.holds.heap.put r hv)
      exact hok hput (hput.known he.1)
  | push r v =>
      have hpush := hsame.of_heap (Heap.idOf?_modifyItems r _) (hst.holds.heap.listPush r he.2)
      exact hok hpush (hpush.known he.1)
  | @popItem r index v hpopped =>
      have hv := (Heap.listPopped_safe hst.holds.heap r index).of_eq_ok hpopped
      have herase := hsame.of_heap (Heap.idOf?_modifyItems r _) (hst.holds.heap.listErase r index)
      exact hok herase (herase.known hv)
  | @popField r key v hpopped =>
      have hv := (Heap.objectGet_safe hst.holds.heap r key).of_eq_ok hpopped
      have herase := hsame.of_heap (Heap.idOf?_modifyFields r _) (hst.holds.heap.objectErase r key)
      exact hok herase (herase.known hv)
  | print hwritten => exact hok (.of_eq hst rfl rfl rfl rfl) trivial
  | leave hpending => exact hok (hsame.raised he) trivial
  | random _ => exact hok (.of_eq hst rfl rfl rfl rfl) trivial
  | randomInt _ => exact hok (.of_eq hst rfl rfl rfl rfl) trivial
  | refused hwritten => exact ⟨.of_eq hst rfl rfl rfl rfl, fun v hv => by cases hv⟩
  | failed hplanned => exact ⟨hsame, fun v hv => by cases hv⟩

/-- Applying an operation to known values, however many there are. -/
theorem apply_gives (hst : st.Closed q) {op : Op} {args : List Value}
    (hargs : ∀ v ∈ args, v.Known q st.heap)
    (hrefer : ∀ container key, op.plan args st = .ok (.refer container key) →
      q (.reference ⟨st.nextId, container, key⟩)) : st.Gives q (st.apply op args) := by
  have huses : Returns (Effect.Uses (Value.Known q st.heap)) (op.plan args st) :=
    Op.plan_uses (fun v hv => hv.known) hst.holds.heap hst.scopes hargs
  simp only [apply]
  cases hplan : op.plan args st with
  | error f => exact ⟨.refl hst, fun v hv => by cases hv⟩
  | ok e => exact perform_gives hst (huses e hplan) fun container key he => hrefer container key (he ▸ hplan)

end State

end Stepwise
