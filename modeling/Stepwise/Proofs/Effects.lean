import Stepwise.Proofs.Holding
import Stepwise.Proofs.Plans
import Stepwise.Proofs.Resuming
import Stepwise.Proofs.Storage

/-!
# `Stepwise.Proofs.Effects`: operations keep memory as it should be

An operation on arguments that serve its demands, one for each demand, comes down to an effect or to
a local fault (`Op.plan_safe`): the effect keeps nothing in memory that is a reference, it
writes through references whose key fits their container, and it makes only such references. Carrying it
out keeps memory as it was and yields a value that the stack may show (`State.perform_keeps`).

Nothing here depends on what memory asks of functions, so all of it is about any property that memory can
ask of its values (`Value.Durable`). No operation makes a function: each value that it keeps or yields
is one that it was given or has read, or one that is neither a function nor a reference.
-/

set_option autoImplicit false

namespace Stepwise

/-- What fails only as numbers do is safe. -/
theorem Safe.of_numeric {α : Type} {r : Except Fault α} (hr : Fails Fault.Numeric r) :
    Safe (fun _ => True) r :=
  .of_fails (hr.imp fun _ hf => hf.isLocal) fun _ _ => trivial

/-! ### Effects -/

/-- A product whose values have a property. -/
def Product.Keeps (p : Value → Prop) : Product → Prop
  | .value v => p v
  | .list items => ∀ v ∈ items, p v

/-- An effect that keeps a property of memory: what it keeps has the property, and a key fits its
container. -/
def Effect.Keeps (p : Value → Prop) : Effect → Prop
  | .yield product => product.Keeps p
  | .refer container key => ∀ id, (Reference.mk id container key).Paired
  | .store r product => r.Paired ∧ product.Keeps p
  | .push _ v => p v
  | .leave exit => exit.Carries p
  | _ => True

/-- An effect that yields a value without an identity number and does nothing else. -/
def Effect.IsScalar (e : Effect) : Prop :=
  ∃ v : Value, v.Scalar ∧ e = .value v

variable {p : Value → Prop}

theorem Effect.IsScalar.keeps (hp : ∀ v : Value, v.Scalar → p v) {e : Effect} (he : e.IsScalar) :
    e.Keeps p := by
  obtain ⟨v, hv, rfl⟩ := he
  exact hp v hv

namespace Heap

variable {h : Heap}

theorem arithmetic_keeps (hp : ∀ v : Value, v.Scalar → p v) (hh : h.Holds p) (a : Arith) (x y : Value) :
    Safe (Product.Keeps p) (h.arithmetic a x y) := by
  unfold arithmetic
  split
  · exact .ok (hp _ trivial)
  · rename_i r q
    refine .ok fun v hv => ?_
    -- A sum of lists has the items of both, which are values of the heap.
    rcases Array.mem_append.mp hv with hv | hv
    · exact hh.items r v hv
    · exact hh.items q v hv
  · split
    · exact .error rfl
    · refine (Safe.of_ordinary (h.asNumeric_fails _)).bind fun m _ => ?_
      refine (Safe.of_ordinary (h.asNumeric_fails _)).bind fun n _ => ?_
      refine (Safe.of_numeric (Numeric.arithmetic_fails _ m n)).bind fun z _ => ?_
      exact .ok (hp _ z.scalar_toValue)

theorem compareValues_safe (h : Heap) (c : Comparison) (x y : Value) :
    Safe (fun _ => True) (h.compareValues c x y) :=
  (Safe.of_ordinary (h.asNumeric_fails x)).bind fun _ _ =>
    (Safe.of_ordinary (h.asNumeric_fails y)).bind fun _ _ => .ok trivial

theorem index_keeps (hp : Value.Durable p) (x key : Value) :
    Safe (Effect.Keeps p) (index x key) := by
  unfold index
  split
  · exact .ok fun _ => trivial
  · split
    · exact .ok fun _ => trivial
    · split
      · exact .ok (hp.inert _ trivial)
      · exact .error rfl
    · exact .error rfl

theorem slice_keeps (hp : ∀ v : Value, v.Scalar → p v) (hh : h.Holds p) (v : Value) (start : Int64)
    (stop : Option Int64) : Safe (Product.Keeps p) (h.slice v start stop) := by
  unfold slice
  split
  · exact .ok (hp _ trivial)
  · rename_i r
    refine .ok fun w hw => ?_
    obtain ⟨k, hk, rfl⟩ := Array.mem_extract_iff_getElem.mp hw
    exact hh.items r _ (Array.getElem_mem _)
  · exact .error rfl

theorem length_scalar (h : Heap) (v : Value) : Safe Value.Scalar (h.length v) := by
  have hcount (r : Except Fault Nat) (hr : Safe (fun _ => True) r) :
      Safe Value.Scalar (r >>= fun n => fitting .len n >>= fun i => .ok (.int i)) :=
    hr.bind fun n _ => (Safe.of_numeric (fitting_fails .len n)).bind fun i _ => .ok trivial
  unfold length
  cases v with
  | str s => exact hcount (.ok _) (.ok trivial)
  | list r => exact hcount (.ok _) (.ok trivial)
  | object r => exact hcount (.ok _) (.ok trivial)
  | _ => exact .error rfl

theorem find_scalar (h : Heap) (v needle : Value) : Safe Value.Scalar (h.find v needle) := by
  unfold find
  dsimp only
  split
  · refine (Safe.of_ordinary (h.asStr_fails needle)).bind fun t _ => ?_
    split
    · exact .ok trivial
    · rename_i i _
      exact (Safe.of_numeric (fitting_fails .find i)).map fun _ _ => trivial
  · split
    · exact .ok trivial
    · rename_i i _
      exact (Safe.of_numeric (fitting_fails .find i)).map fun _ _ => trivial
  · split
    · exact .ok trivial
    · exact .ok trivial
  · exact .error rfl

theorem toInt_scalar (h : Heap) (v : Value) : Safe Value.Scalar (h.toInt v) := by
  unfold toInt
  split
  · exact (Safe.of_numeric (floatToInt_fails _)).map fun _ _ => trivial
  · split
    · exact .ok trivial
    · exact .error rfl
  · split
    · exact (Safe.of_ordinary (h.asInt_fails _)).map fun _ _ => trivial
    · exact .error rfl

theorem toFloat_scalar (h : Heap) (v : Value) : Safe Value.Scalar (h.toFloat v) := by
  unfold toFloat
  split
  · split
    · exact .ok trivial
    · exact .error rfl
  · exact (Safe.of_ordinary (h.asFloat_fails _)).map fun _ _ => trivial

theorem onNumeric_scalar (h : Heap) {f : Numeric → Except Fault Numeric}
    (hf : ∀ n, Fails Fault.Numeric (f n)) (v : Value) : Safe Effect.IsScalar (h.onNumeric f v) :=
  (Safe.of_ordinary (h.asNumeric_fails v)).bind fun n _ =>
    (Safe.of_numeric (hf n)).bind fun m _ => .ok ⟨_, m.scalar_toValue, rfl⟩

theorem onFloat_scalar (h : Heap) (f : Float → Float) (domain : Float → Option String) (v : Value) :
    Safe Effect.IsScalar (h.onFloat f domain v) := by
  refine (Safe.of_ordinary (h.asFloat_fails v)).bind fun x _ => ?_
  split
  · exact .error rfl
  · exact .ok ⟨.float _, trivial, rfl⟩

/-- A slot is changed from what memory holds to what memory may hold. -/
theorem change_keeps (hh : h.Holds p) {f : Value → Except Fault Product}
    (hf : ∀ v, Safe (Product.Keeps p) (f v)) {target : Value} (ht : target.Shown p) :
    Safe (Effect.Keeps p) (h.change f target) :=
  (h.asReference_safe ht).bind fun _ hr =>
    (read_safe hh hr).bind fun v _ => (hf v).bind fun _ hproduct => .ok ⟨hr, hproduct⟩

end Heap

theorem appendRange_scalar (stop step current : Int64) {items : Array Value}
    (hitems : ∀ v ∈ items, Value.Scalar v) :
    ∀ v ∈ appendRange stop step current items, Value.Scalar v := by
  have hpush {items : Array Value} (hitems : ∀ v ∈ items, Value.Scalar v) (n : Int64) :
      ∀ v ∈ items.push (.int n), Value.Scalar v := by
    intro v hv
    rcases Array.mem_push.mp hv with hv | rfl
    · exact hitems v hv
    · trivial
  -- The range is followed step by step, each of which appends an integer.
  fun_induction appendRange stop step current items with
  | case1 current items _ next _ ih => exact ih (hpush hitems current)
  | case2 current items => exact hpush hitems current
  | case3 current items => exact hitems

theorem steppedRange_scalar (start stop step : Int64) :
    Safe (fun items => ∀ v ∈ items, Value.Scalar v) (steppedRange start stop step) := by
  unfold steppedRange
  split
  · exact .error rfl
  · exact .ok (appendRange_scalar stop step start (by simp))

theorem countTo_scalar (stop : Int64) : ∀ v ∈ countTo stop, Value.Scalar v := by
  intro v hv
  obtain ⟨i, -, rfl⟩ := Array.mem_map.mp hv
  trivial

/-! ### Planning -/

namespace Op

variable {st : State} {op : Op} {x y z : Value}

theorem planNone_safe (hp : Value.Durable p) (hd : op.demands = []) :
    Safe (Effect.Keeps p) (planNone st op) := by
  cases op with
  | localScope => exact .ok (hp.inert _ trivial)
  | globalScope => exact .ok (hp.inert _ trivial)
  | breakLoop => exact .ok trivial
  | continueLoop => exact .ok trivial
  | pi => exact .ok (hp.inert _ trivial)
  | random => exact .ok trivial
  | arith a => cases a <;> cases hd
  | update a => cases a <;> cases hd
  | _ => cases hd

theorem planOne_safe (hp : Value.Durable p) (hh : st.heap.Holds p) {d : Demand}
    (hd : op.demands = [d]) (hx : x.Serves p d) : Safe (Effect.Keeps p) (planOne st x op) := by
  have hscalar (e : Effect) (he : e.IsScalar) : e.Keeps p := he.keeps hp.scalar
  cases op with
  | neg => exact (st.heap.onNumeric_scalar Numeric.negate_fails x).imp hscalar
  | not => exact .ok (hp.inert _ trivial)
  | increment =>
      refine Heap.change_keeps hh (fun v => ?_) hx.1
      exact (Safe.of_ordinary (st.heap.asNumeric_fails v)).bind fun n _ =>
        (Safe.of_numeric (n.shift_fails _ _)).bind fun m _ => .ok (hp.inert _ m.scalar_toValue.inert)
  | decrement =>
      refine Heap.change_keeps hh (fun v => ?_) hx.1
      exact (Safe.of_ordinary (st.heap.asNumeric_fails v)).bind fun n _ =>
        (Safe.of_numeric (n.shift_fails _ _)).bind fun m _ => .ok (hp.inert _ m.scalar_toValue.inert)
  | invert =>
      refine Heap.change_keeps hh (fun v => ?_) hx.1
      exact .ok (hp.inert _ trivial)
  | print => exact .ok trivial
  -- What is returned or thrown was read first, so it can be kept.
  | returnValue =>
      cases hd
      exact .ok (hx.2 rfl)
  | throwValue =>
      cases hd
      exact .ok (hx.2 rfl)
  | len => exact (st.heap.length_scalar x).map hp.scalar
  | upper =>
      exact (Safe.of_ordinary (st.heap.asStr_fails x)).bind fun s _ => .ok (hp.inert _ trivial)
  | lower =>
      exact (Safe.of_ordinary (st.heap.asStr_fails x)).bind fun s _ => .ok (hp.inert _ trivial)
  | range =>
      exact (Safe.of_ordinary (st.heap.asInt_fails x)).bind fun stop _ =>
        .ok fun v hv => hp.scalar v (countTo_scalar stop v hv)
  | keys =>
      refine (Safe.of_ordinary (st.heap.asObject_fails x)).bind fun r _ => .ok fun v hv => ?_
      obtain ⟨key, -, rfl⟩ := List.mem_map.mp (List.mem_toArray.mp hv)
      exact hp.inert _ trivial
  | values =>
      refine (Safe.of_ordinary (st.heap.asObject_fails x)).bind fun r _ => .ok fun v hv => ?_
      obtain ⟨e, he, rfl⟩ := List.mem_map.mp (List.mem_toArray.mp hv)
      exact hh.fields r e he
  | abs => exact (st.heap.onNumeric_scalar Numeric.absolute_fails x).imp hscalar
  | floor => exact (st.heap.onNumeric_scalar (Numeric.rounded_fails _) x).imp hscalar
  | ceil => exact (st.heap.onNumeric_scalar (Numeric.rounded_fails _) x).imp hscalar
  | round => exact (st.heap.onNumeric_scalar (Numeric.rounded_fails _) x).imp hscalar
  | sqrt => exact (st.heap.onFloat_scalar _ _ x).imp hscalar
  | log => exact (st.heap.onFloat_scalar _ _ x).imp hscalar
  | sin => exact (st.heap.onFloat_scalar Float.sin (fun _ => none) x).imp hscalar
  | cos => exact (st.heap.onFloat_scalar Float.cos (fun _ => none) x).imp hscalar
  | tan => exact (st.heap.onFloat_scalar Float.tan (fun _ => none) x).imp hscalar
  | str => exact .ok (hp.inert _ trivial)
  | int => exact (st.heap.toInt_scalar x).map hp.scalar
  | float => exact (st.heap.toFloat_scalar x).map hp.scalar
  | type => exact .ok (hp.inert _ trivial)
  | arith a => cases a <;> cases hd
  | update a => cases a <;> cases hd
  | _ => cases hd

/-- The greater or the lesser of two values is one of them. -/
theorem select_safe (h : Heap) (wanted : Ordering) :
    Safe (fun e => e = .value x ∨ e = .value y) (select h wanted x y) := by
  refine (Safe.of_ordinary (h.asNumeric_fails x)).bind fun m _ => ?_
  refine (Safe.of_ordinary (h.asNumeric_fails y)).bind fun n _ => .ok ?_
  split
  · exact Or.inl rfl
  · exact Or.inr rfl

/-- The demand on the second of two arguments always reads references. -/
theorem deref_of_two {d e : Demand} (hd : op.demands = [d, e]) : e.deref = true := by
  cases op with
  | arith a => cases a <;> cases hd <;> rfl
  | update a => cases a <;> cases hd <;> rfl
  | _ => cases hd <;> rfl

theorem planTwo_safe (hp : Value.Durable p) (hh : st.heap.Holds p) {d e : Demand}
    (hd : op.demands = [d, e]) (hx : x.Serves p d) (hy : y.Serves p e) :
    Safe (Effect.Keeps p) (planTwo st x y op) := by
  -- The second argument is what an assignment or a push keeps.
  have hkeep : p y := hy.2 (deref_of_two hd)
  have hselect (hx : p x) (e : Effect) (he : e = .value x ∨ e = .value y) : e.Keeps p := by
    rcases he with rfl | rfl
    · exact hx
    · exact hkeep
  cases op with
  | arith a => exact (Heap.arithmetic_keeps hp.scalar hh a x y).map fun _ hproduct => hproduct
  | compare c => exact (st.heap.compareValues_safe c x y).map fun b _ => hp.inert _ trivial
  | equal => exact .ok (hp.inert _ trivial)
  | differ => exact .ok (hp.inert _ trivial)
  | index => exact Heap.index_keeps hp x y
  | assign => exact (st.heap.asReference_safe hx.1).bind fun r hr => .ok ⟨hr, hkeep⟩
  | update a => exact Heap.change_keeps hh (fun v => Heap.arithmetic_keeps hp.scalar hh a v y) hx.1
  | sliceAfter =>
      exact (Safe.of_ordinary (st.heap.asInt_fails y)).bind fun start _ =>
        (Heap.slice_keeps hp.scalar hh x start none).bind fun _ hproduct => .ok hproduct
  | find => exact (st.heap.find_scalar x y).map hp.scalar
  | merge =>
      refine (Safe.of_ordinary (st.heap.asList_fails x)).bind fun r _ => ?_
      refine (Safe.of_ordinary (st.heap.asList_fails y)).bind fun q _ => .ok fun v hv => ?_
      rcases Array.mem_append.mp hv with hv | hv
      · exact hh.items r v hv
      · exact hh.items q v hv
  | pop =>
      simp only [planTwo]
      split
      · exact (Safe.of_ordinary (st.heap.asInt_fails y)).bind fun i _ => .ok trivial
      · exact (Safe.of_ordinary (st.heap.asObject_fails _)).bind fun r _ =>
          (Safe.of_ordinary (st.heap.asStr_fails y)).bind fun key _ => .ok trivial
  | push => exact (Safe.of_ordinary (st.heap.asList_fails x)).bind fun r _ => .ok hkeep
  | max =>
      cases hd
      exact (select_safe st.heap .gt).imp (hselect (hx.2 rfl))
  | min =>
      cases hd
      exact (select_safe st.heap .lt).imp (hselect (hx.2 rfl))
  | randomInt =>
      refine (Safe.of_ordinary (st.heap.asInt_fails x)).bind fun low _ => ?_
      refine (Safe.of_ordinary (st.heap.asInt_fails y)).bind fun high _ => ?_
      split
      · exact .error rfl
      · exact .ok trivial
  | _ => cases hd

theorem planThree_safe (hp : Value.Durable p) (hh : st.heap.Holds p) {ds : List Demand}
    (hd : op.demands = ds) (hlen : ds.length = 3) :
    Safe (Effect.Keeps p) (planThree st x y z op) := by
  subst hd
  -- Only three operations take three arguments, and their faults are those of the casts.
  cases op with
  | slice =>
      exact (Safe.of_ordinary (st.heap.asInt_fails y)).bind fun start _ =>
        (Safe.of_ordinary (st.heap.asInt_fails z)).bind fun stop _ =>
          (Heap.slice_keeps hp.scalar hh x start (some stop)).bind fun _ hproduct => .ok hproduct
  | replace =>
      exact (Safe.of_ordinary (st.heap.asStr_fails x)).bind fun s _ =>
        (Safe.of_ordinary (st.heap.asStr_fails y)).bind fun pattern _ =>
          (Safe.of_ordinary (st.heap.asStr_fails z)).bind fun replacement _ =>
            .ok (hp.inert _ trivial)
  | rangeStep =>
      exact (Safe.of_ordinary (st.heap.asInt_fails x)).bind fun start _ =>
        (Safe.of_ordinary (st.heap.asInt_fails y)).bind fun stop _ =>
          (Safe.of_ordinary (st.heap.asInt_fails z)).bind fun step _ =>
            (steppedRange_scalar start stop step).bind fun items hitems =>
              .ok fun v hv => hp.scalar v (hitems v hv)
  | arith a => cases a <;> cases hlen
  | update a => cases a <;> cases hlen
  | _ => cases hlen

/-- An operation on arguments that serve its demands, one for each, comes down to an effect that keeps
memory as it should be, or to a local fault. -/
theorem plan_safe (hp : Value.Durable p) (hh : st.heap.Holds p) {args : List Value}
    (hargs : ServesEach p args op.demands) (hlen : args.length = op.arity) :
    Safe (Effect.Keeps p) (op.plan args st) := by
  -- The number of arguments decides which function plans, and the demands have the same number.
  have hdemands : args.length = op.demands.length := hlen
  match hd : op.demands, args, hdemands with
  | [], [], _ => exact planNone_safe hp hd
  | [d], [x], _ =>
      rw [hd] at hargs
      exact planOne_safe hp hh hd (hargs 0 x d rfl rfl)
  | [d, e], [x, y], _ =>
      rw [hd] at hargs
      exact planTwo_safe hp hh hd (hargs 0 x d rfl rfl) (hargs 1 y e rfl rfl)
  | [d, e, f], [x, y, z], _ => exact planThree_safe hp hh hd rfl
  | d :: e :: f :: g :: ds, _, _ =>
      -- No operation takes more than three arguments.
      exfalso
      cases op with
      | arith a => cases a <;> cases hd
      | update a => cases a <;> cases hd
      | _ => cases hd

end Op

/-! ### Carrying out -/

/-- Memory is sound, and the value of an interrupt under way is one that memory may hold. -/
structure State.Sound (st : State) : Prop where
  heap : st.heap.Sound
  pending : ∀ i ∈ st.pending, i.exit.Stored

namespace State

variable {st : State}

/-- The values in memory and the value of an interrupt under way have a property. -/
structure Holds (p : Value → Prop) (st : State) : Prop where
  heap : st.heap.Holds p
  pending : ∀ i ∈ st.pending, i.exit.Carries p

theorem Sound.holds (hst : st.Sound) : st.Holds Value.Stored :=
  ⟨hst.heap.holds, fun i hi => Exit.stored_iff_carries.mp (hst.pending i hi)⟩

theorem Holds.sound (hst : st.Holds Value.Stored) : st.Sound :=
  ⟨hst.heap.sound, fun i hi => Exit.stored_iff_carries.mpr (hst.pending i hi)⟩

theorem Holds.makeList (hst : st.Holds p) {items : Array Value} (hitems : ∀ v ∈ items, p v) :
    (st.makeList items).2.Holds p where
  heap := hst.heap.newList st.nextId hitems
  pending := hst.pending

theorem Holds.makeObject (hst : st.Holds p) {fields : Fields} (hfields : ∀ e ∈ fields.entries, p e.2) :
    (st.makeObject fields).2.Holds p where
  heap := hst.heap.newObject st.nextId hfields
  pending := hst.pending

/-- A scope is a new object, which is empty. -/
theorem Holds.refused (hst : st.Holds p) : st.refused.Holds p :=
  hst.makeObject fun e he => by cases he

theorem Holds.entered (hst : st.Holds p) : st.entered.Holds p :=
  ⟨hst.refused.heap, hst.pending⟩

/-- The object by which a script sees a fault holds two texts. -/
theorem Holds.exceptionPayload (hp : Value.Durable p) (hst : st.Holds p) (cause : Catchable) :
    (st.exceptionPayload cause).2.Holds p := by
  refine hst.makeObject fun e he => ?_
  rcases Fields.mem_insertEntry he with rfl | he
  · exact hp.inert _ trivial
  · rcases Fields.mem_insertEntry he with rfl | he
    · exact hp.inert _ trivial
    · cases he

theorem realize_keeps (hp : Value.Durable p) (hst : st.Holds p) {product : Product}
    (hproduct : product.Keeps p) :
    p (st.realize product).1 ∧ (st.realize product).2.Holds p := by
  cases product with
  | value v => exact ⟨hproduct, hst⟩
  | list items => exact ⟨hp.inert _ trivial, hst.makeList hproduct⟩

/-- Carrying an effect out keeps memory as it should be. Only here an interrupt is set off by a script,
and there must be none under way. -/
theorem perform_keeps (hp : Value.Durable p) (hst : st.Holds p) (hpending : st.pending = none)
    {e : Effect} (he : e.Keeps p) :
    Safe (Value.Shown p) (st.perform e).1 ∧ (st.perform e).2.Holds p := by
  have hinert {v : Value} (hv : v.Inert) : v.Shown p := hp.shown (hp.inert v hv)
  cases e with
  | yield product =>
      have hmade := realize_keeps hp hst he
      exact ⟨.ok (hp.shown hmade.1), hmade.2⟩
  | refer container key => exact ⟨.ok (he _), hst.heap, hst.pending⟩
  | store r product =>
      have hmade := realize_keeps hp hst he.2
      have hwritable := st.heap.writable_safe he.1
      unfold perform
      dsimp only
      cases hw : st.heap.writable r with
      | error f => exact ⟨.error (hwritable.of_eq_error hw), hst⟩
      | ok u => exact ⟨.ok he.1, hmade.2.heap.put r hmade.1, hmade.2.pending⟩
  | push r v => exact ⟨.ok (hinert trivial), hst.heap.listPush r he, hst.pending⟩
  | popItem r index =>
      have hpopped := Heap.listPopped_safe hst.heap r index
      unfold perform
      dsimp only
      cases hw : st.heap.listPopped r index with
      | error f => exact ⟨.error (hpopped.of_eq_error hw), hst⟩
      | ok v =>
          have hv : p v := hpopped.of_eq_ok hw
          exact ⟨.ok (hp.shown hv), hst.heap.listErase r index, hst.pending⟩
  | popField r key =>
      have hgot := Heap.objectGet_safe hst.heap r key
      unfold perform
      dsimp only
      cases hw : st.heap.objectGet r key with
      | error f => exact ⟨.error (hgot.of_eq_error hw), hst⟩
      | ok v =>
          have hv : p v := hgot.of_eq_ok hw
          exact ⟨.ok (hp.shown hv), hst.heap.objectErase r key, hst.pending⟩
  | print text =>
      unfold perform
      dsimp only
      split
      · exact ⟨.ok (hinert trivial), hst.heap, hst.pending⟩
      · exact ⟨.error rfl, hst.heap, hst.pending⟩
  | leave exit =>
      unfold perform
      -- No interrupt is under way while a frame works, so this one is set off.
      simp only [raise, hpending]
      refine ⟨.ok (hinert trivial), hst.heap, ?_⟩
      intro i hi
      cases hi
      exact he
  | random => exact ⟨.ok (hinert trivial), hst.heap, hst.pending⟩
  | randomInt low high => exact ⟨.ok (hinert trivial), hst.heap, hst.pending⟩

/-- Applying an operation to arguments that serve its demands, one for each. -/
theorem apply_keeps (hp : Value.Durable p) (hst : st.Holds p) (hpending : st.pending = none) {op : Op}
    {args : List Value} (hargs : ServesEach p args op.demands) (hlen : args.length = op.arity) :
    Safe (Value.Shown p) (st.apply op args).1 ∧ (st.apply op args).2.Holds p := by
  have hplan := Op.plan_safe hp hst.heap hargs hlen
  simp only [apply]
  cases heffect : op.plan args st with
  | error f => exact ⟨.error (hplan.of_eq_error heffect), hst⟩
  | ok e => exact perform_keeps hp hst hpending (hplan.of_eq_ok heffect)

/-- Applying an operation to arguments that fit its demands keeps memory sound. -/
theorem apply_sound (hst : st.Sound) (hpending : st.pending = none) {op : Op} {args : List Value}
    (hargs : FitsEach args op.demands) (hlen : args.length = op.arity) :
    Safe Value.Sound (st.apply op args).1 ∧ (st.apply op args).2.Sound := by
  obtain ⟨hsafe, hholds⟩ := apply_keeps Value.durable_stored hst.holds hpending hargs.serves hlen
  exact ⟨hsafe.imp fun _ hv => Value.sound_iff_shown.mpr hv, hholds.sound⟩

end State

end Stepwise
