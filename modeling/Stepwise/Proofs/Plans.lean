import Stepwise.Operation.Effect
import Stepwise.Proofs.Faults

/-!
# `Stepwise.Proofs.Plans`: what an operation comes down to

An operation is planned before anything is changed, and its plan is an effect or a fault. `Op.plan_yields`
says which effects and which faults, for every operation on any arguments: an effect that writes through a
reference or changes a list or an object goes to the first argument of one of the few operations that may do
so, an interrupt is set off by the four operations that leave what they are in, and a list that is yielded
by an operation that makes lists is yet to be made (`Effect.Suits`). A fault of planning is one of the
arguments (`Fault.isPlanned`): the scopes, the sink and the interrupts have no part in it. Carrying the
effect out can only fail in the same way or by a sink that refuses a text, and then leaves the rest of the
state as it was (`State.apply_error_cases`).

No argument is taken to fit its demand here. Where the arguments do, `Stepwise.Proofs.Effects` says what the
effect keeps.
-/

set_option autoImplicit false

namespace Stepwise

/-! ### Classes of faults -/

namespace Fault

/-- Whether a fault is one of numbers: a result that does not fit or does not exist. -/
def isNumeric : Fault → Bool
  | catchable _ | overflow _ | invalid _ => true
  | _ => false

/-- Whether a fault is one that an operation can have while it is planned. -/
def isPlanned : Fault → Bool
  | arityMismatch _ _ | recursionLimit _ | unhandledInterrupt _ _ | invalidInterrupt _
  | uncaughtException _ _ | output _ => false
  | _ => true

/-- A fault of numbers. -/
abbrev Numeric (f : Fault) : Prop :=
  f.isNumeric = true

/-- A fault of planning. -/
abbrev Planned (f : Fault) : Prop :=
  f.isPlanned = true

theorem Numeric.planned {f : Fault} (h : f.Numeric) : f.Planned := by
  cases f with
  | catchable cause => rfl
  | overflow op => rfl
  | invalid misuse => rfl
  | _ => cases h

theorem Numeric.isLocal {f : Fault} (h : f.Numeric) : f.isLocal = true := by
  cases f with
  | catchable cause => rfl
  | overflow op => rfl
  | invalid misuse => rfl
  | _ => cases h

end Fault

/-! ### Numbers -/

theorem fitting_fails (op : Op) (n : Int) : Fails Fault.Numeric (fitting op n) := by
  unfold fitting
  split
  · exact .ok _
  · exact .error rfl

theorem floatToInt_fails (x : Float) : Fails Fault.Numeric (floatToInt x) := by
  unfold floatToInt
  split
  · exact .ok _
  · exact .error rfl

namespace Numeric

theorem combine_fails (a : Arith) (onInt : Int → Int → Int) (onFloat : Float → Float → Float)
    (x y : Numeric) : Fails Fault.Numeric (combine a onInt onFloat x y) := by
  unfold combine
  split
  · exact (fitting_fails _ _).map
  · exact .ok _

theorem quotient_fails (x y : Numeric) : Fails Fault.Numeric (quotient x y) := by
  unfold quotient
  split
  · exact (fitting_fails _ _).map
  · exact (floatToInt_fails _).map

theorem remainder_fails (x y : Numeric) : Fails Fault.Numeric (remainder x y) := by
  unfold remainder
  split
  · exact (fitting_fails _ _).bind fun _ _ => .ok _
  · exact .ok _

theorem power_fails (x y : Numeric) : Fails Fault.Numeric (power x y) := by
  unfold power
  dsimp only
  split
  · split
    · split
      · exact .ok _
      · exact .error rfl
    · exact .ok _
  · exact .ok _

theorem nonZero_fails (divisor : Numeric) : Fails Fault.Numeric (nonZero divisor) := by
  unfold nonZero
  split
  · exact .error rfl
  · exact .ok _

theorem arithmetic_fails (a : Arith) (x y : Numeric) : Fails Fault.Numeric (arithmetic a x y) := by
  cases a with
  | add => exact combine_fails _ _ _ x y
  | sub => exact combine_fails _ _ _ x y
  | mul => exact combine_fails _ _ _ x y
  | div => exact (nonZero_fails y).bind fun _ _ => .ok _
  | intDiv => exact (nonZero_fails y).bind fun _ _ => quotient_fails x y
  | mod => exact (nonZero_fails y).bind fun _ _ => remainder_fails x y
  | pow =>
      simp only [arithmetic]
      split
      · exact .error rfl
      · exact power_fails x y

theorem negate_fails (n : Numeric) : Fails Fault.Numeric n.negate := by
  cases n with
  | int i => exact (fitting_fails _ _).map
  | float x => exact .ok _

theorem absolute_fails (n : Numeric) : Fails Fault.Numeric n.absolute := by
  cases n with
  | int i =>
      have hfit := fitting_fails .abs i.toInt.natAbs
      unfold absolute
      exact hfit.map
  | float x => exact .ok _

theorem shift_fails (op : Op) (delta : Int) (n : Numeric) : Fails Fault.Numeric (n.shift op delta) := by
  cases n with
  | int i => exact (fitting_fails _ _).map
  | float x => exact .ok _

theorem rounded_fails (round : Float → Float) (n : Numeric) :
    Fails Fault.Numeric (n.rounded round) := by
  cases n with
  | int i => exact .ok _
  | float x => exact (floatToInt_fails _).map

end Numeric

/-! ### Results of planning -/

/-- A result that is no fault or one of planning; what it gives has the property `q`. -/
inductive Yields {α : Type} (q : α → Prop) : Except Fault α → Prop where
  | ok {a : α} (h : q a) : Yields q (.ok a)
  | error {f : Fault} (h : f.Planned) : Yields q (.error f)

namespace Yields

variable {α β : Type} {p : α → Prop} {q : β → Prop}

theorem of_eq_ok {r : Except Fault α} {a : α} (hr : Yields p r) (h : r = .ok a) : p a := by
  subst h
  cases hr with
  | ok ha => exact ha

theorem of_eq_error {r : Except Fault α} {f : Fault} (hr : Yields p r) (h : r = .error f) : f.Planned := by
  subst h
  cases hr with
  | error hf => exact hf

theorem of_numeric {r : Except Fault α} (hr : Fails Fault.Numeric r) : Yields (fun _ => True) r := by
  cases r with
  | ok a => exact .ok trivial
  | error f => exact .error (hr f rfl).planned

theorem bind {r : Except Fault α} {k : α → Except Fault β} (hr : Yields p r)
    (hk : ∀ a, p a → Yields q (k a)) : Yields q (r >>= k) := by
  cases hr with
  | ok h => exact hk _ h
  | error h => exact .error h

theorem map {r : Except Fault α} {g : α → β} (hr : Yields p r) (hg : ∀ a, p a → q (g a)) :
    Yields q (r.map g) := by
  cases hr with
  | ok h => exact .ok (hg _ h)
  | error h => exact .error h

theorem imp {q : α → Prop} {r : Except Fault α} (hr : Yields p r) (h : ∀ a, p a → q a) : Yields q r := by
  cases hr with
  | ok ha => exact .ok (h _ ha)
  | error hf => exact .error hf

end Yields

namespace Heap

variable (h : Heap)

theorem asNumeric_yields (v : Value) : Yields (fun _ => True) (h.asNumeric v) := by
  simp only [asNumeric]
  split
  · exact .ok trivial
  · exact .error rfl

theorem asInt_yields (v : Value) : Yields (fun _ => True) (h.asInt v) := by
  simp only [asInt]
  split
  · exact .ok trivial
  · exact .error rfl

theorem asFloat_yields (v : Value) : Yields (fun _ => True) (h.asFloat v) :=
  (h.asNumeric_yields v).map fun _ _ => trivial

theorem asStr_yields (v : Value) : Yields (fun _ => True) (h.asStr v) := by
  cases v with
  | str s => exact .ok trivial
  | _ => exact .error rfl

theorem asList_yields (v : Value) : Yields (fun r => v = .list r) (h.asList v) := by
  cases v with
  | list r => exact .ok rfl
  | _ => exact .error rfl

theorem asObject_yields (v : Value) : Yields (fun r => v = .object r) (h.asObject v) := by
  cases v with
  | object r => exact .ok rfl
  | _ => exact .error rfl

theorem asReference_yields (v : Value) : Yields (fun r => v = .reference r) (h.asReference v) := by
  cases v with
  | reference r => exact .ok rfl
  | _ => exact .error rfl

theorem objectGet_yields (r : ObjectRef) (key : String) : Yields (fun _ => True) (h.objectGet r key) := by
  simp only [objectGet]
  split
  · exact .ok trivial
  · exact .error rfl

theorem listGet_yields (r : ListRef) (index : Int64) : Yields (fun _ => True) (h.listGet r index) := by
  simp only [listGet]
  split
  · exact .ok trivial
  · exact .error rfl

theorem read_yields (r : Reference) : Yields (fun _ => True) (h.read r) := by
  unfold read
  split
  · exact h.objectGet_yields _ _
  · exact h.listGet_yields _ _
  · exact .error rfl

end Heap

/-! ### Effects -/

namespace Op

/-- Whether an operation writes through its first argument. -/
def assigns : Op → Bool
  | assign | update _ | increment | decrement | invert => true
  | _ => false

/-- Whether an operation leaves what it is in. -/
def leaves : Op → Bool
  | returnValue | breakLoop | continueLoop | throwValue => true
  | _ => false

/-- Whether an operation makes the list that it yields, if it yields one. -/
def makesList : Op → Bool
  | arith .add | merge | slice | sliceAfter | range | rangeStep | keys | values => true
  | _ => false

theorem makesList_of_assigns {op : Op} (h : op.assigns = true) : op.makesList = false := by
  cases op with
  | assign => rfl
  | update a => rfl
  | increment => rfl
  | decrement => rfl
  | invert => rfl
  | _ => cases h

theorem plain_of_leaves {op : Op} (h : op.leaves = true) : op.assigns = false ∧ op.makesList = false := by
  cases op with
  | returnValue => exact ⟨rfl, rfl⟩
  | breakLoop => exact ⟨rfl, rfl⟩
  | continueLoop => exact ⟨rfl, rfl⟩
  | throwValue => exact ⟨rfl, rfl⟩
  | _ => cases h

end Op

/-- A product that is no list that exists already. -/
def Product.Unshared : Product → Prop
  | .value v => ∀ r, v ≠ .list r
  | .list _ => True

theorem Numeric.unshared_toValue (n : Numeric) : (Product.value n.toValue).Unshared := by
  intro r
  cases n with
  | int i => nofun
  | float x => nofun

/-- An effect that an operation on its arguments can come down to. -/
def Effect.Suits (op : Op) (args : List Value) : Effect → Prop
  | .yield p => op.assigns = false ∧ (op.makesList = true → p.Unshared)
  | .refer _ _ => op = .index
  | .store r _ => op.assigns = true ∧ args.head? = some (.reference r)
  | .push r _ => op = .push ∧ args.head? = some (.list r)
  | .popItem r _ => op = .pop ∧ args.head? = some (.list r)
  | .popField r _ => op = .pop ∧ args.head? = some (.object r)
  | .print _ => op = .print
  | .leave _ => op.leaves = true
  | .random => op = .random
  | .randomInt _ _ => op = .randomInt

/-- An effect that yields a value and does nothing else. -/
def Effect.IsValue (e : Effect) : Prop :=
  ∃ v, e = .value v

/-- A value suits an operation that neither writes nor makes a list. -/
theorem Effect.IsValue.suits {op : Op} {args : List Value} {e : Effect} (h : e.IsValue)
    (hassigns : op.assigns = false) (hlist : op.makesList = false) : e.Suits op args := by
  obtain ⟨v, rfl⟩ := h
  refine ⟨hassigns, ?_⟩
  rw [hlist]
  nofun

namespace Heap

variable (h : Heap)

theorem arithmetic_yields (a : Arith) (x y : Value) : Yields Product.Unshared (h.arithmetic a x y) := by
  unfold arithmetic
  split
  · exact .ok nofun
  · exact .ok trivial
  · split
    · exact .error rfl
    · refine (h.asNumeric_yields _).bind fun m _ => ?_
      refine (h.asNumeric_yields _).bind fun n _ => ?_
      exact (Yields.of_numeric (Numeric.arithmetic_fails _ m n)).bind fun z _ => .ok z.unshared_toValue

theorem compareValues_yields (c : Comparison) (x y : Value) :
    Yields (fun _ => True) (h.compareValues c x y) :=
  (h.asNumeric_yields x).bind fun _ _ => (h.asNumeric_yields y).bind fun _ _ => .ok trivial

theorem index_yields (x key : Value) (args : List Value) :
    Yields (Effect.Suits .index args) (index x key) := by
  unfold index
  split
  · exact .ok rfl
  · split
    · exact .ok rfl
    · split
      · exact .ok (Effect.IsValue.suits ⟨_, rfl⟩ rfl rfl)
      · exact .error rfl
    · exact .error rfl

theorem slice_yields (v : Value) (start : Int64) (stop : Option Int64) :
    Yields Product.Unshared (h.slice v start stop) := by
  unfold slice
  split
  · exact .ok nofun
  · exact .ok trivial
  · exact .error rfl

theorem length_yields (v : Value) : Yields (fun _ => True) (h.length v) := by
  have hcount (r : Except Fault Nat) (hr : Yields (fun _ => True) r) :
      Yields (fun _ => True) (r >>= fun n => fitting .len n >>= fun i => .ok (Value.int i)) :=
    hr.bind fun n _ => (Yields.of_numeric (fitting_fails .len n)).bind fun i _ => .ok trivial
  unfold length
  cases v with
  | str s => exact hcount (.ok _) (.ok trivial)
  | list r => exact hcount (.ok _) (.ok trivial)
  | object r => exact hcount (.ok _) (.ok trivial)
  | _ => exact .error rfl

theorem find_yields (v needle : Value) : Yields (fun _ => True) (h.find v needle) := by
  unfold find
  dsimp only
  split
  · refine (h.asStr_yields needle).bind fun t _ => ?_
    split
    · exact .ok trivial
    · rename_i i _
      exact (Yields.of_numeric (fitting_fails .find i)).map fun _ _ => trivial
  · split
    · exact .ok trivial
    · rename_i i _
      exact (Yields.of_numeric (fitting_fails .find i)).map fun _ _ => trivial
  · split
    · exact .ok trivial
    · exact .ok trivial
  · exact .error rfl

theorem toInt_yields (v : Value) : Yields (fun _ => True) (h.toInt v) := by
  unfold toInt
  split
  · exact (Yields.of_numeric (floatToInt_fails _)).map fun _ _ => trivial
  · split
    · exact .ok trivial
    · exact .error rfl
  · split
    · exact (h.asInt_yields _).map fun _ _ => trivial
    · exact .error rfl

theorem toFloat_yields (v : Value) : Yields (fun _ => True) (h.toFloat v) := by
  unfold toFloat
  split
  · split
    · exact .ok trivial
    · exact .error rfl
  · exact (h.asFloat_yields _).map fun _ _ => trivial

theorem onNumeric_yields {f : Numeric → Except Fault Numeric} (hf : ∀ n, Fails Fault.Numeric (f n))
    (v : Value) : Yields Effect.IsValue (h.onNumeric f v) :=
  (h.asNumeric_yields v).bind fun n _ => (Yields.of_numeric (hf n)).bind fun _ _ => .ok ⟨_, rfl⟩

theorem onFloat_yields (f : Float → Float) (domain : Float → Option String) (v : Value) :
    Yields Effect.IsValue (h.onFloat f domain v) := by
  refine (h.asFloat_yields v).bind fun x _ => ?_
  split
  · exact .error rfl
  · exact .ok ⟨_, rfl⟩

/-- A change goes to the slot of the reference that is the target. -/
theorem change_yields {op : Op} (hop : op.assigns = true) {f : Value → Except Fault Product}
    (hf : ∀ v, Yields (fun _ => True) (f v)) (target : Value) (rest : List Value) :
    Yields (Effect.Suits op (target :: rest)) (h.change f target) := by
  refine (h.asReference_yields target).bind fun r hr => ?_
  refine (h.read_yields r).bind fun v _ => ?_
  refine (hf v).bind fun p _ => .ok ⟨hop, ?_⟩
  rw [hr]
  rfl

end Heap

theorem steppedRange_yields (start stop step : Int64) :
    Yields (fun _ => True) (steppedRange start stop step) := by
  unfold steppedRange
  split
  · exact .error rfl
  · exact .ok trivial

/-! ### Planning -/

namespace Op

variable (st : State) (op : Op) (x y z : Value)

theorem planNone_yields : Yields (Effect.Suits op []) (planNone st op) := by
  cases op with
  | localScope => exact .ok (Effect.IsValue.suits ⟨_, rfl⟩ rfl rfl)
  | globalScope => exact .ok (Effect.IsValue.suits ⟨_, rfl⟩ rfl rfl)
  | breakLoop => exact .ok rfl
  | continueLoop => exact .ok rfl
  | pi => exact .ok (Effect.IsValue.suits ⟨_, rfl⟩ rfl rfl)
  | random => exact .ok rfl
  | _ => exact .error rfl

theorem planOne_yields : Yields (Effect.Suits op [x]) (planOne st x op) := by
  -- An operation that neither assigns nor makes a list only has to yield a value.
  have hvalue {op : Op} (hassigns : op.assigns = false) (hlist : op.makesList = false)
      {r : Except Fault Effect} (hr : Yields Effect.IsValue r) : Yields (Effect.Suits op [x]) r :=
    hr.imp fun _ he => he.suits hassigns hlist
  cases op with
  | neg => exact hvalue rfl rfl (st.heap.onNumeric_yields Numeric.negate_fails x)
  | not => exact hvalue rfl rfl (.ok ⟨_, rfl⟩)
  | increment =>
      refine st.heap.change_yields rfl (fun v => ?_) x []
      exact (st.heap.asNumeric_yields v).bind fun n _ =>
        (Yields.of_numeric (n.shift_fails _ _)).bind fun _ _ => .ok trivial
  | decrement =>
      refine st.heap.change_yields rfl (fun v => ?_) x []
      exact (st.heap.asNumeric_yields v).bind fun n _ =>
        (Yields.of_numeric (n.shift_fails _ _)).bind fun _ _ => .ok trivial
  | invert => exact st.heap.change_yields rfl (fun _ => .ok trivial) x []
  | print => exact .ok rfl
  | returnValue => exact .ok rfl
  | throwValue => exact .ok rfl
  | len => exact hvalue rfl rfl ((st.heap.length_yields x).map fun _ _ => ⟨_, rfl⟩)
  | upper => exact hvalue rfl rfl ((st.heap.asStr_yields x).bind fun _ _ => .ok ⟨_, rfl⟩)
  | lower => exact hvalue rfl rfl ((st.heap.asStr_yields x).bind fun _ _ => .ok ⟨_, rfl⟩)
  | range =>
      exact (st.heap.asInt_yields x).bind fun stop _ => .ok ⟨rfl, fun _ => trivial⟩
  | keys => exact (st.heap.asObject_yields x).bind fun _ _ => .ok ⟨rfl, fun _ => trivial⟩
  | values => exact (st.heap.asObject_yields x).bind fun _ _ => .ok ⟨rfl, fun _ => trivial⟩
  | abs => exact hvalue rfl rfl (st.heap.onNumeric_yields Numeric.absolute_fails x)
  | floor => exact hvalue rfl rfl (st.heap.onNumeric_yields (Numeric.rounded_fails _) x)
  | ceil => exact hvalue rfl rfl (st.heap.onNumeric_yields (Numeric.rounded_fails _) x)
  | round => exact hvalue rfl rfl (st.heap.onNumeric_yields (Numeric.rounded_fails _) x)
  | sqrt => exact hvalue rfl rfl (st.heap.onFloat_yields _ _ x)
  | log => exact hvalue rfl rfl (st.heap.onFloat_yields _ _ x)
  | sin => exact hvalue rfl rfl (st.heap.onFloat_yields Float.sin (fun _ => none) x)
  | cos => exact hvalue rfl rfl (st.heap.onFloat_yields Float.cos (fun _ => none) x)
  | tan => exact hvalue rfl rfl (st.heap.onFloat_yields Float.tan (fun _ => none) x)
  | str => exact hvalue rfl rfl (.ok ⟨_, rfl⟩)
  | int => exact hvalue rfl rfl ((st.heap.toInt_yields x).map fun _ _ => ⟨_, rfl⟩)
  | float => exact hvalue rfl rfl ((st.heap.toFloat_yields x).map fun _ _ => ⟨_, rfl⟩)
  | type => exact hvalue rfl rfl (.ok ⟨_, rfl⟩)
  | _ => exact .error rfl

theorem select_yields (h : Heap) (wanted : Ordering) : Yields Effect.IsValue (select h wanted x y) :=
  (h.asNumeric_yields x).bind fun _ _ => (h.asNumeric_yields y).bind fun _ _ => .ok ⟨_, rfl⟩

theorem planTwo_yields : Yields (Effect.Suits op [x, y]) (planTwo st x y op) := by
  have hvalue {op : Op} (hassigns : op.assigns = false) (hlist : op.makesList = false)
      {r : Except Fault Effect} (hr : Yields Effect.IsValue r) : Yields (Effect.Suits op [x, y]) r :=
    hr.imp fun _ he => he.suits hassigns hlist
  cases op with
  | arith a => exact (st.heap.arithmetic_yields a x y).map fun _ hp => ⟨rfl, fun _ => hp⟩
  | compare c => exact hvalue rfl rfl ((st.heap.compareValues_yields c x y).map fun _ _ => ⟨_, rfl⟩)
  | equal => exact hvalue rfl rfl (.ok ⟨_, rfl⟩)
  | differ => exact hvalue rfl rfl (.ok ⟨_, rfl⟩)
  | index => exact Heap.index_yields x y [x, y]
  | assign =>
      refine (st.heap.asReference_yields x).bind fun r hr => .ok ⟨rfl, ?_⟩
      rw [hr]
      rfl
  | update a =>
      refine st.heap.change_yields rfl (fun v => ?_) x [y]
      exact (st.heap.arithmetic_yields a v y).imp fun _ _ => trivial
  | sliceAfter =>
      exact (st.heap.asInt_yields y).bind fun start _ =>
        (st.heap.slice_yields x start none).bind fun _ hp => .ok ⟨rfl, fun _ => hp⟩
  | find => exact hvalue rfl rfl ((st.heap.find_yields x y).map fun _ _ => ⟨_, rfl⟩)
  | merge =>
      exact (st.heap.asList_yields x).bind fun _ _ =>
        (st.heap.asList_yields y).bind fun _ _ => .ok ⟨rfl, fun _ => trivial⟩
  -- The container of the element or the field is the first argument itself.
  | pop =>
      simp only [planTwo]
      split
      · exact (st.heap.asInt_yields y).bind fun _ _ => .ok ⟨rfl, rfl⟩
      · refine (st.heap.asObject_yields _).bind fun r hr => ?_
        refine (st.heap.asStr_yields y).bind fun _ _ => .ok ⟨rfl, ?_⟩
        rw [hr]
        rfl
  | push =>
      refine (st.heap.asList_yields x).bind fun r hr => .ok ⟨rfl, ?_⟩
      rw [hr]
      rfl
  | max => exact hvalue rfl rfl (select_yields x y st.heap .gt)
  | min => exact hvalue rfl rfl (select_yields x y st.heap .lt)
  | randomInt =>
      refine (st.heap.asInt_yields x).bind fun low _ => ?_
      refine (st.heap.asInt_yields y).bind fun high _ => ?_
      split
      · exact .error rfl
      · exact .ok rfl
  | _ => exact .error rfl

theorem planThree_yields : Yields (Effect.Suits op [x, y, z]) (planThree st x y z op) := by
  cases op with
  | slice =>
      exact (st.heap.asInt_yields y).bind fun start _ =>
        (st.heap.asInt_yields z).bind fun stop _ =>
          (st.heap.slice_yields x start (some stop)).bind fun _ hp => .ok ⟨rfl, fun _ => hp⟩
  | replace =>
      refine (st.heap.asStr_yields x).bind fun _ _ => ?_
      refine (st.heap.asStr_yields y).bind fun _ _ => ?_
      exact (st.heap.asStr_yields z).bind fun _ _ => .ok (Effect.IsValue.suits ⟨_, rfl⟩ rfl rfl)
  | rangeStep =>
      refine (st.heap.asInt_yields x).bind fun start _ => ?_
      refine (st.heap.asInt_yields y).bind fun stop _ => ?_
      refine (st.heap.asInt_yields z).bind fun step _ => ?_
      exact (steppedRange_yields start stop step).bind fun _ _ => .ok ⟨rfl, fun _ => trivial⟩
  | _ => exact .error rfl

/-- An operation comes down to an effect that suits it and its arguments, or to a fault of planning. -/
theorem plan_yields (args : List Value) : Yields (Effect.Suits op args) (op.plan args st) := by
  match args with
  | [] => exact planNone_yields st op
  | [x] => exact planOne_yields st op x
  | [x, y] => exact planTwo_yields st op x y
  | [x, y, z] => exact planThree_yields st op x y z
  | _ :: _ :: _ :: _ :: _ => exact .error rfl

end Op

/-! ### Carrying out -/

namespace Heap

variable (h : Heap)

theorem writable_yields (r : Reference) : Yields (fun _ => True) (h.writable r) := by
  unfold writable
  split
  · exact .ok trivial
  · simp only [listCheck]
    split
    · exact .ok trivial
    · exact .error rfl
  · exact .error rfl

theorem listPopped_yields (r : ListRef) (index : Int64) : Yields (fun _ => True) (h.listPopped r index) := by
  simp only [listPopped]
  split
  · exact .ok trivial
  · exact .error rfl

end Heap

namespace State

/-- What carrying an effect out comes to: its value and the state with the change that the effect is for, a
fault of planning and the state as it was, or a text that the sink did not take whole. -/
inductive Performed (st : State) : Effect → Except Fault Value × State → Prop where
  | yield (p : Product) : Performed st (.yield p) (.ok (st.realize p).1, (st.realize p).2)
  | refer (container : Container) (key : Key) :
      Performed st (.refer container key)
        (.ok (.reference ⟨st.nextId, container, key⟩), { st with nextId := st.nextId + 1 })
  | store {r : Reference} {p : Product} (hwritable : st.heap.writable r = .ok ()) :
      Performed st (.store r p) (.ok (.reference r),
        { (st.realize p).2 with heap := (st.realize p).2.heap.put r (st.realize p).1 })
  | push (r : ListRef) (v : Value) :
      Performed st (.push r v) (.ok (.list r), { st with heap := st.heap.listPush r v })
  | popItem {r : ListRef} {index : Int64} {v : Value} (hpopped : st.heap.listPopped r index = .ok v) :
      Performed st (.popItem r index) (.ok v, { st with heap := st.heap.listErase r index })
  | popField {r : ObjectRef} {key : String} {v : Value} (hpopped : st.heap.objectGet r key = .ok v) :
      Performed st (.popField r key) (.ok v, { st with heap := st.heap.objectErase r key })
  | print {text : String} {sink : Sink} (hwritten : st.sink.write text = (true, sink)) :
      Performed st (.print text) (.ok .null, { st with sink := sink })
  | leave {exit : Exit} (hpending : st.pending = none) :
      Performed st (.leave exit) (.ok .null, { st with pending := some ⟨exit, st.line⟩ })
  | random {x : Float} {g : Random} (hx : 0 ≤ x ∧ x < 1) :
      Performed st .random (.ok (.float x), { st with random := g })
  | randomInt {low high n : Int64} {g : Random} (hn : low ≤ high → low ≤ n ∧ n ≤ high) :
      Performed st (.randomInt low high) (.ok (.int n), { st with random := g })
  | refused {text : String} {sink : Sink} (hwritten : st.sink.write text = (false, sink)) :
      Performed st (.print text) (.error (.output "sink full"), { st with sink := sink })
  | failed {e : Effect} {f : Fault} (hplanned : f.Planned) : Performed st e (.error f, st)

theorem performed (st : State) (e : Effect) : st.Performed e (st.perform e) := by
  cases e with
  | yield p => exact .yield p
  | refer container key => exact .refer container key
  | store r p =>
      have hyields := st.heap.writable_yields r
      unfold perform
      dsimp only
      split
      · rename_i f hcheck
        exact .failed (hyields.of_eq_error hcheck)
      · rename_i hcheck
        exact .store hcheck
  | push r v => exact .push r v
  | popItem r index =>
      have hyields := st.heap.listPopped_yields r index
      unfold perform
      dsimp only
      split
      · rename_i f hpopped
        exact .failed (hyields.of_eq_error hpopped)
      · rename_i v hpopped
        exact .popItem hpopped
  | popField r key =>
      have hyields := st.heap.objectGet_yields r key
      unfold perform
      dsimp only
      split
      · rename_i f hpopped
        exact .failed (hyields.of_eq_error hpopped)
      · rename_i v hpopped
        exact .popField hpopped
  | print text =>
      unfold perform
      dsimp only
      split
      · rename_i sink hwritten
        exact .print hwritten
      · rename_i sink hwritten
        exact .refused hwritten
  | leave exit =>
      unfold perform
      simp only [raise]
      cases hpending : st.pending with
      | none => exact .leave hpending
      | some i => exact .failed rfl
  -- All that is known of what is drawn is that it is in its range.
  | random => exact .random (st.random.generator.unit_mem _)
  | randomInt low high => exact .randomInt (st.random.generator.between_mem low high _)

variable (st : State) (op : Op) (args : List Value)

/-- An operation fails while it is planned and changes nothing, or it carries out an effect that suits it.
-/
theorem apply_cases :
    (∃ f : Fault, f.Planned ∧ st.apply op args = (.error f, st)) ∨
      ∃ e : Effect, e.Suits op args ∧ st.apply op args = st.perform e := by
  have hyields := op.plan_yields st args
  simp only [apply]
  cases hplan : op.plan args st with
  | error f => exact Or.inl ⟨f, hyields.of_eq_error hplan, rfl⟩
  | ok e => exact Or.inr ⟨e, hyields.of_eq_ok hplan, rfl⟩

variable {st op args}

/-- An operation that fails leaves the state as it was, but for a `print` that the sink refuses. -/
theorem apply_error_cases {st' : State} {f : Fault} (h : st.apply op args = (.error f, st')) :
    (f.Planned ∧ st' = st) ∨
      (op = .print ∧ (∃ text, f = .output text) ∧ st' = { st with sink := st'.sink }) := by
  rcases st.apply_cases op args with ⟨g, hg, happly⟩ | ⟨e, hsuits, happly⟩
  · rw [happly] at h
    cases h
    exact Or.inl ⟨hg, rfl⟩
  · have hperformed := st.performed e
    rw [← happly, h] at hperformed
    cases hperformed with
    | failed hplanned => exact Or.inl ⟨hplanned, rfl⟩
    | refused hwritten => exact Or.inr ⟨hsuits, ⟨_, rfl⟩, rfl⟩

/-- `random` yields a float from zero, included, to one, excluded, and moves the generator on. -/
theorem apply_random (st : State) :
    ∃ x g, st.apply .random [] = (.ok (.float x), { st with random := g }) ∧ 0 ≤ x ∧ x < 1 :=
  ⟨_, _, rfl, st.random.generator.unit_mem _⟩

/-- `random_int` yields an integer between its bounds, both included, and moves the generator on; bounds in the
wrong order are refused. -/
theorem apply_randomInt (st : State) (low high : Int64) :
    (high < low → st.apply .randomInt [.int low, .int high] =
      (.error (.invalid (.emptyRandomRange low high)), st)) ∧
    (low ≤ high → ∃ n g, st.apply .randomInt [.int low, .int high] =
      (.ok (.int n), { st with random := g }) ∧ low ≤ n ∧ n ≤ high) := by
  have hplan : Op.plan .randomInt [.int low, .int high] st =
      if high.toInt < low.toInt then .error (.invalid (.emptyRandomRange low high))
      else .ok (.randomInt low high) := rfl
  refine ⟨fun h => ?_, fun h => ?_⟩
  · simp only [apply, hplan, if_pos (Int64.lt_iff_toInt_lt.mp h)]
  · have hno : ¬ high.toInt < low.toInt := Int.not_lt.mpr (Int64.le_iff_toInt_le.mp h)
    simp only [apply, hplan, if_neg hno]
    exact ⟨_, _, rfl, st.random.generator.between_mem low high _ h⟩

/-- A failed operation has changed nothing but the sink. -/
theorem apply_error {st' : State} {f : Fault} (h : st.apply op args = (.error f, st')) :
    st' = { st with sink := st'.sink } := by
  rcases apply_error_cases h with ⟨-, rfl⟩ | ⟨-, -, hst⟩
  · rfl
  · exact hst

end State

end Stepwise
