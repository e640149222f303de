import Stepwise.Number.Reading
import Stepwise.Operation.Sequence
import Stepwise.State
import Stepwise.Text.Case

/-!
# `Stepwise.Operation.Effect`: what an operation does

An operation on its arguments comes down to one `Effect`, or to a fault. Finding the effect only looks
at the state (`Op.plan`); carrying it out is the one place where an operation changes anything
(`State.perform`). So an operation that fails while it is planned leaves no trace, and each effect says
what it may touch.
-/

set_option autoImplicit false

namespace Stepwise

/-- What an operation computes: a value, or the elements of a list that is yet to be made. -/
inductive Product where
  | value (v : Value)
  | list (items : Array Value)
deriving Inhabited

/-- What an operation does. -/
inductive Effect where
  /-- Yields a product. -/
  | yield (p : Product)
  /-- Yields a new reference to a slot. -/
  | refer (container : Container) (key : Key)
  /-- Writes a product through a reference and yields the reference. -/
  | store (r : Reference) (p : Product)
  /-- Appends to a list and yields the list. -/
  | push (r : ListRef) (v : Value)
  /-- Removes an element and yields it. -/
  | popItem (r : ListRef) (index : Int64)
  /-- Removes a field and yields its value. -/
  | popField (r : ObjectRef) (key : String)
  /-- Prints a line. -/
  | print (text : String)
  /-- Sets an interrupt off. -/
  | leave (exit : Exit)
  /-- Yields a random float. -/
  | random
  /-- Yields a random integer of a range that is not empty. -/
  | randomInt (low high : Int64)
deriving Inhabited

namespace Effect

/-- Yields a value. -/
def value (v : Value) : Effect := .yield (.value v)

end Effect

namespace Heap

/-- An arithmetic operator on two values. A sum may also be of two strings or of two lists. -/
def arithmetic (h : Heap) (a : Arith) (x y : Value) : Except Fault Product :=
  match a, x, y with
  | .add, .str s, .str t => .ok (.value (.str (s ++ t)))
  | .add, .list r, .list q => .ok (.list (h.items r ++ h.items q))
  | a, x, y => do
    if a = .add ∧ (x.numeric?.isNone ∨ y.numeric?.isNone) then
      .error (.unsupportedOperands (.arith a) x.kind y.kind)
    else
      let m ← h.asNumeric x
      let n ← h.asNumeric y
      return .value (← Numeric.arithmetic a m n).toValue

/-- An order comparison of two values. -/
def compareValues (h : Heap) (c : Comparison) (x y : Value) : Except Fault Bool := do
  let m ← h.asNumeric x
  let n ← h.asNumeric y
  return c.holds (m.order? n)

/-- Selects a part of a container: a reference to a slot of an object or a list, or a character of a
text. -/
def index (x key : Value) : Except Fault Effect :=
  match x, key with
  | .object r, .str name => .ok (.refer (.object r) (.name name))
  | x, key =>
    match x, key.int? with
    | .list r, some i => .ok (.refer (.list r) (.index i))
    | .str s, some i =>
      match (resolveIndex i s.length).bind fun p => s.toList[p]? with
      | some c => .ok (.value (.str (String.singleton c)))
      | none => .error (.indexOutOfBounds i s.length)
    | x, _ => .error (.unsupportedOperands .index x.kind key.kind)

/-- Cuts a text or a list; without a second bound up to its end. -/
def slice (h : Heap) (v : Value) (start : Int64) (stop : Option Int64) : Except Fault Product :=
  match v with
  | .str s =>
    let (first, last) := sliceBounds s.length start stop
    .ok (.value (.str (String.ofList ((s.toList.drop first).take (last - first)))))
  | .list r =>
    let items := h.items r
    let (first, last) := sliceBounds items.size start stop
    .ok (.list (items.extract first last))
  | v => .error (.invalid (.slice v.kind))

/-- A value as a script integer: a number without its fraction, or a text that writes an integer. -/
def toInt (h : Heap) : Value → Except Fault Value
  | .float x => (floatToInt (truncate x)).map .int
  | .str s =>
    match Number.readInt? (Text.trimChars s.toList) with
    | some n => .ok (.int n)
    | none => .error (.invalid (.intLiteral s))
  | v =>
    if v.int?.isSome then (h.asInt v).map .int else .error (.invalid (.kindAsInt v.kind))

/-- A value as a float: a number, or a text that writes one. -/
def toFloat (h : Heap) : Value → Except Fault Value
  | .str s =>
    match Number.readFloat? (Text.trimChars s.toList) with
    | some x => .ok (.float x)
    | none => .error (.invalid (.floatLiteral s))
  | v => (h.asFloat v).map .float

/-- A function of numbers on a value. -/
def onNumeric (h : Heap) (f : Numeric → Except Fault Numeric) (v : Value) : Except Fault Effect := do
  return .value (← f (← h.asNumeric v)).toValue

/-- A function of floats on a value; `domain` may refuse it. -/
def onFloat (h : Heap) (f : Float → Float) (domain : Float → Option String) (v : Value) :
    Except Fault Effect := do
  let x ← h.asFloat v
  match domain x with
  | some text => .error (.catchable (.mathDomain text))
  | none => return .value (.float (f x))

/-- Changes the slot of a reference from its present value. -/
def change (h : Heap) (f : Value → Except Fault Product) (target : Value) : Except Fault Effect := do
  let r ← h.asReference target
  let v ← h.read r
  return .store r (← f v)

end Heap

namespace Op

/-- The fault of an operation on a wrong number of arguments. -/
def arityFault (op : Op) (count : Nat) : Fault :=
  .internal ("'" ++ op.name ++ "' applied to " ++ toString count ++ " arguments")

/-- The ratio of the circumference of a circle to its diameter. -/
def circleRatio : Float := 3.141592653589793

/-- The effect of an operation without arguments. -/
def planNone (st : State) : Op → Except Fault Effect
  | localScope => .ok (.value (.object st.scopes.current))
  | globalScope => .ok (.value (.object st.scopes.global))
  | breakLoop => .ok (.leave .broke)
  | continueLoop => .ok (.leave .continued)
  | pi => .ok (.value (.float circleRatio))
  | random => .ok .random
  | op => .error (op.arityFault 0)

/-- The effect of an operation on one argument. -/
def planOne (st : State) (x : Value) : Op → Except Fault Effect
  | neg => st.heap.onNumeric Numeric.negate x
  | not => .ok (.value (.bool (!st.heap.truthy x)))
  -- These three read the slot and write it back, and yield its reference.
  | increment =>
    st.heap.change (fun v => do
      let n ← st.heap.asNumeric v
      return .value (← n.shift increment 1).toValue) x
  | decrement =>
    st.heap.change (fun v => do
      let n ← st.heap.asNumeric v
      return .value (← n.shift decrement (-1)).toValue) x
  | invert => st.heap.change (fun v => .ok (.value (.bool (!st.heap.truthy v)))) x
  | print => .ok (.print (st.heap.displayAlone x ++ "\n"))
  | returnValue => .ok (.leave (.returned x))
  | throwValue => .ok (.leave (.thrown x))
  | len => (st.heap.length x).map .value
  | upper => do
    let s ← st.heap.asStr x
    return .value (.str (Text.upper s))
  | lower => do
    let s ← st.heap.asStr x
    return .value (.str (Text.lower s))
  | range => do
    let stop ← st.heap.asInt x
    return .yield (.list (countTo stop))
  | keys => do
    let r ← st.heap.asObject x
    return .yield (.list ((st.heap.fields r).keys.map Value.str).toArray)
  | values => do
    let r ← st.heap.asObject x
    return .yield (.list (st.heap.fields r).values.toArray)
  | abs => st.heap.onNumeric Numeric.absolute x
  | floor => st.heap.onNumeric (Numeric.rounded Float.floor) x
  | ceil => st.heap.onNumeric (Numeric.rounded Float.ceil) x
  | round => st.heap.onNumeric (Numeric.rounded Number.roundEven) x
  | sqrt =>
    st.heap.onFloat Float.sqrt
      (fun a => if a < 0.0 then some "square root of a negative number" else none) x
  | log =>
    st.heap.onFloat Float.log
      (fun a => if a ≤ 0.0 then some "logarithm of a non-positive number" else none) x
  | sin => st.heap.onFloat Float.sin (fun _ => none) x
  | cos => st.heap.onFloat Float.cos (fun _ => none) x
  | tan => st.heap.onFloat Float.tan (fun _ => none) x
  | str => .ok (.value (.str (st.heap.displayAlone x)))
  | int => (st.heap.toInt x).map .value
  | float => (st.heap.toFloat x).map .value
  | type => .ok (.value (.str x.kind.name))
  | op => .error (op.arityFault 1)

/-- The greater or the lesser of two values: the first one only if it compares as `wanted`. -/
def select (h : Heap) (wanted : Ordering) (x y : Value) : Except Fault Effect := do
  let m ← h.asNumeric x
  let n ← h.asNumeric y
  return .value (if m.order? n == some wanted then x else y)

/-- The effect of an operation on two arguments. -/
def planTwo (st : State) (x y : Value) : Op → Except Fault Effect
  | arith a => (st.heap.arithmetic a x y).map .yield
  | compare c => (st.heap.compareValues c x y).map fun b => .value (.bool b)
  | equal => .ok (.value (.bool (st.heap.equal x y)))
  | differ => .ok (.value (.bool (!st.heap.equal x y)))
  | index => Heap.index x y
  | assign => do
    let r ← st.heap.asReference x
    return .store r (.value y)
  | update a => st.heap.change (fun v => st.heap.arithmetic a v y) x
  | sliceAfter => do
    let start ← st.heap.asInt y
    return .yield (← st.heap.slice x start none)
  | find => (st.heap.find x y).map .value
  | merge => do
    let r ← st.heap.asList x
    let q ← st.heap.asList y
    return .yield (.list (st.heap.items r ++ st.heap.items q))
  | pop =>
    match x with
    | .list r => do
      let i ← st.heap.asInt y
      return .popItem r i
    | x => do
      let r ← st.heap.asObject x
      let key ← st.heap.asStr y
      return .popField r key
  | push => do
    let r ← st.heap.asList x
    return .push r y
  | max => select st.heap .gt x y
  | min => select st.heap .lt x y
  | randomInt => do
    let low ← st.heap.asInt x
    let high ← st.heap.asInt y
    if high.toInt < low.toInt then .error (.invalid (.emptyRandomRange low high))
    else return .randomInt low high
  | op => .error (op.arityFault 2)

/-- The effect of an operation on three arguments. -/
def planThree (st : State) (x y z : Value) : Op → Except Fault Effect
  | slice => do
    let start ← st.heap.asInt y
    let stop ← st.heap.asInt z
    return .yield (← st.heap.slice x start (some stop))
  | replace => do
    let s ← st.heap.asStr x
    let pattern ← st.heap.asStr y
    let replacement ← st.heap.asStr z
    return .value (.str (Text.replaceAll s pattern replacement))
  | rangeStep => do
    let start ← st.heap.asInt x
    let stop ← st.heap.asInt y
    let step ← st.heap.asInt z
    return .yield (.list (← steppedRange start stop step))
  | op => .error (op.arityFault 3)

/-- The effect of an operation on its arguments. -/
def plan (op : Op) (args : List Value) (st : State) : Except Fault Effect :=
  match args with
  | [] => planNone st op
  | [x] => planOne st x op
  | [x, y] => planTwo st x y op
  | [x, y, z] => planThree st x y z op
  | args => .error (op.arityFault args.length)

end Op

namespace State

/-- Makes the list of a product that is one. -/
def realize (st : State) : Product → Value × State
  | .value v => (v, st)
  | .list items => st.makeList items

/-- Carries an effect out and yields the value of the operation. -/
def perform (st : State) : Effect → Except Fault Value × State
  | .yield p =>
    let (v, st) := st.realize p
    (.ok v, st)
  | .refer container key =>
    let (v, st) := st.makeReference container key
    (.ok v, st)
  | .store r p =>
    match st.heap.writable r with
    -- A slot that cannot be written is refused before a list is made for it.
    | .error f => (.error f, st)
    | .ok () =>
      let (v, st) := st.realize p
      (.ok (.reference r), { st with heap := st.heap.put r v })
  | .push r v => (.ok (.list r), { st with heap := st.heap.listPush r v })
  | .popItem r index =>
    match st.heap.listPopped r index with
    | .error f => (.error f, st)
    | .ok v => (.ok v, { st with heap := st.heap.listErase r index })
  | .popField r key =>
    match st.heap.objectGet r key with
    | .error f => (.error f, st)
    | .ok v => (.ok v, { st with heap := st.heap.objectErase r key })
  | .print text =>
    match st.sink.write text with
    | (true, sink) => (.ok .null, { st with sink := sink })
    -- What was accepted stays accepted.
    | (false, sink) => (.error (.output "sink full"), { st with sink := sink })
  | .leave exit =>
    match st.raise exit with
    | (.ok (), st) => (.ok .null, st)
    | (.error f, st) => (.error f, st)
  | .random =>
    let (x, random) := st.random.unit
    (.ok (.float x), { st with random := random })
  | .randomInt low high =>
    let (n, random) := st.random.between low high
    (.ok (.int n), { st with random := random })

/-- Applies an operation to its arguments. -/
def apply (st : State) (op : Op) (args : List Value) : Except Fault Value × State :=
  match op.plan args st with
  | .ok effect => st.perform effect
  | .error f => (.error f, st)

/-- An operation that only computes a value leaves the state as it is. -/
theorem apply_of_value {st : State} {op : Op} {args : List Value} {r : Except Fault Value}
    (h : op.plan args st = r.map .value) : st.apply op args = (r, st) := by
  rw [apply, h]
  cases r with
  | ok v => rfl
  | error f => rfl

end State

end Stepwise
