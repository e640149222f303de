import Stepwise.Heap.Cast
import Stepwise.Heap.Equality
import Stepwise.Operation.Arithmetic
import Stepwise.Text.Search

/-!
# `Stepwise.Operation.Sequence`: lengths, slices, searches and ranges

Positions in a text count characters. A slice takes the positions from one bound up to another; a
bound counts from the end if it is negative, and bounds outside are moved to the nearest end.
`sliceBounds_le` says that a slice always lies inside its sequence.
-/

set_option autoImplicit false

namespace Stepwise

/-- Moves a bound into a sequence of `len` elements; a negative bound counts from the end. -/
def clampBound (len : Nat) (i : Int64) : Nat :=
  if i.toInt < 0 then (i.toInt + len).toNat else min i.toInt.toNat len

/-- The positions of a slice: the first one, and the one after the last. -/
def sliceBounds (len : Nat) (start : Int64) (stop : Option Int64) : Nat × Nat :=
  let first := clampBound len start
  let last := match stop with
    | none => len
    | some i => clampBound len i
  (first, max first last)

/-- A bound that is moved into a sequence is inside of it. -/
theorem clampBound_le (len : Nat) (i : Int64) : clampBound len i ≤ len := by
  unfold clampBound
  split
  · omega
  · exact Nat.min_le_right _ _

/-- The bounds of a slice are in order and inside the sequence. -/
theorem sliceBounds_le (len : Nat) (start : Int64) (stop : Option Int64) :
    (sliceBounds len start stop).1 ≤ (sliceBounds len start stop).2 ∧
      (sliceBounds len start stop).2 ≤ len := by
  have hstart := clampBound_le len start
  cases stop with
  | none =>
      simp only [sliceBounds]
      omega
  | some i =>
      have hstop := clampBound_le len i
      simp only [sliceBounds]
      omega

/-- Whether a number lies before `stop`, in the direction of `step`. -/
def IsBefore (stop step current : Int) : Prop :=
  (0 < step ∧ current < stop) ∨ (step < 0 ∧ stop < current)

instance (stop step current : Int) : Decidable (IsBefore stop step current) :=
  inferInstanceAs (Decidable (_ ∨ _))

/-- How far it is from a number to `stop`, in the direction of `step`. -/
def distance (stop step current : Int) : Nat :=
  if 0 < step then (stop - current).toNat else (current - stop).toNat

/-- A step from a number before `stop` makes the way shorter, even if it leads past `stop`. -/
theorem distance_add_lt {stop step current : Int} (h : IsBefore stop step current) :
    distance stop step (current + step) < distance stop step current := by
  unfold distance
  rcases h with ⟨hstep, hbefore⟩ | ⟨hstep, hbefore⟩
  · rw [if_pos hstep, if_pos hstep]
    omega
  · rw [if_neg (by omega), if_neg (by omega)]
    omega

/-- Appends `current`, `current + step`, … as long as they lie before `stop`. A sum that is no script
integer ends the range too. -/
def appendRange (stop step current : Int64) (items : Array Value) : Array Value :=
  if _hbefore : IsBefore stop.toInt step.toInt current.toInt then
    match _hnext : Number.checked (current.toInt + step.toInt) with
    | some next => appendRange stop step next (items.push (.int current))
    -- No bound lies beyond the integers, so the next number would not be before `stop` either.
    | none => items.push (.int current)
  else items
termination_by distance stop.toInt step.toInt current.toInt
decreasing_by
  rw [Number.toInt_of_checked _hnext]
  exact distance_add_lt _hbefore

/-- The script integers `start`, `start + step`, … before `stop`; the step must not be zero. -/
def steppedRange (start stop step : Int64) : Except Fault (Array Value) :=
  if step.toInt = 0 then .error (.invalid .zeroStep)
  else .ok (appendRange stop step start #[])

/-- The script integers from zero up to a bound; there are none if the bound is negative. -/
def countTo (stop : Int64) : Array Value :=
  (Array.range stop.toInt.toNat).map fun i => .int (Int64.ofNat i)

namespace Heap

/-- The number of characters, elements or fields of a value. -/
def length (h : Heap) (v : Value) : Except Fault Value := do
  let n ← match v with
    | .str s => .ok s.length
    | .list r => .ok (h.items r).size
    | .object r => .ok (h.fields r).size
    | v => .error (.invalid (.length v.kind))
  return .int (← fitting .len (n : Nat))

/-- The position of the first part of a value that is equal to another one: an index in a text or a
list, with -1 for none, or a key of an object, with null for none. -/
def find (h : Heap) (v needle : Value) : Except Fault Value := do
  let position (i? : Option Nat) : Except Fault Value :=
    match i? with
    | none => .ok (.int (-1))
    | some i => (fitting .find i).map .int
  match v with
  | .str s => do
    let t ← h.asStr needle
    position (Text.findFrom? t.toList s.toList 0)
  | .list r => position ((h.items r).toList.findIdx? fun item => h.equal item needle)
  | .object r =>
    match (h.fields r).entries.find? fun e => h.equal e.2 needle with
    | some e => .ok (.str e.1)
    | none => .ok .null
  | v => .error (.invalid (.find v.kind))

end Heap

end Stepwise
