import Stepwise.Operation.Effect

/-!
# `Stepwise.Proofs.Ranges`: ranges are arithmetic progressions

A range is made one number after the other, and there are two reasons to stop: the next number is no longer
before the end, or it is no script integer. The second one never cuts a range short. The end is a script
integer, so a sum that is beyond all script integers is beyond the end too (`not_isBefore_of_not_fits`).

* `State.range_is_progression`: a range has exactly the numbers `start`, `start + step`, … before its end,
  computed over the unbounded integers, in this order; a zero step is refused, and counting up to a number is
  the range from zero in steps of one.
-/

set_option autoImplicit false

namespace Stepwise

/-! ### Progressions -/

/-- The numbers `start`, `start + step`, … that lie before `stop`, in order. -/
def IsProgression (start stop step : Int) (numbers : List Int) : Prop :=
  ∃ count : Nat, numbers = (List.range count).map (fun (i : Nat) => start + i * step) ∧
    ∀ i : Nat, i < count ↔ IsBefore stop step (start + i * step)

variable {start stop step : Int} {numbers : List Int}

/-- What comes after a number that is not before the end is not before the end either. -/
theorem not_isBefore_add (hstep : step ≠ 0) (h : ¬ IsBefore stop step start) (i : Nat) :
    ¬ IsBefore stop step (start + i * step) := by
  unfold IsBefore at h ⊢
  rcases Int.lt_or_gt_of_ne hstep with hneg | hpos
  · have hmul : (i : Int) * step ≤ 0 := Int.mul_nonpos_of_nonneg_of_nonpos (by omega) (by omega)
    omega
  · have hmul : 0 ≤ (i : Int) * step := Int.mul_nonneg (by omega) (by omega)
    omega

/-- A sum that is no script integer is not before an end that is one. -/
theorem not_isBefore_of_not_fits (hstop : Number.Fits stop) (hstart : Number.Fits start)
    (h : ¬ Number.Fits (start + step)) : ¬ IsBefore stop step (start + step) := by
  unfold Number.Fits at hstop hstart h
  unfold IsBefore
  omega

theorem isProgression_nil (hstep : step ≠ 0) (h : ¬ IsBefore stop step start) :
    IsProgression start stop step [] :=
  ⟨0, rfl, fun i => ⟨nofun, fun hi => absurd hi (not_isBefore_add hstep h i)⟩⟩

theorem IsProgression.cons (h : IsBefore stop step start)
    (hrest : IsProgression (start + step) stop step numbers) :
    IsProgression start stop step (start :: numbers) := by
  obtain ⟨count, rfl, hcount⟩ := hrest
  -- The number of index `i + 1` from `start` is the one of index `i` from `start + step`.
  have hshift (i : Nat) : start + ((i + 1 : Nat) : Int) * step = start + step + i * step := by
    rw [Int.natCast_add, Int.add_mul]
    omega
  refine ⟨count + 1, ?_, ?_⟩
  · rw [List.range_succ_eq_map, List.map_cons, List.map_map]
    congr 1
    · omega
    · exact List.map_congr_left fun i _ => (hshift i).symm
  · intro i
    cases i with
    | zero =>
        rw [show start + ((0 : Nat) : Int) * step = start by omega]
        exact ⟨fun _ => h, fun _ => Nat.succ_pos count⟩
    | succ i =>
        rw [hshift, ← hcount]
        exact Nat.succ_lt_succ_iff

/-! ### Ranges -/

/-- What a range appends is the progression from its current number. -/
theorem appendRange_progression (stop step current : Int64) (items : Array Value) (hstep : step.toInt ≠ 0) :
    ∃ ints : List Int64, appendRange stop step current items = items ++ (ints.map Value.int).toArray ∧
      IsProgression current.toInt stop.toInt step.toInt (ints.map Int64.toInt) := by
  have hfits (i : Int64) : Number.Fits i.toInt := ⟨i.le_toInt, i.toInt_lt⟩
  fun_induction appendRange stop step current items with
  | case1 current items hbefore next hnext ih =>
      obtain ⟨ints, hitems, hrest⟩ := ih
      rw [Number.toInt_of_checked hnext] at hrest
      refine ⟨current :: ints, ?_, hrest.cons hbefore⟩
      rw [hitems]
      simp
  -- The next number does not fit, so it lies beyond any end: the progression stops here as well.
  | case2 current items hbefore hnext =>
      have hlast := not_isBefore_of_not_fits (hfits stop) (hfits current)
        (Number.checked_eq_none_iff.mp hnext)
      exact ⟨[current], by simp, (isProgression_nil hstep hlast).cons hbefore⟩
  | case3 current items hbefore => exact ⟨[], by simp, isProgression_nil hstep hbefore⟩

theorem steppedRange_of_ne (start stop step : Int64) (hstep : step.toInt ≠ 0) :
    ∃ ints : List Int64, steppedRange start stop step = .ok (ints.map Value.int).toArray ∧
      IsProgression start.toInt stop.toInt step.toInt (ints.map Int64.toInt) := by
  obtain ⟨ints, hitems, hints⟩ := appendRange_progression stop step start #[] hstep
  refine ⟨ints, ?_, hints⟩
  rw [steppedRange, if_neg hstep, hitems]
  simp

/-- The progression from zero in steps of one. -/
theorem IsProgression.eq_range {numbers : List Int} (h : IsProgression 0 stop 1 numbers) :
    numbers = (List.range stop.toNat).map fun (i : Nat) => (i : Int) := by
  obtain ⟨count, rfl, hcount⟩ := h
  have hbefore (i : Nat) : i < count ↔ (i : Int) < stop := by
    rw [hcount, IsBefore]
    omega
  have hlength : count = stop.toNat := by
    have hfirst := hbefore count
    have hlast := hbefore stop.toNat
    omega
  rw [hlength]
  exact List.map_congr_left fun i _ => by omega

/-- Counting up to a number is the range from zero in steps of one. -/
theorem steppedRange_eq_countTo (stop : Int64) : steppedRange 0 stop 1 = .ok (countTo stop) := by
  obtain ⟨ints, hitems, hints⟩ := steppedRange_of_ne 0 stop 1 (by decide)
  have hnumbers := hints.eq_range
  have hints : ints = (List.range stop.toInt.toNat).map Int64.ofNat := by
    apply (List.map_inj_right fun _ _ h => Int64.toInt_inj.mp h).mp
    rw [hnumbers, List.map_map]
    refine List.map_congr_left fun i hi => ?_
    have hlt := List.mem_range.mp hi
    have hstop := stop.toInt_lt
    exact (Int64.toInt_ofNat_of_lt (by omega)).symm
  rw [hitems, hints, countTo]
  congr 1
  apply Array.ext'
  simp

namespace State

theorem apply_rangeStep (st : State) (start stop step : Int64) :
    st.apply .rangeStep [.int start, .int stop, .int step] =
      match steppedRange start stop step with
      | .ok items => (.ok (st.makeList items).1, (st.makeList items).2)
      | .error f => (.error f, st) := by
  have hplan : Op.plan .rangeStep [.int start, .int stop, .int step] st =
      (steppedRange start stop step).map fun items => .yield (.list items) := by
    show (steppedRange start stop step >>= fun items => .ok (Effect.yield (.list items))) = _
    cases steppedRange start stop step with
    | ok items => rfl
    | error f => rfl
  rw [apply, hplan]
  cases steppedRange start stop step with
  | ok items => rfl
  | error f => rfl

/-- Counting fails for the same values as a range does, and in the same way. -/
theorem plan_range (st : State) (x : Value) :
    Op.plan .range [x] st = Op.plan .rangeStep [.int 0, x, .int 1] st := by
  show (st.heap.asInt x >>= fun stop => .ok (Effect.yield (.list (countTo stop)))) =
    (st.heap.asInt x >>= fun stop => steppedRange 0 stop 1 >>= fun items =>
      .ok (Effect.yield (.list items)))
  cases st.heap.asInt x with
  | ok stop =>
      show _ = (steppedRange 0 stop 1 >>= fun items => .ok (Effect.yield (.list items)))
      rw [steppedRange_eq_countTo]
      rfl
  | error f => rfl

/-- A range is an arithmetic progression over the unbounded integers. With a step other than zero the
operation yields a new list of script integers, whose values are `start + i * step` for `i = 0, 1, 2, …`, and
those `i` are exactly the ones for which the number lies before the end in the direction of the step. A zero
step is refused. Counting up to any value does what the range from zero in steps of one does. -/
theorem range_is_progression (st : State) :
    (∀ start stop step : Int64, step.toInt ≠ 0 →
      ∃ (ints : List Int64) (count : Nat),
        steppedRange start stop step = .ok (ints.map Value.int).toArray ∧
        st.apply .rangeStep [.int start, .int stop, .int step] =
          (.ok (st.makeList (ints.map Value.int).toArray).1, (st.makeList (ints.map Value.int).toArray).2) ∧
        ints.map Int64.toInt = (List.range count).map (fun (i : Nat) => start.toInt + i * step.toInt) ∧
        ∀ i : Nat, i < count ↔
          (0 < step.toInt ∧ start.toInt + i * step.toInt < stop.toInt) ∨
          (step.toInt < 0 ∧ stop.toInt < start.toInt + i * step.toInt)) ∧
    (∀ start stop step : Int64, step.toInt = 0 →
      st.apply .rangeStep [.int start, .int stop, .int step] = (.error (.invalid .zeroStep), st)) ∧
    (∀ x : Value, st.apply .range [x] = st.apply .rangeStep [.int 0, x, .int 1]) := by
  refine ⟨?_, ?_, ?_⟩
  · intro start stop step hstep
    obtain ⟨ints, hitems, count, hnumbers, hcount⟩ := steppedRange_of_ne start stop step hstep
    refine ⟨ints, count, hitems, ?_, hnumbers, hcount⟩
    rw [apply_rangeStep, hitems]
  · intro start stop step hstep
    rw [apply_rangeStep, steppedRange, if_pos hstep]
  · intro x
    rw [apply, apply, plan_range]

/-- A step that leads beyond the script integers at once: the range has one number. -/
theorem range_is_progression_of_one :
    ∃ ints : List Int64,
      steppedRange 9223372036854775800 9223372036854775807 9223372036854775807 =
        .ok (ints.map Value.int).toArray ∧
      ints.map Int64.toInt = [9223372036854775800] := by
  obtain ⟨ints, count, hitems, -, hnumbers, hcount⟩ := (range_is_progression default).1
    9223372036854775800 9223372036854775807 9223372036854775807 (by decide)
  have hone : count = 1 := by
    have hfirst : 0 < count := (hcount 0).mpr (by decide)
    have hsecond : ¬ 1 < count := fun h => absurd ((hcount 1).mp h) (by decide)
    omega
  refine ⟨ints, hitems, ?_⟩
  rw [hnumbers, hone]
  decide

end State

end Stepwise
