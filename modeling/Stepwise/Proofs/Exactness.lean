import Mathlib
import Stepwise.Proofs.Footprint
import Stepwise.Proofs.Widening

/-!
# `Stepwise.Proofs.Exactness`: arithmetic on script integers

Arithmetic on script integers is arithmetic on integers, as long as the result is a script integer. The
integer that an operation should give is `Op.exactResult?`, which knows nothing of 64 bits.

* `State.integer_results_exact`: an operation that gives an integer gives the exact one, a division fails
  for a zero divisor and for no other, and the operations that check their result itself refuse it exactly
  if it does not fit.
* `State.overflow_of_remainder_and_power`: the remainder and the power do not check their result itself.
  When they refuse it is said here, and `State.overflow_without_cause` has the cases in which the result
  that they refuse would fit.

An operation that writes a slot takes what is in the slot for its first operand (`State.WorksOn`), and
its result is what is in the slot afterwards (`State.computed`). Both kinds of operations come down to one
function of integers (`computed_eq`), so the rest is about integers alone.
-/

set_option autoImplicit false

namespace Stepwise

/-! ### Exact results -/

/-- The exact result of an operator on two integers. A quotient is cut toward zero, and a remainder has
the sign of the dividend; there is none by zero. A power has an exponent that is not negative. The
operator `/` is not one of integers. -/
def Arith.exactResult? : Arith → Int → Int → Option Int
  | .add, m, n => some (m + n)
  | .sub, m, n => some (m - n)
  | .mul, m, n => some (m * n)
  | .div, _, _ => none
  | .intDiv, m, n => if n = 0 then none else some (m.tdiv n)
  | .mod, m, n => if n = 0 then none else some (m.tmod n)
  | .pow, m, n => if n < 0 then none else some (m ^ n.toNat)

namespace Op

/-- The exact result of an operation on integers. -/
def exactResult? : Op → List Int → Option Int
  | arith a, [m, n] | update a, [m, n] => a.exactResult? m n
  | neg, [n] => some (-n)
  | abs, [n] => some |n|
  | increment, [n] => some (n + 1)
  | decrement, [n] => some (n - 1)
  | _, _ => none

/-- Whether an operation divides and gives the quotient or the remainder as an integer. -/
def divides : Op → Bool
  | arith a | update a => a = .intDiv ∨ a = .mod
  | _ => false

/-- Whether an operation of integer arithmetic checks its result itself: all do but the remainder and the
power. -/
def checksResult : Op → Bool
  | arith a | update a => a = .add ∨ a = .sub ∨ a = .mul ∨ a = .intDiv
  | neg | abs | increment | decrement => true
  | _ => false

/-- The operation that an overflow names: for a compound assignment it is the operator. -/
def operator : Op → Op
  | update a => arith a
  | op => op

/-- What an operation of integer arithmetic does with script integers. -/
def onIntegers : Op → List Int64 → Except Fault Numeric
  | arith a, [m, n] | update a, [m, n] => Numeric.arithmetic a (.int m) (.int n)
  | neg, [n] => Numeric.negate (.int n)
  | abs, [n] => Numeric.absolute (.int n)
  | increment, [n] => Numeric.shift increment 1 (.int n)
  | decrement, [n] => Numeric.shift decrement (-1) (.int n)
  | op, ns => .error (op.arityFault ns.length)

end Op

/-! ### Operands and results in a state -/

namespace State

/-- The script integers that an operation of integer arithmetic works on: those of its arguments, where an
operation that writes a slot has what is in the slot for its first operand. A truth value counts as zero or
one. -/
inductive WorksOn (st : State) : Op → List Value → List Int64 → Prop where
  | binary {a : Arith} {x y : Value} {m n : Int64} (hx : x.int? = some m) (hy : y.int? = some n) :
      WorksOn st (.arith a) [x, y] [m, n]
  | compound {a : Arith} {r : Reference} {v y : Value} {m n : Int64} (hread : st.heap.read r = .ok v)
      (hv : v.int? = some m) (hy : y.int? = some n) : WorksOn st (.update a) [.reference r, y] [m, n]
  | opposite {x : Value} {n : Int64} (hx : x.int? = some n) : WorksOn st .neg [x] [n]
  | absolute {x : Value} {n : Int64} (hx : x.int? = some n) : WorksOn st .abs [x] [n]
  | stepUp {r : Reference} {v : Value} {n : Int64} (hread : st.heap.read r = .ok v)
      (hv : v.int? = some n) : WorksOn st .increment [.reference r] [n]
  | stepDown {r : Reference} {v : Value} {n : Int64} (hread : st.heap.read r = .ok v)
      (hv : v.int? = some n) : WorksOn st .decrement [.reference r] [n]

/-- What an operation computes: the value that it yields, or the one that is in the slot after it has
written there. -/
def computed (st : State) (op : Op) (args : List Value) : Except Fault Value :=
  match st.apply op args with
  | (.ok v, st) => if op.assigns then st.heap.deref v else .ok v
  | (.error f, _) => .error f

end State

theorem Value.numeric?_of_int? {v : Value} {n : Int64} (h : v.int? = some n) :
    v.numeric? = some (.int n) := by
  cases v with
  | bool b => cases h; rfl
  | int i => cases h; rfl
  | _ => cases h

namespace Heap

variable (h : Heap)

theorem asNumeric_of_int? {v : Value} {n : Int64} (hv : v.int? = some n) : h.asNumeric v = .ok (.int n) := by
  rw [asNumeric, Value.numeric?_of_int? hv]

/-- On script integers an operator is one of numbers, and the sum is no concatenation. -/
theorem arithmetic_of_int? (a : Arith) {x y : Value} {m n : Int64} (hx : x.int? = some m)
    (hy : y.int? = some n) :
    h.arithmetic a x y = (Numeric.arithmetic a (.int m) (.int n)).map fun z => .value z.toValue := by
  -- Neither operand is a string or a list, so the operator is not one on texts or on lists.
  have hplain : h.arithmetic a x y = do
      if a = .add ∧ (x.numeric?.isNone ∨ y.numeric?.isNone) then
        .error (.unsupportedOperands (.arith a) x.kind y.kind)
      else
        let m ← h.asNumeric x
        let n ← h.asNumeric y
        return .value (← Numeric.arithmetic a m n).toValue := by
    cases x with
    | bool b => cases a <;> rfl
    | int i => cases a <;> rfl
    | _ => cases hx
  rw [hplain, if_neg (by simp [Value.numeric?_of_int? hx, Value.numeric?_of_int? hy]),
    h.asNumeric_of_int? hx, h.asNumeric_of_int? hy]
  show (Numeric.arithmetic a (.int m) (.int n) >>= fun z => .ok (Product.value z.toValue)) = _
  cases Numeric.arithmetic a (.int m) (.int n) with
  | ok z => rfl
  | error f => rfl

end Heap

namespace State

variable {st : State}

/-- An operation that changes a slot computes what it makes of the value in the slot. -/
theorem computed_of_change {op : Op} {args : List Value} {r : Reference} {v : Value}
    {f : Value → Except Fault Product} {o : Except Fault Value} (hassigns : op.assigns = true)
    (hplan : op.plan args st = st.heap.change f (.reference r)) (hread : st.heap.read r = .ok v)
    (hf : f v = o.map .value) : st.computed op args = o := by
  have hchange : op.plan args st = (f v).map (.store r) := by
    rw [hplan]
    show (st.heap.read r >>= fun v => f v >>= fun p => .ok (Effect.store r p)) = _
    rw [hread]
    show (f v >>= fun p => .ok (Effect.store r p)) = _
    cases f v with
    | ok p => rfl
    | error fault => rfl
  rw [computed, apply, hchange, hf]
  cases o with
  | error fault => rfl
  | ok z =>
      -- The slot was read, so it can be written, and then read again.
      obtain ⟨hwritable, hmemory⟩ := Heap.writable_of_read hread
      have hput := Heap.read_put hwritable hmemory z
      simp only [Except.map, perform, hwritable, realize, hassigns, if_true, Heap.deref]
      exact hput

/-- An operation that yields the value of a plan computes this value. -/
theorem computed_of_yield {op : Op} {args : List Value} {o : Except Fault Value}
    (hassigns : op.assigns = false) (hplan : op.plan args st = o.map .value) :
    st.computed op args = o := by
  rw [computed, apply, hplan]
  cases o with
  | error fault => rfl
  | ok z => simp only [Except.map, Effect.value, perform, realize, hassigns, Bool.false_eq_true, if_false]

/-- A step up or down from a script integer. -/
theorem shift_of_int? (h : Heap) (op : Op) (delta : Int) {v : Value} {n : Int64} (hv : v.int? = some n) :
    (do
      let m ← h.asNumeric v
      return Product.value (← m.shift op delta).toValue) =
      ((Numeric.shift op delta (.int n)).map Numeric.toValue).map .value := by
  rw [h.asNumeric_of_int? hv]
  show (Numeric.shift op delta (.int n) >>= fun z => .ok (Product.value z.toValue)) = _
  cases Numeric.shift op delta (.int n) with
  | ok z => rfl
  | error f => rfl

/-- A function of numbers on a script integer. -/
theorem onNumeric_of_int? (h : Heap) (f : Numeric → Except Fault Numeric) {v : Value} {n : Int64}
    (hv : v.int? = some n) : h.onNumeric f v = ((f (.int n)).map Numeric.toValue).map .value := by
  show (h.asNumeric v >>= fun m => f m >>= fun z => .ok (Effect.value z.toValue)) = _
  rw [h.asNumeric_of_int? hv]
  show (f (.int n) >>= fun z => .ok (Effect.value z.toValue)) = _
  cases f (.int n) with
  | ok z => rfl
  | error fault => rfl

/-- An operation of integer arithmetic computes its function of the integers that it works on. -/
theorem computed_eq {op : Op} {args : List Value} {ints : List Int64} (h : st.WorksOn op args ints) :
    st.computed op args = (op.onIntegers ints).map Numeric.toValue := by
  cases h with
  -- The value is yielded for an operator and stored for an assignment; what is computed is the same.
  | @binary a x y m n hx hy =>
      refine computed_of_yield rfl ?_
      show (st.heap.arithmetic a x y).map Effect.yield = _
      rw [st.heap.arithmetic_of_int? a hx hy]
      show _ = ((Numeric.arithmetic a (.int m) (.int n)).map Numeric.toValue).map Effect.value
      cases Numeric.arithmetic a (.int m) (.int n) with
      | ok z => rfl
      | error f => rfl
  | @compound a r v y m n hread hv hy =>
      refine computed_of_change rfl rfl hread ?_
      rw [st.heap.arithmetic_of_int? a hv hy]
      show _ = ((Numeric.arithmetic a (.int m) (.int n)).map Numeric.toValue).map Product.value
      cases Numeric.arithmetic a (.int m) (.int n) with
      | ok z => rfl
      | error f => rfl
  | opposite hx => exact computed_of_yield rfl (onNumeric_of_int? st.heap Numeric.negate hx)
  | @absolute x n hx =>
      have hplan := onNumeric_of_int? st.heap Numeric.absolute hx
      exact computed_of_yield rfl hplan
  | stepUp hread hv => exact computed_of_change rfl rfl hread (shift_of_int? st.heap .increment 1 hv)
  | stepDown hread hv => exact computed_of_change rfl rfl hread (shift_of_int? st.heap .decrement (-1) hv)

end State

/-! ### Results that fit -/

theorem fitting_of_fits (op : Op) {e : Int} (h : Number.Fits e) :
    ∃ i, fitting op e = .ok i ∧ i.toInt = e := by
  refine ⟨Int64.ofInt e, ?_, Int64.toInt_ofInt_of_le h.1 h.2⟩
  rw [fitting, Number.checked, if_pos h]

theorem fitting_of_not_fits (op : Op) {e : Int} (h : ¬ Number.Fits e) :
    fitting op e = .error (.overflow op) := by
  rw [fitting, Number.checked_eq_none_iff.mpr h]

/-- What is accepted is the exact result. -/
theorem eq_of_fitting {op : Op} {e : Int} {i : Int64} (h : (fitting op e).map Numeric.int = .ok (.int i)) :
    e = i.toInt := by
  by_cases hfits : Number.Fits e
  · obtain ⟨j, hj, hexact⟩ := fitting_of_fits op hfits
    rw [hj] at h
    cases h
    exact hexact.symm
  · rw [fitting_of_not_fits op hfits] at h
    cases h

/-- A remainder of script integers fits, as it is no larger than the dividend. -/
theorem fits_tmod (m n : Int64) : Number.Fits (m.toInt.tmod n.toInt) := by
  have hlow := m.le_toInt
  have hhigh := m.toInt_lt
  have hsize : (m.toInt.tmod n.toInt).natAbs ≤ m.toInt.natAbs := by
    rw [Int.natAbs_tmod]
    exact Nat.mod_le _ _
  unfold Number.Fits
  rcases Int.le_total 0 m.toInt with hm | hm
  · have hsign := Int.tmod_nonneg n.toInt hm
    omega
  · have hsign := Int.tmod_nonneg n.toInt (Int.neg_nonneg_of_nonpos hm)
    rw [Int.neg_tmod] at hsign
    omega

/-- The one quotient of script integers that does not fit. -/
theorem fits_tdiv_iff {m n : Int64} (hn : n.toInt ≠ 0) :
    Number.Fits (m.toInt.tdiv n.toInt) ↔ ¬ (m.toInt = -9223372036854775808 ∧ n.toInt = -1) := by
  have hlow := m.le_toInt
  have hhigh := m.toInt_lt
  by_cases hone : n.toInt = -1
  · have hneg : m.toInt.tdiv (-1) = -m.toInt := by rw [Int.tdiv_neg, Int.tdiv_one]
    rw [hone, hneg]
    unfold Number.Fits
    omega
  · refine ⟨fun _ h => hone h.2, fun _ => ?_⟩
    have hsize := Int.natAbs_tdiv_le_natAbs m.toInt n.toInt
    unfold Number.Fits
    -- Only a quotient as large as the least script integer could be too large, and then the divisor is one.
    by_cases hpos : n.toInt = 1
    · rw [hpos, Int.tdiv_one]
      omega
    · have hhalf : (m.toInt.tdiv n.toInt).natAbs ≤ m.toInt.natAbs / 2 := by
        rw [Int.natAbs_tdiv]
        exact Nat.div_le_div_left (by omega) (by decide)
      omega

/-- A power of at least 64 factors does not fit, unless the factors are too small to grow. -/
theorem not_fits_pow {base : Int} {exponent : Nat} (hbase : 1 < base.natAbs) (hlong : 64 ≤ exponent) :
    ¬ Number.Fits (base ^ exponent) := by
  have hsize : 2 ^ 64 ≤ (base ^ exponent).natAbs := by
    rw [Int.natAbs_pow]
    calc 2 ^ 64 ≤ 2 ^ exponent := Nat.pow_le_pow_right (by decide) hlong
      _ ≤ base.natAbs ^ exponent := Nat.pow_le_pow_left hbase exponent
  unfold Number.Fits
  omega

/-- Of a base that does not grow only the parity of the exponent matters. -/
theorem pow_parity {base : Int} (hbase : base.natAbs ≤ 1) {exponent : Nat} (hpos : exponent ≠ 0) :
    base ^ (2 - exponent % 2) = base ^ exponent := by
  obtain rfl | rfl | rfl : base = -1 ∨ base = 0 ∨ base = 1 := by omega
  · rcases Nat.even_or_odd exponent with heven | hodd
    · rw [Nat.even_iff.mp heven, heven.neg_one_pow]
      rfl
    · rw [Nat.odd_iff.mp hodd, hodd.neg_one_pow]
      rfl
  · rw [zero_pow hpos, zero_pow (by omega)]
  · rw [one_pow, one_pow]

/-- The power is accepted if it fits, for the exponents that are not refused from the start. -/
theorem intPower?_eq (base : Int) {exponent : Nat} (h : exponent < 4294967296) :
    intPower? base exponent = Number.checked (base ^ exponent) := by
  rw [intPower?, if_neg (by omega)]
  split
  -- A base of -1, 0 or 1 comes back to itself, however large the exponent is.
  · rename_i hsmall
    split
    · rename_i hzero
      rw [hzero]
      rfl
    · rename_i hpos
      exact congrArg Number.checked (pow_parity hsmall hpos)
  · rename_i hlarge
    split
    -- Any other base is at least doubled each time, which is too often.
    · rename_i hlong
      exact (Number.checked_eq_none_iff.mpr (not_fits_pow (by omega) hlong)).symm
    · rfl

theorem intPower?_of_large (base : Int) {exponent : Nat} (h : 4294967296 ≤ exponent) :
    intPower? base exponent = none := by
  rw [intPower?, if_pos h]

/-! ### Operators -/

namespace Numeric

/-- A divisor is tested as a float, which is as good as a test of the integer. -/
theorem nonZero_int (n : Int64) :
    nonZero (.int n) = if n.toInt = 0 then .error (.catchable .zeroDivision) else .ok () := by
  have hzero : isZero (.int n) = true ↔ n.toInt = 0 := Number.floatOfInt_eq_zero_iff n
  rw [nonZero]
  by_cases hn : n.toInt = 0
  · rw [if_pos hn, if_pos (hzero.mpr hn)]
  · rw [if_neg hn, if_neg (fun h => hn (hzero.mp h))]

theorem arithmetic_zero_divisor {a : Arith} (ha : a = .intDiv ∨ a = .mod) (m : Int64) {n : Int64}
    (hn : n.toInt = 0) : arithmetic a (.int m) (.int n) = .error (.catchable .zeroDivision) := by
  rcases ha with rfl | rfl
  · show (nonZero (.int n) >>= fun _ => quotient (.int m) (.int n)) = _
    rw [nonZero_int, if_pos hn]
    rfl
  · show (nonZero (.int n) >>= fun _ => remainder (.int m) (.int n)) = _
    rw [nonZero_int, if_pos hn]
    rfl

theorem arithmetic_intDiv (m : Int64) {n : Int64} (hn : n.toInt ≠ 0) :
    arithmetic .intDiv (.int m) (.int n) =
      (fitting (.arith .intDiv) (m.toInt.tdiv n.toInt)).map .int := by
  show (nonZero (.int n) >>= fun _ => quotient (.int m) (.int n)) = _
  rw [nonZero_int, if_neg hn]
  rfl

/-- The remainder is refused if the quotient does not fit. -/
theorem arithmetic_mod (m : Int64) {n : Int64} (hn : n.toInt ≠ 0) :
    arithmetic .mod (.int m) (.int n) =
      (fitting (.arith .mod) (m.toInt.tdiv n.toInt)).map
        fun _ => .int (Int64.ofInt (m.toInt.tmod n.toInt)) := by
  show (nonZero (.int n) >>= fun _ => remainder (.int m) (.int n)) = _
  rw [nonZero_int, if_neg hn]
  show (fitting (.arith .mod) (m.toInt.tdiv n.toInt) >>= fun _ =>
    .ok (Numeric.int (Int64.ofInt (m.toInt.tmod n.toInt)))) = _
  cases fitting (.arith .mod) (m.toInt.tdiv n.toInt) with
  | ok i => rfl
  | error f => rfl

theorem arithmetic_pow (m : Int64) {n : Int64} (hn : 0 ≤ n.toInt) :
    arithmetic .pow (.int m) (.int n) =
      match intPower? m.toInt n.toInt.toNat with
      | some i => .ok (.int i)
      | none => .error (.overflow (.arith .pow)) := by
  -- The exponent is not negative as a float either, so the base zero is no special case.
  have hfloat : ¬ (Numeric.int n).toFloat < 0.0 := by
    rw [show (Numeric.int n).toFloat = floatOfInt n from rfl, Number.floatOfInt_neg_iff]
    omega
  simp only [arithmetic, hfloat, decide_false, Bool.and_false, Bool.false_eq_true, if_false]
  rw [power]
  exact if_pos hn

/-- A negative exponent gives no integer. -/
theorem arithmetic_pow_of_neg (m : Int64) {n : Int64} (hn : n.toInt < 0) (i : Int64) :
    arithmetic .pow (.int m) (.int n) ≠ .ok (.int i) := by
  intro h
  simp only [arithmetic] at h
  split at h
  · cases h
  · rw [power, if_neg (by omega)] at h
    cases h

/-- An operator on script integers that gives an integer gives the exact one. -/
theorem exactResult?_of_arithmetic {a : Arith} {m n i : Int64}
    (h : arithmetic a (.int m) (.int n) = .ok (.int i)) :
    a.exactResult? m.toInt n.toInt = some i.toInt := by
  cases a with
  | add => exact congrArg some (eq_of_fitting h)
  | sub => exact congrArg some (eq_of_fitting h)
  | mul => exact congrArg some (eq_of_fitting h)
  | div =>
      -- The quotient of `/` is a float, or there is none.
      change (nonZero (.int n) >>= fun _ => .ok (Numeric.float _)) = _ at h
      cases hzero : nonZero (.int n) with
      | ok u => rw [hzero] at h; cases h
      | error f => rw [hzero] at h; cases h
  | intDiv =>
      by_cases hn : n.toInt = 0
      · rw [arithmetic_zero_divisor (Or.inl rfl) m hn] at h
        cases h
      · rw [arithmetic_intDiv m hn] at h
        rw [Arith.exactResult?, if_neg hn]
        exact congrArg some (eq_of_fitting h)
  | mod =>
      by_cases hn : n.toInt = 0
      · rw [arithmetic_zero_divisor (Or.inr rfl) m hn] at h
        cases h
      · rw [arithmetic_mod m hn] at h
        have hfits := fits_tmod m n
        cases hq : fitting (.arith .mod) (m.toInt.tdiv n.toInt) with
        | error f => rw [hq] at h; cases h
        | ok q =>
            rw [hq] at h
            cases h
            rw [Arith.exactResult?, if_neg hn, Int64.toInt_ofInt_of_le hfits.1 hfits.2]
  | pow =>
      by_cases hn : n.toInt < 0
      · exact absurd h (arithmetic_pow_of_neg m hn i)
      · rw [arithmetic_pow m (by omega)] at h
        rw [Arith.exactResult?, if_neg hn]
        by_cases hlarge : 4294967296 ≤ n.toInt.toNat
        · rw [intPower?_of_large _ hlarge] at h
          cases h
        · rw [intPower?_eq _ (by omega)] at h
          cases hpower : Number.checked (m.toInt ^ n.toInt.toNat) with
          | none => rw [hpower] at h; cases h
          | some j =>
              rw [hpower] at h
              cases h
              rw [Number.toInt_of_checked hpower]

/-- An operator that checks its result itself gives the exact one if it fits. -/
theorem arithmetic_eq_fitting {a : Arith} (ha : a = .add ∨ a = .sub ∨ a = .mul ∨ a = .intDiv)
    {m n : Int64} {e : Int} (he : a.exactResult? m.toInt n.toInt = some e) :
    arithmetic a (.int m) (.int n) = (fitting (.arith a) e).map .int := by
  rcases ha with rfl | rfl | rfl | rfl
  · cases he
    rfl
  · cases he
    rfl
  · cases he
    rfl
  · by_cases hn : n.toInt = 0
    · rw [Arith.exactResult?, if_pos hn] at he
      cases he
    · rw [Arith.exactResult?, if_neg hn] at he
      cases he
      exact arithmetic_intDiv m hn

/-- A division fails for a zero divisor and for no other. -/
theorem zeroDivision_iff {a : Arith} (ha : a = .intDiv ∨ a = .mod) (m n : Int64) :
    arithmetic a (.int m) (.int n) = .error (.catchable .zeroDivision) ↔ n = 0 := by
  have hzero : n = 0 ↔ n.toInt = 0 := Int64.toInt_inj.symm
  rw [hzero]
  refine ⟨fun h => ?_, arithmetic_zero_divisor ha m⟩
  by_contra hn
  -- With another divisor the only fault is that of a result that does not fit.
  have hfits {o : Op} {e : Int} {k : Int64 → Numeric} :
      (fitting o e).map k ≠ .error (.catchable .zeroDivision) := by
    by_cases he : Number.Fits e
    · obtain ⟨i, hi, -⟩ := fitting_of_fits o he
      rw [hi]
      nofun
    · rw [fitting_of_not_fits o he]
      nofun
  rcases ha with rfl | rfl
  · rw [arithmetic_intDiv m hn] at h
    exact hfits h
  · rw [arithmetic_mod m hn] at h
    exact hfits h

/-- The remainder of script integers, but for the one whose quotient does not fit. -/
theorem arithmetic_mod_of_ne {m n : Int64} (hn : n.toInt ≠ 0)
    (h : ¬ (m.toInt = -9223372036854775808 ∧ n.toInt = -1)) :
    ∃ i, arithmetic .mod (.int m) (.int n) = .ok (.int i) ∧ i.toInt = m.toInt.tmod n.toInt := by
  obtain ⟨q, hq, -⟩ := fitting_of_fits (.arith .mod) ((fits_tdiv_iff hn).mpr h)
  have hfits := fits_tmod m n
  refine ⟨Int64.ofInt (m.toInt.tmod n.toInt), ?_, Int64.toInt_ofInt_of_le hfits.1 hfits.2⟩
  rw [arithmetic_mod m hn, hq]
  rfl

theorem arithmetic_mod_of_eq {m n : Int64} (h : m.toInt = -9223372036854775808 ∧ n.toInt = -1) :
    arithmetic .mod (.int m) (.int n) = .error (.overflow (.arith .mod)) := by
  have hn : n.toInt ≠ 0 := by omega
  rw [arithmetic_mod m hn, fitting_of_not_fits _ (mt (fits_tdiv_iff hn).mp (not_not.mpr h))]
  rfl

/-- The power of script integers that fits, if the exponent is not refused from the start. -/
theorem arithmetic_pow_of_fits {m n : Int64} (hn : 0 ≤ n.toInt) (hsmall : n.toInt < 4294967296)
    (h : Number.Fits (m.toInt ^ n.toInt.toNat)) :
    ∃ i, arithmetic .pow (.int m) (.int n) = .ok (.int i) ∧ i.toInt = m.toInt ^ n.toInt.toNat := by
  refine ⟨Int64.ofInt (m.toInt ^ n.toInt.toNat), ?_, Int64.toInt_ofInt_of_le h.1 h.2⟩
  rw [arithmetic_pow m hn, intPower?_eq _ (by omega), Number.checked, if_pos h]

theorem arithmetic_pow_of_refused {m n : Int64} (hn : 0 ≤ n.toInt)
    (h : ¬ Number.Fits (m.toInt ^ n.toInt.toNat) ∨ 4294967296 ≤ n.toInt) :
    arithmetic .pow (.int m) (.int n) = .error (.overflow (.arith .pow)) := by
  have hrefused : intPower? m.toInt n.toInt.toNat = none := by
    by_cases hlarge : 4294967296 ≤ n.toInt
    · exact intPower?_of_large _ (by omega)
    · rw [intPower?_eq _ (by omega), Number.checked_eq_none_iff]
      exact h.resolve_right hlarge
  rw [arithmetic_pow m hn, hrefused]

theorem map_toValue_eq_error_iff {r : Except Fault Numeric} {f : Fault} :
    r.map toValue = .error f ↔ r = .error f := by
  cases r with
  | ok z => exact ⟨nofun, nofun⟩
  | error g => exact ⟨fun h => by cases h; rfl, fun h => by cases h; rfl⟩

theorem map_toValue_eq_int_iff {r : Except Fault Numeric} {i : Int64} :
    r.map toValue = .ok (.int i) ↔ r = .ok (.int i) := by
  cases r with
  | error f => exact ⟨nofun, nofun⟩
  | ok z =>
      cases z with
      | int j => exact ⟨fun h => by cases h; rfl, fun h => by cases h; rfl⟩
      | float x => exact ⟨nofun, nofun⟩

end Numeric

/-- A quotient that is cut toward zero leaves a remainder that is smaller than the divisor and has the sign
of the dividend. -/
theorem Arith.exactResult?_division {m n q r : Int} (hq : Arith.exactResult? .intDiv m n = some q)
    (hr : Arith.exactResult? .mod m n = some r) : q * n + r = m ∧ |r| < |n| ∧ 0 ≤ m * r := by
  by_cases hn : n = 0
  · rw [exactResult?, if_pos hn] at hq
    cases hq
  · rw [exactResult?, if_neg hn] at hq
    rw [exactResult?, if_neg hn] at hr
    cases hq
    cases hr
    refine ⟨by rw [Int.mul_comm, Int.mul_tdiv_add_tmod], ?_, ?_⟩
    · have hlt : (m.tmod n).natAbs < n.natAbs := by
        rw [Int.natAbs_tmod]
        exact Nat.mod_lt _ (by omega)
      rw [Int.abs_eq_natAbs, Int.abs_eq_natAbs]
      omega
    -- The remainder of a negative dividend is the negative of that of its absolute value.
    · rcases Int.le_total 0 m with hm | hm
      · exact Int.mul_nonneg hm (Int.tmod_nonneg n hm)
      · have hsign := Int.tmod_nonneg n (Int.neg_nonneg_of_nonpos hm)
        rw [Int.neg_tmod] at hsign
        exact Int.mul_nonneg_of_nonpos_of_nonpos hm (by omega)

namespace State

variable {st : State} {op : Op} {args : List Value} {ints : List Int64}

/-- An operation of integer arithmetic that gives an integer gives the exact one. -/
theorem WorksOn.exactResult?_eq (h : st.WorksOn op args ints) {i : Int64}
    (hok : op.onIntegers ints = .ok (.int i)) : op.exactResult? (ints.map Int64.toInt) = some i.toInt := by
  cases h with
  | binary hx hy => exact Numeric.exactResult?_of_arithmetic hok
  | compound hread hv hy => exact Numeric.exactResult?_of_arithmetic hok
  | opposite hx => exact congrArg some (eq_of_fitting hok)
  | @absolute x n hx =>
      rw [Op.onIntegers, Numeric.absolute, ← Int.abs_eq_natAbs] at hok
      exact congrArg some (eq_of_fitting hok)
  | stepUp hread hv => exact congrArg some (eq_of_fitting hok)
  | stepDown hread hv => exact congrArg some (eq_of_fitting hok)

/-- An operation that checks its result itself gives the exact one if it fits. -/
theorem WorksOn.onIntegers_eq (h : st.WorksOn op args ints) (hchecks : op.checksResult = true) {e : Int}
    (he : op.exactResult? (ints.map Int64.toInt) = some e) :
    op.onIntegers ints = (fitting op.operator e).map .int := by
  cases h with
  | binary hx hy => exact Numeric.arithmetic_eq_fitting (by simpa [Op.checksResult] using hchecks) he
  | compound hread hv hy => exact Numeric.arithmetic_eq_fitting (by simpa [Op.checksResult] using hchecks) he
  | opposite hx => cases he; rfl
  | absolute hx =>
      cases he
      rw [Op.onIntegers, Numeric.absolute, ← Int.abs_eq_natAbs]
      rfl
  | stepUp hread hv => cases he; rfl
  | stepDown hread hv => cases he; rfl

/-- An operation that divides fails for a zero divisor and for no other. -/
theorem WorksOn.zeroDivision_iff (h : st.WorksOn op args ints) (hdivides : op.divides = true) :
    op.onIntegers ints = .error (.catchable .zeroDivision) ↔ ints[1]? = some 0 := by
  have hsecond (m n : Int64) : [m, n][1]? = some 0 ↔ n = 0 := by simp
  cases h with
  | @binary a x y m n hx hy =>
      rw [hsecond]
      exact Numeric.zeroDivision_iff (by simpa [Op.divides] using hdivides) m n
  | @compound a r v y m n hread hv hy =>
      rw [hsecond]
      exact Numeric.zeroDivision_iff (by simpa [Op.divides] using hdivides) m n
  | _ => cases hdivides

/-- A binary operator and its compound assignment do the same with two script integers. -/
theorem onIntegers_of_operator {a : Arith} (hop : op.operator = .arith a) (m n : Int64) :
    op.onIntegers [m, n] = Numeric.arithmetic a (.int m) (.int n) := by
  cases op with
  | arith b => cases hop; rfl
  | update b => cases hop; rfl
  | _ => cases hop

/-- Integer arithmetic is exact. An operation that gives an integer gives the exact result, and a quotient
and a remainder fit together. A division fails for a zero divisor and for no other. The operations that check
their result itself give every result that fits, and refuse exactly the others. -/
theorem integer_results_exact (st : State) (op : Op) (args : List Value) (ints : List Int64)
    (h : st.WorksOn op args ints) :
    (∀ i, st.computed op args = .ok (.int i) → op.exactResult? (ints.map Int64.toInt) = some i.toInt) ∧
    (∀ m n q r, Arith.exactResult? .intDiv m n = some q → Arith.exactResult? .mod m n = some r →
      q * n + r = m ∧ |r| < |n| ∧ 0 ≤ m * r) ∧
    (op.divides = true →
      (st.computed op args = .error (.catchable .zeroDivision) ↔ ints[1]? = some 0)) ∧
    (op.checksResult = true → ∀ e, op.exactResult? (ints.map Int64.toInt) = some e →
      (st.computed op args = .error (.overflow op.operator) ↔ ¬ Number.Fits e) ∧
      (Number.Fits e → ∃ i, st.computed op args = .ok (.int i) ∧ i.toInt = e)) := by
  rw [computed_eq h]
  refine ⟨?_, fun m n q r hq hr => Arith.exactResult?_division hq hr, ?_, ?_⟩
  · intro i hok
    exact h.exactResult?_eq (Numeric.map_toValue_eq_int_iff.mp hok)
  · intro hdivides
    rw [Numeric.map_toValue_eq_error_iff]
    exact h.zeroDivision_iff hdivides
  · intro hchecks e he
    rw [h.onIntegers_eq hchecks he]
    -- The result is checked once, when it is made into a number of 64 bits.
    by_cases hfits : Number.Fits e
    · obtain ⟨i, hi, hexact⟩ := fitting_of_fits op.operator hfits
      rw [hi]
      exact ⟨⟨nofun, fun hnot => absurd hfits hnot⟩, fun _ => ⟨i, rfl, hexact⟩⟩
    · rw [fitting_of_not_fits _ hfits]
      exact ⟨⟨fun _ => hfits, fun _ => rfl⟩, fun hyes => absurd hyes hfits⟩

/-- The least script integer in the slot of a list, divided by minus one: the quotient is one too large. -/
theorem integer_results_exact_of_slot :
    let st : State := { (default : State) with heap := ⟨#[⟨1, #[.int (-9223372036854775808)]⟩], #[]⟩ }
    st.computed (.update .intDiv) [.reference ⟨2, .list ⟨0⟩, .index (-1)⟩, .int (-1)] =
      .error (.overflow (.arith .intDiv)) := by
  intro st
  have hworks : st.WorksOn (.update .intDiv) [.reference ⟨2, .list ⟨0⟩, .index (-1)⟩, .int (-1)]
      [-9223372036854775808, -1] := .compound rfl rfl rfl
  have hexact := (integer_results_exact st _ _ _ hworks).2.2.2 rfl 9223372036854775808 rfl
  exact hexact.1.mpr (by decide)

/-- When the remainder and the power are refused. The remainder is refused if the quotient does not fit, which
happens for the least script integer and minus one alone, and the remainder itself always fits. The power is
refused if it does not fit, and also for the bases zero, one and minus one if the exponent has more than 32
bits. -/
theorem overflow_of_remainder_and_power (st : State) (op : Op) (args : List Value) (m n : Int64)
    (h : st.WorksOn op args [m, n]) :
    (op.operator = .arith .mod → n.toInt ≠ 0 →
      (st.computed op args = .error (.overflow (.arith .mod)) ↔
        m.toInt = -9223372036854775808 ∧ n.toInt = -1) ∧
      (¬ (m.toInt = -9223372036854775808 ∧ n.toInt = -1) →
        ∃ i, st.computed op args = .ok (.int i) ∧ i.toInt = m.toInt.tmod n.toInt) ∧
      Number.Fits (m.toInt.tmod n.toInt)) ∧
    (op.operator = .arith .pow → 0 ≤ n.toInt →
      (st.computed op args = .error (.overflow (.arith .pow)) ↔
        ¬ Number.Fits (m.toInt ^ n.toInt.toNat) ∨ (m.toInt.natAbs ≤ 1 ∧ 4294967296 ≤ n.toInt)) ∧
      (Number.Fits (m.toInt ^ n.toInt.toNat) → n.toInt < 4294967296 →
        ∃ i, st.computed op args = .ok (.int i) ∧ i.toInt = m.toInt ^ n.toInt.toNat)) := by
  rw [computed_eq h]
  simp only [Numeric.map_toValue_eq_error_iff, Numeric.map_toValue_eq_int_iff]
  refine ⟨?_, ?_⟩
  · intro hop hn
    rw [onIntegers_of_operator hop]
    refine ⟨⟨?_, Numeric.arithmetic_mod_of_eq⟩, Numeric.arithmetic_mod_of_ne hn, fits_tmod m n⟩
    intro hrefused
    by_contra hfits
    obtain ⟨i, hi, -⟩ := Numeric.arithmetic_mod_of_ne hn hfits
    rw [hi] at hrefused
    cases hrefused
  · intro hop hn
    rw [onIntegers_of_operator hop]
    refine ⟨⟨?_, ?_⟩, fun hfits hsmall => Numeric.arithmetic_pow_of_fits hn hsmall hfits⟩
    · intro hrefused
      by_contra hnot
      obtain ⟨hfits, hsmall⟩ := not_or.mp hnot
      -- A power with a larger base and such an exponent would not fit.
      have hexponent : n.toInt < 4294967296 := by
        by_contra hlarge
        exact not_fits_pow (by omega) (by omega) (not_not.mp hfits)
      obtain ⟨i, hi, -⟩ := Numeric.arithmetic_pow_of_fits hn hexponent (not_not.mp hfits)
      rw [hi] at hrefused
      cases hrefused
    · intro hrefused
      exact Numeric.arithmetic_pow_of_refused hn (hrefused.imp_right And.right)

/-- The greatest power of minus two that fits is the least script integer. -/
theorem overflow_of_remainder_and_power_of_least :
    ∃ i, (default : State).computed (.arith .pow) [.int (-2), .int 63] = .ok (.int i) ∧
      i.toInt = -9223372036854775808 := by
  have hworks : (default : State).WorksOn (.arith .pow) [.int (-2), .int 63] [-2, 63] := .binary rfl rfl
  exact ((overflow_of_remainder_and_power default _ _ _ _ hworks).2 rfl (by decide)).2 (by decide) (by decide)

/-- A remainder and a power that fit and are refused all the same: the remainder of the least script integer
by minus one, which is zero, and a power of one. -/
theorem overflow_without_cause :
    ((default : State).computed (.arith .mod) [.int (-9223372036854775808), .int (-1)] =
        .error (.overflow (.arith .mod)) ∧
      Number.Fits (Int.tmod (-9223372036854775808) (-1))) ∧
    ((default : State).computed (.arith .pow) [.int 1, .int 4294967296] =
        .error (.overflow (.arith .pow)) ∧
      Number.Fits ((1 : Int) ^ 4294967296)) := by
  refine ⟨⟨?_, by decide⟩, ?_, ?_⟩
  · rw [computed_eq (.binary rfl rfl), Numeric.map_toValue_eq_error_iff]
    exact Numeric.arithmetic_mod_of_eq (by decide)
  · rw [computed_eq (.binary rfl rfl), Numeric.map_toValue_eq_error_iff]
    show Numeric.arithmetic .pow (.int 1) (.int 4294967296) = _
    exact Numeric.arithmetic_pow_of_refused (by decide) (Or.inr (by decide))
  · rw [one_pow]
    decide

end State

end Stepwise
