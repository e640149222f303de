import Mathlib
import Stepwise.Proofs.Negation
import Stepwise.Value

/-!
# `Stepwise.Proofs.Widening`: script integers as floats

A script integer of many digits loses some of them when it becomes a float, but never all of them: the
float of an integer is zero only for the integer zero, and it keeps the sign. So a test of the float is a
test of the integer.

* `floatOfInt_eq_zero_iff`: the float of a script integer equals zero exactly if the integer is zero.
* `floatOfInt_neg_iff`: it is below zero exactly if the integer is.

A float is rounded by shifting its mantissa to full length, rounding what was shifted out, and shifting
again in case the rounding has made the mantissa longer. Each of the shifts leaves a mantissa of full
length (`log2_shiftToTargetExponent`), so what comes out is no zero and survives being written to bits and
read again (`unpack_pack`).
-/

set_option autoImplicit false

namespace Stepwise.Number

open Float.Model Float.Model.UnpackedFloat

/-! ### Rounding -/

/-- A float with the sign `s` whose mantissa has its full length, with an exponent far from both ends of
the range. -/
def Normal (s : Sign) (u : UnpackedFloat) : Prop :=
  ∃ (m : Nat) (e : Int) (hm : 0 < m), u = .finite s m e hm ∧ m.log2 = 52 ∧ -1000 ≤ e ∧ e ≤ 900

theorem mantissa_shiftRight (em : ExtendedMantissa) (k : Nat) :
    (em >>> k).mantissa = em.mantissa / 2 ^ k := by
  induction k with
  | zero => exact (Nat.div_one _).symm
  | succ k ih =>
      show (em >>> k).mantissa / 2 = em.mantissa / 2 ^ (k + 1)
      rw [ih, Nat.div_div_eq_div_mul, Nat.pow_succ]

theorem mantissa_ofMantissaAndAccuracy (m : Nat) (a : Accuracy) :
    (ExtendedMantissa.ofMantissaAndAccuracy m a).mantissa = m := by
  cases a with
  | exact => rfl
  | inexact o => cases o <;> rfl

theorem roundedMantissa_bounds (em : ExtendedMantissa) :
    em.mantissa ≤ em.roundedMantissa ∧ em.roundedMantissa ≤ em.mantissa + 1 := by
  unfold ExtendedMantissa.roundedMantissa
  cases em.accuracy with
  | exact => exact ⟨Nat.le_refl _, Nat.le_succ _⟩
  | inexact o => cases o <;> simp only [Accuracy.roundToNearestEven] <;> omega

theorem log2_div_two_pow (m k : Nat) : (m / 2 ^ k).log2 = m.log2 - k := by
  rw [Nat.log2_eq_log_two, Nat.log2_eq_log_two, Nat.log_div_base_pow]

theorem log2_shiftLeft {m : Nat} (hm : 0 < m) (k : Nat) : (m <<< k).log2 = m.log2 + k := by
  induction k with
  | zero => rfl
  | succ k ih =>
      have hpos : m <<< k ≠ 0 := by
        rw [Nat.shiftLeft_eq]
        exact Nat.mul_ne_zero (by omega) (by simp)
      rw [Nat.shiftLeft_succ, Nat.log2_two_mul hpos, ih]
      omega

/-- A long mantissa is shifted to full length, and the exponent goes up by the number of bits. -/
theorem log2_shiftToTargetExponent {m : Nat} {e : Int} (a : Accuracy) (hm : 52 ≤ m.log2) (he : -1000 ≤ e) :
    (shiftToTargetExponent .binary64 m e a).1.mantissa.log2 = 52 ∧
      (shiftToTargetExponent .binary64 m e a).2 = e + (m.log2 - 52 : Nat) := by
  have htarget : (Format.binary64.targetExponent (totalExponent m e) - e).toNat = m.log2 - 52 := by
    show (max ((m.log2 : Int) + 1 + e - 53) (-1074) - e).toNat = m.log2 - 52
    omega
  simp only [shiftToTargetExponent, shiftToExponent, htarget, mantissa_shiftRight,
    mantissa_ofMantissaAndAccuracy, log2_div_two_pow, and_true]
  omega

theorem pos_of_log2 {m : Nat} (h : 52 ≤ m.log2) : 0 < m := by
  rcases Nat.eq_zero_or_pos m with rfl | hpos
  · simp at h
  · exact hpos

/-- Rounding a mantissa of at least full length leaves one of full length. -/
theorem normal_roundWithAccuracy (s : Sign) {m : Nat} {e : Int} (a : Accuracy) (hm : 52 ≤ m.log2)
    (hlong : m.log2 ≤ 100) (he : -1000 ≤ e) (he' : e ≤ 100) :
    Normal s (roundWithAccuracy .binary64 s m e a) := by
  obtain ⟨hlog, hexponent⟩ := log2_shiftToTargetExponent a hm he
  unfold roundWithAccuracy
  generalize shiftToTargetExponent .binary64 m e a = shifted at hlog hexponent
  obtain ⟨em, e₁⟩ := shifted
  dsimp only at hlog hexponent ⊢
  obtain ⟨hle, hle'⟩ := roundedMantissa_bounds em
  generalize em.roundedMantissa = rounded at hle hle' ⊢
  -- Rounding up can make the mantissa longer by one bit at most.
  have hmpos : 0 < em.mantissa := pos_of_log2 (by omega)
  have hlower : 2 ^ 52 ≤ em.mantissa := by
    rw [← hlog]
    exact Nat.log2_self_le (by omega)
  have hupper : em.mantissa < 2 ^ 53 := by
    rw [← Nat.log2_lt (by omega), hlog]
    omega
  have hrounded : 52 ≤ rounded.log2 := (Nat.le_log2 (by omega)).mpr (by omega)
  have hrounded' : rounded.log2 < 54 := (Nat.log2_lt (by omega)).mpr (by omega)
  obtain ⟨hlog₂, hexponent₂⟩ := log2_shiftToTargetExponent (m := rounded) (e := e₁) .exact hrounded (by omega)
  generalize shiftToTargetExponent .binary64 rounded e₁ .exact = final at hlog₂ hexponent₂
  obtain ⟨em₂, e₂⟩ := final
  dsimp only at hlog₂ hexponent₂ ⊢
  have hpos : 0 < em₂.mantissa := pos_of_log2 (by omega)
  rw [dif_neg (by omega)]
  exact ⟨em₂.mantissa, e₂, hpos, rfl, hlog₂, by omega, by omega⟩

/-- A positive integer of 64 bits is rounded to a float of its sign. -/
theorem normal_round (s : Sign) {n : Nat} (hn : 0 < n) (hlt : n < 2 ^ 64) :
    Normal s (UnpackedFloat.round .binary64 s n 0) := by
  have hlog : n.log2 < 64 := (Nat.log2_lt (by omega)).mpr hlt
  have htarget : ((0 : Int) - Format.binary64.targetExponent (totalExponent n 0)).toNat = 52 - n.log2 := by
    show ((0 : Int) - max ((n.log2 : Int) + 1 + 0 - 53) (-1074)).toNat = 52 - n.log2
    omega
  have hlong : (n <<< (52 - n.log2)).log2 = n.log2 + (52 - n.log2) := log2_shiftLeft hn _
  unfold UnpackedFloat.round
  simp only [decreaseExponent, htarget]
  exact normal_roundWithAccuracy s .exact (by omega) (by omega) (by omega) (by omega)

/-! ### Bits -/

/-- A float with a mantissa of full length is read from its bits as it was written. -/
theorem Normal.unpack_pack {s : Sign} {u : UnpackedFloat} (h : Normal s u) :
    UnpackedFloat.unpack .binary64 (UnpackedFloat.pack .binary64 u) = u := by
  obtain ⟨m, e, hm, rfl, hlog, he, he'⟩ := h
  have hlower : 2 ^ 52 ≤ m := by
    rw [← hlog]
    exact Nat.log2_self_le (by omega)
  have hupper : m < 2 ^ 53 := by
    rw [← Nat.log2_lt (by omega), hlog]
    omega
  -- The fields that the mantissa and the exponent are written to.
  obtain ⟨mantissa, hmantissa⟩ : ∃ field : BitVec 52, (1#1 ++ field).toNat = m := by
    refine ⟨BitVec.ofNat 52 m, ?_⟩
    rw [BitVec.toNat_append, ← Nat.shiftLeft_add_eq_or_of_lt (BitVec.ofNat 52 m).isLt, BitVec.toNat_ofNat]
    show 2 ^ 52 + m % 2 ^ 52 = m
    omega
  obtain ⟨exponent, hexponent⟩ : ∃ field : BitVec 11, (field.toNat : Int) - 1075 = e := by
    refine ⟨BitVec.ofNat 11 (e + 1075).toNat, ?_⟩
    rw [BitVec.toNat_ofNat, Nat.mod_eq_of_lt (by omega)]
    omega
  have hone : exponent ≠ -1#11 := by
    rintro rfl
    have hall : (-1#11).toNat = 2047 := by decide
    omega
  have hzero : exponent ≠ 0#11 := by
    rintro rfl
    have hnone : (0#11).toNat = 0 := by decide
    omega
  subst hmantissa hexponent
  rw [pack_normal s hone hm, UnpackedFloat.unpack]
  simp only [unpackMantissa_packComponents, unpackExponent_packComponents, unpackSign_packComponents,
    ofBitVec_toBitVec]
  rw [if_neg hone, if_neg hzero]
  rfl

/-! ### Floats of integers -/

/-- What is read off the bits of a float. -/
def parts (x : Float) : UnpackedFloat :=
  x.toModel.unpack

theorem normal_toFloat {n : UInt64} (hn : n ≠ 0) : Normal .positive (parts n.toFloat) := by
  have hpos : 0 < n.toNat := by
    have hne : n.toNat ≠ 0 := fun h => hn (UInt64.toNat_inj.mp h)
    omega
  have hround : UnpackedFloat.ofUInt64 .binary64 n = UnpackedFloat.round .binary64 .positive n.toNat 0 := by
    show UnpackedFloat.normalize .binary64 n.toNat 0 .positive = _
    rw [UnpackedFloat.normalize, Int.compare_eq_gt.mpr (by omega)]
    rfl
  have hnormal := normal_round .positive hpos n.toNat_lt
  rw [← hround] at hnormal
  have hparts : parts n.toFloat = UnpackedFloat.ofUInt64 .binary64 n := hnormal.unpack_pack
  rw [hparts]
  exact hnormal

theorem normal_neg {x : Float} (h : Normal .positive (parts x)) : Normal .negative (parts (-x)) := by
  obtain ⟨m, e, hm, hparts, hlog, he, he'⟩ := h
  have hneg : Normal .negative (parts x).neg := by
    rw [hparts]
    exact ⟨m, e, hm, rfl, hlog, he, he'⟩
  have hparts : parts (-x) = (parts x).neg := hneg.unpack_pack
  rw [hparts]
  exact hneg

/-- The float of a script integer is zero, or it is a number with the sign of the integer. -/
theorem parts_floatOfInt (n : Int64) :
    (n.toInt = 0 ∧ parts (floatOfInt n) = .zero .positive) ∨
    (0 < n.toInt ∧ Normal .positive (parts (floatOfInt n))) ∨
    (n.toInt < 0 ∧ Normal .negative (parts (floatOfInt n))) := by
  have hbound : n.toInt.natAbs < 2 ^ 64 := by
    have := n.le_toInt
    have := n.toInt_lt
    omega
  -- The conversion goes through the absolute value in 64 bits, which must not wrap around to zero.
  have hsize (h : n.toInt ≠ 0) : n.toInt.natAbs.toUInt64 ≠ 0 := by
    intro heq
    have hnat := congrArg UInt64.toNat heq
    simp only [Nat.toUInt64_eq, UInt64.toNat_ofNat', UInt64.toNat_zero] at hnat
    omega
  rcases Int.lt_trichotomy n.toInt 0 with hneg | hzero | hpos
  · refine Or.inr (Or.inr ⟨hneg, ?_⟩)
    rw [floatOfInt, if_pos hneg]
    exact normal_neg (normal_toFloat (hsize (by omega)))
  · refine Or.inl ⟨hzero, ?_⟩
    rw [floatOfInt, hzero]
    rfl
  · refine Or.inr (Or.inl ⟨hpos, ?_⟩)
    rw [floatOfInt, if_neg (by omega)]
    exact normal_toFloat (hsize (by omega))

/-- The float of a script integer equals zero exactly if the integer is zero. -/
theorem floatOfInt_eq_zero_iff (n : Int64) : (floatOfInt n == 0.0) = true ↔ n.toInt = 0 := by
  have hbeq : (floatOfInt n == 0.0) = (parts (floatOfInt n)).beq (.zero .positive) := rfl
  rw [hbeq]
  rcases parts_floatOfInt n with ⟨hn, hparts⟩ | ⟨hn, m, e, hm, hparts, -⟩ | ⟨hn, m, e, hm, hparts, -⟩
  · rw [hparts]
    exact ⟨fun _ => hn, fun _ => rfl⟩
  · rw [hparts]
    exact ⟨nofun, fun h => by omega⟩
  · rw [hparts]
    exact ⟨nofun, fun h => by omega⟩

/-- The float of a script integer is below zero exactly if the integer is. -/
theorem floatOfInt_neg_iff (n : Int64) : floatOfInt n < 0.0 ↔ n.toInt < 0 := by
  have hlt : floatOfInt n < 0.0 ↔ (parts (floatOfInt n)).lt (.zero .positive) = true := by
    show (floatOfInt n).lt 0.0 = true ↔ _
    rw [Float.lt, decide_eq_true_iff]
    exact Iff.rfl
  rw [hlt]
  rcases parts_floatOfInt n with ⟨hn, hparts⟩ | ⟨hn, m, e, hm, hparts, -⟩ | ⟨hn, m, e, hm, hparts, -⟩
  · rw [hparts]
    exact ⟨nofun, fun h => by omega⟩
  · rw [hparts]
    exact ⟨nofun, fun h => by omega⟩
  · rw [hparts]
    exact ⟨fun _ => hn, fun _ => rfl⟩

end Stepwise.Number
