import Mathlib
import Stepwise.Number.Shortest

/-!
# `Stepwise.Proofs.Negation`: the sign of a float

A float is kept as 64 bits: a sign, an exponent and a mantissa. To negate it, its parts are read off the
bits, the sign is turned, and the parts are put together again. For every float but the one that is not a
number this changes the sign bit and nothing else (`pack_neg_unpack`); that one has a positive sign and
stays as it is.

* `Number.neg_neg`: the negative of the negative is the float itself, zeros and infinities included.
* `Number.isNegative_neg`: the negative of a float with its sign bit set has it clear.
-/

set_option autoImplicit false

namespace Stepwise.Number

open Float.Model Float.Model.UnpackedFloat

/-- The bits of a float. -/
abbrev Bits : Type := BitVec Format.binary64.numBits

/-- The sign that bits start with. -/
def Bits.sign (b : Bits) : Sign :=
  Sign.ofBitVec (unpackSign b)

/-- Bits that stand for what is not a number: all bits of the exponent are set, and the mantissa is not
zero. -/
def Bits.IsNaN (b : Bits) : Prop :=
  unpackExponent b = -1#11 ∧ unpackMantissa b ≠ 0#52

theorem toBitVec_ofBitVec (b : BitVec 1) : (Sign.ofBitVec b).toBitVec = b := by
  revert b
  decide

theorem ofBitVec_toBitVec (s : Sign) : Sign.ofBitVec s.toBitVec = s := by
  cases s <;> rfl

theorem unpackSign_packComponents (s : Sign) (e : BitVec 11) (m : BitVec 52) :
    unpackSign (packComponents .binary64 s e m) = s.toBitVec := by
  simp only [unpackSign, packComponents, BitVec.extractLsb]
  ext i hi
  grind

theorem sign_packComponents (s : Sign) (e : BitVec 11) (m : BitVec 52) :
    Bits.sign (packComponents .binary64 s e m) = s := by
  rw [Bits.sign, unpackSign_packComponents, ofBitVec_toBitVec]

/-- Bits are put together from their own parts. -/
theorem packComponents_unpack (b : Bits) :
    packComponents .binary64 b.sign (unpackExponent b) (unpackMantissa b) = b := by
  simp only [packComponents, Bits.sign, toBitVec_ofBitVec, unpackSign, unpackExponent, unpackMantissa,
    BitVec.extractLsb]
  ext i hi
  grind

/-- A mantissa below the hidden bit is put together under the exponent zero. -/
theorem pack_subnormal (s : Sign) {m : BitVec 52} (hpos : 0 < m.toNat) :
    UnpackedFloat.pack .binary64 (.finite s m.toNat (-1074) hpos)
      = packComponents .binary64 s 0#11 m := by
  have hlog : m.toNat.log2 < 52 := (Nat.log2_lt (by omega)).mpr m.isLt
  have hbits : ¬ m.toNat.log2 + 1 = Format.binary64.mantissaBits := by
    show ¬ m.toNat.log2 + 1 = 53
    omega
  have hexponent : ((-1074 : Int) + Format.binary64.exponentBias
      + Format.binary64.mantissaBitsWithoutImplicit).toNat = 1 := by decide
  have hsmall : ¬ 2 ^ 11 ≤ 1 + 1 := by decide
  simp only [UnpackedFloat.pack, hexponent, hsmall, hbits, if_false]
  rw [BitVec.ofNat_toNat, BitVec.setWidth_eq]

/-- A mantissa with the hidden bit in front is put together without it. -/
theorem pack_normal (s : Sign) {e : BitVec 11} {m : BitVec 52} (hone : e ≠ -1#11)
    (hpos : 0 < (1#1 ++ m).toNat) :
    UnpackedFloat.pack .binary64 (.finite s (1#1 ++ m).toNat (e.toNat - 1075) hpos)
      = packComponents .binary64 s e m := by
  have hm : m.toNat < 2 ^ 52 := m.isLt
  have happend : (1#1 ++ m).toNat = 2 ^ 52 + m.toNat := by
    rw [BitVec.toNat_append, ← Nat.shiftLeft_add_eq_or_of_lt hm]
    rfl
  have hlog : (1#1 ++ m).toNat.log2 = 52 := by
    rw [Nat.log2_eq_iff (by omega)]
    omega
  have hexponent : ((e.toNat : Int) - 1075 + Format.binary64.exponentBias
      + Format.binary64.mantissaBitsWithoutImplicit).toNat = e.toNat := by
    show ((e.toNat : Int) - 1075 + 1023 + 52).toNat = e.toNat
    omega
  have hlarge : ¬ 2 ^ 11 ≤ e.toNat + 1 := by
    have hne : e.toNat ≠ (-1#11).toNat := fun heq => hone (BitVec.toNat_inj.mp heq)
    have hall : (-1#11).toNat = 2047 := by decide
    have hlt : e.toNat < 2 ^ 11 := e.isLt
    omega
  -- The mantissa has its full length, so the exponent is written as it is.
  have hbits : (1#1 ++ m).toNat.log2 + 1 = Format.binary64.mantissaBits := by
    rw [hlog]
    rfl
  simp only [UnpackedFloat.pack, hexponent, hlarge, hbits, if_false, if_true]
  rw [BitVec.ofNat_toNat, BitVec.setWidth_eq, happend]
  congr 1
  apply BitVec.eq_of_toNat_eq
  rw [BitVec.toNat_ofNat]
  omega

/-- Negating a float that is a number turns its sign and keeps its exponent and mantissa. -/
theorem pack_neg_unpack {b : Bits} (h : ¬ b.IsNaN) :
    UnpackedFloat.pack .binary64 (UnpackedFloat.unpack .binary64 b).neg
      = packComponents .binary64 (-b.sign) (unpackExponent b) (unpackMantissa b) := by
  rw [UnpackedFloat.unpack]
  -- With all bits of the exponent set it is infinite, or not a number. With none it is zero or below the
  -- hidden bit.
  split
  · rename_i hexponent
    split
    · rename_i hmantissa
      rw [hexponent, hmantissa]
      rfl
    · rename_i hmantissa
      exact absurd ⟨hexponent, hmantissa⟩ h
  · rename_i hone
    split
    · rename_i hexponent
      split
      · rename_i hmantissa
        rw [hexponent, hmantissa]
        rfl
      · rw [hexponent]
        exact pack_subnormal (-b.sign) _
    · exact pack_normal (-b.sign) hone _

/-! ### Floats -/

/-- The bits that a float is kept as. -/
def bitsOf (x : Float) : Bits :=
  x.toModel.toBits.toBitVec

theorem bitsOf_inj {x y : Float} (h : bitsOf x = bitsOf y) : x = y := by
  obtain ⟨⟨⟨b⟩, hb⟩⟩ := x
  obtain ⟨⟨⟨c⟩, hc⟩⟩ := y
  cases h
  rfl

/-- The bits of the negative. -/
theorem bitsOf_neg (x : Float) :
    bitsOf (-x) = UnpackedFloat.pack .binary64 (UnpackedFloat.unpack .binary64 (bitsOf x)).neg :=
  rfl

/-- What is not a number has only one pattern of bits, and negating it gives the same. -/
theorem bitsOf_neg_of_isNaN {x : Float} (h : (bitsOf x).IsNaN) :
    bitsOf (-x) = bitsOf x ∧ (bitsOf x).sign = .positive := by
  have hbits : bitsOf x = packedNaN .binary64 := x.toModel.valid.eq_packedNaN h.1 h.2
  rw [bitsOf_neg, hbits]
  exact ⟨by decide, sign_packComponents .positive _ _⟩

/-- The bits of the negative of a number. -/
theorem bitsOf_neg_of_not_isNaN {x : Float} (h : ¬ (bitsOf x).IsNaN) :
    bitsOf (-x) = packComponents .binary64 (-(bitsOf x).sign) (unpackExponent (bitsOf x))
      (unpackMantissa (bitsOf x)) := by
  rw [bitsOf_neg]
  exact pack_neg_unpack h

/-- The negative of the negative is the float itself. -/
theorem neg_neg (x : Float) : - -x = x := by
  apply bitsOf_inj
  by_cases h : (bitsOf x).IsNaN
  · have hsame : -x = x := bitsOf_inj (bitsOf_neg_of_isNaN h).1
    rw [hsame, hsame]
  · -- The negative has the same exponent and mantissa, so it is a number as well.
    have hneg := bitsOf_neg_of_not_isNaN h
    have hexponent : unpackExponent (bitsOf (-x)) = unpackExponent (bitsOf x) := by
      rw [hneg, unpackExponent_packComponents]
    have hmantissa : unpackMantissa (bitsOf (-x)) = unpackMantissa (bitsOf x) := by
      rw [hneg, unpackMantissa_packComponents]
    have hsign : -(bitsOf (-x)).sign = (bitsOf x).sign := by
      rw [hneg, sign_packComponents]
      cases (bitsOf x).sign <;> rfl
    have hnumber : ¬ (bitsOf (-x)).IsNaN := by
      rw [Bits.IsNaN, hexponent, hmantissa]
      exact h
    rw [bitsOf_neg_of_not_isNaN hnumber, hsign, hexponent, hmantissa, packComponents_unpack]

/-- The sign bit of a float is the sign of its bits. -/
theorem isNegative_iff {x : Float} : isNegative x = true ↔ (bitsOf x).sign = .negative := by
  have hbit : (unpackSign (bitsOf x)).toNat = x.toBits.toNat / 9223372036854775808 % 2 := by
    simp only [unpackSign, BitVec.toNat_cast, BitVec.extractLsb_toNat, Nat.shiftRight_eq_div_pow]
    rfl
  unfold isNegative
  rw [← hbit, beq_iff_eq, Bits.sign]
  generalize unpackSign (bitsOf x) = s
  have hcases : s = 0#1 ∨ s = 1#1 := by
    revert s
    decide
  rcases hcases with rfl | rfl
  · simp [Sign.ofBitVec]
  · simp [Sign.ofBitVec]

/-- The negative of a float with its sign bit set has it clear. -/
theorem isNegative_neg {x : Float} (h : isNegative x = true) : isNegative (-x) = false := by
  have hsign : (bitsOf x).sign = .negative := isNegative_iff.mp h
  -- What is not a number has a positive sign.
  have hnumber : ¬ (bitsOf x).IsNaN := by
    intro hnan
    rw [(bitsOf_neg_of_isNaN hnan).2] at hsign
    cases hsign
  rw [← Bool.not_eq_true, isNegative_iff, bitsOf_neg_of_not_isNaN hnumber, sign_packComponents, hsign]
  intro hnegative
  cases hnegative

end Stepwise.Number
