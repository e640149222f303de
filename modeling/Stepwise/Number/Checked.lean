/-!
# `Stepwise.Number.Checked`: integers of 64 bits

A script integer is an `Int64`. Every operation on script integers computes over `Int` and then
asks `checked` whether the result fits, so no result ever wraps: `toInt_of_checked` says that an
integer that is accepted keeps its value, and `checked_toInt` that every script integer is
accepted.
-/

set_option autoImplicit false

namespace Stepwise.Number

/-- An integer fits if it lies between the least and the greatest script integer. -/
def Fits (n : Int) : Prop :=
  -9223372036854775808 ≤ n ∧ n < 9223372036854775808

instance (n : Int) : Decidable (Fits n) :=
  inferInstanceAs (Decidable (_ ∧ _))

/-- The script integer with a given value, if it fits. -/
def checked (n : Int) : Option Int64 :=
  if Fits n then some (Int64.ofInt n) else none

/-- The decimal text of a script integer. -/
def writeInt (n : Int64) : String :=
  toString n.toInt

/-- An integer that is accepted keeps its value. -/
theorem toInt_of_checked {n : Int} {i : Int64} (h : checked n = some i) : i.toInt = n := by
  unfold checked at h
  split at h
  · rename_i hn
    cases h
    exact Int64.toInt_ofInt_of_le hn.1 hn.2
  · cases h

/-- Every script integer is accepted. -/
theorem checked_toInt (i : Int64) : checked i.toInt = some i := by
  have hfits : Fits i.toInt := ⟨Int64.le_toInt i, Int64.toInt_lt i⟩
  simp [checked, hfits]

/-- An integer is refused exactly if it does not fit. -/
theorem checked_eq_none_iff {n : Int} : checked n = none ↔ ¬ Fits n := by
  simp [checked]

end Stepwise.Number
