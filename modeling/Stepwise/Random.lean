/-!
# `Stepwise.Random`: random numbers

A generator is what the host brings along. The programs know of it only what `Generator` lists: that a seed
gives a state to start from, and that what is drawn is in its range. `Generator.counter` is one that is at
hand for a seed without a generator.
-/

set_option autoImplicit false

namespace Stepwise

/-- A generator of random numbers. What its states are is its own matter: they are written as numbers. -/
structure Generator where
  /-- The state that a seed leads to. -/
  ofSeed : UInt64 → Nat
  /-- Draws a float from zero, included, to one, excluded. -/
  unit : Nat → Float × Nat
  /-- Draws an integer from the first bound to the second, both included. -/
  between : Int64 → Int64 → Nat → Int64 × Nat
  unit_mem : ∀ state, 0 ≤ (unit state).1 ∧ (unit state).1 < 1
  between_mem : ∀ low high state, low ≤ high →
    low ≤ (between low high state).1 ∧ (between low high state).1 ≤ high

namespace Generator

/-- A counter moves by a fixed odd step, and each output scrambles the counter. -/
def scramble (state : Nat) : UInt64 × Nat :=
  let counter := UInt64.ofNat state + 0x9E3779B97F4A7C15
  let z := (counter ^^^ (counter >>> 30)) * 0xBF58476D1CE4E5B9
  let z := (z ^^^ (z >>> 27)) * 0x94D049BB133111EB
  (z ^^^ (z >>> 31), counter.toNat)

/-- The float with 53 bits behind the point. -/
def fraction (bits : UInt64) : Float :=
  let x := (bits >>> 11).toFloat.scaleB (-53)
  -- The range is tested because nothing is known of scaling in proofs.
  if 0 ≤ x ∧ x < 1 then x else 0

theorem fraction_mem (bits : UInt64) : 0 ≤ fraction bits ∧ fraction bits < 1 := by
  unfold fraction
  dsimp only
  split
  · assumption
  · decide

/-- The remainder of a number in a range that is not empty, counted from its start. -/
def within (low high : Int64) (n : Nat) : Int64 :=
  .ofInt (low.toInt + (n : Int) % (high.toInt - low.toInt + 1))

theorem within_mem {low high : Int64} (h : low ≤ high) (n : Nat) :
    low ≤ within low high n ∧ within low high n ≤ high := by
  rw [Int64.le_iff_toInt_le] at h
  have hlow := low.le_toInt
  have hhigh := high.toInt_lt
  have hpos : 0 < high.toInt - low.toInt + 1 := by omega
  have hle := Int.emod_nonneg (n : Int) (Int.ne_of_gt hpos)
  have hlt := Int.emod_lt_of_pos (n : Int) hpos
  have hfits : (within low high n).toInt = low.toInt + (n : Int) % (high.toInt - low.toInt + 1) :=
    Int64.toInt_ofInt_of_le (by omega) (by omega)
  rw [Int64.le_iff_toInt_le, Int64.le_iff_toInt_le, hfits]
  omega

/-- The generator of a scrambled counter. -/
def counter : Generator where
  ofSeed seed := seed.toNat
  unit state := (fraction (scramble state).1, (scramble state).2)
  between low high state := (within low high (scramble state).1.toNat, (scramble state).2)
  unit_mem _ := fraction_mem _
  between_mem _ _ _ h := within_mem h _

instance : Inhabited Generator := ⟨counter⟩

end Generator

/-- A seed, and the generator that it is for. -/
structure Seed where
  generator : Generator
  value : UInt64
deriving Inhabited

/-- A seed without a generator is for the counter. -/
instance : Coe UInt64 Seed := ⟨fun value => ⟨.counter, value⟩⟩

instance (n : Nat) : OfNat Seed n := ⟨⟨.counter, OfNat.ofNat n⟩⟩

/-- A generator and the state that it is in. -/
structure Random where
  generator : Generator
  state : Nat
deriving Inhabited

namespace Random

/-- The generator of a seed at its start. -/
def ofSeed (seed : Seed) : Random :=
  ⟨seed.generator, seed.generator.ofSeed seed.value⟩

/-- A float from zero, included, to one, excluded. -/
def unit (g : Random) : Float × Random :=
  let (x, state) := g.generator.unit g.state
  (x, { g with state := state })

/-- An integer from `low` to `high`, both included. -/
def between (g : Random) (low high : Int64) : Int64 × Random :=
  let (n, state) := g.generator.between low high g.state
  (n, { g with state := state })

end Random

end Stepwise
