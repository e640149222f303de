import Stepwise.Proofs.Constructs
import Stepwise.Proofs.Effects

/-!
# `Stepwise.Proofs.Shape`: the shape of the stack

Every frame of the stack is sound: its nodes are well-formed and its values are sound (`Frame.Sound`).
And what stands above a frame is what the frame can work with: a finish has one value above it, an operation
as many as it takes at most, a construct the value that it waits for (`Frame.Takes`).

The second part needs to look ahead. While a frame works, the frame below it waits for its value; so
`Context slot below` says of each frame below that it can work once a value that fits `slot` is
produced. A stack is tight if its top frame can work and the rest is a context for what it
yields (`Tight`). An interrupt takes frames off the top and leaves values of half-done work, so under
an interrupt only the context is left (`Loose`).
-/

set_option autoImplicit false

namespace Stepwise

/-! ### Sound frames -/

/-- What a `for` keeps is sound. -/
def ForPhase.Sound : ForPhase → Prop
  | .source slot => slot.Paired
  | .iterate slot left => slot.Paired ∧ ∀ v ∈ left, v.Stored
  | _ => True

/-- What a call keeps is sound. -/
def CallPhase.Sound : CallPhase → Prop
  | .args f => f.body.isWellFormed = true
  | .body (some v) => v.Stored
  | _ => True

namespace Control

/-- The parts of a construct are well-formed, and what it keeps is sound. -/
def Sound : Control → Prop
  | ifThen _ cond body => cond.isWellFormed = true ∧ body.isWellFormed = true
  | shortCircuit _ _ left right => left.isWellFormed = true ∧ right.isWellFormed = true
  | whileDo _ _ cond body => cond.isWellFormed = true ∧ body.isWellFormed = true
  | forEach phase _ target source body =>
    target.isWellFormed = true ∧ source.isWellFormed = true ∧ body.isWellFormed = true ∧ phase.Sound
  | call phase callee args => callee.isWellFormed = true ∧ args.isWellFormed = true ∧ phase.Sound
  | object _ body => body.isWellFormed = true
  | tryCatch _ body _ handler => body.isWellFormed = true ∧ handler.isWellFormed = true

end Control

namespace Frame

/-- The nodes of a frame are well-formed, an operation has the nodes of its arguments, and what the frame
keeps is sound. -/
def Sound : Frame → Prop
  | .value v => v.Sound
  | .request node _ => node.isWellFormed = true
  | .finish _ => True
  | .operation op args _ => op.arity ≤ args.length ∧ Node.allWellFormed args = true
  | .list items => Node.allWellFormed items = true
  | .block statements => Node.allWellFormed statements = true
  | .control _ c => c.Sound

/-- The values that a frame can work with when it is its turn. -/
def Takes : Frame → List Value → Prop
  | .value _, _ => False
  | .request _ _, vs => vs = []
  | .finish _, vs => ∃ v, vs = [v] ∧ v.Sound
  | .operation op _ _, vs => vs.length ≤ op.arity ∧ FitsEach vs op.demands
  | .list items, vs => vs.length ≤ items.length ∧ ∀ v ∈ vs, v.Stored
  | .block _, vs => vs.length ≤ 1
  | .control _ c, vs => vs.length ≤ 1 ∧ ∀ d ∈ c.needs, ∃ v, vs = [v] ∧ v.Fits (some d)

/-- The demand that the value of a frame will fit. -/
def result : Frame → Option Demand
  | .request _ demand | .finish demand => some demand
  | _ => none

end Frame

namespace Machine

open Stepwise.Frame (values)

/-! ### Contexts -/

/-- Frames that can go on, one after the other, once a value that fits `slot` is produced above them. -/
inductive Context : Option Demand → List Frame → Prop where
  | bottom {slot : Option Demand} : Context slot []
  | frame {slot : Option Demand} {vs : List Value} {f : Frame} {below : List Frame}
      (hf : f.isValue = false) (hwaits : ∀ v, Value.Fits v slot → f.Takes (vs ++ [v]))
      (hbelow : Context f.result below) : Context slot (values vs ++ f :: below)

/-- A stack whose top frame can work, with a context for what it yields; or the value of a script. -/
inductive Tight : List Frame → Prop where
  | done (v : Value) : Tight [.value v]
  | working {vs : List Value} {f : Frame} {below : List Frame} (hf : f.isValue = false)
      (htakes : f.Takes vs) (hbelow : Context f.result below) : Tight (values vs ++ f :: below)

/-- A stack as an interrupt leaves it: below its values there is a frame with its context. -/
inductive Loose : List Frame → Prop where
  | nil : Loose []
  | value {below : List Frame} (v : Value) (h : Loose below) : Loose (.value v :: below)
  | frame {f : Frame} {below : List Frame} (hf : f.isValue = false)
      (hbelow : Context f.result below) : Loose (f :: below)

section Shapes

variable {slot : Option Demand} {below : List Frame}

/-- Values may be left on any such stack. -/
theorem Loose.values_append (h : Loose below) (vs : List Value) : Loose (values vs ++ below) := by
  -- The value on top is the last one of `vs`.
  rw [values]
  induction vs.reverse with
  | nil => exact h
  | cons v ws ih => exact .value v ih

theorem Tight.loose {stack : List Frame} (h : Tight stack) : Loose stack := by
  cases h with
  | done v => exact .value v .nil
  | working hf htakes hbelow => exact (Loose.frame hf hbelow).values_append _

theorem Context.loose (h : Context slot below) : Loose below := by
  cases h with
  | bottom => exact .nil
  | frame hf hwaits hbelow => exact (Loose.frame hf hbelow).values_append _

/-- What is below the top of a stack that an interrupt leaves. -/
theorem Loose.tail {f : Frame} (h : Loose (f :: below)) : Loose below := by
  cases h with
  | value v h => exact h
  | frame hf hbelow => exact hbelow.loose

/-- What is below a frame that is no value is its context. -/
theorem Loose.context {f : Frame} (h : Loose (f :: below)) (hf : f.isValue = false) :
    Context f.result below := by
  cases h with
  | value v h => cases hf
  | frame _ hbelow => exact hbelow

/-- A value that the context waits for lets its top frame work. -/
theorem Context.tight (h : Context slot below) {v : Value} (hv : v.Fits slot) :
    Tight (.value v :: below) := by
  cases h with
  | bottom => exact .done v
  | @frame _ vs f below hf hwaits hbelow =>
      -- The value comes on top of those that were produced before it.
      rw [← List.cons_append, ← Frame.values_concat]
      exact .working hf (hwaits v hv) hbelow

/-- A frame that can work with nothing works next. -/
theorem Context.push {f : Frame} (h : Context f.result below) (hf : f.isValue = false)
    (htakes : f.Takes []) : Tight (f :: below) :=
  show Tight (values [] ++ f :: below) from .working hf htakes h

/-- A request works next. -/
theorem Context.request {demand : Demand} (h : Context (some demand) below) (node : Node) :
    Tight (.request node demand :: below) :=
  Context.push (f := .request node demand) h rfl rfl

end Shapes

end Machine

end Stepwise
