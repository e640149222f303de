import Stepwise.Proofs.Footprint
import Stepwise.Proofs.Running
import Stepwise.Proofs.Unwinding

/-!
# `Stepwise.Proofs.Loops`: a `for` visits the elements that its list had

A `for` keeps the elements that are left in its own frame, while its body may change the list, the variable
and the slot as it likes, run other loops above the frame and end by a `continue` at any depth. What keeps
the frame safe from all this is that a step only touches the frame whose turn it is and what is above it
(`Machine.Busy.step_stack`, `Machine.turn_cases`).

`Loop` is a loop whose list has been found, with the elements of that time. `Loop.At` says how far it has
come, and `Loop.Stepped` lists what one step can do to it: leave it alone, let it write the next element and
start its body, break it, finish it, or take it away with a return or an exception. `Loop.At.stepped` proves
that nothing else can happen, `Loop.At.after` follows the loop through any number of steps, and
`Loop.for_visits_elements` says what a script sees.

A loop yields whether its body was started. For that, a `for` that has not found its list must not claim to
have run its body, in any state of a run. This is a property that each construct keeps for itself;
`Frame.Lasting` is the principle for such properties.
-/

set_option autoImplicit false

namespace Stepwise

/-! ### Properties of all frames -/

/-- Whether a frame is a construct. -/
def Frame.isControl : Frame → Bool
  | .control _ _ => true
  | _ => false

/-- A property of frames that no step can break: only constructs can lack it, a construct has it when it
begins, and it stays when the construct goes on or takes an interrupt. -/
structure Frame.Lasting (p : Frame → Prop) : Prop where
  plain : ∀ f : Frame, f.isControl = false → p f
  produced : ∀ (st : State) (node : Node) (f : Frame), (st.produce node).1 = .ok (.frame f) → p f
  resumed : ∀ (line : Nat) (c : Control) (incoming : Option Value) (st : State),
    p (.control line c) → p (.control line (c.resume incoming st).control)
  answered : ∀ (line : Nat) (c c' : Control) (i : Interrupt) (st st' : State),
    p (.control line c) → c.answer i st = .handled c' st' → p (.control line c')

namespace Machine

open Stepwise.Frame (values)
open List (forall_mem_cons forall_mem_append)

section Lasting

variable {p : Frame → Prop} (hp : Frame.Lasting p)

include hp

theorem lasting_values (vs : List Value) : ∀ f ∈ values vs, p f := by
  intro f hf
  obtain ⟨v, -, rfl⟩ := List.mem_map.mp hf
  exact hp.plain _ rfl

theorem lasting_cons {f : Frame} {frames : List Frame} (hf : f.isControl = false)
    (h : ∀ g ∈ frames, p g) : ∀ g ∈ f :: frames, p g :=
  forall_mem_cons.mpr ⟨hp.plain f hf, h⟩

/-- The work of a frame leaves the property to all frames. -/
theorem work_lasting {m : Machine} (h : ∀ f ∈ m.stack, p f) : ∀ f ∈ m.work.2.stack, p f := by
  obtain ⟨stack, st⟩ := m
  rcases exists_values_append stack with ⟨vs, rfl⟩ | ⟨vs, f, below, hf, rfl⟩
  · rw [work_values]
    exact h
  have hvs := lasting_values hp vs
  obtain ⟨hframe, hbelow⟩ := forall_mem_cons.mp (forall_mem_append.mp h).2
  rw [work_values_append vs f below st hf]
  -- The frames of the machine itself have the property, so only the construct that a node becomes and the
  -- construct that goes on are left to the assumptions.
  cases f with
  | value v => cases hf
  | request node demand =>
      have hplaced (g : Frame) (hg : g.isControl = false) :
          ∀ f ∈ values vs ++ g :: below, p f :=
        forall_mem_append.mpr ⟨hvs, lasting_cons hp hg hbelow⟩
      have hproduced := hp.produced { st with line := node.line } node
      simp only [stepRequest]
      cases hmade : State.produce { st with line := node.line } node with
      | mk r st' =>
          rw [hmade] at hproduced
          cases r with
          | error fault => exact h
          | ok produced =>
              cases produced with
              | frame g => exact forall_mem_cons.mpr ⟨hproduced g rfl, hplaced (.finish demand) rfl⟩
              | value v =>
                  dsimp only
                  split
                  · exact h
                  · exact hplaced _ rfl
  | finish demand =>
      simp only [stepFinish]
      split
      · split
        · exact lasting_cons hp rfl hbelow
        · exact lasting_cons hp rfl hbelow
      · exact h
  | operation op args line =>
      simp only [stepOperation]
      split
      · split
        · exact lasting_cons hp rfl h
        · exact h
      · split
        · cases State.apply { st with line := line } op vs with
          | mk r st' =>
              cases r with
              | ok v => exact lasting_cons hp rfl hbelow
              | error fault => exact hbelow
        · exact h
  | list items =>
      simp only [stepList]
      split
      · exact lasting_cons hp rfl h
      · split
        · exact lasting_cons hp rfl hbelow
        · exact h
  | block statements =>
      cases statements with
      | nil => exact lasting_cons hp rfl hbelow
      | cons s rest => exact lasting_cons hp rfl (lasting_cons hp rfl hbelow)
  | control line c =>
      have hresumed := hp.resumed line c vs.head? { st with line := line } hframe
      have hhere := forall_mem_cons.mpr ⟨hresumed, hbelow⟩
      simp only [stepControl]
      split
      · exact h
      · split
        · exact hhere
        · exact lasting_cons hp rfl hhere
        · exact lasting_cons hp rfl hhere
        · exact lasting_cons hp rfl hbelow

/-- The offer of an interrupt leaves the property to all frames. -/
theorem dispatch_lasting (i : Interrupt) {stack : List Frame} (st : State) (h : ∀ f ∈ stack, p f) :
    ∀ f ∈ (dispatch i stack st).2.stack, p f := by
  cases stack with
  | nil => exact h
  | cons f below =>
      obtain ⟨hframe, hbelow⟩ := forall_mem_cons.mp h
      cases f with
      | control line c =>
          simp only [dispatch]
          cases hanswer : c.answer i st with
          | passed =>
              dsimp only
              -- Unwinding removes one frame and leaves those below as they are.
              rw [(unwind_same i below (c.discard st)).1]
              exact hbelow
          | handled c' st' =>
              exact forall_mem_cons.mpr ⟨hp.answered line c c' i st st' hframe hanswer, hbelow⟩
          | rejected fault => exact h
      | _ =>
          show ∀ f ∈ (unwind i below st).2.stack, p f
          rw [(unwind_same i below st).1]
          exact hbelow

theorem step_lasting {m : Machine} (h : ∀ f ∈ m.stack, p f) : ∀ f ∈ m.step.2.stack, p f := by
  rcases step_cases m with ⟨-, -, hstep⟩ | ⟨i, -, hstep⟩ | ⟨-, -, hstep, -⟩ |
    ⟨-, -, cause, m', hm', -, hstep⟩
  · rw [hstep]
    exact h
  · rw [hstep, finishStep_snd]
    exact dispatch_lasting hp i _ h
  · rw [hstep, finishStep_snd]
    exact work_lasting hp h
  · have hwork := work_lasting hp h
    rw [hm'] at hwork
    rw [hstep, finishStep_snd, (throwCatchable_same cause m').1]
    exact hwork

/-- All frames of a run have a property that lasts. -/
theorem after_lasting (root : Block) (limit : Nat) (seed : Seed) (sink : Sink) (n : Nat) :
    ∀ f ∈ ((start root limit seed sink).after n).stack, p f := by
  induction n with
  | zero => exact lasting_cons hp rfl (by simp)
  | succ n ih => exact step_lasting hp ih

end Lasting

/-- A step of a machine that works above some frames leaves these frames where they are. -/
theorem Busy.step_stack {base : List Frame} {m : Machine} (h : Busy base m) :
    ∃ above, m.step.2.stack = above ++ base := by
  have hbusy := h.hasWork
  obtain ⟨above, hne, hstack, hnonvalue⟩ := h
  -- What is left of the stack ends in what was below the frame at work.
  have hbase {held : Option Holding} {rest : List Frame} {m' : Machine}
      (hleft : Left held m.state (rest ++ base) m') : ∃ above, m'.stack = above ++ base := by
    obtain ⟨left, slot, hstack', -, -⟩ := hleft
    refine ⟨left ++ (slot.toList ++ rest), ?_⟩
    rw [hstack', List.append_assoc, List.append_assoc]
  have hwork (hp : m.state.pending = none) : ∃ above, m.work.2.stack = above ++ base := by
    obtain ⟨f, hf, hvalue⟩ := hnonvalue hp
    rcases exists_values_append above with ⟨vs, rfl⟩ | ⟨vs, g, rest, hg, rfl⟩
    · rw [Frame.isValue_of_mem_values hf] at hvalue
      cases hvalue
    · rw [List.append_assoc, List.cons_append] at hstack
      rw [show m = ⟨m.stack, m.state⟩ from rfl, hstack]
      exact hbase (work_left vs (rest ++ base) m.state g hg)
  -- An interrupt is offered to the top frame, which is above the base since something is.
  rcases step_cases m with ⟨-, hidle, -⟩ | ⟨i, -, hstep⟩ | ⟨hp, -, hstep, -⟩ |
    ⟨hp, -, cause, m', hm', -, hstep⟩
  · rw [hbusy] at hidle
    cases hidle
  · cases above with
    | nil => exact absurd rfl hne
    | cons f rest =>
        rw [hstep, finishStep_snd, hstack]
        exact hbase ((dispatch_left i f (rest ++ base) _).of_same rfl rfl)
  · rw [hstep, finishStep_snd]
    exact hwork hp
  · have hthrown := hwork hp
    rw [hm'] at hthrown
    rw [hstep, finishStep_snd, (throwCatchable_same cause m').1]
    exact hthrown

/-! ### Turns -/

/-- How many frames stand at and below the one whose turn it is: an interrupt under way is offered to the
top frame, and otherwise the topmost frame works that is no value. -/
def turn (m : Machine) : Nat :=
  match m.state.pending with
  | some _ => m.stack.length
  | none => (takeValues [] m.stack).2.length

/-- A frame that is no value has its turn, or the machine works above it. -/
theorem turn_cases {m : Machine} {above below : List Frame} {f : Frame} (hf : f.isValue = false)
    (hstack : m.stack = above ++ f :: below) :
    (below.length + 1 < m.turn ∧ Busy (f :: below) m) ∨
    (m.turn = below.length + 1 ∧
      ((∃ i, m.state.pending = some i ∧ m.stack = f :: below) ∨
       (m.state.pending = none ∧ ∃ vs, m.stack = values vs ++ f :: below))) := by
  -- An interrupt is offered to the top frame; without one the topmost frame that is no value works.
  cases hp : m.state.pending with
  | some i =>
      cases above with
      | nil =>
          refine Or.inr ⟨?_, Or.inl ⟨i, rfl, hstack⟩⟩
          simp [turn, hp, hstack]
      | cons g rest =>
          refine Or.inl ⟨?_, g :: rest, by simp, hstack, by simp [hp]⟩
          simp only [turn, hp, hstack, List.cons_append, List.length_cons, List.length_append]
          omega
  | none =>
      rcases exists_values_append above with ⟨vs, rfl⟩ | ⟨vs, g, rest, hg, rfl⟩
      · refine Or.inr ⟨?_, Or.inr ⟨rfl, vs, hstack⟩⟩
        simp [turn, hp, hstack, takeValues_values_cons vs below hf]
      · refine Or.inl ⟨?_, values vs ++ g :: rest, by simp, hstack, ?_⟩
        · have htake := takeValues_values_cons vs (rest ++ f :: below) hg
          simp only [turn, hp, hstack, List.append_assoc, List.cons_append, htake, List.length_cons,
            List.length_append]
          omega
        · intro _
          exact ⟨g, by simp, hg⟩

end Machine

/-! ### Loops -/

/-- A `for` whose list has been found: its parts, the slot of its variable, the elements of the list at that
time, and the frames that its own frame stands on. -/
structure Loop where
  line : Nat
  target : Node
  source : Node
  body : Block
  slot : Reference
  elements : List Value
  below : List Frame

namespace Loop

variable (l : Loop)

/-- The frame of a loop. -/
def frame (phase : ForPhase) (ran : Bool) : Frame :=
  .control l.line (.forEach phase ran l.target l.source l.body)

/-- The number of frames from the one of the loop down. -/
def height : Nat :=
  l.below.length + 1

/-- The list of a loop has just been found. -/
def Ready (m : Machine) : Prop :=
  m.state.pending = none ∧ ∃ r ran,
    m.stack = .value (.list r) :: l.frame (.source l.slot) ran :: l.below ∧
      (m.state.heap.items r).toList = l.elements

/-- The frame of a loop is on the stack. -/
def On (m : Machine) : Prop :=
  ∃ above phase ran, m.stack = above ++ l.frame phase ran :: l.below

/-- Whether a loop starts its body in the next step: it is its turn, and a block comes on top of it. -/
def startsBody (m : Machine) : Bool :=
  m.turn == l.height &&
    match m.step.2.stack with
    | .block _ :: rest => rest.length == l.height
    | _ => false

/-- The steps, among the first `k`, in which a loop starts its body. -/
def starts (m : Machine) (k : Nat) : List Nat :=
  (List.range k).filter fun t => l.startsBody (m.after t)

/-- In the next step a loop writes its element number `i` to its slot and starts its body, and the elements
after that one are left. -/
def Begins (m : Machine) (i : Nat) : Prop :=
  ∃ v, l.elements[i]? = some v ∧ m.state.heap.writable l.slot = .ok () ∧
    m.step = (.ok true,
      ⟨.block l.body.statements ::
          l.frame (.iterate l.slot (l.elements.drop (i + 1))) true :: l.below,
        { m.state with line := l.line, heap := m.state.heap.put l.slot v }⟩)

/-- A loop takes a break in the next step. -/
def Breaks (m : Machine) : Prop :=
  ∃ i phase ran, m.state.pending = some i ∧ i.exit = .broke ∧ m.stack = l.frame phase ran :: l.below

/-- A loop fails in the next step. -/
def Fails (m : Machine) : Prop :=
  m.turn = l.height ∧ ∃ f, m.step.1 = .error f

/-- How far a loop has come: it has started its body for the first `visited` elements, and it goes on with
the others unless it is to end early. -/
inductive At (m : Machine) : (visited : Nat) → (early : Bool) → Prop where
  | ready {r : ListRef} (hpending : m.state.pending = none)
      (hstack : m.stack = .value (.list r) :: l.frame (.source l.slot) false :: l.below)
      (hitems : (m.state.heap.items r).toList = l.elements) : At m 0 false
  | running {visited : Nat} (above : List Frame) (hpos : 0 < visited) (hle : visited ≤ l.elements.length)
      (hstack : m.stack = above ++ l.frame (.iterate l.slot (l.elements.drop visited)) true :: l.below) :
      At m visited false
  | broken {visited : Nat} (above : List Frame) (hle : visited ≤ l.elements.length)
      (hstack : m.stack = above ++ l.frame .broken (0 < visited) :: l.below) : At m visited true

/-- What the next step can do to a loop. -/
inductive Stepped (m : Machine) (visited : Nat) (early : Bool) : Prop where
  /-- The loop stays as it is. -/
  | stays (hstarts : l.startsBody m = false) (hat : l.At m.step.2 visited early)
      (hheap : m.turn = l.height → m.step.2.state.heap = m.state.heap)
  /-- The loop takes a break or fails, and is to end. -/
  | ends (hstarts : l.startsBody m = false) (hat : l.At m.step.2 visited true)
      (hheap : m.step.2.state.heap = m.state.heap) (hcause : l.Breaks m ∨ l.Fails m)
  /-- The loop writes the next element and starts its body. -/
  | starts (hstarts : l.startsBody m = true) (hbegins : l.Begins m visited)
      (hat : l.At m.step.2 (visited + 1) early)
  /-- The loop is done. -/
  | done (hstarts : l.startsBody m = false)
      (hstack : m.step.2.stack = .value (.bool (0 < visited)) :: l.below)
      (hheap : m.step.2.state.heap = m.state.heap) (hwhole : visited = l.elements.length ∨ early = true)
  /-- A return or an exception goes through the loop. -/
  | left {i : Interrupt} {v : Value} (hstarts : l.startsBody m = false) (hpending : m.state.pending = some i)
      (hexit : i.exit = .returned v ∨ i.exit = .thrown v) (hstack : m.step.2.stack = l.below)

section Steps

open Stepwise.Frame (values)
open Machine (Busy step_of_work step_of_fault)

variable {l} {m : Machine} {visited : Nat} {early : Bool} {phase : ForPhase} {ran : Bool}

theorem startsBody_of_turn (h : m.turn ≠ l.height) : l.startsBody m = false := by
  simp [startsBody, h]

/-- A loop starts its body only if a block comes on top of its frame. -/
theorem startsBody_of_stack
    (h : ∀ statements rest, m.step.2.stack = .block statements :: rest → rest.length ≠ l.height) :
    l.startsBody m = false := by
  simp only [startsBody]
  split
  · rename_i statements rest hstack
    simp [h statements rest hstack]
  · simp

theorem startsBody_of_value {v : Value} {rest : List Frame} (h : m.step.2.stack = .value v :: rest) :
    l.startsBody m = false := by
  simp [startsBody, h]

theorem startsBody_of_frame {rest : List Frame} (h : m.step.2.stack = l.frame phase ran :: rest) :
    l.startsBody m = false := by
  simp [startsBody, h, frame]

/-- A loop that has only values above it has its turn. -/
theorem turn_of_values {vs : List Value} (hp : m.state.pending = none)
    (hstack : m.stack = values vs ++ l.frame phase ran :: l.below) :
    m.turn = l.height ∧ m.hasWork = true := by
  have hframe : (l.frame phase ran).isValue = false := rfl
  constructor
  · simp only [Machine.turn, hp, hstack, Machine.takeValues_values_cons vs l.below hframe]
    rfl
  · rw [show m = ⟨m.stack, m.state⟩ from rfl, hstack]
    exact (Machine.busy_values_append vs l.below m.state hframe).hasWork

/-- The next element of a loop, or its end. -/
theorem stepped_of_nextElement {vs : List Value} (hle : visited ≤ l.elements.length)
    (hp : m.state.pending = none) (hstack : m.stack = values vs ++ l.frame phase ran :: l.below)
    (hwork : m.work = Machine.resumedOutcome l.line l.below
      (Control.nextElement (0 < visited) l.target l.source l.body l.slot (l.elements.drop visited)
        (m.state.atLine l.line))) : l.Stepped m visited false := by
  obtain ⟨hturn, hbusy⟩ := turn_of_values hp hstack
  -- The phase of the frame holds the elements that are left.
  cases hdrop : l.elements.drop visited with
  | nil =>
      rw [hdrop] at hwork
      have hstep := step_of_work hp hbusy hwork
      have hlength : l.elements.length ≤ visited := List.drop_eq_nil_iff.mp hdrop
      have hvalue : m.step.2.stack = .value (.bool (0 < visited)) :: l.below := by rw [hstep]
      exact .done (startsBody_of_value hvalue) hvalue (by rw [hstep]; rfl) (Or.inl (by omega))
  | cons v left =>
      have hlt : visited < l.elements.length := by
        have hlength := congrArg List.length hdrop
        simp only [List.length_drop, List.length_cons] at hlength
        omega
      rw [List.drop_eq_getElem_cons hlt] at hdrop
      obtain ⟨rfl, rfl⟩ := List.cons.inj hdrop
      rw [List.drop_eq_getElem_cons hlt] at hwork
      simp only [Control.nextElement] at hwork
      -- The slot may have become one that cannot be written, if it is in a list; the loop then fails and is
      -- broken.
      cases hcheck : (m.state.atLine l.line).heap.writable l.slot with
      | error f =>
          rw [hcheck] at hwork
          have hstep : m.step =
              (.error f, ⟨l.frame .broken (0 < visited) :: l.below, m.state.atLine l.line⟩) := by
            refine step_of_fault hp hbusy hwork ?_
            rintro cause rfl
            cases (m.state.heap.writable_fails l.slot _ hcheck).1.uncatchable
          have hframe : m.step.2.stack = l.frame .broken (0 < visited) :: l.below := by rw [hstep]
          exact .ends (startsBody_of_frame hframe) (.broken [] hle hframe) (by rw [hstep]; rfl)
            (Or.inr ⟨hturn, f, by rw [hstep]⟩)
      | ok u =>
          rw [hcheck] at hwork
          have hstep := step_of_work hp hbusy hwork
          rw [Machine.hasWork_of_length (by simp)] at hstep
          refine .starts ?_ ⟨_, List.getElem?_eq_getElem hlt, hcheck, hstep⟩
            (.running [.block l.body.statements] (by omega) hlt (by rw [hstep]; rfl))
          simp only [startsBody, hturn, hstep, beq_self_eq_true, Bool.true_and]
          simp [height]

/-- An interrupt that is offered to a loop. A break is the end of the loop, a `continue` goes on to the next
element, and the others take the loop away. -/
theorem stepped_of_interrupt {i : Interrupt} (hp : m.state.pending = some i)
    (hstack : m.stack = l.frame phase ran :: l.below)
    (hcontinue : (l.frame phase ran).taken .continued = l.frame phase ran)
    (hkept : ∀ m' : Machine, m'.stack = l.frame phase ran :: l.below → l.At m' visited early)
    (hbroken : ∀ m' : Machine, m'.stack = l.frame .broken ran :: l.below → l.At m' visited true) :
    l.Stepped m visited early := by
  have hstep : m.step = Machine.finishStep
      (Machine.dispatch i (l.frame phase ran :: l.below) { m.state with pending := none }) := by
    rw [show m = ⟨m.stack, m.state⟩ from rfl, Machine.step_of_pending hp, hstack]
  -- A return or an exception takes the frame away and starts nothing.
  have hpasses {v : Value} (hpass : (l.frame phase ran).Passes i.exit)
      (hexit : i.exit = .returned v ∨ i.exit = .thrown v) : l.Stepped m visited early := by
    rw [Machine.dispatch_of_passes _ _ hpass] at hstep
    have hleft : m.step.2.stack = l.below := by
      rw [hstep, Machine.finishStep_snd, (Machine.unwind_same _ _ _).1]
    refine .left (startsBody_of_stack ?_) hp hexit hleft
    intro statements rest hblock
    rw [hleft] at hblock
    simp only [height, hblock, List.length_cons]
    omega
  obtain ⟨exit, line⟩ := i
  cases exit with
  | broke =>
      rw [Machine.dispatch_of_takes _ _ rfl] at hstep
      have hframe : m.step.2.stack = l.frame .broken ran :: l.below := by
        rw [hstep]
        rfl
      refine .ends (startsBody_of_frame hframe) (hbroken _ hframe) ?_
        (Or.inl ⟨_, phase, ran, hp, rfl, hstack⟩)
      rw [hstep]
      rfl
  | continued =>
      rw [Machine.dispatch_of_takes _ _ rfl, hcontinue] at hstep
      have hframe : m.step.2.stack = l.frame phase ran :: l.below := by
        rw [hstep]
        rfl
      refine .stays (startsBody_of_frame hframe) (hkept _ hframe) fun _ => ?_
      rw [hstep]
      rfl
  | returned v => exact hpasses ⟨rfl, rfl⟩ (Or.inl rfl)
  | thrown v => exact hpasses ⟨rfl, rfl⟩ (Or.inr rfl)

/-- With more than one value above it, a loop fails and stays as it is. -/
theorem step_of_surplus {v w : Value} {vs : List Value} (hp : m.state.pending = none)
    (hstack : m.stack = values (v :: w :: vs) ++ l.frame phase ran :: l.below) :
    m.step.2 = m ∧ l.startsBody m = false := by
  have hbusy := (turn_of_values hp hstack).2
  have hwork : m.work = (.error (Machine.countFault 1 (v :: w :: vs).length), m) := by
    rw [show m = ⟨m.stack, m.state⟩ from rfl, hstack, Machine.work_values_append _ _ _ _ rfl]
    rfl
  have hcatch (cause : Catchable) (hcause : Machine.countFault 1 (v :: w :: vs).length = .catchable cause) :
      m.state.guards = 0 := by
    cases hcause
  have hstep := step_of_fault hp hbusy hwork hcatch
  refine ⟨by rw [hstep], startsBody_of_stack ?_⟩
  intro statements rest hblock
  rw [hstep, hstack] at hblock
  -- The stack has not changed, and a block of the loop would stand lower than the values on top of it.
  have hlength := congrArg List.length hblock
  simp only [values, List.length_append, List.length_map, List.length_reverse, List.length_cons] at hlength
  simp only [height]
  omega

/-- A step of a machine with the frame of a loop on its stack, apart from the work of that frame: it leaves
the frame alone, or it offers an interrupt to it. -/
theorem stepped_of_frame {above : List Frame} (hstack : m.stack = above ++ l.frame phase ran :: l.below)
    (hcontinue : (l.frame phase ran).taken .continued = l.frame phase ran)
    (hkept : ∀ (m' : Machine) (above' : List Frame),
      m'.stack = above' ++ l.frame phase ran :: l.below → l.At m' visited early)
    (hbroken : ∀ m' : Machine, m'.stack = l.frame .broken ran :: l.below → l.At m' visited true)
    (hworks : ∀ incoming : Option Value, m.state.pending = none →
      m.stack = values incoming.toList ++ l.frame phase ran :: l.below → l.Stepped m visited early) :
    l.Stepped m visited early := by
  have hframe : (l.frame phase ran).isValue = false := rfl
  rcases Machine.turn_cases hframe hstack with
    ⟨hturn, hbusy⟩ | ⟨-, ⟨i, hp, hstack⟩ | ⟨hp, vs, hstack⟩⟩
  · -- The machine works above the frame, which stays where it is.
    have hne : m.turn ≠ l.height := Nat.ne_of_gt hturn
    obtain ⟨above', hstack'⟩ := hbusy.step_stack
    exact .stays (startsBody_of_turn hne) (hkept _ above' hstack') fun h => absurd h hne
  -- The interrupt is offered to the loop itself.
  · exact stepped_of_interrupt hp hstack hcontinue (fun m' h => hkept m' [] h) hbroken
  -- It is the turn of the loop, which takes at most one value; with two nothing happens but a fault.
  · match vs, hstack with
    | [], hstack => exact hworks none hp hstack
    | [v], hstack => exact hworks (some v) hp hstack
    | v :: w :: rest, hstack =>
        obtain ⟨hsame, hstarts⟩ := step_of_surplus hp hstack
        refine .stays hstarts ?_ fun _ => by rw [hsame]
        rw [hsame]
        exact hkept m _ hstack

/-- What a step can do to a loop that has come so far. -/
theorem At.stepped (h : l.At m visited early) : l.Stepped m visited early := by
  cases h with
  | ready hp hstack hitems =>
      rename_i r
      have hvalues : m.stack = values (some (Value.list r)).toList ++
          l.frame (.source l.slot) false :: l.below := hstack
      refine stepped_of_nextElement (Nat.zero_le _) hp hvalues ?_
      rw [show m = ⟨m.stack, m.state⟩ from rfl, hvalues, frame, Machine.work_control, List.drop_zero,
        ← hitems]
      rfl
  | running above hpos hle hstack =>
      have hran : decide (0 < visited) = true := decide_eq_true hpos
      -- A break leads to the broken phase, with the same number of elements visited.
      refine stepped_of_frame hstack rfl (fun m' above' h => .running above' hpos hle h) ?_ ?_
      · intro m' h
        refine .broken [] hle ?_
        rw [hran]
        exact h
      · intro incoming hp hstack
        refine stepped_of_nextElement hle hp hstack ?_
        rw [show m = ⟨m.stack, m.state⟩ from rfl, hstack, frame, Machine.work_control, hran]
        rfl
  | broken above hle hstack =>
      refine stepped_of_frame hstack rfl (fun m' above' h => .broken above' hle h)
        (fun m' h => .broken [] hle h) ?_
      -- A broken loop yields whether its body was started, and is gone.
      intro incoming hp hstack
      have hbusy := (turn_of_values hp hstack).2
      have hwork : m.work = (.ok (), ⟨.value (.bool (0 < visited)) :: l.below, m.state.atLine l.line⟩) := by
        rw [show m = ⟨m.stack, m.state⟩ from rfl, hstack, frame, Machine.work_control]
        rfl
      have hstep := step_of_work hp hbusy hwork
      have hvalue : m.step.2.stack = .value (.bool (0 < visited)) :: l.below := by rw [hstep]
      exact .done (startsBody_of_value hvalue) hvalue (by rw [hstep]; rfl) (Or.inr rfl)

theorem At.on (h : l.At m visited early) : l.On m := by
  cases h with
  | ready hp hstack hitems => exact ⟨[_], _, _, hstack⟩
  | running above hpos hle hstack => exact ⟨above, _, _, hstack⟩
  | broken above hle hstack => exact ⟨above, _, _, hstack⟩

/-- The frame of a loop that is done is gone. -/
theorem not_on_of_done {v : Value} (h : m.stack = .value v :: l.below) : ¬ l.On m := by
  rintro ⟨above, phase, ran, hstack⟩
  rw [h] at hstack
  cases above with
  | nil => cases hstack
  | cons f rest =>
      have hlength := congrArg List.length hstack
      simp only [List.length_cons, List.cons_append, List.length_append] at hlength
      omega

/-- The frame of a loop that was left is gone. -/
theorem not_on_of_left (h : m.stack = l.below) : ¬ l.On m := by
  rintro ⟨above, phase, ran, hstack⟩
  have hlength := congrArg List.length (h.symm.trans hstack)
  simp only [List.length_append, List.length_cons] at hlength
  omega

end Steps

/-! ### Runs of loops -/

/-- What a loop does in the first `k` steps from when its list was found. -/
structure Visits (m : Machine) (k : Nat) : Prop where
  /-- The body starts at most once for each element. -/
  length_le : (l.starts m k).length ≤ l.elements.length
  /-- The body starts for the elements in their order, in the step that writes the element. -/
  each : ∀ i t, (l.starts m k)[i]? = some t → l.Begins (m.after t) i
  /-- The loop writes nothing else. -/
  quiet : ∀ t < k, (m.after t).turn = l.height → t ∉ l.starts m k →
    (m.after (t + 1)).state.heap = (m.after t).state.heap

section Runs

variable {l} {m : Machine} {k : Nat}

theorem starts_succ_of_not (h : l.startsBody (m.after k) = false) : l.starts m (k + 1) = l.starts m k := by
  simp [starts, List.range_succ, h]

theorem starts_succ (h : l.startsBody (m.after k) = true) : l.starts m (k + 1) = l.starts m k ++ [k] := by
  simp [starts, List.range_succ, h]

/-- A step in which the body does not start. -/
theorem Visits.pass (hv : l.Visits m k) (hstarts : l.startsBody (m.after k) = false)
    (hheap : (m.after k).turn = l.height → (m.after (k + 1)).state.heap = (m.after k).state.heap) :
    l.Visits m (k + 1) where
  length_le := by
    rw [starts_succ_of_not hstarts]
    exact hv.length_le
  each := by
    rw [starts_succ_of_not hstarts]
    exact hv.each
  quiet t ht hturn hno := by
    rw [starts_succ_of_not hstarts] at hno
    rcases Nat.lt_succ_iff_lt_or_eq.mp ht with hlt | rfl
    · exact hv.quiet t hlt hturn hno
    · exact hheap hturn

/-- A step in which the body starts. -/
theorem Visits.start (hv : l.Visits m k) (hstarts : l.startsBody (m.after k) = true)
    (hbegins : l.Begins (m.after k) (l.starts m k).length) : l.Visits m (k + 1) where
  length_le := by
    obtain ⟨v, helement, -, -⟩ := hbegins
    rw [starts_succ hstarts, List.length_append]
    exact (List.getElem?_eq_some_iff.mp helement).1
  each i t hi := by
    rw [starts_succ hstarts] at hi
    -- The last start is the new one, with the number of those before it.
    by_cases hold : i < (l.starts m k).length
    · rw [List.getElem?_append_left hold] at hi
      exact hv.each i t hi
    · rw [List.getElem?_append_right (by omega), List.getElem?_singleton] at hi
      obtain ⟨hzero, rfl⟩ := Option.ite_some_none_eq_some.mp hi
      obtain rfl : i = (l.starts m k).length := by omega
      exact hbegins
  quiet t ht hturn hno := by
    rw [starts_succ hstarts] at hno
    have hne : t ≠ k := by
      rintro rfl
      simp at hno
    refine hv.quiet t (by omega) hturn fun hmem => hno ?_
    exact List.mem_append_left _ hmem

/-- In the step that starts the body for an element, the slot comes to hold the element. -/
theorem Begins.read {i : Nat} (h : l.Begins m i)
    (hslot : (m.state.heap.idOf? l.slot.container).isSome) :
    ∃ v, l.elements[i]? = some v ∧ m.step.2.state.heap.read l.slot = .ok v := by
  obtain ⟨v, hv, hwritable, hstep⟩ := h
  refine ⟨v, hv, ?_⟩
  rw [hstep]
  exact Heap.read_put hwritable hslot v

/-- A loop has come as far as its body was started, and if it is to end early, it took a break or failed. -/
theorem At.after (h : l.At m 0 false) (k : Nat) (hon : ∀ j ≤ k, l.On (m.after j)) :
    l.Visits m k ∧ ∃ early, l.At (m.after k) (l.starts m k).length early ∧
      (early = true → ∃ t < k, l.Breaks (m.after t) ∨ l.Fails (m.after t)) := by
  induction k with
  | zero =>
      refine ⟨⟨by simp [starts], by simp [starts], by simp⟩, false, h, nofun⟩
  | succ k ih =>
      obtain ⟨hv, early, hat, hearly⟩ := ih fun j hj => hon j (by omega)
      have hearly' (he : early = true) : ∃ t < k + 1, l.Breaks (m.after t) ∨ l.Fails (m.after t) := by
        obtain ⟨t, ht, hcause⟩ := hearly he
        exact ⟨t, by omega, hcause⟩
      -- The frame is still there after the step, which excludes that the loop is done or was left.
      have hnext : l.On (m.after k).step.2 := hon (k + 1) (Nat.le_refl _)
      cases hat.stepped with
      | stays hstarts hat' hheap =>
          refine ⟨hv.pass hstarts hheap, early, ?_, hearly'⟩
          rw [starts_succ_of_not hstarts]
          exact hat'
      | ends hstarts hat' hheap hcause =>
          refine ⟨hv.pass hstarts fun _ => hheap, true, ?_, fun _ => ⟨k, by omega, hcause⟩⟩
          rw [starts_succ_of_not hstarts]
          exact hat'
      | starts hstarts hbegins hat' =>
          refine ⟨hv.start hstarts hbegins, early, ?_, hearly'⟩
          rw [starts_succ hstarts, List.length_append]
          exact hat'
      | done hstarts hstack hheap hwhole => exact absurd hnext (not_on_of_done hstack)
      | left hstarts hpending hexit hstack => exact absurd hnext (not_on_of_left hstack)

/-- A loop stays on the stack as long as something is on top of its frame. -/
theorem At.on_of_height_lt (h : l.At m 0 false)
    (htop : ∀ j ≤ k, l.height < (m.after j).stack.length) : ∀ j ≤ k, l.On (m.after j) := by
  induction k with
  | zero =>
      intro j hj
      obtain rfl := Nat.le_zero.mp hj
      exact h.on
  | succ k ih =>
      have hbefore := ih fun j hj => htop j (by omega)
      intro j hj
      rcases Nat.lt_succ_iff_lt_or_eq.mp (Nat.lt_succ_of_le hj) with hlt | rfl
      · exact hbefore j (by omega)
      obtain ⟨-, early, hat, -⟩ := h.after k hbefore
      have hlength := htop (k + 1) (Nat.le_refl _)
      simp only [height] at hlength
      cases hat.stepped with
      | stays _ hat' => exact hat'.on
      | ends _ hat' => exact hat'.on
      | starts _ _ hat' => exact hat'.on
      -- A loop that goes leaves no more than a value on top of the frames below it.
      | done _ hstack =>
          rw [show (m.after (k + 1)).stack = _ from hstack] at hlength
          exact absurd hlength (Nat.lt_irrefl _)
      | left _ _ _ hstack =>
          rw [show (m.after (k + 1)).stack = _ from hstack] at hlength
          omega

end Runs

/-! ### Loops of a script -/

/-- A `for` that has not found its list yet has not run its body. -/
def Unbegun : Frame → Prop
  | .control _ (.forEach .start ran _ _ _) => ran = false
  | .control _ (.forEach .target ran _ _ _) => ran = false
  | .control _ (.forEach (.source _) ran _ _ _) => ran = false
  | _ => True

/-- A `for` that goes on has found its list, or still has not run its body. -/
theorem unbegun_resume {line : Nat} {c : Control} (h : Unbegun (.control line c)) (incoming : Option Value)
    (st : State) : Unbegun (.control line (c.resume incoming st).control) := by
  have hfault : Unbegun (.control line c.afterFault) := by
    cases c with
    | forEach phase ran target source body => trivial
    | _ => exact h
  cases hresumes : c.resume incoming st with
  | mk c' st' move =>
      -- Of all that a resume can do, only a request for the target or the source leaves a `for` before its
      -- list.
      cases Control.resume_eq_iff.mp hresumes with
      | impeded _ => exact hfault
      | refused _ _ => exact hfault
      | asks hasks =>
          cases hasks with
          | target => exact h
          | source _ => exact h
          | _ => trivial
      | starts hstarts => cases hstarts <;> trivial
      | settles hsettles => cases hsettles <;> trivial
      | _ => trivial

theorem unbegun_answer {line : Nat} {c c' : Control} {i : Interrupt} {st st' : State}
    (h : Unbegun (.control line c)) (hanswer : c.answer i st = .handled c' st') :
    Unbegun (.control line c') := by
  have hhandles := Control.handles hanswer
  generalize i.exit = exit at hhandles
  cases hhandles with
  -- Only a `continue` can bring a `for` back to its start, and it does so before the list is found.
  | @continuedFor phase _ _ _ _ _ hphase =>
      rcases hphase with ⟨rfl, -⟩ | ⟨rfl, hneeds⟩
      · exact h
      · cases phase with
        | target => exact h
        | source slot => exact h
        | _ => cases hneeds
  | _ => trivial

theorem lasting_unbegun : Frame.Lasting Unbegun where
  plain f hf := by
    cases f with
    | control line c => cases hf
    | _ => trivial
  produced st node f hf := by
    simp only [State.produce, State.produce.construct] at hf
    -- Only the node of a `for` becomes a `for`, and it starts without having run.
    cases hform : node.form with
    | path global names =>
        rw [hform] at hf
        dsimp only at hf
        split at hf <;> cases hf
    | list items =>
        rw [hform] at hf
        cases items with
        | nil => cases hf
        | cons item rest =>
            cases hf
            trivial
    | forEach target source body =>
        rw [hform] at hf
        cases hf
        rfl
    | _ =>
        rw [hform] at hf
        cases hf <;> trivial
  resumed _ _ incoming st h := unbegun_resume h incoming st
  answered _ _ _ _ _ _ h hanswer := unbegun_answer h hanswer

/-- A `for` visits the elements that its list had when it was found, in their order and each at most once,
whatever its body does. In the step that starts the body for an element, the element is written to the slot
of the variable, and the loop writes at no other time. If the frame of the loop goes, either the loop is
done and yields whether its body was started, which it was for every element unless the loop took a break or
failed, or a return or an exception went through it. -/
theorem for_visits_elements (root : Block) (limit : Nat) (seed : Seed) (sink : Sink) (n k : Nat)
    (hready : l.Ready ((Machine.start root limit seed sink).after n))
    (hon : ∀ j ≤ k, l.On (((Machine.start root limit seed sink).after n).after j)) :
    let m := (Machine.start root limit seed sink).after n
    l.Visits m k ∧
    (¬ l.On (m.after (k + 1)) →
      ((m.after (k + 1)).stack = .value (.bool (0 < (l.starts m k).length)) :: l.below ∧
        ((l.starts m k).length = l.elements.length ∨
          ∃ t ≤ k, l.Breaks (m.after t) ∨ l.Fails (m.after t))) ∨
      ((m.after (k + 1)).stack = l.below ∧ ∃ i v, (m.after k).state.pending = some i ∧
        (i.exit = .returned v ∨ i.exit = .thrown v))) := by
  intro m
  obtain ⟨hpending, r, ran, hstack, hitems⟩ := hready
  -- A loop that has just found its list has not run its body in any run.
  have hran : ran = false := by
    have hunbegun := Machine.after_lasting lasting_unbegun root limit seed sink n
    exact hunbegun (l.frame (.source l.slot) ran) (by rw [hstack]; simp)
  subst hran
  obtain ⟨hvisits, early, hat, hearly⟩ := (At.ready hpending hstack hitems).after k hon
  refine ⟨hvisits, fun hgone => ?_⟩
  -- Of all that a step can do, only the end of the loop and an interrupt take its frame away.
  cases hat.stepped with
  | stays hstarts hat' hheap => exact absurd hat'.on hgone
  | ends hstarts hat' hheap hcause => exact absurd hat'.on hgone
  | starts hstarts hbegins hat' => exact absurd hat'.on hgone
  | done hstarts hstack hheap hwhole =>
      refine Or.inl ⟨hstack, ?_⟩
      rcases hwhole with hwhole | rfl
      · exact Or.inl hwhole
      · obtain ⟨t, ht, hcause⟩ := hearly rfl
        exact Or.inr ⟨t, by omega, hcause⟩
  | left hstarts hpending hexit hstack => exact Or.inr ⟨hstack, _, _, hpending, hexit⟩

/-- Two elements and a body that pushes each of them to the list under way: the body starts once for each of
the two, the variable reads as that element from then on, and the loop yields true and leaves a list of four. -/
theorem for_visits_growing_list :
    let target : Node := .mk 2 (.path false ["x"])
    let source : Node := .mk 2 (.path false ["l"])
    let body : Block := .mk 2 [.mk 2 (.op .push [.mk 2 (.path false ["l"]), .mk 2 (.path false ["x"])])]
    let root : Block := .mk 1 [
      .mk 1 (.op .assign [.mk 1 (.path false ["l"]), .mk 1 (.list [.mk 1 (.int 4), .mk 1 (.int 5)])]),
      .mk 2 (.forEach target source body)]
    let m := (Machine.start root 9 7 .unlimited).after 20
    let slot : Reference := ⟨4, .object ⟨0⟩, .name "x"⟩
    let l : Loop := ⟨2, target, source, body, slot, [.int 4, .int 5], [.finish .any, .block []]⟩
    l.Visits m 20 ∧ l.starts m 20 = [0, 10] ∧
      (m.after 1).state.heap.read slot = .ok (.int 4) ∧ (m.after 11).state.heap.read slot = .ok (.int 5) ∧
      (m.after 21).stack = .value (.bool true) :: l.below ∧
      ((m.after 21).state.heap.items ⟨0⟩).map Value.int? = #[some 4, some 5, some 4, some 5] := by
  intro target source body root m slot l
  have hready : l.Ready m := ⟨rfl, ⟨0⟩, false, rfl, rfl⟩
  have hat : l.At m 0 false := .ready rfl rfl rfl
  -- Each of the 20 steps leaves something on top of the frame of the loop.
  have hon := hat.on_of_height_lt (k := 20) (by decide +kernel)
  obtain ⟨hvisits, hgone⟩ := l.for_visits_elements root 9 7 .unlimited 20 20 hready hon
  have hstarts : l.starts m 20 = [0, 10] := by decide +kernel
  obtain ⟨v, hv, hread⟩ := (hvisits.each 0 0 (by rw [hstarts]; rfl)).read (by decide +kernel)
  obtain ⟨w, hw, hread'⟩ := (hvisits.each 1 10 (by rw [hstarts]; rfl)).read (by decide +kernel)
  cases hv
  cases hw
  -- The next step leaves as many frames as there are from the loop down, but a value on top.
  have hvalue : (m.after 21).stack.head?.map Frame.isValue = some true := by decide +kernel
  have hlength : (m.after 21).stack.length = l.height := by decide +kernel
  have hoff : ¬ l.On (m.after 21) := by
    rintro ⟨above, phase, ran, hstack⟩
    rw [hstack] at hvalue hlength
    cases above with
    | nil => cases hvalue
    | cons f above =>
        simp only [height, List.length_append, List.length_cons] at hlength
        omega
  refine ⟨hvisits, hstarts, hread, hread', ?_, by decide +kernel⟩
  rcases hgone hoff with ⟨hstack, -⟩ | ⟨-, i, -, hpending, -⟩
  · rw [hstarts] at hstack
    exact hstack
  · have hidle : (m.after 20).state.pending.isSome = false := by decide +kernel
    rw [hpending] at hidle
    cases hidle

end Loop

end Stepwise
