import Mathlib
import Stepwise.Proofs.Ownership
import Stepwise.Proofs.Parts
import Stepwise.Proofs.References

/-!
# `Stepwise.Proofs.StackBound`: how high the stack can grow

The stack is never higher than the weight of the script times the number of scopes that may be open, the
global one included (`Program.depth_le`). The weight of a node is the number of frames that its evaluation
can put on the stack at once, counted generously: a frame for each node in it and one more for each that has
parts. It does not depend on what the script computes, on how long it runs, or on the limit.

A frame that holds a scope cuts the stack: what is above it evaluates the body of a function or of an object
literal, and these bodies are parts of the script. Between two cuts a frame stands on the frames of the nodes
around it, so its height above the cut and its own weight together are at most the weight of the body
(`Machine.Fits`). Loops put nothing on the stack that stays, since a loop has the weight of its parts in
every phase. Functions are found in memory, so the invariant also says that every function there has a body
that is not heavier than the script (`Value.Within`, with the invariant of `Stepwise.Proofs.References`).
-/

set_option autoImplicit false

namespace Stepwise

/-! ### Weights -/

mutual

/-- How many frames the evaluation of a node can put on the stack: its own and those of its form. -/
def Node.weight : Node → Nat
  | .mk _ form => 1 + form.weight

/-- How many frames a form can put on the stack. A function puts none there, and counts for its body. -/
def Form.weight : Form → Nat
  | .list items => 1 + Node.totalWeight items
  | .block body => body.weight
  | .function _ body => body.weight
  | .op _ args => 1 + Node.totalWeight args
  | .ifThen cond body => 1 + cond.weight + body.weight
  | .whileDo cond body => 1 + cond.weight + body.weight
  | .forEach target source body => 1 + target.weight + source.weight + body.weight
  | .call callee args => 1 + callee.weight + args.weight
  | .object body => 1 + body.weight
  | .andAlso left right => 1 + left.weight + right.weight
  | .orElse left right => 1 + left.weight + right.weight
  | .tryCatch body _ handler => 1 + body.weight + handler.weight
  | .null | .bool _ | .int _ | .float _ | .str _ | .path _ _ => 0

/-- How many frames a block can put on the stack. -/
def Block.weight : Block → Nat
  | .mk _ statements => 1 + Node.totalWeight statements

/-- How many frames the nodes of a list can put on the stack together. -/
def Node.totalWeight : List Node → Nat
  | [] => 0
  | n :: nodes => n.weight + Node.totalWeight nodes

end

theorem Node.weight_pos (n : Node) : 1 ≤ n.weight := by
  obtain ⟨line, form⟩ := n
  simp [Node.weight]

theorem Block.weight_eq (b : Block) : b.weight = 1 + Node.totalWeight b.statements := by
  obtain ⟨line, statements⟩ := b
  simp [Block.weight, Block.statements]

/-- The values of the nodes before one and the node itself weigh no more than all nodes. -/
theorem Node.add_weight_le {nodes : List Node} {k : Nat} {n : Node} (h : nodes[k]? = some n) :
    k + n.weight ≤ Node.totalWeight nodes := by
  induction nodes generalizing k with
  | nil => cases h
  | cons m nodes ih =>
      cases k with
      | zero =>
          cases h
          rw [Node.totalWeight]
          omega
      | succ k =>
          have hrest : k + n.weight ≤ Node.totalWeight nodes := ih h
          have hm : 1 ≤ m.weight := m.weight_pos
          rw [Node.totalWeight]
          omega

/-- How many frames a construct can come to stand under, itself included; its phase does not count. -/
def Control.weight : Control → Nat
  | .ifThen _ cond body => 1 + cond.weight + body.weight
  | .shortCircuit _ _ left right => 1 + left.weight + right.weight
  | .whileDo _ _ cond body => 1 + cond.weight + body.weight
  | .forEach _ _ target source body => 1 + target.weight + source.weight + body.weight
  | .call _ callee args => 1 + callee.weight + args.weight
  | .object _ body => 1 + body.weight
  | .tryCatch _ body _ handler => 1 + body.weight + handler.weight

/-- How many frames a frame can come to stand under, itself included. -/
def Frame.weight : Frame → Nat
  | .value _ => 1
  | .request node _ => node.weight
  | .finish _ => 1
  | .operation _ args _ => 1 + Node.totalWeight args
  | .list items => 1 + Node.totalWeight items
  | .block statements => 1 + Node.totalWeight statements
  | .control _ c => c.weight

theorem Frame.weight_pos (f : Frame) : 1 ≤ f.weight := by
  cases f with
  | request node demand => exact node.weight_pos
  | control line c => cases c <;> simp [Frame.weight, Control.weight] <;> omega
  | _ => simp [Frame.weight]

/-- A value that memory may hold: no reference, and no function with a body that is too heavy. -/
def Value.Within (limit : Nat) : Value → Prop
  | .reference _ => False
  | .function f => f.body.weight ≤ limit
  | _ => True

theorem Value.durable_within (limit : Nat) : Durable (Within limit) where
  inert v hv := by
    cases v with
    | function f => exact hv.elim
    | reference r => exact hv.elim
    | _ => trivial
  reference r hr := hr

/-- A node makes no function that is heavier than itself. -/
theorem Node.makes_within {node : Node} {limit : Nat} (h : node.weight ≤ limit) :
    node.Makes (Value.Within limit) := by
  intro id params body hform
  obtain ⟨line, form⟩ := node
  cases hform
  show body.weight ≤ limit
  simp only [Node.weight, Form.weight] at h
  omega

/-- The frame of a node that is started has the weight of its form. -/
theorem State.weight_of_produce {st : State} {node : Node} {f : Frame}
    (h : (st.produce node).1 = .ok (.frame f)) : 1 + f.weight ≤ node.weight := by
  obtain ⟨line, form⟩ := node
  cases form with
  -- A path, an empty list, a literal and a function are values at once: no frame is started.
  | path global names =>
      simp only [State.produce, Node.form] at h
      split at h <;> cases h
  | list items =>
      cases items with
      | nil => cases h
      | cons item items =>
          cases h
          exact Nat.le_refl _
  | block body =>
      cases h
      show 1 + (1 + Node.totalWeight body.statements) ≤ 1 + body.weight
      have hbody := body.weight_eq
      omega
  | null => cases h
  | bool b => cases h
  | int n => cases h
  | float x => cases h
  | str s => cases h
  | function params body => cases h
  -- Each other form starts the frame that its weight was taken from.
  | _ =>
      cases h
      exact Nat.le_refl _

/-! ### Constructs -/

/-- What a construct does next fits above it: it is a part of it, or a body that runs in a scope of its
own. -/
def Control.Leads (limit : Nat) (c : Control) (r : Resumed) : Prop :=
  r.control.weight = c.weight ∧
    match r.move with
    | .ok (.eval node _) => 1 + node.weight ≤ c.weight
    | .ok (.run body) =>
      1 + body.weight ≤ c.weight ∨
        body.weight ≤ limit ∧ Frame.ownsScope (.control 0 r.control) = true
    | _ => True

namespace Control

/-- The weight of a construct is that of its parts. -/
theorem weight_eq (c : Control) :
    c.weight = 1 + Node.totalWeight c.nodes + (c.blocks.map Block.weight).sum := by
  cases c <;> simp [weight, nodes, blocks, Node.totalWeight] <;> omega

theorem add_weight_le_of_node {c : Control} {n : Node} (h : n ∈ c.nodes) : 1 + n.weight ≤ c.weight := by
  obtain ⟨k, hk⟩ := List.mem_iff_getElem?.mp h
  have hn : k + n.weight ≤ Node.totalWeight c.nodes := Node.add_weight_le hk
  have hc := c.weight_eq
  omega

theorem add_weight_le_of_block {c : Control} {b : Block} (h : b ∈ c.blocks) : 1 + b.weight ≤ c.weight := by
  have hb : b.weight ≤ (c.blocks.map Block.weight).sum :=
    List.le_sum_of_mem (List.mem_map_of_mem h)
  have hc := c.weight_eq
  omega

/-- A construct of the same parts has the same weight. -/
theorem weight_of_parts {c c' : Control} (hnodes : c'.nodes = c.nodes) (hblocks : c'.blocks = c.blocks) :
    c'.weight = c.weight := by
  rw [c'.weight_eq, c.weight_eq, hnodes, hblocks]

/-- Whatever a construct does next fits above it. Loops weigh the same in every phase, and a call runs the body
of a function that it has taken from memory. -/
theorem resume_leads {limit : Nat} (incoming : Option Value) (st : State) {c : Control}
    (hc : c.Keeps (Value.Within limit)) : Leads limit c (c.resume incoming st) := by
  obtain ⟨hnodes, hblocks, -, hmove⟩ := (c.resumes incoming st).parts
  refine ⟨weight_of_parts hnodes hblocks, ?_⟩
  generalize c.resume incoming st = r at *
  obtain ⟨c', st', move⟩ := r
  cases move with
  | error f => trivial
  | ok move =>
      cases move with
      | eval node demand => exact add_weight_le_of_node hmove
      | run body =>
          cases hmove with
          | own hbody => exact Or.inl (add_weight_le_of_block hbody)
          -- The body of a function is no part of the call, but it was a part of the script.
          | called hcall =>
              subst hcall
              exact Or.inr ⟨hc, rfl⟩
      | done v => trivial

/-- A construct that takes an interrupt weighs what it did. -/
theorem weight_of_answer {c c' : Control} {i : Interrupt} {st st' : State}
    (h : c.answer i st = .handled c' st') : c'.weight = c.weight := by
  obtain ⟨hnodes, hblocks, -⟩ := (handles h).parts
  exact weight_of_parts hnodes hblocks

end Control

/-! ### Stacks -/

namespace Machine

open Stepwise.Frame (values)

/-- The number of frames above the topmost one that holds a scope. -/
def heightAbove : List Frame → Nat
  | [] => 0
  | f :: below => if f.ownsScope then 0 else heightAbove below + 1

/-- The weight of each frame and its height above the topmost scope below it are together within a limit. -/
def Fits (limit : Nat) : List Frame → Prop
  | [] => True
  | f :: below => heightAbove below + f.weight ≤ limit ∧ Fits limit below

section Stacks

variable {limit : Nat} {f g : Frame} {vs : List Value} {stack below rest : List Frame}

theorem heightAbove_cons_le (f : Frame) (below : List Frame) :
    heightAbove (f :: below) ≤ heightAbove below + 1 := by
  rw [heightAbove]
  split
  · exact Nat.zero_le _
  · exact Nat.le_refl _

/-- Values hold no scope. -/
theorem heightAbove_values (vs : List Value) (below : List Frame) :
    heightAbove (values vs ++ below) = heightAbove below + vs.length := by
  induction vs using List.reverseRecOn with
  | nil => rfl
  | append_singleton vs v ih =>
      rw [Frame.values_concat, List.cons_append, heightAbove, ih, List.length_append]
      rfl

theorem Fits.of_values (h : Fits limit (values vs ++ rest)) : Fits limit rest := by
  induction vs using List.reverseRecOn with
  | nil => exact h
  | append_singleton vs v ih =>
      rw [Frame.values_concat, List.cons_append] at h
      exact ih h.2

/-- A frame that is not heavier in the place of another. -/
theorem Fits.replace (h : Fits limit (f :: below)) (hg : g.weight ≤ f.weight) :
    Fits limit (g :: below) :=
  ⟨Nat.le_trans (Nat.add_le_add_left hg _) h.1, h.2⟩

/-- The value of a frame in its place. -/
theorem Fits.produce (h : Fits limit (f :: below)) (v : Value) : Fits limit (.value v :: below) :=
  h.replace f.weight_pos

/-- A part of a frame above it and the values that it has. -/
theorem Fits.push (h : Fits limit (values vs ++ f :: below)) (hg : 1 + vs.length + g.weight ≤ f.weight) :
    Fits limit (g :: (values vs ++ f :: below)) := by
  have hf : heightAbove below + f.weight ≤ limit := h.of_values.1
  have hheight : heightAbove (f :: below) ≤ heightAbove below + 1 := heightAbove_cons_le f below
  refine ⟨?_, h⟩
  rw [heightAbove_values]
  omega

/-- Above the topmost scope there are no more frames than the limit. -/
theorem Fits.heightAbove_le (h : Fits limit stack) : heightAbove stack ≤ limit := by
  cases stack with
  | nil => exact Nat.zero_le _
  | cons f below =>
      have hf : heightAbove below + f.weight ≤ limit := h.1
      have hpos : 1 ≤ f.weight := f.weight_pos
      have hheight : heightAbove (f :: below) ≤ heightAbove below + 1 := heightAbove_cons_le f below
      omega

/-- Every frame with a scope ends a part of the stack that is no higher than the limit. -/
theorem Fits.length_le (h : Fits limit stack) :
    stack.length ≤ limit * stack.countP Frame.ownsScope + heightAbove stack := by
  induction stack with
  | nil => exact Nat.zero_le _
  | cons f below ih =>
      have hbelow := ih h.2
      rw [List.length_cons, heightAbove]
      cases hf : f.ownsScope with
      | false =>
          rw [List.countP_cons_of_neg (by simp [hf])]
          simp only [Bool.false_eq_true, if_false]
          omega
      | true =>
          -- What is below this frame up to the next scope is paid for by the one scope more.
          have hcap : heightAbove below + f.weight ≤ limit := h.1
          have hpos : 1 ≤ f.weight := f.weight_pos
          rw [List.countP_cons_of_pos hf, Nat.mul_succ]
          simp only [if_true]
          omega

end Stacks

/-! ### Steps -/

section Steps

variable {limit : Nat} {st : State} {vs : List Value} {below : List Frame}

theorem stepRequest_fits {node : Node} {demand : Demand} (h : Fits limit (.request node demand :: below)) :
    Fits limit (stepRequest node demand [] below st).2.stack := by
  simp only [stepRequest, List.nil_append]
  split
  · exact h
  · rename_i f st' hf
    have hweight : 1 + f.weight ≤ node.weight := State.weight_of_produce (congrArg Prod.fst hf)
    -- The frame that waits for the value takes the place of the request, and the new one stands on it.
    have hfinish : Fits limit (.finish demand :: below) := h.replace node.weight_pos
    have hnode : heightAbove below + node.weight ≤ limit := h.1
    have hheight : heightAbove (.finish demand :: below) ≤ heightAbove below + 1 :=
      heightAbove_cons_le _ below
    exact ⟨by omega, hfinish⟩
  · split
    · exact h
    · exact h.produce _

theorem stepFinish_fits {demand : Demand} (h : Fits limit (values vs ++ .finish demand :: below)) :
    Fits limit (stepFinish demand vs (values vs ++ .finish demand :: below) below st).2.stack := by
  unfold stepFinish
  split
  · split
    · exact h.of_values
    · exact h.of_values.produce _
  · exact h

theorem stepOperation_fits {op : Op} {args : List Node} {line : Nat}
    (h : Fits limit (values vs ++ .operation op args line :: below)) :
    Fits limit (stepOperation op args line vs (values vs ++ .operation op args line :: below) below
      st).2.stack := by
  unfold stepOperation
  split
  · split
    · rename_i node demand hnode _
      -- The next argument stands on the values of those before it, which each weigh at least one.
      have hweight : vs.length + node.weight ≤ Node.totalWeight args := Node.add_weight_le hnode
      have hpart : 1 + vs.length + node.weight ≤ Frame.weight (.operation op args line) := by
        show 1 + vs.length + node.weight ≤ 1 + Node.totalWeight args
        omega
      exact h.push hpart
    · exact h
  · split
    · split
      · exact h.of_values.produce _
      · exact h.of_values.2
    · exact h

theorem stepList_fits {items : List Node} (h : Fits limit (values vs ++ .list items :: below)) :
    Fits limit (stepList items vs (values vs ++ .list items :: below) below st).2.stack := by
  unfold stepList
  split
  · rename_i node hnode
    have hweight : vs.length + node.weight ≤ Node.totalWeight items := Node.add_weight_le hnode
    have hpart : 1 + vs.length + node.weight ≤ Frame.weight (.list items) := by
      show 1 + vs.length + node.weight ≤ 1 + Node.totalWeight items
      omega
    exact h.push hpart
  · split
    · exact h.of_values.produce _
    · exact h

theorem stepBlock_fits {statements : List Node} (h : Fits limit (.block statements :: below)) :
    Fits limit (stepBlock statements below st).2.stack := by
  cases statements with
  | nil => exact h.produce _
  | cons s rest =>
      -- The statement and those after it weigh as much as the block did.
      have hrest : Fits limit (.block rest :: below) := by
        refine h.replace ?_
        show 1 + Node.totalWeight rest ≤ 1 + (s.weight + Node.totalWeight rest)
        omega
      have hblock : heightAbove below + (1 + (s.weight + Node.totalWeight rest)) ≤ limit := h.1
      have hheight : heightAbove (.block rest :: below) ≤ heightAbove below + 1 :=
        heightAbove_cons_le _ below
      have hstatement : heightAbove (.block rest :: below) + s.weight ≤ limit := by omega
      exact ⟨hstatement, hrest⟩

theorem stepControl_fits {line : Nat} {c : Control} (hc : c.Keeps (Value.Within limit))
    (h : Fits limit (values vs ++ .control line c :: below)) :
    Fits limit (stepControl line c vs (values vs ++ .control line c :: below) below st).2.stack := by
  have hrest : Fits limit (.control line c :: below) := h.of_values
  unfold stepControl
  split
  · exact h
  -- A construct keeps its weight as it goes through its phases, so only what it asks for is new on the
  -- stack.
  · obtain ⟨hweight, hmove⟩ := Control.resume_leads vs.head? { st with line := line } hc
    generalize c.resume vs.head? { st with line := line } = r at *
    obtain ⟨c', st', move⟩ := r
    have hhere : Fits limit (.control line c' :: below) := hrest.replace (Nat.le_of_eq hweight)
    have hbelow : heightAbove below + c.weight ≤ limit := hrest.1
    have hheight : heightAbove (.control line c' :: below) ≤ heightAbove below + 1 :=
      heightAbove_cons_le _ below
    cases move with
    | error f => exact hhere
    | ok move =>
        cases move with
        | eval node demand =>
            have hnode : 1 + node.weight ≤ c.weight := hmove
            have hrequest : heightAbove (.control line c' :: below) + node.weight ≤ limit := by omega
            exact ⟨hrequest, hhere⟩
        | run body =>
            have hbody : heightAbove (.control line c' :: below) + body.weight ≤ limit := by
              rcases hmove with hpart | ⟨hbody, howns⟩
              · omega
              · -- The body of a function starts anew above its scope.
                have howns : Frame.ownsScope (.control line c') = true := howns
                rw [heightAbove, if_pos howns]
                omega
            rw [body.weight_eq] at hbody
            exact ⟨hbody, hhere⟩
        | done v => exact hrest.produce v

end Steps

/-- The work of the top frame keeps the stack within the limit. -/
theorem Fits.work {limit : Nat} {m : Machine} (hm : m.Keeps (Value.Within limit))
    (h : Fits limit m.stack) : Fits limit m.work.2.stack := by
  obtain ⟨stack, st⟩ := m
  rcases exists_values_append stack with ⟨vs, rfl⟩ | ⟨vs, f, below, hf, rfl⟩
  · rw [work_values]
    exact h
  · rw [work_values_append vs f below st hf]
    cases f with
    | value v => cases hf
    | request node demand =>
        -- A request starts a node in its own place, so no value may stand above it.
        obtain rfl : vs = [] := hm.laid.nil_of_request
        exact stepRequest_fits h
    | finish demand => exact stepFinish_fits h
    | operation op args line => exact stepOperation_fits h
    | list items => exact stepList_fits h
    | block statements => exact stepBlock_fits (Fits.of_values h)
    | control line c => exact stepControl_fits (hm.laid.of_values.keeps rfl) h

theorem unwind_fits {limit : Nat} {i : Interrupt} {below : List Frame} {st : State}
    (h : Fits limit below) : Fits limit (unwind i below st).2.stack := by
  cases below with
  | nil => trivial
  | cons f below => exact h

/-- An interrupt removes the top frame or leaves it in its place. -/
theorem dispatch_fits {limit : Nat} {i : Interrupt} {stack : List Frame} {st : State}
    (h : Fits limit stack) : Fits limit (dispatch i stack st).2.stack := by
  cases stack with
  | nil => trivial
  | cons f below =>
      cases f with
      | control line c =>
          simp only [dispatch]
          cases hanswer : c.answer i st with
          | passed => exact unwind_fits h.2
          | handled c' st' => exact h.replace (Nat.le_of_eq (Control.weight_of_answer hanswer))
          | rejected f => exact h
      | _ => exact unwind_fits h.2

/-- Every step keeps the stack within the limit, also one that fails. -/
theorem Fits.step {limit : Nat} {m : Machine} (hm : m.Keeps (Value.Within limit))
    (h : Fits limit m.stack) : Fits limit m.step.2.stack := by
  rcases step_cases m with ⟨-, -, hstep⟩ | ⟨i, hi, hstep⟩ | ⟨hpending, -, hstep, -⟩ |
    ⟨hpending, -, cause, m', hm', -, hstep⟩
  · rw [hstep]
    exact h
  · rw [hstep, finishStep_snd]
    exact dispatch_fits h
  · rw [hstep, finishStep_snd]
    exact h.work hm
  · have hwork := h.work hm
    rw [hm'] at hwork
    rw [hstep, finishStep_snd]
    exact hwork

/-- A node that is to be evaluated weighs no more than the limit, and neither does a function that it
makes. -/
theorem Fits.makes {limit : Nat} {m : Machine} (h : Fits limit m.stack) :
    m.Makes (Value.Within limit) := by
  intro vs node demand below hstack
  rw [hstack] at h
  have hnode : heightAbove below + node.weight ≤ limit := h.of_values.1
  exact Node.makes_within (by omega)

/-- The stack stays within the weight of the script. -/
theorem fits_after (root : Block) (limit : Nat) (seed : Seed) (sink : Sink) (n : Nat) :
    let m := (start root limit seed sink).after n
    m.Keeps (Value.Within root.weight) ∧ Fits root.weight m.stack := by
  induction n with
  | zero =>
      have hroot : 0 + (1 + Node.totalWeight root.statements) ≤ root.weight := by
        rw [root.weight_eq]
        omega
      exact ⟨keeps_start _ root limit seed sink, hroot, trivial⟩
  | succ n ih =>
      obtain ⟨hkeeps, hfits⟩ := ih
      exact ⟨hkeeps.step (Value.durable_within _) hfits.makes, hfits.step hkeeps⟩

/-- Calls and object literals that are under way number no more than the limit on scopes. -/
theorem countP_ownsScope_le (root : Block) (limit : Nat) (seed : Seed) (sink : Sink) (n : Nat) :
    ((start root limit seed sink).after n).stack.countP Frame.ownsScope ≤ limit := by
  have hbalanced := balanced_after root limit seed sink n
  rw [← hbalanced.noted.length_eq]
  exact hbalanced.length_le

end Machine

/-- The stack is bounded. However often the program of a script is advanced, its stack has no more frames
than the weight of the script times the number of scopes that may be open at once. -/
theorem Program.depth_le (root : Block) (settings : Settings) (source : Option String) (n : Nat) :
    (Program.after ⟨settings.machine root, source, none⟩ n).machine.depth
      ≤ root.weight * (settings.maxCallDepth + 1) := by
  obtain ⟨k, hk⟩ := exists_machine_eq_after ⟨settings.machine root, source, none⟩ n
  rw [hk]
  obtain ⟨-, hfits⟩ :=
    Machine.fits_after root settings.maxCallDepth settings.seed settings.sink k
  have hcount :=
    Machine.countP_ownsScope_le root settings.maxCallDepth settings.seed settings.sink k
  show ((settings.machine root).after k).stack.length ≤ root.weight * (settings.maxCallDepth + 1)
  -- No more than `root.weight` frames stand above each scope that is open, and as many above the topmost
  -- one.
  calc ((settings.machine root).after k).stack.length
      ≤ root.weight * ((settings.machine root).after k).stack.countP Frame.ownsScope
          + Machine.heightAbove ((settings.machine root).after k).stack := hfits.length_le
    _ ≤ root.weight * settings.maxCallDepth + root.weight :=
        Nat.add_le_add (Nat.mul_le_mul_left root.weight hcount) hfits.heightAbove_le
    _ = root.weight * (settings.maxCallDepth + 1) := (Nat.mul_succ _ _).symm

end Stepwise
