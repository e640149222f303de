import Stepwise.Proofs.Holding

/-!
# `Stepwise.Proofs.Ownership`: the scopes and the guards match the stack

A call does not keep the handle of the scope in which its body runs, so which scope it owns is a fact of
the run and not of the stack. `openedAt` reads it off the run: the scope that was current when the frame
at a height began its body. The invariant `Balanced` says that the scopes on top of the global one, from
the innermost outwards, are the notes of the frames that hold a scope, from the top down, and that there
are as many guards as frames that hold one.

`Balanced.step` proves it for one step from `step_left`: a step trades what one frame holds, above which
nothing is held, so the scope that it pushes or pops is the one of that frame. `balanced_after` follows
for every run from a start, whatever its steps returned. The bottom of the stack is a second invariant
(`Grounded`): it is the block of the script until that block is done or an interrupt has left it.
-/

set_option autoImplicit false

namespace Stepwise

namespace Machine

open Stepwise.Frame (values)

/-! ### Heights -/

/-- What the frame at a height of a stack holds; the bottom one has height zero. -/
def heldAt (stack : List Frame) (h : Nat) : Option Holding :=
  stack.reverse[h]?.bind Frame.holding

/-- The top frame is as high as there are frames below it. -/
theorem heldAt_cons (f : Frame) (below : List Frame) (h : Nat) :
    heldAt (f :: below) h = if h = below.length then f.holding else heldAt below h := by
  simp only [heldAt, List.reverse_cons, List.getElem?_append, List.length_reverse]
  by_cases hlt : h < below.length
  · rw [if_pos hlt, if_neg (by omega)]
  · rw [if_neg hlt]
    by_cases heq : h = below.length
    · rw [if_pos heq, heq, Nat.sub_self]
      rfl
    · have hout : below.reverse[h]? = none := List.getElem?_eq_none (by simp; omega)
      have hone : [f][h - below.length]? = none := List.getElem?_eq_none (by simp; omega)
      rw [if_neg heq, hout, hone]

/-- Nothing is held above a stack. -/
theorem heldAt_of_le {stack : List Frame} {h : Nat} (hle : stack.length ≤ h) :
    heldAt stack h = none := by
  have hout : stack.reverse[h]? = none := List.getElem?_eq_none (by simpa using hle)
  rw [heldAt, hout]
  rfl

/-- Frames that hold nothing can be left out. -/
theorem heldAt_free_append {above : List Frame} (habove : Free above) (below : List Frame) (h : Nat) :
    heldAt (above ++ below) h = heldAt below h := by
  induction above with
  | nil => rfl
  | cons f rest ih =>
      have hf : f.holding = none := habove f (by simp)
      have hrest : Free rest := fun g hg => habove g (by simp [hg])
      rw [List.cons_append, heldAt_cons]
      by_cases heq : h = (rest ++ below).length
      · rw [if_pos heq, hf, heldAt_of_le]
        rw [heq, List.length_append]
        omega
      · rw [if_neg heq, ih hrest]

/-- What a frame that may be gone holds, and what is held below it. -/
theorem heldAt_slot (slot : Option Frame) (below : List Frame) (h : Nat) :
    heldAt (slot.toList ++ below) h
      = if h = below.length then slot.bind Frame.holding else heldAt below h := by
  cases slot with
  | some f => exact heldAt_cons f below h
  | none =>
      by_cases heq : h = below.length
      · rw [if_pos heq, heq]
        exact heldAt_of_le (Nat.le_refl _)
      · rw [if_neg heq]
        rfl

/-! ### Notes -/

/-- The notes after a step. A frame that is in its body before and after it keeps its note, and one that
begins its body is noted with the scope that is current then. -/
def renote (note : Nat → Option ObjectRef) (m m' : Machine) (h : Nat) : Option ObjectRef :=
  match heldAt m.stack h, heldAt m'.stack h with
  | _, none => none
  | none, some _ => some m'.state.scopes.current
  | some _, some _ => note h

/-- After a number of steps, the scope that was current when the frame at a height began its body. -/
def openedAt (m : Machine) : Nat → Nat → Option ObjectRef
  | 0 => fun _ => none
  | n + 1 => renote (m.openedAt n) (m.after n) (m.after (n + 1))

/-- The scopes on top of the global one are those that the frames that hold one were noted with, from the
top down, and a frame that holds a guard was noted with the scope that its body runs in. -/
def Noted (note : Nat → Option ObjectRef) (global : ObjectRef) : List Frame → List ObjectRef → Prop
  | [], inner => inner = []
  | f :: below, inner =>
    match f.holding with
    | none => Noted note global below inner
    | some .guard =>
      note below.length = some (inner.head?.getD global) ∧ Noted note global below inner
    | some (.scope handle) =>
      ∃ scope rest, inner = scope :: rest ∧ note below.length = some scope ∧
        (∀ r ∈ handle, r = scope) ∧ Noted note global below rest

section Noted

variable {note note' : Nat → Option ObjectRef} {global : ObjectRef} {below above : List Frame}
  {inner : List ObjectRef}

/-- Frames that hold nothing can be left out. -/
theorem noted_free_append (habove : Free above) :
    Noted note global (above ++ below) inner ↔ Noted note global below inner := by
  induction above with
  | nil => rfl
  | cons f rest ih =>
      have hf : f.holding = none := habove f (by simp)
      have hrest : Free rest := fun g hg => habove g (by simp [hg])
      rw [List.cons_append, Noted, hf]
      exact ih hrest

/-- Only the notes of frames that hold something count. -/
theorem Noted.congr (h : Noted note global below inner)
    (hnote : ∀ j, (heldAt below j).isSome → note' j = note j) : Noted note' global below inner := by
  induction below generalizing inner with
  | nil => exact h
  | cons f below ih =>
      have hbelow (j : Nat) (hj : (heldAt below j).isSome) : note' j = note j := by
        refine hnote j ?_
        -- The note at a height is the one of the frame there, and the heights below are not the one of the
        -- top.
        have hne : j ≠ below.length := by
          intro heq
          rw [heldAt_of_le (Nat.le_of_eq heq.symm)] at hj
          cases hj
        rwa [heldAt_cons, if_neg hne]
      -- The note of the top frame counts only if the frame holds something.
      have htop (hf : f.holding.isSome) : note' below.length = note below.length := by
        refine hnote _ ?_
        rwa [heldAt_cons, if_pos rfl]
      unfold Noted at h ⊢
      cases hf : f.holding with
      | none =>
          rw [hf] at h
          exact ih h hbelow
      | some holding =>
          rw [hf] at h htop
          cases holding with
          | guard => exact ⟨(htop rfl).trans h.1, ih h.2 hbelow⟩
          | scope handle =>
              obtain ⟨scope, rest, hinner, hscope, hhandle, hrest⟩ := h
              exact ⟨scope, rest, hinner, (htop rfl).trans hscope, hhandle, ih hrest hbelow⟩

/-- The scopes of a stack are the one of its top frame, if that holds one, and those of the frames below. -/
theorem Noted.tail {f : Frame} (h : Noted note global (f :: below) inner) :
    ∃ own rest, inner = own ++ rest ∧ own.length = (if f.ownsScope then 1 else 0) ∧
      Noted note global below rest := by
  unfold Noted at h
  cases hf : f.holding with
  | none =>
      rw [hf] at h
      exact ⟨[], inner, rfl, by simp [Frame.ownsScope, hf], h⟩
  | some holding =>
      rw [hf] at h
      cases holding with
      | guard => exact ⟨[], inner, rfl, by simp [Frame.ownsScope, hf], h.2⟩
      | scope handle =>
          obtain ⟨scope, rest, rfl, -, -, hrest⟩ := h
          exact ⟨[scope], rest, rfl, by simp [Frame.ownsScope, hf], hrest⟩

/-- There are as many scopes as frames that hold one. -/
theorem Noted.length_eq (h : Noted note global below inner) :
    inner.length = below.countP Frame.ownsScope := by
  induction below generalizing inner with
  | nil =>
      rw [show inner = [] from h]
      rfl
  | cons f below ih =>
      obtain ⟨own, rest, rfl, hown, hrest⟩ := h.tail
      rw [List.length_append, List.countP_cons, hown, ih hrest, Nat.add_comm]

/-- Below some frames are the scopes that are left when theirs are gone. -/
theorem Noted.drop (h : Noted note global (above ++ below) inner) :
    Noted note global below (inner.drop (above.countP Frame.ownsScope)) := by
  induction above generalizing inner with
  | nil => exact h
  | cons f above ih =>
      obtain ⟨own, rest, rfl, hown, hrest⟩ := Noted.tail h
      rw [List.countP_cons, ← hown, Nat.add_comm, ← List.drop_drop, List.drop_left]
      exact ih hrest

/-- A frame that holds a scope owns the one whose number from the outside is its own number from the
bottom. -/
theorem Noted.scope_of_holding {f : Frame} {handle : Option ObjectRef}
    (h : Noted note global (above ++ f :: below) inner) (hf : f.holding = some (.scope handle)) :
    ∃ scope, note below.length = some scope ∧
      inner.reverse[below.countP Frame.ownsScope]? = some scope ∧ ∀ r ∈ handle, r = scope := by
  have hdrop := h.drop
  unfold Noted at hdrop
  rw [hf] at hdrop
  obtain ⟨scope, rest, hinner, hscope, hhandle, hrest⟩ := hdrop
  refine ⟨scope, hscope, ?_, hhandle⟩
  have hsplit := List.take_append_drop (above.countP Frame.ownsScope) inner
  rw [hinner] at hsplit
  rw [← hsplit, ← hrest.length_eq]
  simp

end Noted

/-! ### The invariant -/

/-- The scopes and the guards are those that the frames hold. -/
structure Balanced (note : Nat → Option ObjectRef) (global : ObjectRef) (limit : Nat) (m : Machine) :
    Prop where
  global_eq : m.state.scopes.global = global
  limit_eq : m.state.scopes.limit = limit
  length_le : m.state.scopes.inner.length ≤ limit
  noted : Noted note global m.stack m.state.scopes.inner
  guards_eq : m.state.guards = m.stack.countP Frame.ownsGuard

/-- A step changes what is held at one height, above which nothing is held, by a trade. -/
theorem step_trade (m : Machine) :
    ∃ h, (∀ j, j ≠ h → heldAt m.step.2.stack j = heldAt m.stack j) ∧
      (∀ j, h < j → heldAt m.stack j = none) ∧
      Trade (heldAt m.stack h) m.state (heldAt m.step.2.stack h) m.step.2.state := by
  rcases step_left m with ⟨hstack, hs, hg⟩ | ⟨above, f, below, hstack, habove, hleft⟩
  -- Nothing is held above the stack, so a step that changes nothing is a trade of nothing there.
  · refine ⟨m.stack.length, fun j _ => by rw [hstack], fun j hj => heldAt_of_le (by omega), ?_⟩
    rw [hstack]
    exact .keep hs hg
  · obtain ⟨above', slot, hstack', habove', htrade⟩ := hleft
    have hbefore (j : Nat) : heldAt m.stack j
        = if j = below.length then f.holding else heldAt below j := by
      rw [hstack, heldAt_free_append habove, heldAt_cons]
    have hafter (j : Nat) : heldAt m.step.2.stack j
        = if j = below.length then slot.bind Frame.holding else heldAt below j := by
      rw [hstack', heldAt_free_append habove', heldAt_slot]
    refine ⟨below.length, ?_, ?_, ?_⟩
    · intro j hj
      rw [hbefore, hafter, if_neg hj, if_neg hj]
    · intro j hj
      rw [hbefore, if_neg (by omega), heldAt_of_le (by omega)]
    · rw [hbefore, hafter, if_pos rfl, if_pos rfl]
      exact htrade

/-- The scopes of a frame that holds `held` and of the frames below it. -/
def NotedAt (note : Nat → Option ObjectRef) (global : ObjectRef) (held : Option Holding)
    (below : List Frame) (inner : List ObjectRef) : Prop :=
  match held with
  | none => Noted note global below inner
  | some .guard =>
    note below.length = some (inner.head?.getD global) ∧ Noted note global below inner
  | some (.scope handle) =>
    ∃ scope rest, inner = scope :: rest ∧ note below.length = some scope ∧
      (∀ r ∈ handle, r = scope) ∧ Noted note global below rest

/-- The scopes and the guards of a state, seen from the frame that works: what it holds, and what the
frames below it hold. -/
structure BalancedAt (note : Nat → Option ObjectRef) (global : ObjectRef) (limit : Nat)
    (held : Option Holding) (below : List Frame) (st : State) : Prop where
  global_eq : st.scopes.global = global
  limit_eq : st.scopes.limit = limit
  length_le : st.scopes.inner.length ≤ limit
  noted : NotedAt note global held below st.scopes.inner
  guards_eq : st.guards = (if held = some .guard then 1 else 0) + below.countP Frame.ownsGuard

/-- The guards of a frame that may be gone, of the frames above it, which hold nothing, and of those below
it. -/
theorem countP_ownsGuard_slot {above : List Frame} (habove : Free above) (slot : Option Frame)
    (below : List Frame) :
    (above ++ (slot.toList ++ below)).countP Frame.ownsGuard
      = (if slot.bind Frame.holding = some .guard then 1 else 0)
        + below.countP Frame.ownsGuard := by
  have hzero : above.countP Frame.ownsGuard = 0 := by
    rw [List.countP_eq_zero]
    intro f hf
    simp [Frame.ownsGuard, habove f hf]
  rw [List.countP_append, List.countP_append, hzero, Nat.zero_add]
  congr 1
  cases slot with
  | none => rfl
  | some f =>
      show [f].countP Frame.ownsGuard = if f.holding = some .guard then 1 else 0
      rw [List.countP_singleton]
      simp only [Frame.ownsGuard, decide_eq_true_eq]

/-- Frames above that hold nothing do not matter, and a frame that is gone holds nothing. -/
theorem balanced_iff_balancedAt {note : Nat → Option ObjectRef} {global : ObjectRef} {limit : Nat}
    {m : Machine} {above below : List Frame} {slot : Option Frame}
    (hstack : m.stack = above ++ (slot.toList ++ below)) (habove : Free above) :
    Balanced note global limit m ↔
      BalancedAt note global limit (slot.bind Frame.holding) below m.state := by
  have hcount := countP_ownsGuard_slot habove slot below
  rw [← hstack] at hcount
  -- What is noted of the scopes is noted from the bottom, so frames on top that hold nothing add nothing.
  have hnoted : Noted note global m.stack m.state.scopes.inner ↔
      NotedAt note global (slot.bind Frame.holding) below m.state.scopes.inner := by
    rw [hstack, noted_free_append habove]
    cases slot with
    | none => exact Iff.rfl
    | some f => exact Iff.rfl
  constructor
  · intro h
    exact ⟨h.global_eq, h.limit_eq, h.length_le, hnoted.mp h.noted, h.guards_eq.trans hcount⟩
  · intro h
    exact ⟨h.global_eq, h.limit_eq, h.length_le, hnoted.mpr h.noted,
      h.guards_eq.trans hcount.symm⟩

/-- A trade at the frame that works keeps the scopes and the guards matched, if the notes below the frame
stay, a body that begins is noted with the current scope, and one that goes on keeps its note. -/
theorem BalancedAt.trade {note note' : Nat → Option ObjectRef} {global : ObjectRef} {limit : Nat}
    {before after : Option Holding} {below : List Frame} {st st' : State}
    (h : BalancedAt note global limit before below st) (htrade : Trade before st after st')
    (hbelow : ∀ inner, Noted note global below inner → Noted note' global below inner)
    (hbegun : before = none → after ≠ none → note' below.length = some st'.scopes.current)
    (hkept : before ≠ none → after ≠ none → note' below.length = note below.length) :
    BalancedAt note' global limit after below st' := by
  obtain ⟨hglobal, hlimit, hle, hnoted, hguards⟩ := h
  cases htrade with
  | keep hs hg =>
      refine ⟨by rw [hs, hglobal], by rw [hs, hlimit], by rw [hs]; exact hle, ?_, hg.trans hguards⟩
      rw [hs]
      cases before with
      | none => exact hbelow _ hnoted
      | some holding =>
          cases holding with
          | guard => exact ⟨(hkept nofun nofun).trans hnoted.1, hbelow _ hnoted.2⟩
          | scope handle =>
              obtain ⟨scope, rest, hinner, hscope, hhandle, hrest⟩ := hnoted
              exact ⟨scope, rest, hinner, (hkept nofun nofun).trans hscope, hhandle, hbelow _ hrest⟩
  | enter hl hs hg hh =>
      -- The scope that is pushed is the current one, and the limit left room for it.
      rw [hlimit] at hl
      refine ⟨by rw [hs, ← hglobal], by rw [hs, ← hlimit], by rw [hs]; exact hl, ?_, hg.trans hguards⟩
      refine ⟨_, st.scopes.inner, by rw [hs], (hbegun rfl nofun).trans ?_, hh, hbelow _ hnoted⟩
      rw [hs]
      rfl
  | leave hs hg =>
      -- The scope on top is the one that the frame was noted with.
      obtain ⟨scope, rest, hinner, hscope, hhandle, hrest⟩ := hnoted
      have hpop : st.scopes.pop.inner = rest := by rw [Scopes.pop, hinner, List.tail_cons]
      rw [hinner, List.length_cons] at hle
      refine ⟨by rw [hs]; exact hglobal, by rw [hs]; exact hlimit, ?_, ?_, hg.trans hguards⟩
      · rw [hs, hpop]
        omega
      · rw [hs, hpop]
        exact hbelow _ hrest
  | guard hs hg =>
      refine ⟨by rw [hs, hglobal], by rw [hs, hlimit], by rw [hs]; exact hle,
        ⟨(hbegun rfl nofun).trans ?_, ?_⟩, ?_⟩
      · rw [hs, ← hglobal]
        rfl
      · rw [hs]
        exact hbelow _ hnoted
      · simp at hguards ⊢
        omega
  | unguard hs hg =>
      refine ⟨by rw [hs, hglobal], by rw [hs, hlimit], by rw [hs]; exact hle, ?_, ?_⟩
      · rw [hs]
        exact hbelow _ hnoted.2
      · simp at hguards ⊢
        omega

/-- A step keeps the scopes and the guards matched with the stack. What lies below the frame that works
has the same scopes, and its notes stay. -/
theorem Balanced.step {note : Nat → Option ObjectRef} {global : ObjectRef} {limit : Nat} {m : Machine}
    (h : Balanced note global limit m) :
    Balanced (renote note m m.step.2) global limit m.step.2 := by
  rcases step_left m with ⟨hstack, hs, hg⟩ | ⟨above, f, below, hstack, habove, hleft⟩
  · obtain ⟨hglobal, hlimit, hle, hnoted, hguards⟩ := h
    refine ⟨by rw [hs, hglobal], by rw [hs, hlimit], by rw [hs]; exact hle, ?_, ?_⟩
    · rw [hstack, hs]
      refine hnoted.congr fun j hj => ?_
      obtain ⟨holding, hj⟩ := Option.isSome_iff_exists.mp hj
      simp only [renote, hstack, hj]
    · rw [hg, hstack, hguards]
  · obtain ⟨above', slot, hstack', habove', htrade⟩ := hleft
    have hbefore (j : Nat) : heldAt m.stack j
        = if j = below.length then f.holding else heldAt below j := by
      rw [hstack, heldAt_free_append habove, heldAt_cons]
    have hafter (j : Nat) : heldAt m.step.2.stack j
        = if j = below.length then slot.bind Frame.holding else heldAt below j := by
      rw [hstack', heldAt_free_append habove', heldAt_slot]
    -- Below the frame nothing has changed, so the notes there are the old ones.
    have hbelow (inner : List ObjectRef) (hn : Noted note global below inner) :
        Noted (renote note m m.step.2) global below inner := by
      refine hn.congr fun j hj => ?_
      have hne : j ≠ below.length := by
        intro heq
        rw [heldAt_of_le (Nat.le_of_eq heq.symm)] at hj
        cases hj
      obtain ⟨holding, hj⟩ := Option.isSome_iff_exists.mp hj
      simp only [renote, hbefore, hafter, if_neg hne, hj]
    -- At the frame itself the note depends on what it holds before and after.
    have hbegun (hnone : f.holding = none) (hsome : slot.bind Frame.holding ≠ none) :
        renote note m m.step.2 below.length = some m.step.2.state.scopes.current := by
      obtain ⟨holding, hholding⟩ := Option.ne_none_iff_exists'.mp hsome
      simp only [renote, hbefore, hafter, if_true, hnone, hholding]
    have hkept (hsome : f.holding ≠ none) (hsome' : slot.bind Frame.holding ≠ none) :
        renote note m m.step.2 below.length = note below.length := by
      obtain ⟨holding, hholding⟩ := Option.ne_none_iff_exists'.mp hsome
      obtain ⟨holding', hholding'⟩ := Option.ne_none_iff_exists'.mp hsome'
      simp only [renote, hbefore, hafter, if_true, hholding, hholding']
    have hslot : m.stack = above ++ ((some f).toList ++ below) := hstack
    have hat := (balanced_iff_balancedAt hslot habove).mp h
    exact (balanced_iff_balancedAt hstack' habove').mpr (hat.trade htrade hbelow hbegun hkept)

/-- The notes of a run from a start match its scopes and its guards after any number of steps. -/
theorem balanced_after (root : Block) (limit : Nat) (seed : Seed) (sink : Sink) (n : Nat) :
    Balanced ((start root limit seed sink).openedAt n)
      (start root limit seed sink).state.scopes.global limit
      ((start root limit seed sink).after n) := by
  induction n with
  | zero => exact ⟨rfl, rfl, Nat.zero_le _, rfl, rfl⟩
  | succ n ih => exact ih.step

/-! ### The bottom of the stack -/

/-- The bottom frame is the block of the script, or that block is done. -/
def Grounded (m : Machine) : Prop :=
  (∃ above rest, m.stack = above ++ [.block rest]) ∨
    (m.stack = [.value .null] ∧ m.state.pending = none)

/-- What a step leaves alone at the bottom stays there. -/
theorem Left.grounded {h : Option Holding} {st : State} {below : List Frame} {rest : List Node}
    {m : Machine} (hleft : Left h st (below ++ [.block rest]) m) : Grounded m := by
  obtain ⟨above, slot, hstack, -, -⟩ := hleft
  refine Or.inl ⟨above ++ slot.toList ++ below, rest, ?_⟩
  rw [hstack]
  simp only [List.append_assoc]

/-- A frame above a bottom frame is that frame itself or stands on it. -/
theorem bottom_cases {top above below : List Frame} {f g : Frame}
    (h : top ++ f :: below = above ++ [g]) : (below = [] ∧ f = g) ∨ ∃ rest, below = rest ++ [g] := by
  rcases List.eq_nil_or_concat below with rfl | ⟨rest, last, rfl⟩
  · exact Or.inl ⟨rfl, (List.append_inj' h rfl).2 |> List.cons.inj |>.1⟩
  · refine Or.inr ⟨rest, ?_⟩
    have hlast : (top ++ f :: rest) ++ [last] = above ++ [g] := by simpa using h
    have heq := (List.append_inj' hlast rfl).2
    rw [List.concat_eq_append, heq]

/-- A step keeps the bottom of the stack, unless it fails because nothing answers an interrupt. -/
theorem Grounded.step {m : Machine} (h : Grounded m) :
    Grounded m.step.2 ∨
      ∃ f, m.step.1 = .error f ∧ m.step.2.stack = [] ∧ m.step.2.state.pending = none := by
  rcases h with ⟨above, rest, hstack⟩ | ⟨hstack, hp⟩
  · -- The bottom frame is the block of the script.
    -- A block is no value, so there is a frame at work.
    have hsplit (vs : List Value) : m.stack ≠ values vs := by
      intro heq
      have hmem : Frame.block rest ∈ values vs := by
        rw [← heq, hstack]
        simp
      cases Frame.isValue_of_mem_values hmem
    rcases step_cases m with ⟨-, -, hstep⟩ | ⟨i, -, hstep⟩ | ⟨hp, -, hstep, -⟩ |
      ⟨-, -, cause, m', hwork, -, hstep⟩
    · rw [hstep]
      exact Or.inl (Or.inl ⟨above, rest, hstack⟩)
    · rw [hstep, finishStep_snd, hstack]
      -- If nothing is above the block of the script, nothing can answer the interrupt.
      cases above with
      | nil => exact Or.inr ⟨_, rfl, rfl, rfl⟩
      | cons f above => exact Or.inl (dispatch_left i f _ { m.state with pending := none }).grounded
    · rw [hstep, finishStep_snd]
      rcases exists_values_append m.stack with ⟨vs, heq⟩ | ⟨vs, f, below, hf, heq⟩
      · exact absurd heq (hsplit vs)
      · have hm : m = ⟨values vs ++ f :: below, m.state⟩ := by rw [← heq]
        rw [hm]
        -- The frame at work is the block of the script itself, or one above it.
        rcases bottom_cases (heq.symm.trans hstack) with ⟨rfl, rfl⟩ | ⟨below', rfl⟩
        · rw [work_values_append vs _ [] m.state hf]
          cases rest with
          | nil => exact Or.inl (Or.inr ⟨rfl, hp⟩)
          | cons s rest => exact Or.inl (Or.inl ⟨[.request s .any], rest, rfl⟩)
        · exact Or.inl (work_left vs _ m.state f hf).grounded
    · rw [hstep, finishStep_snd]
      obtain ⟨hsame, hs, hg⟩ := throwCatchable_same cause m'
      rcases exists_values_append m.stack with ⟨vs, heq⟩ | ⟨vs, f, below, hf, heq⟩
      · exact absurd heq (hsplit vs)
      · have hm : m = ⟨values vs ++ f :: below, m.state⟩ := by rw [← heq]
        rw [hm] at hwork
        rcases bottom_cases (heq.symm.trans hstack) with ⟨rfl, rfl⟩ | ⟨below', rfl⟩
        · -- The block of the script does not fail.
          rw [work_values_append vs _ [] m.state hf] at hwork
          cases rest <;> cases hwork
        · have hleft := work_left vs (below' ++ [.block rest]) m.state f hf
          rw [hwork] at hleft
          exact Or.inl (hleft.and_same hsame hs hg).grounded
  · -- The script is done, and so is the machine.
    rw [step_of_not_hasWork (by simp [hasWork, hstack, hp])]
    exact Or.inl (Or.inr ⟨hstack, hp⟩)

/-- After any number of steps from a start the bottom of the stack is in place, or the stack is empty
and no interrupt is under way. -/
theorem grounded_or_empty_after (root : Block) (limit : Nat) (seed : Seed) (sink : Sink) (n : Nat) :
    Grounded ((start root limit seed sink).after n) ∨
      (((start root limit seed sink).after n).stack = [] ∧
        ((start root limit seed sink).after n).state.pending = none) := by
  induction n with
  | zero => exact Or.inl (Or.inl ⟨[], root.statements, rfl⟩)
  | succ n ih =>
      show Grounded ((start root limit seed sink).after n).step.2 ∨ _
      rcases ih with hground | ⟨hstack, hp⟩
      · rcases hground.step with h | ⟨f, -, hstack, hp⟩
        · exact Or.inl h
        · exact Or.inr ⟨hstack, hp⟩
      -- An empty stack with nothing under way has no work, and a step without work changes nothing.
      · have hidle : ((start root limit seed sink).after n).hasWork = false := by
          simp [hasWork, hstack, hp]
        refine Or.inr ?_
        show ((start root limit seed sink).after n).step.2.stack = [] ∧
          ((start root limit seed sink).after n).step.2.state.pending = none
        rw [step_of_not_hasWork hidle]
        exact ⟨hstack, hp⟩

/-- As long as no step fails the bottom of the stack is in place. -/
theorem grounded_after_of_ok (root : Block) (limit : Nat) (seed : Seed) (sink : Sink) (n : Nat)
    (hok : ∀ k < n, ∃ more, ((start root limit seed sink).after k).step.1 = .ok more) :
    Grounded ((start root limit seed sink).after n) := by
  induction n with
  | zero => exact Or.inl ⟨[], root.statements, rfl⟩
  | succ n ih =>
      rcases (ih fun k hk => hok k (by omega)).step with h | ⟨f, hfault, -⟩
      · exact h
      · obtain ⟨more, hmore⟩ := hok n (by omega)
        rw [hmore] at hfault
        cases hfault

/-! ### Bodies -/

/-- After `n` steps the frame at a height is in a body that step `t` began. -/
def InBodySince (m : Machine) (n h t : Nat) (holding : Holding) : Prop :=
  t < n ∧ heldAt (m.after t).stack h = none ∧
    ∀ k, t < k → k ≤ n → heldAt (m.after k).stack h = some holding

/-- A frame that holds something before and after a step holds the same. -/
theorem heldAt_step {m : Machine} {h : Nat} {x y : Holding} (hx : heldAt m.stack h = some x)
    (hy : heldAt m.step.2.stack h = some y) : x = y := by
  obtain ⟨j, hother, -, htrade⟩ := step_trade m
  by_cases hj : h = j
  · rw [← hj, hx, hy] at htrade
    cases htrade
    rfl
  · rw [hother h hj, hx] at hy
    cases hy
    rfl

/-- A step that ends a body trades what its frame holds for nothing, and nothing is held above it. -/
theorem trade_of_release {m : Machine} {h : Nat} {x : Holding} (hx : heldAt m.stack h = some x)
    (hgone : heldAt m.step.2.stack h = none) :
    (∀ j, h < j → heldAt m.stack j = none) ∧ Trade (some x) m.state none m.step.2.state := by
  obtain ⟨j, hother, habove, htrade⟩ := step_trade m
  by_cases hj : h = j
  · rw [← hj, hx, hgone] at htrade
    rw [← hj] at habove
    exact ⟨habove, htrade⟩
  · rw [hother h hj, hx] at hgone
    cases hgone

/-- What a frame holds it has held since a step that began its body, and its note is the scope that was
current after that step. The induction goes back from step to step until nothing is held. -/
theorem exists_inBodySince {m : Machine} {n h : Nat} {holding : Holding}
    (hstart : heldAt m.stack h = none) (hheld : heldAt (m.after n).stack h = some holding) :
    ∃ t, m.InBodySince n h t holding ∧
      m.openedAt n h = some (m.after (t + 1)).state.scopes.current := by
  induction n generalizing holding with
  | zero =>
      rw [show (m.after 0).stack = m.stack from rfl, hstart] at hheld
      cases hheld
  | succ n ih =>
      -- The frame began its body in the last step, or it was in it before that step.
      cases hbefore : heldAt (m.after n).stack h with
      | none =>
          refine ⟨n, ⟨Nat.lt_succ_self n, hbefore, ?_⟩, ?_⟩
          · intro k hlt hle
            rwa [show k = n + 1 by omega]
          · simp only [openedAt, renote, hbefore, hheld]
      | some before =>
          obtain rfl : before = holding := heldAt_step hbefore hheld
          obtain ⟨t, ⟨hlt, hnone, hsome⟩, hopened⟩ := ih hbefore
          refine ⟨t, ⟨by omega, hnone, ?_⟩, ?_⟩
          · intro k hk hle
            by_cases hkn : k ≤ n
            · exact hsome k hk hkn
            · rwa [show k = n + 1 by omega]
          · simp only [openedAt, renote, hbefore, hheld]
            exact hopened

/-- The step that begins a body in a scope pushes that scope. -/
theorem inner_of_opening {m : Machine} {h : Nat} {handle : Option ObjectRef}
    (hbefore : heldAt m.stack h = none) (hafter : heldAt m.step.2.stack h = some (.scope handle)) :
    m.step.2.state.scopes.inner = m.step.2.state.scopes.current :: m.state.scopes.inner := by
  obtain ⟨j, hother, -, htrade⟩ := step_trade m
  by_cases hj : h = j
  · rw [← hj, hbefore, hafter] at htrade
    cases htrade with
    | enter _ hscopes _ _ =>
        rw [hscopes]
        rfl
  · rw [hother h hj, hbefore] at hafter
    cases hafter

/-- Nothing is held at a start. -/
theorem heldAt_start (root : Block) (limit : Nat) (seed : Seed) (sink : Sink) (h : Nat) :
    heldAt (start root limit seed sink).stack h = none := by
  show heldAt [.block root.statements] h = none
  rw [heldAt_cons]
  split
  · rfl
  · rfl

/-- The height of a frame. -/
theorem heldAt_append (above : List Frame) (f : Frame) (below : List Frame) :
    heldAt (above ++ f :: below) below.length = f.holding := by
  simp [heldAt]

/-- Frames above which and in which nothing is held hold nothing. -/
theorem free_of_heldAt {above : List Frame} (below : List Frame)
    (h : ∀ k, below.length ≤ k → heldAt (above ++ below) k = none) : Free above := by
  intro g hg
  obtain ⟨higher, lower, rfl⟩ := List.append_of_mem hg
  have hnone := h (lower ++ below).length (by simp)
  rwa [List.append_assoc, List.cons_append, heldAt_append] at hnone

section Reachable

variable (root : Block) (limit : Nat) (seed : Seed) (sink : Sink) (n : Nat) {above below : List Frame}
  {f : Frame}

/-- A frame that holds a scope owns the one with its number from the outside: the step that began its
body pushed it. -/
theorem exists_owned_scope {handle : Option ObjectRef}
    (hstack : ((start root limit seed sink).after n).stack = above ++ f :: below)
    (hf : f.holding = some (.scope handle)) :
    ∃ scope t, (start root limit seed sink).InBodySince n below.length t (.scope handle) ∧
      ((start root limit seed sink).after (t + 1)).state.scopes.inner
        = scope :: ((start root limit seed sink).after t).state.scopes.inner ∧
      ((start root limit seed sink).after n).state.scopes.inner.reverse[below.countP
        Frame.ownsScope]? = some scope ∧
      ∀ r ∈ handle, r = scope := by
  -- The note of the frame ties the scope it owns now to the step that began its body.
  have hnoted := (balanced_after root limit seed sink n).noted
  rw [hstack] at hnoted
  obtain ⟨scope, hnote, hindex, hhandle⟩ := hnoted.scope_of_holding hf
  have hheld : heldAt ((start root limit seed sink).after n).stack below.length
      = some (.scope handle) := by
    rw [hstack, heldAt_append, hf]
  obtain ⟨t, hsince, hopened⟩ :=
    exists_inBodySince (heldAt_start root limit seed sink below.length) hheld
  have hpushed := inner_of_opening hsince.2.1 (hsince.2.2 (t + 1) (by omega) hsince.1)
  have hscope := Option.some.inj (hnote.symm.trans hopened)
  refine ⟨scope, t, hsince, ?_, hindex, hhandle⟩
  rw [hscope]
  exact hpushed

/-- The scope that was current when the body of a `try` began is current again once the frames above
it are gone. -/
theorem exists_guarded_scope
    (hstack : ((start root limit seed sink).after n).stack = above ++ f :: below)
    (hf : f.holding = some .guard) :
    ∃ t, (start root limit seed sink).InBodySince n below.length t .guard ∧
      ((start root limit seed sink).after (t + 1)).state.scopes.current
        = (((start root limit seed sink).after n).state.scopes.inner.drop
            (above.countP Frame.ownsScope)).head?.getD
          ((start root limit seed sink).after n).state.scopes.global := by
  have hbal := balanced_after root limit seed sink n
  have hheld : heldAt ((start root limit seed sink).after n).stack below.length = some .guard := by
    rw [hstack, heldAt_append, hf]
  obtain ⟨t, hsince, hopened⟩ :=
    exists_inBodySince (heldAt_start root limit seed sink below.length) hheld
  have hnoted := hbal.noted
  rw [hstack] at hnoted
  -- The scopes of the frames above are pushed later: without them the current scope is that of the `try`.
  have hdrop := hnoted.drop
  unfold Noted at hdrop
  rw [hf] at hdrop
  refine ⟨t, hsince, ?_⟩
  rw [hbal.global_eq]
  exact Option.some.inj (hopened.symm.trans hdrop.1)

/-- A step that ends a body in a scope takes off the scope of that body. -/
theorem pops_owned_scope {handle : Option ObjectRef}
    (hstack : ((start root limit seed sink).after n).stack = above ++ f :: below)
    (hf : f.holding = some (.scope handle))
    (hgone : heldAt ((start root limit seed sink).after n).step.2.stack below.length = none) :
    ∃ scope, ((start root limit seed sink).after n).state.scopes.inner
        = scope :: ((start root limit seed sink).after n).step.2.state.scopes.inner ∧
      ((start root limit seed sink).after n).state.scopes.inner.reverse[below.countP
        Frame.ownsScope]? = some scope := by
  have hheld : heldAt ((start root limit seed sink).after n).stack below.length
      = some (.scope handle) := by
    rw [hstack, heldAt_append, hf]
  obtain ⟨habove, htrade⟩ := trade_of_release hheld hgone
  -- Only the topmost frame that holds something trades, so nothing is held above this one, and its
  -- scope is on top.
  have hfree : Free above := by
    refine free_of_heldAt (f :: below) fun k hk => ?_
    rw [← hstack]
    exact habove k hk
  have hnoted := (balanced_after root limit seed sink n).noted
  rw [hstack, noted_free_append hfree] at hnoted
  unfold Noted at hnoted
  rw [hf] at hnoted
  obtain ⟨scope, rest, hinner, -, -, hrest⟩ := hnoted
  cases htrade with
  | leave hscopes _ =>
      refine ⟨scope, ?_, ?_⟩
      · rw [hscopes, Scopes.pop, hinner, List.tail_cons]
      · rw [hinner, ← hrest.length_eq]
        simp

/-- A step that ends a body under a guard takes off one guard. -/
theorem drops_owned_guard
    (hstack : ((start root limit seed sink).after n).stack = above ++ f :: below)
    (hf : f.holding = some .guard)
    (hgone : heldAt ((start root limit seed sink).after n).step.2.stack below.length = none) :
    ((start root limit seed sink).after n).state.guards
      = ((start root limit seed sink).after n).step.2.state.guards + 1 := by
  have hheld : heldAt ((start root limit seed sink).after n).stack below.length = some .guard := by
    rw [hstack, heldAt_append, hf]
  obtain ⟨-, htrade⟩ := trade_of_release hheld hgone
  -- Without this the guards would stay at zero when one is taken off.
  have hpos : 0 < ((start root limit seed sink).after n).state.guards := by
    rw [(balanced_after root limit seed sink n).guards_eq, List.countP_pos_iff]
    exact ⟨f, by simp [hstack], by simp [Frame.ownsGuard, hf]⟩
  cases htrade with
  | unguard _ hguards => omega

/-- A run without a failed step that leaves no work has the null of the script on its stack. -/
theorem stack_of_finished
    (hok : ∀ k < n, ∃ more, ((start root limit seed sink).after k).step.1 = .ok more)
    (hdone : ((start root limit seed sink).after n).hasWork = false) :
    ((start root limit seed sink).after n).stack = [.value .null] ∧
      ((start root limit seed sink).after n).state.pending = none := by
  rcases grounded_after_of_ok root limit seed sink n hok with ⟨above, rest, hstack⟩ | hstack
  -- The block of the script is still there, so there would be work left.
  · have hwork : ((start root limit seed sink).after n).hasWork = true := by
      cases above with
      | nil =>
          rw [List.nil_append] at hstack
          simp [hasWork, hstack]
      | cons g above =>
          refine hasWork_of_length ?_
          rw [hstack]
          simp
    rw [hdone] at hwork
    cases hwork
  · exact hstack

end Reachable

/-- The scope chain and the guards always match the stack. After any number of steps from a start,
whatever they returned,

- there are as many scopes on top of the global one as frames that hold one, and at most `limit`;
- a frame that holds a scope owns the one whose number from the outside is the frame's number from the
  bottom: the step that began its body pushed that scope, and it is the handle that an object literal
  keeps;
- the global scope is the first one;
- there are as many guards as frames that hold one;
- a step that ends a body takes off the scope or the guard of that body;
- if no step failed and no work remains, the stack is the null of the script, only the global scope is
  left, there is no guard and no interrupt is under way. -/
theorem scopes_and_guards_match_stack (root : Block) (limit : Nat) (seed : Seed) (sink : Sink)
    (n : Nat) :
    let origin := start root limit seed sink
    let m := origin.after n
    (m.state.scopes.inner.length = m.stack.countP Frame.ownsScope ∧
      m.state.scopes.inner.length ≤ limit) ∧
    (∀ above f below handle, m.stack = above ++ f :: below → f.holding = some (.scope handle) →
      ∃ scope t, origin.InBodySince n below.length t (.scope handle) ∧
        (origin.after (t + 1)).state.scopes.inner = scope :: (origin.after t).state.scopes.inner ∧
        m.state.scopes.inner.reverse[below.countP Frame.ownsScope]? = some scope ∧
        ∀ r ∈ handle, r = scope) ∧
    m.state.scopes.global = origin.state.scopes.global ∧
    m.state.guards = m.stack.countP Frame.ownsGuard ∧
    (∀ above f below handle, m.stack = above ++ f :: below → f.holding = some (.scope handle) →
      heldAt m.step.2.stack below.length = none →
      ∃ scope, m.state.scopes.inner = scope :: m.step.2.state.scopes.inner ∧
        m.state.scopes.inner.reverse[below.countP Frame.ownsScope]? = some scope) ∧
    (∀ above f below, m.stack = above ++ f :: below → f.holding = some .guard →
      heldAt m.step.2.stack below.length = none →
      m.state.guards = m.step.2.state.guards + 1) ∧
    ((∀ k < n, ∃ more, (origin.after k).step.1 = .ok more) → m.hasWork = false →
      m.stack = [.value .null] ∧ m.state.scopes.inner = [] ∧ m.state.guards = 0 ∧
        m.state.pending = none) := by
  intro origin m
  have hbal : Balanced (origin.openedAt n) origin.state.scopes.global limit m :=
    balanced_after root limit seed sink n
  refine ⟨⟨hbal.noted.length_eq, hbal.length_le⟩, ?_, hbal.global_eq, hbal.guards_eq, ?_, ?_, ?_⟩
  · intro above f below handle hstack hf
    exact exists_owned_scope root limit seed sink n hstack hf
  · intro above f below handle hstack hf hgone
    exact pops_owned_scope root limit seed sink n hstack hf hgone
  · intro above f below hstack hf hgone
    exact drops_owned_guard root limit seed sink n hstack hf hgone
  · intro hok hdone
    -- A script that is done leaves one value, which holds nothing.
    have hstack := stack_of_finished root limit seed sink n hok hdone
    have hlen := hbal.noted.length_eq
    have hguards := hbal.guards_eq
    rw [show m.stack = _ from hstack.1] at hlen hguards
    exact ⟨hstack.1, List.length_eq_zero_iff.mp hlen, hguards, hstack.2⟩

end Machine

end Stepwise
