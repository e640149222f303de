import Stepwise.Machine.Control
import Stepwise.Proofs.Faults

/-!
# `Stepwise.Proofs.Resuming`: what continuing a construct can come to

`Control.resume` is a function of the phase of a construct, of the value that came in and of the state.
`Control.Resumes` is the same as a relation, with one case for each kind of outcome: a construct asks for the
value of one of its nodes, starts one of its blocks, is done with a truth value, cannot go on, or does one of
the few things that change the state. `resume_eq_iff` says that it is the same. So what is to be proved of
every construct that goes on is proved by cases on `Resumes`, and no phase is taken apart again.

The first four kinds leave the state as it is, and of it they depend on memory alone. They are relations of
their own (`Asks`, `Starts`, `Settles`, `Impeded`), in which the phases are listed.
-/

set_option autoImplicit false

namespace Stepwise

/-! ### Scopes -/

namespace State

variable {st : State}

/-- The scope that is made next. -/
def newScope (st : State) : ObjectRef :=
  (st.heap.newObject st.nextId .empty).1

/-- A state after a scope was made that could not be put on top: it is in memory, and nothing refers to
it. -/
def refused (st : State) : State :=
  { st with heap := (st.heap.newObject st.nextId .empty).2, nextId := st.nextId + 1 }

/-- A state after a scope was made and put on top. -/
def entered (st : State) : State :=
  { st.refused with scopes := { st.scopes with inner := st.newScope :: st.scopes.inner } }

theorem pushScope_of_full (h : st.scopes.limit ≤ st.scopes.depth) :
    st.pushScope = (.error (.recursionLimit st.scopes.limit), st.refused) := by
  have hpush (scope : ObjectRef) : st.scopes.push scope = .error (.recursionLimit st.scopes.limit) :=
    Scopes.push_eq_error_iff.mpr ⟨h, rfl⟩
  simp only [pushScope, makeObject, hpush]
  rfl

theorem pushScope_of_room (h : st.scopes.depth < st.scopes.limit) :
    st.pushScope = (.ok st.newScope, st.entered) := by
  have hpush (scope : ObjectRef) :
      st.scopes.push scope = .ok { st.scopes with inner := scope :: st.scopes.inner } :=
    Scopes.push_eq_ok_iff.mpr ⟨h, rfl⟩
  simp only [pushScope, makeObject, hpush]
  rfl

/-- A scope is refused without room, and otherwise put on top. -/
theorem pushScope_cases (st : State) :
    (st.scopes.limit ≤ st.scopes.depth ∧
      st.pushScope = (.error (.recursionLimit st.scopes.limit), st.refused)) ∨
    (st.scopes.depth < st.scopes.limit ∧ st.pushScope = (.ok st.newScope, st.entered)) := by
  rcases Nat.lt_or_ge st.scopes.depth st.scopes.limit with hroom | hfull
  · exact Or.inr ⟨hroom, pushScope_of_room hroom⟩
  · exact Or.inl ⟨hfull, pushScope_of_full hfull⟩

end State

/-! ### Constructs that go on -/

namespace Control

/-- The demand on the value without which a construct cannot go on; a construct whose part is a block
needs none. -/
def needs : Control → Option Demand
  | ifThen .condition _ _ => some .any
  | shortCircuit _ .condition _ _ | shortCircuit _ .body _ _ => some .any
  | whileDo .condition _ _ _ => some .any
  | forEach .target _ _ _ _ => some .target
  | forEach (.source _) _ _ _ _ => some (.value .list)
  | call .callee _ _ => some (.value .function)
  | call (.args _) _ _ => some (.value .list)
  | _ => none

/-- A construct that is about to enter a scope: a call that has as many arguments as its function takes, or
an object literal at its start. -/
def Enters (h : Heap) (incoming : Option Value) : Control → Prop
  | call (.args f) _ _ => ∃ r, incoming = some (.list r) ∧ (h.items r).size = f.arity
  | object .start _ => True
  | _ => False

/-- The name by which a construct complains that no value came in. -/
def name : Control → String
  | ifThen _ _ _ => "if"
  | shortCircuit stop _ _ _ => if stop then "||" else "&&"
  | whileDo _ _ _ _ => "while"
  | forEach _ _ _ _ _ => "for"
  | call _ _ _ => "call"
  | object _ _ => "object"
  | tryCatch _ _ _ _ => "try"

/-- Where a construct is left by a fault: a `for` counts as broken, and a call is back at its start. -/
def afterFault : Control → Control
  | forEach _ ran target source body => .forEach .broken ran target source body
  | call _ callee args => .call .start callee args
  | c => c

section Outcomes

variable (incoming : Option Value) (h : Heap)

/-- The slot of a `for` and the elements that are left: those of the list that came in, or those after the
last one. -/
inductive Remains : ForPhase → Reference → List Value → Prop where
  | listed {slot : Reference} {r : ListRef} (hin : incoming = some (.list r)) :
      Remains (.source slot) slot (h.items r).toList
  | left {slot : Reference} {left : List Value} : Remains (.iterate slot left) slot left

/-- A construct asks for the value of one of its nodes. -/
inductive Asks : Control → Control → Node → Demand → Prop where
  | condition {cond : Node} {body : Block} :
      Asks (.ifThen .start cond body) (.ifThen .condition cond body) cond .any
  | left {stop : Bool} {left right : Node} :
      Asks (.shortCircuit stop .start left right) (.shortCircuit stop .condition left right) left .any
  | right {stop : Bool} {left right : Node} {v : Value} (hin : incoming = some v)
      (htruth : h.truthy v ≠ stop) :
      Asks (.shortCircuit stop .condition left right) (.shortCircuit stop .body left right) right .any
  | again {phase : WhilePhase} {ran : Bool} {cond : Node} {body : Block}
      (hphase : phase = .check ∨ phase = .body) :
      Asks (.whileDo phase ran cond body) (.whileDo .condition ran cond body) cond .any
  | target {ran : Bool} {target source : Node} {body : Block} :
      Asks (.forEach .start ran target source body) (.forEach .target ran target source body) target
        .target
  | source {ran : Bool} {target source : Node} {body : Block} {slot : Reference}
      (hin : incoming = some (.reference slot)) :
      Asks (.forEach .target ran target source body) (.forEach (.source slot) ran target source body)
        source (.value .list)
  | callee {callee args : Node} :
      Asks (.call .start callee args) (.call .callee callee args) callee (.value .function)
  | arguments {callee args : Node} {f : Function} (hin : incoming = some (.function f)) :
      Asks (.call .callee callee args) (.call (.args f) callee args) args (.value .list)

/-- A construct starts one of its blocks, in the state as it is. -/
inductive Starts : Control → Control → Block → Prop where
  | branch {cond : Node} {body : Block} {v : Value} (hin : incoming = some v)
      (htruth : h.truthy v = true) :
      Starts (.ifThen .condition cond body) (.ifThen .body cond body) body
  | round {ran : Bool} {cond : Node} {body : Block} {v : Value} (hin : incoming = some v)
      (htruth : h.truthy v = true) :
      Starts (.whileDo .condition ran cond body) (.whileDo .body true cond body) body
  | handler {body handler : Block} {name : String} :
      Starts (.tryCatch .caught body name handler) (.tryCatch .handler body name handler) handler

/-- A construct is done with a truth value, in the state as it is. -/
inductive Settles : Control → Control → Bool → Prop where
  | skipped {cond : Node} {body : Block} {v : Value} (hin : incoming = some v)
      (htruth : h.truthy v = false) :
      Settles (.ifThen .condition cond body) (.ifThen .condition cond body) false
  | branched {cond : Node} {body : Block} :
      Settles (.ifThen .body cond body) (.ifThen .body cond body) true
  | decided {stop : Bool} {left right : Node} {v : Value} (hin : incoming = some v)
      (htruth : h.truthy v = stop) :
      Settles (.shortCircuit stop .condition left right) (.shortCircuit stop .condition left right) stop
  | second {stop : Bool} {left right : Node} {v : Value} (hin : incoming = some v) :
      Settles (.shortCircuit stop .body left right) (.shortCircuit stop .body left right) (h.truthy v)
  | ended {ran : Bool} {cond : Node} {body : Block} {v : Value} (hin : incoming = some v)
      (htruth : h.truthy v = false) :
      Settles (.whileDo .condition ran cond body) (.whileDo .condition ran cond body) ran
  | left {ran : Bool} {cond : Node} {body : Block} :
      Settles (.whileDo .broken ran cond body) (.whileDo .broken ran cond body) ran
  | exhausted {phase : ForPhase} {slot : Reference} {ran : Bool} {target source : Node} {body : Block}
      (hleft : Remains incoming h phase slot []) :
      Settles (.forEach phase ran target source body) (.forEach .broken ran target source body) ran
  | broken {ran : Bool} {target source : Node} {body : Block} :
      Settles (.forEach .broken ran target source body) (.forEach .broken ran target source body) ran
  | handled {body handler : Block} {name : String} :
      Settles (.tryCatch .handler body name handler) (.tryCatch .handler body name handler) true

/-- A construct cannot go on, in the state as it is: no value came in, what came in is not what it needs, or
the target of a `for` takes no value. -/
inductive Impeded : Control → Fault → Prop where
  | missing {c : Control} (hneeds : c.needs.isSome) (hin : incoming = none) :
      Impeded c (.internal (c.name ++ " resumed without a value"))
  | target {ran : Bool} {target source : Node} {body : Block} {v : Value} {f : Fault}
      (hin : incoming = some v) (hslot : h.asReference v = .error f) :
      Impeded (.forEach .target ran target source body) f
  | source {ran : Bool} {target source : Node} {body : Block} {slot : Reference} {v : Value} {f : Fault}
      (hin : incoming = some v) (hlist : h.asList v = .error f) :
      Impeded (.forEach (.source slot) ran target source body) f
  | element {phase : ForPhase} {ran : Bool} {target source : Node} {body : Block} {slot : Reference}
      {v : Value} {left : List Value} {f : Fault} (hleft : Remains incoming h phase slot (v :: left))
      (hwritable : h.writable slot = .error f) :
      Impeded (.forEach phase ran target source body) f
  | callee {callee args : Node} {v : Value} {f : Fault} (hin : incoming = some v)
      (hfunction : h.asFunction v = .error f) : Impeded (.call .callee callee args) f
  | arguments {callee args : Node} {g : Function} {v : Value} {f : Fault} (hin : incoming = some v)
      (hlist : h.asList v = .error f) : Impeded (.call (.args g) callee args) f
  | arity {callee args : Node} {g : Function} {r : ListRef} (hin : incoming = some (.list r))
      (hsize : (h.items r).size ≠ g.arity) :
      Impeded (.call (.args g) callee args) (.arityMismatch g.arity (h.items r).size)

end Outcomes

/-- What continuing a construct can come to. -/
inductive Resumes (incoming : Option Value) (st : State) : Control → Resumed → Prop where
  | impeded {c : Control} {f : Fault} (h : Impeded incoming st.heap c f) :
      Resumes incoming st c ⟨c.afterFault, st, .error f⟩
  | asks {c c' : Control} {node : Node} {demand : Demand} (h : Asks incoming st.heap c c' node demand) :
      Resumes incoming st c ⟨c', st, .ok (.eval node demand)⟩
  | starts {c c' : Control} {body : Block} (h : Starts incoming st.heap c c' body) :
      Resumes incoming st c ⟨c', st, .ok (.run body)⟩
  | settles {c c' : Control} {b : Bool} (h : Settles incoming st.heap c c' b) :
      Resumes incoming st c ⟨c', st, .ok (.done (.bool b))⟩
  /-- A `for` writes the next element to its target and runs its body. -/
  | element {phase : ForPhase} {ran : Bool} {target source : Node} {body : Block} {slot : Reference}
      {v : Value} {left : List Value} (hleft : Remains incoming st.heap phase slot (v :: left))
      (hwritable : st.heap.writable slot = .ok ()) :
      Resumes incoming st (.forEach phase ran target source body)
        ⟨.forEach (.iterate slot left) true target source body,
          { st with heap := st.heap.put slot v }, .ok (.run body)⟩
  /-- The scope of a call or of an object literal is refused. -/
  | refused {c : Control} (henters : c.Enters st.heap incoming)
      (hfull : st.scopes.limit ≤ st.scopes.depth) :
      Resumes incoming st c ⟨c.afterFault, st.refused, .error (.recursionLimit st.scopes.limit)⟩
  /-- A call binds its arguments in a new scope and runs the body of its function. -/
  | called {callee args : Node} {f : Function} {r : ListRef} (hin : incoming = some (.list r))
      (hsize : (st.heap.items r).size = f.arity) (hroom : st.scopes.depth < st.scopes.limit) :
      Resumes incoming st (.call (.args f) callee args)
        ⟨.call (.body none) callee args,
          { st.entered with
            heap := bind st.entered.heap st.newScope f.params (st.heap.items r).toList },
          .ok (.run f.body)⟩
  | returned {callee args : Node} {returned : Option Value} :
      Resumes incoming st (.call (.body returned) callee args)
        ⟨.call .start callee args, st.popScope, .ok (.done (returned.getD .null))⟩
  /-- An object literal runs its body in a new scope. -/
  | opened {body : Block} (hroom : st.scopes.depth < st.scopes.limit) :
      Resumes incoming st (.object .start body)
        ⟨.object (.body st.newScope) body, st.entered, .ok (.run body)⟩
  | closed {body : Block} {scope : ObjectRef} :
      Resumes incoming st (.object (.body scope) body)
        ⟨.object (.body scope) body, st.popScope, .ok (.done (.object scope))⟩
  /-- A `try` runs its body under a guard. -/
  | guarded {body handler : Block} {name : String} :
      Resumes incoming st (.tryCatch .start body name handler)
        ⟨.tryCatch .body body name handler, { st with guards := st.guards + 1 }, .ok (.run body)⟩
  | unguarded {body handler : Block} {name : String} :
      Resumes incoming st (.tryCatch .body body name handler)
        ⟨.tryCatch .body body name handler, { st with guards := st.guards - 1 },
          .ok (.done (.bool false))⟩

/-- A value that is there goes on to what uses it. -/
theorem expectValue_bind {α : Type} (v : Value) (who : String) (k : Value → Except Fault α) :
    expectValue (some v) who >>= k = k v :=
  rfl

section Resuming

variable {incoming : Option Value} {st : State}

theorem nextElement_resumes {phase : ForPhase} {slot : Reference} {left : List Value}
    (hleft : Remains incoming st.heap phase slot left) (ran : Bool) (target source : Node) (body : Block) :
    Resumes incoming st (.forEach phase ran target source body)
      (nextElement ran target source body slot left st) := by
  cases left with
  | nil => exact .settles (.exhausted hleft)
  | cons v left =>
      simp only [nextElement]
      cases hwritable : st.heap.writable slot with
      | error f => exact .impeded (.element hleft hwritable)
      | ok u => exact .element hleft hwritable

theorem enter_resumes {r : ListRef} (hin : incoming = some (.list r)) (f : Function) (callee args : Node) :
    Resumes incoming st (.call (.args f) callee args) (enter f (st.heap.items r) callee args st) := by
  simp only [enter]
  split
  · rename_i hsize
    exact .impeded (.arity hin hsize)
  · rename_i hsize
    replace hsize := Decidable.of_not_not hsize
    rcases st.pushScope_cases with ⟨hfull, hpush⟩ | ⟨hroom, hpush⟩
    · rw [hpush]
      exact .refused ⟨r, hin, hsize⟩ hfull
    · rw [hpush]
      exact .called hin hsize hroom

/-- Each construct does in each phase one of the things listed. -/
theorem resumes (incoming : Option Value) (st : State) (c : Control) :
    Resumes incoming st c (c.resume incoming st) := by
  -- One case for each construct and phase. Where a value is needed and none came, the construct is impeded.
  cases c with
  | ifThen phase cond body =>
      cases phase with
      | start => exact .asks .condition
      | condition =>
          cases incoming with
          | none => exact .impeded (.missing rfl rfl)
          | some v =>
              simp only [resume, resumeIf, expectValue]
              split
              · exact .starts (.branch rfl ‹_›)
              · exact .settles (.skipped rfl (Bool.eq_false_iff.mpr ‹_›))
      | body => exact .settles .branched
  | shortCircuit stop phase left right =>
      cases phase with
      | start => exact .asks .left
      | condition =>
          cases incoming with
          | none => exact .impeded (.missing rfl rfl)
          | some v =>
              simp only [resume, resumeShortCircuit, expectValue]
              split
              · exact .settles (.decided rfl ‹_›)
              · exact .asks (.right rfl ‹_›)
      | body =>
          cases incoming with
          | none => exact .impeded (.missing rfl rfl)
          | some v => exact .settles (.second rfl)
  | whileDo phase ran cond body =>
      cases phase with
      | check => exact .asks (.again (Or.inl rfl))
      | condition =>
          cases incoming with
          | none => exact .impeded (.missing rfl rfl)
          | some v =>
              simp only [resume, resumeWhile, expectValue]
              split
              · exact .starts (.round rfl ‹_›)
              · exact .settles (.ended rfl (Bool.eq_false_iff.mpr ‹_›))
      | body => exact .asks (.again (Or.inr rfl))
      | broken => exact .settles .left
  | forEach phase ran target source body =>
      cases phase with
      | start => exact .asks .target
      | target =>
          cases incoming with
          | none => exact .impeded (.missing rfl rfl)
          | some v =>
              cases v with
              | reference slot => exact .asks (.source rfl)
              | _ => exact .impeded (.target rfl rfl)
      -- The list has been found: the first element is written, or the loop is done.
      | source slot =>
          cases incoming with
          | none => exact .impeded (.missing rfl rfl)
          | some v =>
              cases v with
              | list r => exact nextElement_resumes (.listed rfl) ran target source body
              | _ => exact .impeded (.source rfl rfl)
      | iterate slot left => exact nextElement_resumes .left ran target source body
      | broken => exact .settles .broken
  | call phase callee args =>
      cases phase with
      | start => exact .asks .callee
      | callee =>
          cases incoming with
          | none => exact .impeded (.missing rfl rfl)
          | some v =>
              cases v with
              | function f => exact .asks (.arguments rfl)
              | _ => exact .impeded (.callee rfl rfl)
      | args f =>
          cases incoming with
          | none => exact .impeded (.missing rfl rfl)
          | some v =>
              cases v with
              | list r => exact enter_resumes rfl f callee args
              | _ => exact .impeded (.arguments rfl rfl)
      | body returned => exact .returned
  | object phase body =>
      cases phase with
      | start =>
          simp only [resume, resumeObject]
          -- An object literal starts by a scope, for which there must be room.
          rcases st.pushScope_cases with ⟨hfull, hpush⟩ | ⟨hroom, hpush⟩
          · rw [hpush]
            exact .refused trivial hfull
          · rw [hpush]
            exact .opened hroom
      | body scope => exact .closed
  | tryCatch phase body name handler =>
      cases phase with
      | start => exact .guarded
      | body => exact .unguarded
      | caught => exact .starts .handler
      | handler => exact .settles .handled

theorem Remains.resume_eq {phase : ForPhase} {slot : Reference} {left : List Value}
    (h : Remains incoming st.heap phase slot left) (ran : Bool) (target source : Node) (body : Block) :
    resume (.forEach phase ran target source body) incoming st =
      nextElement ran target source body slot left st := by
  cases h with
  | listed hin =>
      subst hin
      rfl
  | left => rfl

theorem Impeded.resume_eq {c : Control} {f : Fault} (h : Impeded incoming st.heap c f) :
    c.resume incoming st = ⟨c.afterFault, st, .error f⟩ := by
  cases h with
  | missing hneeds hin =>
      subst hin
      -- Of each construct there are one or two phases that wait for a value.
      cases c with
      | object phase body => cases hneeds
      | tryCatch phase body name handler => cases hneeds
      | shortCircuit stop phase left right => cases phase <;> first | rfl | cases hneeds
      | _ phase => cases phase <;> first | rfl | cases hneeds
  | target hin hslot =>
      subst hin
      simp only [resume, resumeFor, expectValue_bind, hslot, afterFault]
  | source hin hlist =>
      subst hin
      simp only [resume, resumeFor, expectValue_bind, hlist, afterFault]
  | element hleft hwritable =>
      rw [hleft.resume_eq]
      simp only [nextElement, hwritable, afterFault]
  | callee hin hfunction =>
      subst hin
      simp only [resume, resumeCall, expectValue_bind, hfunction, afterFault]
  | arguments hin hlist =>
      subst hin
      simp only [resume, resumeCall, expectValue_bind, hlist, afterFault]
  | arity hin hsize =>
      subst hin
      show enter _ _ _ _ st = _
      simp only [enter, if_pos hsize, afterFault]

theorem Asks.resume_eq {c c' : Control} {node : Node} {demand : Demand}
    (h : Asks incoming st.heap c c' node demand) :
    c.resume incoming st = ⟨c', st, .ok (.eval node demand)⟩ := by
  cases h with
  | right hin htruth =>
      subst hin
      simp only [resume, resumeShortCircuit, expectValue, if_neg htruth]
  | again hphase => rcases hphase with rfl | rfl <;> rfl
  | source hin =>
      subst hin
      rfl
  | arguments hin =>
      subst hin
      rfl
  | _ => rfl

theorem Starts.resume_eq {c c' : Control} {body : Block} (h : Starts incoming st.heap c c' body) :
    c.resume incoming st = ⟨c', st, .ok (.run body)⟩ := by
  cases h with
  | branch hin htruth =>
      subst hin
      simp only [resume, resumeIf, expectValue, if_pos htruth]
  | round hin htruth =>
      subst hin
      simp only [resume, resumeWhile, expectValue, if_pos htruth]
  | handler => rfl

theorem Settles.resume_eq {c c' : Control} {b : Bool} (h : Settles incoming st.heap c c' b) :
    c.resume incoming st = ⟨c', st, .ok (.done (.bool b))⟩ := by
  cases h with
  | skipped hin htruth =>
      subst hin
      simp [resume, resumeIf, expectValue, htruth]
  | decided hin htruth =>
      subst hin
      simp only [resume, resumeShortCircuit, expectValue, if_pos htruth]
  | second hin =>
      subst hin
      rfl
  | ended hin htruth =>
      subst hin
      simp [resume, resumeWhile, expectValue, htruth]
  -- Whether the list has just come in or is under way, nothing of it remains.
  | exhausted hleft =>
      rw [hleft.resume_eq]
      rfl
  | _ => rfl

/-- The relation lists what the function does, and nothing else. -/
theorem resume_eq_iff {c : Control} {r : Resumed} :
    c.resume incoming st = r ↔ Resumes incoming st c r := by
  constructor
  · rintro rfl
    exact resumes incoming st c
  · intro h
    cases h with
    | impeded h => exact h.resume_eq
    | asks h => exact h.resume_eq
    | starts h => exact h.resume_eq
    | settles h => exact h.resume_eq
    | element hleft hwritable =>
        rw [hleft.resume_eq]
        simp only [nextElement, hwritable]
    -- Only a call with its arguments and an object literal at its start enter a scope.
    | refused henters hfull =>
        have hpush := State.pushScope_of_full hfull
        cases c with
        | call phase callee args =>
            cases phase with
            | args f =>
                obtain ⟨r, rfl, hsize⟩ := henters
                show enter f (st.heap.items r) callee args st = _
                simp [enter, hsize, hpush, afterFault]
            | _ => exact henters.elim
        | object phase body =>
            cases phase with
            | start => simp only [resume, resumeObject, hpush, afterFault]
            | body scope => exact henters.elim
        | _ => exact henters.elim
    | @called callee args f r hin hsize hroom =>
        subst hin
        show enter f (st.heap.items r) callee args st = _
        simp [enter, hsize, State.pushScope_of_room hroom]
    | opened hroom => simp only [resume, resumeObject, State.pushScope_of_room hroom]
    | _ => rfl

end Resuming

/-! ### Interrupts -/

/-- What a construct that takes an interrupt comes to. -/
inductive Handles (st : State) : Control → Exit → Control → State → Prop where
  | brokeWhile {phase : WhilePhase} {ran : Bool} {cond : Node} {body : Block} :
      Handles st (.whileDo phase ran cond body) .broke (.whileDo .broken ran cond body) st
  | continuedWhile {phase : WhilePhase} {ran : Bool} {cond : Node} {body : Block} :
      Handles st (.whileDo phase ran cond body) .continued (.whileDo .check ran cond body) st
  | brokeFor {phase : ForPhase} {ran : Bool} {target source : Node} {body : Block} :
      Handles st (.forEach phase ran target source body) .broke
        (.forEach .broken ran target source body) st
  /-- A `for` that still waits for its target or its list starts anew; else it is at its next element. -/
  | continuedFor {phase phase' : ForPhase} {ran : Bool} {target source : Node} {body : Block}
      (hphase : phase' = phase ∧ (forEach phase ran target source body).needs = none ∨
        phase' = .start ∧ (forEach phase ran target source body).needs.isSome) :
      Handles st (.forEach phase ran target source body) .continued
        (.forEach phase' ran target source body) st
  | returnedCall {returned : Option Value} {callee args : Node} {v : Value} :
      Handles st (.call (.body returned) callee args) (.returned v)
        (.call (.body (some v)) callee args) st
  | returnedObject {scope : ObjectRef} {body : Block} {v : Value} :
      Handles st (.object (.body scope) body) (.returned v) (.object (.body scope) body) st
  | thrown {body handler : Block} {name : String} {v : Value} :
      Handles st (.tryCatch .body body name handler) (.thrown v) (.tryCatch .caught body name handler)
        { st with
          guards := st.guards - 1
          heap := st.heap.objectSet st.scopes.current name v }

theorem handles {c c' : Control} {i : Interrupt} {st st' : State}
    (h : c.answer i st = .handled c' st') : Handles st c i.exit c' st' := by
  obtain ⟨exit, line⟩ := i
  simp only [answer] at h
  split at h <;> cases h
  · exact .brokeWhile
  · exact .continuedWhile
  · exact .brokeFor
  · rename_i phase _ _ _ _
    -- Before its list is found a `for` starts anew; after that it is left where it is.
    cases phase with
    | target => exact .continuedFor (Or.inr ⟨rfl, rfl⟩)
    | source slot => exact .continuedFor (Or.inr ⟨rfl, rfl⟩)
    | _ => exact .continuedFor (Or.inl ⟨rfl, rfl⟩)
  · exact .returnedCall
  · exact .returnedObject
  · exact .thrown

/-- A construct rejects an interrupt as one that is not allowed where it is. -/
theorem eq_of_rejected {c : Control} {i : Interrupt} {st : State} {f : Fault}
    (h : c.answer i st = .rejected f) : f = .invalidInterrupt i.signal := by
  simp only [answer] at h
  split at h <;> cases h <;> rfl

end Control

end Stepwise
