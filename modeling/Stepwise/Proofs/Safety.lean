import Stepwise.Proofs.Ownership
import Stepwise.Proofs.Preservation

/-!
# `Stepwise.Proofs.Safety`: no internal fault is ever seen

A program is fresh if it was just read from a source text or built from a well-formed script. However
often it is advanced, `Program.no_internal_fault` says that no call fails with an internal fault, and that the
places where one could arise are never reached: each frame that works finds the values it asks for, an interrupt
is only set off when there is none under way, references pair objects with names and lists with
indices, and there is a guard or a scope to release whenever one is.

The machine of a program is a machine after a number of steps (`exists_machine_eq_after`), so what holds of every
reachable machine holds here; soundness holds as long as no error stopped the program
(`Program.Sound`).
-/

set_option autoImplicit false

namespace Stepwise

namespace Program

open Stepwise.Frame (values)

/-- A program that no one has advanced yet, of a source text or of a well-formed script. -/
inductive Fresh : Program → Prop where
  | ofSource {source : String} {settings : Settings} {p : Program}
      (h : Program.ofSource source settings = .ok p) : Fresh p
  | ofBlock {root : Block} (settings : Settings) (h : root.isWellFormed = true) :
      Fresh (Program.ofBlock root settings)

/-- A program after a number of calls, whatever they returned. -/
def after (p : Program) : Nat → Program
  | 0 => p
  | n + 1 => (p.after n).advance.2

/-- A program that has no internal fault ahead. After an error its machine does not go on. -/
structure Sound (p : Program) : Prop where
  frames : ∀ f ∈ p.machine.stack, f.Sound
  state : p.machine.state.Sound
  machine : p.error = none → p.machine.Sound

/-- The script of a fresh program is well-formed. -/
theorem Fresh.exists_machine {p : Program} (hp : p.Fresh) :
    ∃ (root : Block) (settings : Settings), root.isWellFormed = true ∧
      p.machine = settings.machine root := by
  cases hp with
  | @ofSource source settings p h =>
      unfold Program.ofSource at h
      split at h
      · cases h
      · rename_i root hroot
        cases h
        exact ⟨root, settings, Block.isWellFormed_of_source hroot, rfl⟩
  | @ofBlock root settings h => exact ⟨root, settings, h, rfl⟩

theorem Fresh.sound {p : Program} (hp : p.Fresh) : p.Sound := by
  obtain ⟨root, settings, hroot, hmachine⟩ := hp.exists_machine
  have hm : p.machine.Sound := by
    rw [hmachine]
    exact Machine.sound_start hroot settings.maxCallDepth settings.seed settings.sink
  exact ⟨hm.frames, hm.state, fun _ => hm⟩

/-- What a call does: nothing after an error, and one step of the machine otherwise. -/
theorem advance_cases (p : Program) :
    (∃ e, p.error = some e ∧ p.advance = (.ok false, p)) ∨
    (p.error = none ∧ ∃ more, p.machine.step.1 = .ok more ∧
      p.advance = (.ok more, { p with machine := p.machine.step.2 })) ∨
    (p.error = none ∧ ∃ f, p.machine.step.1 = .error f ∧
      p.advance =
        (.error (report p.source f p.machine.step.2.state.line),
          { p with
            machine := p.machine.step.2
            error := some (report p.source f p.machine.step.2.state.line) })) := by
  obtain ⟨machine, source, error⟩ := p
  cases error with
  | some e => exact Or.inl ⟨e, rfl, rfl⟩
  | none =>
      refine Or.inr ?_
      simp only [advance]
      cases hstep : machine.step with
      | mk r m =>
          cases r with
          | ok more => exact Or.inl ⟨trivial, more, rfl, rfl⟩
          | error f => exact Or.inr ⟨trivial, f, rfl, rfl⟩

/-- A call keeps a program sound. -/
theorem Sound.advance {p : Program} (hp : p.Sound) : p.advance.2.Sound := by
  rcases advance_cases p with ⟨e, -, hadvance⟩ | ⟨herror, more, hmore, hadvance⟩ |
    ⟨herror, f, -, hadvance⟩
  · rw [hadvance]
    exact hp
  · have hstep := (hp.machine herror).step
    rw [hadvance]
    exact ⟨hstep.frames, hstep.state, fun _ => hstep.sound more hmore⟩
  · have hstep := (hp.machine herror).step
    rw [hadvance]
    exact ⟨hstep.frames, hstep.state, fun hnone => by cases hnone⟩

theorem Sound.after {p : Program} (hp : p.Sound) (n : Nat) : (p.after n).Sound := by
  induction n with
  | zero => exact hp
  | succ n ih => exact ih.advance

/-- The machine of a program after some calls is its machine after some steps. -/
theorem exists_machine_eq_after (p : Program) (n : Nat) :
    ∃ k, (p.after n).machine = p.machine.after k := by
  induction n with
  | zero => exact ⟨0, rfl⟩
  | succ n ih =>
      obtain ⟨k, hk⟩ := ih
      show ∃ k, ((p.after n).advance.2).machine = p.machine.after k
      rcases advance_cases (p.after n) with ⟨e, -, hadvance⟩ | ⟨-, more, -, hadvance⟩ |
        ⟨-, f, -, hadvance⟩
      -- After an error the machine is left alone; any other call, failed or not, is one more step.
      · rw [hadvance]
        exact ⟨k, hk⟩
      · refine ⟨k + 1, ?_⟩
        rw [hadvance]
        show (p.after n).machine.step.2 = (p.machine.after k).step.2
        rw [hk]
      · refine ⟨k + 1, ?_⟩
        rw [hadvance]
        show (p.after n).machine.step.2 = (p.machine.after k).step.2
        rw [hk]

/-- The report of a fault belongs to the stage of the fault. -/
theorem report_stage (source : Option String) (f : Fault) (line : Nat) :
    (report source f line).stage = f.stage := by
  cases source with
  | none => rfl
  | some text => rfl

/-- A fault that is not the script's doing and not internal is one of the sink. -/
theorem exists_output_of_misc {f : Fault} (hf : f.isInternal = false) (hstage : f.stage = .misc) :
    ∃ text, f = .output text := by
  cases f with
  | output text => exact ⟨text, rfl⟩
  | internal text => cases hf
  | _ => cases hstage

/-- A frame in its body has a guard or a scope to release. -/
theorem Fresh.releases {p : Program} (hp : p.Fresh) (n : Nat) :
    ∀ f ∈ (p.after n).machine.stack,
      (f.ownsGuard = true → 0 < (p.after n).machine.state.guards) ∧
      (f.ownsScope = true → (p.after n).machine.state.scopes.inner ≠ []) := by
  obtain ⟨root, settings, -, hmachine⟩ := hp.exists_machine
  obtain ⟨k, hk⟩ := exists_machine_eq_after p n
  rw [hk, hmachine]
  -- The machine is reachable by steps alone, so the guards and the scopes match its stack.
  have hbal := Machine.balanced_after root settings.maxCallDepth settings.seed settings.sink k
  intro f hf
  constructor
  · intro hguard
    show 0 < ((settings.machine root).after k).state.guards
    rw [Settings.machine, hbal.guards_eq]
    exact List.countP_pos_iff.mpr ⟨f, hf, hguard⟩
  · intro hscope hnil
    have hpos : 0 < ((settings.machine root).after k).stack.countP Frame.ownsScope :=
      List.countP_pos_iff.mpr ⟨f, hf, hscope⟩
    have hlength := hbal.noted.length_eq
    rw [Settings.machine] at hnil hpos
    rw [hnil] at hlength
    simp only [List.length_nil] at hlength
    omega

/-- A frame that works finds the values it asks for, and its fault leaves no interrupt under way. -/
theorem Sound.working {p : Program} (hp : p.Sound) (herror : p.error = none)
    (hpending : p.machine.state.pending = none) (hwork : p.machine.hasWork = true) :
    (∃ vs f below, Machine.takeValues [] p.machine.stack = (vs, f :: below) ∧ f.isValue = false ∧
      f.Takes vs) ∧
    ∀ f m, p.machine.work = (.error f, m) → m.state.pending = none := by
  have hm := hp.machine herror
  constructor
  · generalize hstack : p.machine.stack = stack
    have htight : Machine.Tight stack := by
      rw [← hstack]
      exact hm.tight hpending
    cases htight with
    -- A single value is no work.
    | done v => simp [Machine.hasWork, hpending, hstack] at hwork
    | @working vs f below hf htakes _ =>
        exact ⟨vs, f, below, Machine.takeValues_values_cons vs below hf, hf, htakes⟩
  · intro f m hfault
    have hkept := hm.work_kept hpending hwork
    rw [hfault] at hkept
    exact (hkept.fails f rfl).2

/-- No internal fault is ever seen. However often a fresh program is advanced, whatever its settings,

- a call that fails reports a fault that is not internal, and one that is not the script's doing comes
  from the sink;
- if the machine goes on and no interrupt is under way, there is a frame that works, and the values
  above it are those that it takes: one for a finish, at most as many as there are arguments for an
  operation and elements for a list, at most one for a construct, and exactly one if it needs one; and after a
  fault of its work no interrupt is in the way of an exception;
- every frame and the state are sound: an operation has the nodes of its arguments, every reference
  pairs an object with a name or a list with an index, and memory holds none;
- a frame that is to release a guard or a scope has one to release;
- the bounds of a slice are in order and inside the sequence. -/
theorem no_internal_fault {p : Program} (hp : p.Fresh) (n : Nat) :
    let q := p.after n
    let m := q.machine
    (∀ r, q.advance.1 = .error r → ∃ f, m.step.1 = .error f ∧
      r = report q.source f m.step.2.state.line ∧ f.isInternal = false ∧
      (r.stage = .misc → ∃ text, f = .output text)) ∧
    (q.error = none → m.state.pending = none → m.hasWork = true →
      (∃ vs f below, Machine.takeValues [] m.stack = (vs, f :: below) ∧ f.isValue = false ∧
        f.Takes vs) ∧
      ∀ f m', m.work = (.error f, m') → m'.state.pending = none) ∧
    ((∀ f ∈ m.stack, f.Sound) ∧ m.state.Sound) ∧
    (∀ f ∈ m.stack, (f.ownsGuard = true → 0 < m.state.guards) ∧
      (f.ownsScope = true → m.state.scopes.inner ≠ [])) ∧
    ∀ len start stop, (sliceBounds len start stop).1 ≤ (sliceBounds len start stop).2 ∧
      (sliceBounds len start stop).2 ≤ len := by
  intro q m
  have hq : q.Sound := hp.sound.after n
  refine ⟨?_, hq.working, ⟨hq.frames, hq.state⟩, hp.releases n, sliceBounds_le⟩
  intro r hr
  rcases advance_cases q with ⟨e, -, hadvance⟩ | ⟨-, more, -, hadvance⟩ |
    ⟨herror, f, hf, hadvance⟩
  · rw [hadvance] at hr
    cases hr
  · rw [hadvance] at hr
    cases hr
  · rw [hadvance] at hr
    cases hr
    -- Of all faults of a sound machine none is internal, and of the others only that of the sink is
    -- reported as misc.
    have hinternal : f.isInternal = false := (hq.machine herror).step.fails f hf
    refine ⟨f, hf, rfl, hinternal, ?_⟩
    rw [report_stage]
    exact exists_output_of_misc hinternal

/-- A print in an object literal in a `try` that the sink refuses: the only failure that is not the
script's doing. -/
theorem no_internal_fault_of_full_sink :
    let root : Block := .mk 0 [.mk 0 (.tryCatch (.mk 0 [.mk 1 (.object (.mk 1
      [.mk 2 (.op .print [.mk 2 (.str "a")])]))]) "e" (.mk 3 []))]
    let p := ofBlock root { outputLimit := some 0 }
    root.isWellFormed = true ∧
    (p.after 10).advance.1 = .error ⟨.misc, "Output error: sink full", some 2, none⟩ ∧
    ∃ text, (p.after 10).machine.step.1 = .error (.output text) := by
  intro root p
  have hroot : root.isWellFormed = true := rfl
  have hadvance : (p.after 10).advance.1
      = .error ⟨.misc, "Output error: sink full", some 2, none⟩ := rfl
  obtain ⟨f, hf, -, -, hmisc⟩ := (no_internal_fault (.ofBlock _ hroot) 10).1 _ hadvance
  obtain ⟨text, rfl⟩ := hmisc rfl
  exact ⟨hroot, hadvance, text, hf⟩

end Program

end Stepwise
