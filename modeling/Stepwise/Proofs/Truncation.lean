import Stepwise.Proofs.Driving
import Stepwise.Proofs.Refitting

/-!
# `Stepwise.Proofs.Truncation`: a sink that fails

Nothing but `print` looks at the sink. So a map `g` of sinks carries a step to a step
(`Machine.step_mapSink`), as long as `g` agrees with `Sink.write` on the text that the step prints, if it
prints one (`Machine.printed?`). Two maps are of use: a constant one shows that a step that prints nothing leaves
the sink alone, and `Sink.capped limit`, which gives a sink without end the room that one with `limit` bytes
would have left, relates the runs of a script with the two sinks (`Program.full_sink_only_truncates`).
-/

set_option autoImplicit false

namespace Stepwise

/-! ### Sinks -/

namespace Sink

/-- The sink with the room that `limit` bytes leave after what it has accepted. -/
def capped (limit : Nat) (s : Sink) : Sink :=
  ⟨s.bytes, some (limit - s.bytes.size)⟩

/-- A sink without end takes every text. -/
theorem write_of_endless {s : Sink} (h : s.room = none) (text : String) :
    s.write text = (true, ⟨s.bytes ++ text.toUTF8, none⟩) := by
  simp only [write, h]

/-- A text that stays within the limit is written in the same way. -/
theorem respects_capped {limit : Nat} {s : Sink} (h : s.room = none) {text : String}
    (hfits : s.bytes.size + text.toUTF8.size ≤ limit) : Respects (capped limit) s text := by
  have hroom : text.toUTF8.size ≤ limit - s.bytes.size := by omega
  have hleft : limit - s.bytes.size - text.toUTF8.size = limit - (s.bytes ++ text.toUTF8).size := by
    rw [ByteArray.size_append]
    omega
  show (capped limit s).write text = Prod.map id (capped limit) (s.write text)
  rw [write_of_endless h]
  simp only [write, capped, if_pos hroom, hleft, Prod.map, id_eq]

/-- A text that goes beyond the limit is cut there. -/
theorem write_capped_of_lt {limit : Nat} {s : Sink} (hsize : s.bytes.size ≤ limit) {text : String}
    (hlt : limit < s.bytes.size + text.toUTF8.size) :
    (capped limit s).write text = (false, ⟨(s.bytes ++ text.toUTF8).extract 0 limit, some 0⟩) := by
  have hroom : ¬ text.toUTF8.size ≤ limit - s.bytes.size := by omega
  have hkept : s.bytes.extract 0 limit = s.bytes := by
    rw [← Nat.max_eq_left hsize, ByteArray.extract_zero_max_size]
  have hcut : (s.bytes ++ text.toUTF8).extract 0 limit =
      s.bytes ++ text.toUTF8.extract 0 (limit - s.bytes.size) := by
    rw [ByteArray.extract_append, hkept, Nat.zero_sub]
  simp only [write, capped, if_neg hroom, hcut]

/-- A sink without end that has accepted what another has, and maybe more. -/
structure Extends (s s' : Sink) : Prop where
  endless : s'.room = none
  grown : ∃ more, s'.bytes = s.bytes ++ more

theorem Extends.refl {s : Sink} (h : s.room = none) : s.Extends s :=
  ⟨h, ByteArray.empty, ByteArray.append_empty.symm⟩

theorem Extends.trans {s s' s'' : Sink} (h : s.Extends s') (h' : s'.Extends s'') : s.Extends s'' := by
  obtain ⟨more, hmore⟩ := h.grown
  obtain ⟨more', hmore'⟩ := h'.grown
  exact ⟨h'.endless, more ++ more', by rw [hmore', hmore, ByteArray.append_assoc]⟩

/-- The first bytes stay what they are. -/
theorem Extends.extract_eq {s s' : Sink} (h : s.Extends s') {n : Nat} (hn : n ≤ s.bytes.size) :
    s'.bytes.extract 0 n = s.bytes.extract 0 n := by
  obtain ⟨more, hmore⟩ := h.grown
  rw [hmore, ByteArray.extract_append, Nat.sub_eq_zero_of_le hn, Nat.zero_sub, ByteArray.extract_same,
    ByteArray.append_empty]

end Sink

/-! ### Steps -/

/-- The state with a map of sinks applied to its sink. -/
def State.mapSink (g : Sink → Sink) (st : State) : State :=
  { st with sink := g st.sink }

namespace Machine

open Stepwise.Frame (values)

/-- The machine with a map of sinks applied to its sink. -/
def mapSink (g : Sink → Sink) (m : Machine) : Machine :=
  ⟨m.stack, m.state.mapSink g⟩

theorem mapSink_eq_refit (g : Sink → Sink) : mapSink g = refit id g :=
  rfl

/-- A map of sinks carries a step to a step, if it agrees with the writing of what the step prints. -/
theorem step_mapSink {g : Sink → Sink} {m : Machine}
    (hprint : ∀ text, m.printed? = some text → Sink.Respects g m.state.sink text) :
    (m.mapSink g).step = Prod.map id (mapSink g) m.step := by
  rw [mapSink_eq_refit]
  exact step_refit (fun _ => Or.inl rfl) hprint

/-- A step that prints nothing leaves the sink alone. -/
theorem sink_of_printed?_eq_none {m : Machine} (h : m.printed? = none) :
    m.step.2.state.sink = m.state.sink := by
  -- The map that gives every machine this sink leaves this machine as it is.
  have hstep : m.step = Prod.map id (mapSink fun _ => m.state.sink) m.step := by
    refine step_mapSink (g := fun _ => m.state.sink) ?_
    intro text hprints
    rw [h] at hprints
    cases hprints
  rw [hstep]
  rfl

/-- A print leaves null, or nothing if the sink refuses some of the text. -/
theorem work_print {v : Value} {st : State} {accepted : Bool} {sink : Sink}
    (h : st.sink.write (st.heap.displayAlone v ++ "\n") = (accepted, sink)) (args : List Node) (line : Nat)
    (below : List Frame) :
    work ⟨values [v] ++ .operation .print args line :: below, st⟩ =
      if accepted then (.ok (), ⟨.value .null :: below, { st with sink := sink, line := line }⟩)
      else (.error (.output "sink full"), ⟨below, { st with sink := sink, line := line }⟩) := by
  -- The sink takes what fits even if that is not all.
  have happly : ({ st with line := line } : State).apply .print [v] =
      (if accepted then .ok .null else .error (.output "sink full"),
        { st with sink := sink, line := line }) := by
    show State.perform _ (.print (st.heap.displayAlone v ++ "\n")) = _
    cases accepted with
    | true => simp [State.perform, h]
    | false => simp [State.perform, h]
  rw [work_values_append [v] (.operation .print args line) below st rfl]
  show stepOperation .print args line [v] _ below st = _
  cases accepted with
  | true => simp [stepOperation, Op.arity, Op.demands, happly]
  | false => simp [stepOperation, Op.arity, Op.demands, happly]

/-- A step that prints writes its text to the sink. If the sink refuses some of it, the step fails, also
under a guard. -/
theorem step_of_printed? {m : Machine} {text : String} (h : m.printed? = some text) :
    m.step.2.state.sink = (m.state.sink.write text).2 ∧
      ((m.state.sink.write text).1 = false → m.step.1 = .error (.output "sink full")) := by
  obtain ⟨hpending, v, args, line, below, hstack, rfl⟩ := printed?_eq_some h
  obtain ⟨stack, st⟩ := m
  subst hstack
  have hhas : hasWork ⟨values [v] ++ .operation .print args line :: below, st⟩ = true :=
    hasWork_of_length (by simp)
  show _ = (st.sink.write (st.heap.displayAlone v ++ "\n")).2 ∧
    ((st.sink.write (st.heap.displayAlone v ++ "\n")).1 = false → _)
  cases hwrite : st.sink.write (st.heap.displayAlone v ++ "\n") with
  | mk accepted sink =>
      have hwork := work_print hwrite args line below
      cases accepted with
      | true =>
          rw [step_of_work hpending hhas hwork]
          exact ⟨rfl, fun h => Bool.noConfusion h⟩
      | false =>
          -- The fault of the sink is not catchable, so the guards have no part in it.
          have hcatch (cause : Catchable) (hcause : Fault.output "sink full" = .catchable cause) :
              st.guards = 0 := by
            cases hcause
          rw [step_of_fault hpending hhas hwork hcatch]
          exact ⟨rfl, fun _ => rfl⟩

/-- What a sink without end has accepted stays, whatever a step does. -/
theorem step_extends {m : Machine} (h : m.state.sink.room = none) :
    m.state.sink.Extends m.step.2.state.sink := by
  cases hprinted : m.printed? with
  | none =>
      rw [sink_of_printed?_eq_none hprinted]
      exact .refl h
  | some text =>
      rw [(step_of_printed? hprinted).1, Sink.write_of_endless h]
      exact ⟨rfl, text.toUTF8, rfl⟩

end Machine

/-! ### Runs -/

namespace Program

/-- The program with a map of sinks applied to its sink. -/
def mapSink (g : Sink → Sink) (p : Program) : Program :=
  { p with machine := p.machine.mapSink g }

/-- Whether the next step prints a text that brings what was printed in all beyond a number of bytes. -/
def overruns (limit : Nat) (p : Program) : Bool :=
  p.error.isNone && match p.machine.printed? with
    | none => false
    | some text => limit < p.machine.state.sink.bytes.size + text.toUTF8.size

/-- The report of a fault has its message. -/
theorem report_message (source : Option String) (f : Fault) (line : Nat) :
    (report source f line).message = f.message := by
  cases source with
  | none => rfl
  | some text => rfl

section Steps

variable {limit : Nat} {p : Program}

theorem exists_printed_of_overruns (h : p.overruns limit = true) :
    p.error = none ∧ ∃ text, p.machine.printed? = some text ∧
      limit < p.machine.state.sink.bytes.size + text.toUTF8.size := by
  simp only [overruns, Bool.and_eq_true, Option.isNone_iff_eq_none] at h
  obtain ⟨herror, hover⟩ := h
  split at hover
  · cases hover
  · rename_i text hprinted
    exact ⟨herror, text, hprinted, of_decide_eq_true hover⟩

theorem size_le_of_not_overruns (h : p.overruns limit = false) (herror : p.error = none) {text : String}
    (hprinted : p.machine.printed? = some text) :
    p.machine.state.sink.bytes.size + text.toUTF8.size ≤ limit := by
  simp only [overruns, herror, hprinted, Option.isNone_none, Bool.true_and, decide_eq_false_iff_not] at h
  omega

/-- A call on a program with a capped sink does what it does with a sink without end, unless it goes beyond
the limit. -/
theorem advance_capped (hendless : p.machine.state.sink.room = none) (h : p.overruns limit = false) :
    (p.mapSink (Sink.capped limit)).advance = Prod.map id (mapSink (Sink.capped limit)) p.advance := by
  obtain ⟨machine, source, error⟩ := p
  cases error with
  | some e => rfl
  | none =>
      have hstep : (machine.mapSink (Sink.capped limit)).step =
          Prod.map id (Machine.mapSink (Sink.capped limit)) machine.step := by
        -- Only the text that this step prints matters, and it fits.
        refine Machine.step_mapSink ?_
        intro text hprinted
        exact Sink.respects_capped hendless (size_le_of_not_overruns h rfl hprinted)
      simp only [advance, mapSink, hstep]
      cases machine.step with
      | mk r m =>
          cases r with
          | ok more => rfl
          | error f => rfl

/-- A call on a stopped program does nothing. -/
theorem advance_of_error {e : Report} (h : p.error = some e) : p.advance = (.ok false, p) :=
  advance_of_stopped (.inl (by rw [halted, h]; rfl))

/-- A call on a program that was not stopped is a step of its machine. -/
theorem advance_machine (herror : p.error = none) : p.advance.2.machine = p.machine.step.2 := by
  rcases advance_cases p with ⟨e, hsome, -⟩ | ⟨-, more, -, hadvance⟩ | ⟨-, f, -, hadvance⟩
  · rw [herror] at hsome
    cases hsome
  · rw [hadvance]
  · rw [hadvance]

/-- What a program with a sink without end has printed stays. -/
theorem advance_extends (h : p.machine.state.sink.room = none) :
    p.machine.state.sink.Extends p.advance.2.machine.state.sink := by
  cases herror : p.error with
  | none =>
      rw [advance_machine herror]
      exact Machine.step_extends h
  | some e =>
      rw [advance_of_error herror]
      exact .refl h

/-- A call that does not go beyond the limit leaves no more bytes than the limit. -/
theorem advance_size_le (hendless : p.machine.state.sink.room = none) (h : p.overruns limit = false)
    (hsize : p.machine.state.sink.bytes.size ≤ limit) :
    p.advance.2.machine.state.sink.bytes.size ≤ limit := by
  cases herror : p.error with
  | some e =>
      rw [advance_of_error herror]
      exact hsize
  | none =>
      rw [advance_machine herror]
      cases hprinted : p.machine.printed? with
      | none => rwa [Machine.sink_of_printed?_eq_none hprinted]
      | some text =>
          rw [(Machine.step_of_printed? hprinted).1, Sink.write_of_endless hendless, ByteArray.size_append]
          exact size_le_of_not_overruns h herror hprinted

/-- A call that goes beyond the limit fails under it: the program is stopped, and its sink has accepted the
first bytes of what it would have. -/
theorem advance_of_overruns (hendless : p.machine.state.sink.room = none) (h : p.overruns limit = true)
    (hsize : p.machine.state.sink.bytes.size ≤ limit) :
    let q := p.mapSink (Sink.capped limit)
    q.machine.step.1 = .error (.output "sink full") ∧
    (∃ r, q.advance.1 = .error r ∧ r.stage = .misc ∧ r.message = "Output error: sink full" ∧
      q.advance.2.error = some r) ∧
    limit ≤ p.advance.2.machine.state.sink.bytes.size ∧
    q.advance.2.machine.state.sink.bytes = p.advance.2.machine.state.sink.bytes.extract 0 limit := by
  intro q
  obtain ⟨herror, text, hprinted, hlt⟩ := exists_printed_of_overruns h
  -- What is there and the new text go beyond the limit, so the capped sink is cut at it and refuses.
  have hcut : q.machine.state.sink.write text =
      (false, ⟨(p.machine.state.sink.bytes ++ text.toUTF8).extract 0 limit, some 0⟩) :=
    Sink.write_capped_of_lt hsize hlt
  obtain ⟨hsink, hfault⟩ := Machine.step_of_printed? (m := q.machine) hprinted
  have hstep : q.machine.step.1 = .error (.output "sink full") := hfault (by rw [hcut])
  have hbytes : p.advance.2.machine.state.sink.bytes = p.machine.state.sink.bytes ++ text.toUTF8 := by
    rw [advance_machine herror, (Machine.step_of_printed? hprinted).1, Sink.write_of_endless hendless]
  refine ⟨hstep, ?_, ?_, ?_⟩
  -- Of what a call can do, two are excluded: the program has not failed before, and its step does fail.
  · rcases advance_cases q with ⟨e, hsome, -⟩ | ⟨-, more, hmore, -⟩ | ⟨-, f, hf, hadvance⟩
    · rw [show q.error = none from herror] at hsome
      cases hsome
    · rw [hstep] at hmore
      cases hmore
    · rw [hstep] at hf
      cases hf
      rw [hadvance]
      exact ⟨_, rfl, report_stage _ _ _, report_message _ _ _, rfl⟩
  · rw [hbytes, ByteArray.size_append]
    omega
  · rw [advance_machine (p := q) herror, hsink, hcut, hbytes]

end Steps

section Runs

variable {limit : Nat} {p : Program}

/-- A stopped program stays as it is. -/
theorem after_of_error {e : Report} (h : p.error = some e) (k : Nat) : p.after k = p := by
  induction k with
  | zero => rfl
  | succ k ih =>
      show (p.after k).advance.2 = p
      rw [ih, advance_of_error h]

theorem after_add (p : Program) (k n : Nat) : p.after (k + n) = (p.after k).after n := by
  induction n with
  | zero => rfl
  | succ n ih =>
      show (p.after (k + n)).advance.2 = ((p.after k).after n).advance.2
      rw [ih]

/-- However often a program with a sink without end is advanced, what it has printed stays. -/
theorem after_extends (h : p.machine.state.sink.room = none) (k : Nat) :
    p.machine.state.sink.Extends (p.after k).machine.state.sink := by
  induction k with
  | zero => exact .refl h
  | succ k ih => exact ih.trans (advance_extends ih.endless)

/-- While no print goes beyond the limit, there are no more bytes than the limit, and the program with the
capped sink goes along. -/
theorem after_capped (hendless : p.machine.state.sink.room = none)
    (hsize : p.machine.state.sink.bytes.size ≤ limit) (k : Nat)
    (h : ∀ j < k, (p.after j).overruns limit = false) :
    (p.after k).machine.state.sink.bytes.size ≤ limit ∧
      (p.mapSink (Sink.capped limit)).after k = (p.after k).mapSink (Sink.capped limit) := by
  induction k with
  | zero => exact ⟨hsize, rfl⟩
  | succ k ih =>
      obtain ⟨hprev, hsame⟩ := ih fun j hj => h j (by omega)
      have hroom := (after_extends hendless k).endless
      have hno := h k (by omega)
      refine ⟨advance_size_le hroom hno hprev, ?_⟩
      show ((p.mapSink (Sink.capped limit)).after k).advance.2 = _
      rw [hsame, advance_capped hroom hno]
      rfl

end Runs

/-- A sink that fails only truncates what is printed. Of two runs of a script, one with a sink that accepts
everything and one with a sink that accepts `limit` bytes, each call gives the same answer and leaves the
same program, but for the room of the sink, as long as no print brings what was printed beyond `limit`
bytes. The first call with such a print, wherever in the script it stands, fails in the second run with an
error of the sink. It stops the program for good, and what was accepted are the first `limit` bytes of what
the first run prints, however far it goes. -/
theorem full_sink_only_truncates (root : Block) (source : Option String) (settings : Settings)
    (limit : Nat) :
    let p : Program := ⟨{ settings with outputLimit := none }.machine root, source, none⟩
    let q : Program := ⟨{ settings with outputLimit := some limit }.machine root, source, none⟩
    (∀ k, (∀ j < k, (p.after j).overruns limit = false) →
      (∀ j ≤ k, q.after j = (p.after j).mapSink (Sink.capped limit)) ∧
      ∀ j < k, (q.after j).advance.1 = (p.after j).advance.1) ∧
    ∀ k, (p.after k).overruns limit = true → (∀ j < k, (p.after j).overruns limit = false) →
      (q.after k).machine.step.1 = .error (.output "sink full") ∧
      ∃ r, (q.after k).advance.1 = .error r ∧ r.stage = .misc ∧ r.message = "Output error: sink full" ∧
        ∀ j > k, q.after j = q.after (k + 1) ∧ (q.after j).error = some r ∧
          (q.after j).advance.1 = .ok false ∧
          (q.after j).machine.state.sink.bytes = (p.after j).machine.state.sink.bytes.extract 0 limit := by
  intro p q
  have hendless : p.machine.state.sink.room = none := rfl
  have hempty : p.machine.state.sink.bytes.size ≤ limit := Nat.zero_le limit
  constructor
  · intro k hno
    have hafter (j : Nat) (hj : j ≤ k) : q.after j = (p.after j).mapSink (Sink.capped limit) :=
      (after_capped hendless hempty j fun i hi => hno i (by omega)).2
    refine ⟨hafter, ?_⟩
    intro j hj
    rw [hafter j (by omega), advance_capped (after_extends hendless j).endless (hno j hj)]
    rfl
  · intro k hover hno
    obtain ⟨hsize, hafter⟩ := after_capped hendless hempty k hno
    obtain ⟨hstep, ⟨r, hanswer, hstage, hmessage, hstopped⟩, hfull, hbytes⟩ :=
      advance_of_overruns (after_extends hendless k).endless hover hsize
    rw [← hafter] at hstep hanswer hstopped hbytes
    refine ⟨hstep, r, hanswer, hstage, hmessage, ?_⟩
    intro j hj
    obtain ⟨n, rfl⟩ : ∃ n, j = k + 1 + n := ⟨j - (k + 1), by omega⟩
    have hstopped : (q.after (k + 1)).error = some r := hstopped
    have hlast : q.after (k + 1 + n) = q.after (k + 1) :=
      (after_add q (k + 1) n).trans (after_of_error hstopped n)
    -- The first run goes on, but it only adds to what it has printed: its first `limit` bytes are settled.
    have hgrown : (p.after (k + 1)).machine.state.sink.Extends (p.after (k + 1 + n)).machine.state.sink := by
      rw [after_add p (k + 1) n]
      exact after_extends (after_extends hendless (k + 1)).endless n
    rw [hlast, hgrown.extract_eq hfull, advance_of_error hstopped]
    exact ⟨rfl, hstopped, rfl, hbytes⟩

/-- Two lines printed in a `try`, with four bytes of room: the cut is inside the second line, and the `try` does
not catch the fault. -/
theorem full_sink_cuts_second_line :
    let root : Block := .mk 0 [.mk 0 (.tryCatch (.mk 0 [.mk 1 (.op .print [.mk 1 (.str "ab")]),
      .mk 2 (.op .print [.mk 2 (.str "cd")])]) "e" (.mk 3 []))]
    let p : Program := ⟨({ outputLimit := none } : Settings).machine root, none, none⟩
    let q : Program := ⟨({ outputLimit := some 4 } : Settings).machine root, none, none⟩
    q.after 13 = (p.after 13).mapSink (Sink.capped 4) ∧
    (q.after 13).machine.step.1 = .error (.output "sink full") ∧
    (p.after 20).machine.state.sink.bytes = "ab\ncd\n".toUTF8 ∧
    (q.after 20).machine.state.sink.bytes = "ab\nc".toUTF8 := by
  intro root p q
  obtain ⟨hagree, hcut⟩ := full_sink_only_truncates root none { outputLimit := none } 4
  have hover : (p.after 13).overruns 4 = true := by decide +kernel
  have hno : ∀ j < 13, (p.after j).overruns 4 = false := by decide +kernel
  have hprinted : (p.after 20).machine.state.sink.bytes = "ab\ncd\n".toUTF8 := by decide +kernel
  obtain ⟨hstep, r, -, -, -, hrest⟩ := hcut 13 hover hno
  obtain ⟨-, -, -, hbytes⟩ := hrest 20 (by decide)
  refine ⟨(hagree 13 hno).1 13 (by decide), hstep, hprinted, ?_⟩
  have hfirst : (p.after 20).machine.state.sink.bytes.extract 0 4 = "ab\nc".toUTF8 := by
    rw [hprinted]
    decide +kernel
  exact hbytes.trans hfirst

end Program

end Stepwise
