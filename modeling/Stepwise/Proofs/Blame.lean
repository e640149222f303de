import Stepwise.Proofs.Lines
import Stepwise.Proofs.Located

/-!
# `Stepwise.Proofs.Blame`: errors point at a line of the source

Every error of a script that has tokens says on which line it is, the line is that of a token, and the text
that it shows is the trimmed text of that line (`Program.errors_point_at_tokens`). This covers a script that
cannot be read and every call on one that can, whatever the settings.

The line of an error comes from several places. A reader takes the line of the next token, of the last token
if there is none, or of a node that it has read (`Parser.Failing`). A fault of a run takes the line at which
its interrupt was set off, or else the line that the state is at, since the faults of work have no line of
their own. Both are lines of the script (`Stepwise.Proofs.Located`), and these are lines of tokens. Only the
line at which a machine starts is not, and no fault comes before the first statement.
-/

set_option autoImplicit false

namespace Stepwise

namespace Machine

variable {line : Nat → Bool}

/-! ### Faults -/

/-- If a result is a fault, it is reported on a line that passes a test. -/
def Blames {α : Type} (line : Nat → Bool) (r : Except Fault α × Machine) : Prop :=
  Fails (fun f => line (f.line?.getD r.2.state.line) = true) r.1

theorem Blames.finishStep {o : Outcome} (h : Blames line o) : Blames line (finishStep o) := by
  obtain ⟨r, m⟩ := o
  cases r with
  | ok u => exact .ok _
  | error f => exact .error (h f rfl)

/-- A fault without a line of its own is reported on the line of the state. -/
theorem Located.blames {α : Type} {r : Except Fault α} {m : Machine} (hm : m.Located line)
    (h : Fails (fun f => f.line? = none) r) : Blames line (r, m) := by
  intro f hf
  rw [h f hf]
  exact hm.state.current

/-- An interrupt that nothing answers is reported on the line where it was set off. -/
theorem blames_unhandled {i : Interrupt} (hi : line i.line = true) (st : State) (stack : List Frame) :
    Blames line ((.error (i.unhandled st.heap), ⟨stack, st⟩) : Outcome) := by
  have hline : (i.unhandled st.heap).line? = some i.line := by
    unfold Interrupt.unhandled
    split <;> rfl
  refine .error ?_
  rw [hline]
  exact hi

theorem unwind_blames {i : Interrupt} (hi : line i.line = true) (below : List Frame) (st : State) :
    Blames line (unwind i below st) := by
  cases below with
  | nil => exact blames_unhandled hi st []
  | cons f below => exact .ok _

theorem dispatch_blames {i : Interrupt} (hi : line i.line = true) {st : State} (hst : st.Located line)
    {stack : List Frame} (h : ∀ g ∈ stack, g.Located line) : Blames line (dispatch i stack st) := by
  cases stack with
  | nil => exact blames_unhandled hi st []
  | cons f below =>
      cases f with
      | control l c =>
          simp only [dispatch]
          cases hanswer : c.answer i st with
          | passed => exact unwind_blames hi below _
          | handled c' st' => exact .ok _
          | rejected f =>
              have hlocal : f.isLocal = true := Control.answer_rejected hanswer
              exact Located.blames ⟨h, hst⟩ (.error (Fault.line?_of_isLocal hlocal))
      | _ => exact unwind_blames hi below st

/-- The fault of a step is reported on a line that passes. -/
theorem Located.step_blames {m : Machine} (hm : m.Located line)
    (hkeeps : m.Keeps (Value.Located line)) (hsound : m.Sound) : Blames line m.step := by
  rcases step_cases m with ⟨-, -, hstep⟩ | ⟨i, hi, hstep⟩ | ⟨hpending, hwork, hstep, -⟩ |
    ⟨hpending, hwork, cause, m', hm', -, hstep⟩
  · rw [hstep]
    exact .ok _
  · rw [hstep]
    exact (dispatch_blames (hm.state.pending i hi) hm.state.cleared hm.frames).finishStep
  · rw [hstep]
    -- The faults of work are local, and local faults have no line of their own.
    have hlocal : Fails (fun f => f.line? = none) m.work.1 :=
      (hsound.work_kept hpending hwork).fails.imp fun f hf => Fault.line?_of_isLocal hf.1
    exact ((hm.work hkeeps).blames hlocal).finishStep
  · rw [hstep]
    -- No interrupt is in the way of the exception, so setting it off does not fail.
    have hkept := hsound.work_kept hpending hwork
    rw [hm'] at hkept
    have hnone : m'.state.pending = none := (hkept.fails _ rfl).2
    have hok : (throwCatchable cause m').1 = .ok () := by
      have hclear : (m'.state.exceptionPayload cause).2.pending = none := hnone
      simp only [throwCatchable, State.raise]
      rw [hclear]
    refine Blames.finishStep ?_
    intro f hf
    rw [hok] at hf
    cases hf

/-! ### The first step -/

section Start

variable (l : Nat) (s : Node) (rest : List Node) (limit : Nat) (seed : Seed) (sink : Sink)

/-- A machine that is about to run a script, already on the line of the first statement. -/
def startAt : Machine :=
  let m := start (.mk l (s :: rest)) limit seed sink
  { m with state := { m.state with line := s.line } }

/-- The first step of a script goes to the line of its first statement, wherever it starts. -/
theorem after_start (n : Nat) :
    (start (.mk l (s :: rest)) limit seed sink).after (n + 1) =
      (startAt l s rest limit seed sink).after (n + 1) := by
  induction n with
  | zero => rfl
  | succ n ih => exact congrArg (fun m => m.step.2) ih

/-- A script without statements ends with its first step. -/
theorem after_start_nil (n : Nat) :
    (start (.mk l []) limit seed sink).after (n + 1)
      = ⟨[.value .null], (start (.mk l []) limit seed sink).state⟩ := by
  induction n with
  | zero => rfl
  | succ n ih =>
      show ((start (.mk l []) limit seed sink).after (n + 1)).step.2 = _
      rw [ih]
      rfl

end Start

/-- Every fault of a run is reported on a line that passes, if the lines of the script do. -/
theorem start_blames {root : Block} (hroot : ∀ n ∈ root.statements, n.Located line) (limit : Nat)
    (seed : Seed) (sink : Sink) (n : Nat) (hsound : ((start root limit seed sink).after n).Sound) :
    Blames line ((start root limit seed sink).after n).step := by
  obtain ⟨l, statements⟩ := root
  cases n with
  -- The first step only starts the first statement.
  | zero =>
      cases statements with
      | nil => exact .ok _
      | cons s rest => exact .ok _
  | succ n =>
      cases statements with
      | nil =>
          rw [after_start_nil]
          exact .ok _
      | cons s rest =>
          have hlocated : (startAt l s rest limit seed sink).Located line := by
            have hs : s.Located line := hroot s List.mem_cons_self
            have hnil : ∀ f ∈ ([] : List Frame), f.Located line := fun f hf => by cases hf
            exact ⟨List.forall_mem_cons.mpr ⟨hroot, hnil⟩, hs.passes, fun i hi => by cases hi⟩
          have hkeeps : (startAt l s rest limit seed sink).Keeps (Value.Located line) := by
            obtain ⟨hlaid, hstate⟩ :=
              keeps_start (Value.Located line) (.mk l (s :: rest)) limit seed sink
            exact ⟨hlaid, hstate.heap, hstate.pending⟩
          rw [after_start] at hsound ⊢
          obtain ⟨hm, hk⟩ := hlocated.after hkeeps (n + 1)
          exact hm.step_blames hk hsound

end Machine

/-! ### Reading -/

/-- The line where the input ends is that of a token. -/
theorem lastLine_mem {ts : List Token} (hts : ts ≠ []) : lastLine ts ∈ ts.map Token.line := by
  rw [lastLine, List.getLast?_eq_some_getLast hts]
  exact List.mem_map_of_mem (List.getLast_mem hts)

/-- The lines of a script that is read from tokens are lines of tokens, and so is the line of an error. -/
theorem Block.ofTokens_located {source : String} {ts : List Token} (hts : tokenize source = .ok ts) :
    Settles (fun root => ∀ n ∈ root.statements, n.Located fun l => decide (l ∈ ts.map Token.line))
      (fun e => e.line ∈ ts.map Token.line) (Block.ofTokens ts) := by
  cases hne : ts with
  | nil =>
      -- Without tokens there is nothing to refuse.
      have hempty : Block.ofTokens [] = .ok (.mk 0 []) := by cbv
      rw [hempty]
      exact fun n hn => by cases hn
  | cons t rest =>
      rw [← hne]
      have htokens : Parser.Tokens (Token.FromText fun l => decide (l ∈ ts.map Token.line)) ts := by
        intro t ht
        have hline : t.line ∈ ts.map Token.line := List.mem_map_of_mem ht
        exact ⟨Lexer.scan_returns 0 _ ts hts t ht, decide_eq_true hline⟩
      have hfailing : Parser.Failing (Token.FromText fun l => decide (l ∈ ts.map Token.line))
          (Node.Located fun l => decide (l ∈ ts.map Token.line)) (lastLine ts)
          (fun e => e.line ∈ ts.map Token.line) :=
        { onToken := fun fault l h => of_decide_eq_true h.passes
          atEnd := fun fault => lastLine_mem (by simp [hne])
          onNode := fun fault n h => of_decide_eq_true h.passes
          onItem := fun fault l items n h hn => by
            simp only [Node.Located, Node.isRegular, Form.isRegular, Bool.and_eq_true] at h
            exact of_decide_eq_true (Node.Located.passes (Node.allRegular_iff.mp h.2 n hn)) }
      exact (Block.ofTokens_settles (closed_isRegular _) ts hfailing htokens).imp fun root h => h.2

/-! ### Reports -/

/-- A report names the line of a token and shows the trimmed text of that line of the source. -/
def Report.PointsInto (source : String) (tokens : List Token) (r : Report) : Prop :=
  ∃ n line, r.line = some n ∧ n ∈ tokens.map Token.line ∧ Text.IsLine source.toList n line ∧
    r.context = some (String.ofList (Text.trimChars line))

/-- A report on the line of a token points at it as soon as its text is looked up. -/
theorem Report.pointsInto_withSource {source : String} {tokens : List Token}
    (htokens : tokenize source = .ok tokens) {n : Nat} (hn : n ∈ tokens.map Token.line) (stage : Stage)
    (message : String) : ((Report.onLine stage message n).withSource source).PointsInto source tokens := by
  obtain ⟨line, hisLine, hlookup⟩ := Text.lineAt?_of_token htokens hn
  exact ⟨n, line, rfl, hn, hisLine, hlookup⟩

namespace Program

/-- Calls do not change the source of a program. -/
theorem source_after (p : Program) (n : Nat) : (p.after n).source = p.source := by
  induction n with
  | zero => rfl
  | succ n ih =>
      show ((p.after n).advance.2).source = p.source
      rw [← ih]
      rcases advance_cases (p.after n) with ⟨e, -, hadvance⟩ | ⟨-, more, -, hadvance⟩ |
        ⟨-, f, -, hadvance⟩
      · rw [hadvance]
      · rw [hadvance]
      · rw [hadvance]

/-- What becomes of a source text that has tokens. -/
theorem ofSource_of_tokens {source : String} {tokens : List Token}
    (htokens : tokenize source = .ok tokens) (settings : Settings) :
    Program.ofSource source settings =
      match Block.ofTokens tokens with
      | .error e => .error (e.report.withSource source)
      | .ok root => .ok ⟨settings.machine root, some source, none⟩ := by
  simp only [Program.ofSource, Block.ofSource, htokens]
  cases Block.ofTokens tokens with
  | error e => rfl
  | ok root => rfl

/-- A script that has tokens but cannot be read is refused on the line of a token. -/
theorem pointsInto_of_refused {source : String} {settings : Settings} {tokens : List Token}
    (htokens : tokenize source = .ok tokens) {r : Report}
    (hr : Program.ofSource source settings = .error r) : r.PointsInto source tokens := by
  have hread := Block.ofTokens_located htokens
  rw [ofSource_of_tokens htokens] at hr
  split at hr
  · rename_i e herror
    cases hr
    rw [herror] at hread
    exact Report.pointsInto_withSource htokens hread .parse e.fault.message
  · cases hr

/-- A call that fails reports the line of a token. -/
theorem pointsInto_of_failed {source : String} {settings : Settings} {tokens : List Token}
    (htokens : tokenize source = .ok tokens) {p : Program}
    (hp : Program.ofSource source settings = .ok p) {n : Nat} {r : Report}
    (hr : (p.after n).advance.1 = .error r) : r.PointsInto source tokens := by
  have hsound : (p.after n).Sound := (Fresh.sound (.ofSource hp)).after n
  have hsource : (p.after n).source = p.source := source_after p n
  obtain ⟨k, hk⟩ := exists_machine_eq_after p n
  rw [ofSource_of_tokens htokens] at hp
  split at hp
  · cases hp
  · rename_i root hroot
    cases hp
    have hlines := (Block.ofTokens_located htokens).returns root hroot
    -- Only a program that no error has stopped can fail, and its machine is sound.
    generalize Program.after ⟨settings.machine root, some source, none⟩ n = q at *
    rcases advance_cases q with ⟨e, -, hadvance⟩ | ⟨-, more, -, hadvance⟩ | ⟨herror, f, hf, hadvance⟩
    · rw [hadvance] at hr
      cases hr
    · rw [hadvance] at hr
      cases hr
    · rw [hadvance, hsource] at hr
      cases hr
      have hmachine : q.machine.Sound := hsound.machine herror
      rw [hk] at hmachine hf ⊢
      have hblames := Machine.start_blames hlines settings.maxCallDepth settings.seed settings.sink k
        hmachine
      exact Report.pointsInto_withSource htokens (of_decide_eq_true (hblames f hf)) f.stage f.message

/-- Errors point at a line of the source. Let a source text have tokens, and take any settings. If the script
cannot be read, or if it can and any later call fails, the report names the line of one of the tokens and
shows the trimmed text of that line. -/
theorem errors_point_at_tokens {source : String} {tokens : List Token}
    (htokens : tokenize source = .ok tokens) (settings : Settings) :
    (∀ r, Program.ofSource source settings = .error r → r.PointsInto source tokens) ∧
      ∀ p, Program.ofSource source settings = .ok p →
        ∀ n r, (p.after n).advance.1 = .error r → r.PointsInto source tokens := by
  constructor
  · intro r hr
    exact pointsInto_of_refused htokens hr
  · intro p hp n r hr
    exact pointsInto_of_failed htokens hp hr

/-- A statement that the text ends in, and a `break` outside of a loop, both on the second line. -/
theorem errors_point_at_second_line :
    let refused : Report := ⟨.parse, "Statement does not end with semicolon", some 1, some "2"⟩
    let unhandled : Report := ⟨.runtime, "Unhandled interrupt: break", some 1, some "break;"⟩
    let root : Block := .mk 0 [.mk 0 (.int 1), .mk 1 (.op .breakLoop [])]
    let p : Program := ⟨({} : Settings).machine root, some "1;\n  break;", none⟩
    (∃ tokens, tokenize "1;\n  2" = .ok tokens ∧ tokens.map Token.line = [0, 0, 1] ∧
      Program.ofSource "1;\n  2" {} = .error refused ∧ refused.PointsInto "1;\n  2" tokens) ∧
    ∃ tokens, tokenize "1;\n  break;" = .ok tokens ∧ tokens.map Token.line = [0, 0, 1, 1] ∧
      Program.ofSource "1;\n  break;" {} = .ok p ∧ (p.after 7).advance.1 = .error unhandled ∧
      unhandled.PointsInto "1;\n  break;" tokens := by
  intro refused unhandled root p
  constructor
  -- The text ends in its statement, so the line is the one of the last token.
  · have htokens : tokenize "1;\n  2" = .ok [⟨.int 1, 0⟩, ⟨.semicolon, 0⟩, ⟨.int 2, 1⟩] := by cbv
    have hblock : Block.ofTokens [⟨.int 1, 0⟩, ⟨.semicolon, 0⟩, ⟨.int 2, 1⟩]
        = .error ⟨.missingSemicolon, 1⟩ := by cbv
    have hrefused : Program.ofSource "1;\n  2" {} = .error refused := by
      rw [ofSource_of_tokens htokens, hblock]
      rfl
    exact ⟨_, htokens, rfl, hrefused, (errors_point_at_tokens htokens {}).1 _ hrefused⟩
  -- Seven steps lead to the step that offers the break to an empty stack.
  · have htokens : tokenize "1;\n  break;"
        = .ok [⟨.int 1, 0⟩, ⟨.semicolon, 0⟩, ⟨.word "break", 1⟩, ⟨.semicolon, 1⟩] := by cbv
    have hp : Program.ofSource "1;\n  break;" {} = .ok p := by cbv
    have hunhandled : (p.after 7).advance.1 = .error unhandled := rfl
    exact ⟨_, htokens, rfl, hp, hunhandled, (errors_point_at_tokens htokens {}).2 p hp 7 _ hunhandled⟩

end Program

end Stepwise
