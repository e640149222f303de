import Stepwise.Machine
import Stepwise.Token.Lexer
import Stepwise.Tree.Parser

/-!
# `Stepwise.Program`: a script that is being run

A program is a machine with the source that it was read from, if there is one, and the error that
stopped it. The first fault of the machine stops a program for good: later calls do nothing.
-/

set_option autoImplicit false

namespace Stepwise

/-- How to run a script. -/
structure Settings where
  /-- How many calls and object literals may be under way at once. -/
  maxCallDepth : Nat := 1000
  /-- The seed of the random generator, and the generator. -/
  seed : Seed := 0
  /-- The number of bytes that printing may take; none stands for any number. -/
  outputLimit : Option Nat := none
deriving Inhabited

/-- The sink of the settings. -/
def Settings.sink (s : Settings) : Sink :=
  match s.outputLimit with
  | none => .unlimited
  | some n => .limited n

/-- The script that a text writes, or why it is none. -/
def Block.ofSource (source : String) : Except Report Block :=
  match tokenize source with
  | .error e => .error e.report
  | .ok ts =>
    match Block.ofTokens ts with
    | .error e => .error e.report
    | .ok block => .ok block

/-- The machine that is about to run a script. -/
def Settings.machine (s : Settings) (root : Block) : Machine :=
  .start root s.maxCallDepth s.seed s.sink

/-- A script that is being run. -/
structure Program where
  machine : Machine
  source : Option String
  /-- The error that stopped the program. -/
  error : Option Report
deriving Inhabited

namespace Program

/-- A program of a script without a source text. -/
def ofBlock (root : Block) (s : Settings) : Program :=
  ⟨s.machine root, none, none⟩

/-- A program of a source text. An error has the text of its line. -/
def ofSource (source : String) (s : Settings) : Except Report Program :=
  match Block.ofSource source with
  | .error r => .error (r.withSource source)
  | .ok root => .ok ⟨s.machine root, some source, none⟩

/-- The report of a fault on a line, with the text of the line if there is a source. -/
def report (source : Option String) (f : Fault) (line : Nat) : Report :=
  match source with
  | none => f.report line
  | some source => (f.report line).withSource source

/-- Does one step and says whether work remains; a stopped program does nothing. -/
def advance (p : Program) : Except Report Bool × Program :=
  match p with
  | ⟨machine, source, some e⟩ => (.ok false, ⟨machine, source, some e⟩)
  | ⟨machine, source, none⟩ =>
    match machine.step with
    | (.ok more, machine) => (.ok more, ⟨machine, source, none⟩)
    -- The line is the one that the failed step has left.
    | (.error f, machine) =>
      let r := report source f machine.state.line
      (.error r, ⟨machine, source, some r⟩)

/-- Whether an error stopped the program. -/
def halted (p : Program) : Bool :=
  p.error.isSome

/-- Whether the program ran to its end. -/
def finished (p : Program) : Bool :=
  p.error.isNone && !p.machine.hasWork

/-- Does a number of steps, less if the program ends before, and says whether work remains. -/
def runSteps (p : Program) : Nat → Except Report Bool × Program
  | 0 => (.ok (p.error.isNone && p.machine.hasWork), p)
  | budget + 1 =>
    match p.advance with
    | (.ok true, p) => runSteps p budget
    | (.ok false, p) => (.ok false, p)
    | (.error r, p) => (.error r, p)

/-- Runs the program to its end or to its first error; nothing comes back if it takes more than
`fuel` steps. -/
def run? (p : Program) : Nat → Option (Except Report Unit × Program)
  | 0 => none
  | fuel + 1 =>
    match p.advance with
    | (.ok true, p) => run? p fuel
    | (.ok false, p) => some (.ok (), p)
    | (.error r, p) => some (.error r, p)

/-- The value of a program that ran to its end. -/
def result? (p : Program) : Option Value :=
  if p.finished then p.machine.result? else none

/-- The value of a global variable. -/
def global? (p : Program) (name : String) : Option Value :=
  p.machine.globals.get? name

/-- What the program has printed. -/
def output (p : Program) : String :=
  p.machine.state.sink.text

end Program

end Stepwise
