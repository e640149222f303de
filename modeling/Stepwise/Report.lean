import Stepwise.Text.Lines

/-!
# `Stepwise.Report`: errors as a reader sees them

A report says which stage refused the script, why, on which line, and what that line says. Lines are
counted from zero and shown from one.
-/

set_option autoImplicit false

namespace Stepwise

/-- The stage that an error belongs to. -/
inductive Stage where
  | lex
  | parse
  | runtime
  | misc
deriving DecidableEq, Repr, Inhabited

/-- The word for a stage. -/
def Stage.name : Stage → String
  | .lex => "Lex"
  | .parse => "Parse"
  | .runtime => "Runtime"
  | .misc => "Misc"

/-- An error as a reader sees it. -/
structure Report where
  stage : Stage
  message : String
  line : Option Nat
  /-- The trimmed text of the line. -/
  context : Option String
deriving DecidableEq, Repr, Inhabited

namespace Report

/-- An error on a known line, its text not yet looked up. -/
def onLine (stage : Stage) (message : String) (line : Nat) : Report :=
  ⟨stage, message, some line, none⟩

/-- An error without a line. -/
def plain (stage : Stage) (message : String) : Report :=
  ⟨stage, message, none, none⟩

/-- Looks the text of the line up in the source; a report without a line stays as it is. -/
def withSource (r : Report) (source : String) : Report :=
  match r.line with
  | none => r
  | some line => { r with context := Text.lineAt? source line }

/-- The text of a report, with its line and the text of that line where they are known. -/
def text (r : Report) : String :=
  let place := match r.line with
    | none => ""
    | some line => " (line " ++ toString (line + 1) ++ ")"
  let snippet := match r.context with
    | none => ""
    | some context => "\n    " ++ context
  r.stage.name ++ " error: " ++ r.message ++ place ++ snippet

end Report

end Stepwise
