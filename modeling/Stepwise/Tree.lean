import Stepwise.Operation

/-!
# `Stepwise.Tree`: the tree of a script

A script is a block of statements. A node is a form with the line where it starts, and a block is a
list of nodes with the line of its opening brace; the block of a whole script has line zero.
-/

set_option autoImplicit false

namespace Stepwise

mutual

/-- A part of a script and its line. -/
inductive Node where
  | mk (line : Nat) (form : Form)

/-- What a node says. -/
inductive Form where
  | null
  | bool (b : Bool)
  | int (n : Int64)
  | float (x : Float)
  | str (s : String)
  /-- A dotted path, from the global scope or from the current one. -/
  | path (global : Bool) (names : List String)
  | list (items : List Node)
  | block (body : Block)
  | function (params : List String) (body : Block)
  | op (op : Op) (args : List Node)
  | ifThen (cond : Node) (body : Block)
  | whileDo (cond : Node) (body : Block)
  | forEach (target : Node) (source : Node) (body : Block)
  | call (callee : Node) (args : Node)
  | object (body : Block)
  | andAlso (left : Node) (right : Node)
  | orElse (left : Node) (right : Node)
  /-- A body, and a handler that runs with a thrown value under a name. -/
  | tryCatch (body : Block) (name : String) (handler : Block)

/-- Statements and the line of their opening brace. -/
inductive Block where
  | mk (line : Nat) (statements : List Node)

end

instance : Inhabited Node := ⟨.mk 0 .null⟩

instance : Inhabited Block := ⟨.mk 0 []⟩

/-- The line of a node. -/
def Node.line : Node → Nat
  | .mk line _ => line

/-- The form of a node. -/
def Node.form : Node → Form
  | .mk _ form => form

/-- The line of a block. -/
def Block.line : Block → Nat
  | .mk line _ => line

/-- The statements of a block. -/
def Block.statements : Block → List Node
  | .mk _ statements => statements

end Stepwise
