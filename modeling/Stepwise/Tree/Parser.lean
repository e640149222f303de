import Stepwise.Number.Checked
import Stepwise.Report
import Stepwise.Token
import Stepwise.Tree

/-!
# `Stepwise.Tree.Parser`: trees of token lists

`Block.ofTokens` reads a token list as a script. The readers below go by recursive descent. Each of
them takes a token list and returns what it read with the tokens that are left, and carries the
proof that it has consumed a token (`Parsed`) or at least added none (`Passed`). So the recursion
ends: a reader calls another one on fewer tokens, or on the same tokens at a lower rank of the
grammar.

Connectives have levels, the loosest first, and associate to the left. Assignments are looser than
all of them and associate to the right. An operation or keyword takes its arguments in parentheses
and separated by commas, or one after another without either.
-/

set_option autoImplicit false

namespace Stepwise

/-- Why a token list is no script. -/
inductive ParseFault where
  /-- A lexeme, or the end of the input, where nothing can start with it. -/
  | unexpected (found : Option Lexeme)
  /-- A bracket is missing. -/
  | expectedBracket (text : Char) (found : Option Lexeme)
  /-- A list of expressions goes on with something else than a comma or its closing bracket. -/
  | expectedCommaOr (b : Bracket) (found : Lexeme)
  | unclosed (b : Bracket)
  | emptyStatement
  | missingSemicolon
  | wrongArgumentCount (name : String) (expected : Nat) (got : Nat)
  | expectedBlock
  | invalidParameterName
  | invalidParameterList
  | duplicateParameter
deriving Inhabited

namespace ParseFault

/-- The phrase for what was found instead. -/
def foundText : Option Lexeme → String
  | none => "end of input"
  | some lexeme => lexeme.describe

/-- The message of a fault. -/
def message : ParseFault → String
  | unexpected found => "Unexpected " ++ foundText found
  | expectedBracket c found =>
    "Expected " ++ quoted (String.singleton c) ++ ", found " ++ foundText found
  | expectedCommaOr b found =>
    "Expected ',' or " ++ quoted (String.singleton b.closeChar) ++ ", found " ++ found.describe
  | unclosed b => "Unclosed " ++ quoted (String.singleton b.closeChar)
  | emptyStatement => "Empty statement"
  | missingSemicolon => "Statement does not end with semicolon"
  | wrongArgumentCount name expected got =>
    quoted name ++ " takes " ++ toString expected ++ " arguments, got " ++ toString got
  | expectedBlock => "Expected a block"
  | invalidParameterName => "Invalid parameter name"
  | invalidParameterList => "Invalid parameter list"
  | duplicateParameter => "Duplicate function parameter"

end ParseFault

/-- A fault and its line. -/
structure ParseError where
  fault : ParseFault
  line : Nat
deriving Inhabited

/-- The report of a parse error. -/
def ParseError.report (e : ParseError) : Report :=
  .onLine .parse e.fault.message e.line

namespace Parser

/-! ### Levels, keywords and arguments -/

/-- The operators that join two operands, assignments and postfix operators apart. -/
inductive Connective where
  | orElse
  | andAlso
  | compare (c : Comparison)
  | equal
  | differ
  | arith (a : Arith)
deriving DecidableEq, Repr, Inhabited

namespace Connective

/-- The connective of a symbol. -/
def ofSymbol? : Symbol → Option Connective
  | .orElse => some orElse
  | .andAlso => some andAlso
  | .compare c => some (compare c)
  | .equal => some equal
  | .differ => some differ
  | .arith a => some (arith a)
  | _ => none

/-- The level of a connective, from 0 to 5; a greater level binds tighter. -/
def level : Connective → Nat
  | orElse => 0
  | andAlso => 1
  | compare _ | equal | differ => 2
  | arith .add | arith .sub => 3
  | arith .mul | arith .div | arith .intDiv | arith .mod => 4
  | arith .pow => 5

/-- The form of two operands under a connective. -/
def form (c : Connective) (left right : Node) : Form :=
  match c with
  | orElse => .orElse left right
  | andAlso => .andAlso left right
  | compare c => .op (.compare c) [left, right]
  | equal => .op .equal [left, right]
  | differ => .op .differ [left, right]
  | arith a => .op (.arith a) [left, right]

end Connective

/-- The operators that follow an operand. -/
inductive Suffix where
  | index
  | call
deriving DecidableEq, Repr, Inhabited

/-- The suffix of a symbol. -/
def Suffix.ofSymbol? : Symbol → Option Suffix
  | .colon => some index
  | .arrow => some call
  | _ => none

/-- The literal that a word stands for. -/
def Literal.ofWord? : String → Option Form
  | "null" => some .null
  | "true" => some (.bool true)
  | "false" => some (.bool false)
  | _ => none

/-- What stands in the place of an argument. -/
inductive Shape where
  | value
  | block
  | param
  | params
deriving DecidableEq, Repr, Inhabited

/-- What an argument of a shape is read as. -/
def Shape.Arg : Shape → Type
  | .value => Node
  | .block => Block
  | .param => String
  | .params => List String

/-- One argument for each shape. -/
def Args : List Shape → Type
  | [] => Unit
  | s :: shapes => s.Arg × Args shapes

/-- The nodes of arguments that are all values. -/
def Args.nodes : (n : Nat) → Args (List.replicate n .value) → List Node
  | 0, _ => []
  | n + 1, (node, args) => node :: Args.nodes n args

/-- The words that build control trees. -/
inductive Keyword where
  | ifThen
  | whileDo
  | forEach
  | call
  | object
  | function
  | tryCatch
deriving DecidableEq, Repr, Inhabited

namespace Keyword

/-- The keyword with a given word. -/
def ofWord? : String → Option Keyword
  | "if" => some ifThen
  | "while" => some whileDo
  | "for" => some forEach
  | "call" => some call
  | "object" => some object
  | "function" => some function
  | "try" => some tryCatch
  | _ => none

/-- The shapes of the arguments of a keyword. -/
def shapes : Keyword → List Shape
  | ifThen | whileDo => [.value, .block]
  | forEach => [.value, .value, .block]
  | call => [.value, .value]
  | object => [.block]
  | function => [.params, .block]
  | tryCatch => [.block, .param, .block]

/-- The form that a keyword builds from its arguments. -/
def form : (k : Keyword) → Args k.shapes → Form
  | ifThen, (cond, body, _) => .ifThen cond body
  | whileDo, (cond, body, _) => .whileDo cond body
  | forEach, (target, source, body, _) => .forEach target source body
  | call, (callee, args, _) => .call callee args
  | object, (body, _) => .object body
  | function, (params, body, _) => .function params body
  | tryCatch, (body, name, handler, _) => .tryCatch body name handler

end Keyword

/-- The name that a node gives a parameter: a local path of one name. -/
def paramName? (node : Node) : Option String :=
  match node.form with
  | .path false [name] => some name
  | _ => none

/-- The names of a parameter list, which must differ from each other and from those `seen`. -/
def paramNames (seen : List String) : List Node → Except ParseError (List String)
  | [] => .ok []
  | item :: items =>
    match paramName? item with
    | none => .error ⟨.invalidParameterName, item.line⟩
    | some name =>
      if name ∈ seen then .error ⟨.duplicateParameter, item.line⟩
      else (paramNames (name :: seen) items).map (name :: ·)

/-- Reads a node as an argument of a shape. -/
def convert (node : Node) : (s : Shape) → Except ParseError s.Arg
  | .value => .ok node
  | .block =>
    match node.form with
    | .block body => .ok body
    | _ => .error ⟨.expectedBlock, node.line⟩
  | .param =>
    match paramName? node with
    | some name => .ok name
    | none => .error ⟨.invalidParameterName, node.line⟩
  | .params =>
    match node.form with
    | .list items => paramNames [] items
    | _ => .error ⟨.invalidParameterList, node.line⟩

/-- Reads as many nodes as there are shapes as arguments of these shapes. -/
def convertAll : (shapes : List Shape) → (nodes : List Node) → nodes.length = shapes.length →
    Except ParseError (Args shapes)
  | [], _, _ => .ok ()
  | _ :: _, [], h => nomatch h
  | s :: shapes, node :: nodes, h => do
    let arg ← convert node s
    let args ← convertAll shapes nodes (Nat.succ.inj h)
    return (arg, args)

/-- The form of an operation in front of an operand. A minus in front of a literal is part of the
literal, unless the negative number does not fit. -/
def unaryForm (op : Op) (operand : Node) : Form :=
  match op, operand.form with
  | .neg, .int n =>
    match Number.checked (-n.toInt) with
    | some m => .int m
    | none => .op op [operand]
  | .neg, .float x => .float (-x)
  | .neg, .bool b => .int (if b then -1 else 0)
  | _, _ => .op op [operand]

/-! ### Results -/

/-- What was read from the front of `ts`, which took at least one token. -/
structure Parsed (α : Type) (ts : List Token) where
  value : α
  rest : List Token
  lt : rest.length < ts.length

/-- What was read from the front of `ts`, which may have taken no token. -/
structure Passed (α : Type) (ts : List Token) where
  value : α
  rest : List Token
  le : rest.length ≤ ts.length

/-- The first lexeme of a token list. -/
def peek? (ts : List Token) : Option Lexeme :=
  ts.head?.map Token.lexeme

/-- The line of the first token, or the line where the input ends. -/
def lineOf (eof : Nat) (ts : List Token) : Nat :=
  (ts.head?.map Token.line).getD eof

/-- Takes the first token if `p` accepts its lexeme; the result has its line. -/
def take {α : Type} (p : Lexeme → Option α) (ts : List Token) : Option (Parsed (α × Nat) ts) :=
  match ts with
  | [] => none
  | t :: rest => (p t.lexeme).map fun a => ⟨(a, t.line), rest, Nat.lt_succ_self _⟩

/-- Takes the first token if `p` accepts its lexeme, and fails on it otherwise. -/
def expect {α : Type} (eof : Nat) (p : Lexeme → Option α) (fault : Option Lexeme → ParseFault)
    (ts : List Token) : Except ParseError (Parsed (α × Nat) ts) :=
  match take p ts with
  | some r => .ok r
  | none => .error ⟨fault (peek? ts), lineOf eof ts⟩

/-- Accepts an opening bracket. -/
def opens (b : Bracket) : Lexeme → Option Unit
  | .opening b' => if b' = b then some () else none
  | _ => none

/-- Accepts a closing bracket. -/
def closes (b : Bracket) : Lexeme → Option Unit
  | .closing b' => if b' = b then some () else none
  | _ => none

/-- Accepts a comma. -/
def comma? : Lexeme → Option Unit
  | .comma => some ()
  | _ => none

/-- Accepts a semicolon. -/
def semicolon? : Lexeme → Option Unit
  | .semicolon => some ()
  | _ => none

/-- Accepts a symbol that `f` accepts. -/
def symbol? {α : Type} (f : Symbol → Option α) : Lexeme → Option α
  | .symbol s => f s
  | _ => none

/-- Accepts a connective of one level. -/
def connective? (level : Nat) : Lexeme → Option Connective :=
  symbol? fun s => (Connective.ofSymbol? s).filter fun c => c.level == level

/-- Fails on what stands where a list of expressions must go on or close. -/
def listFault (b : Bracket) : Option Lexeme → ParseFault
  | none => .unclosed b
  | some lexeme => .expectedCommaOr b lexeme

/-! ### The readers -/

mutual

/-- An expression: operands joined by connectives, or an assignment to them. -/
def expression (eof : Nat) (ts : List Token) : Except ParseError (Parsed Node ts) := do
  let ⟨target, rest, lt⟩ ← binary eof 0 ts
  match take (symbol? Symbol.assignOp?) rest with
  | none => return ⟨target, rest, lt⟩
  -- What is assigned is an expression again, so assignments nest to the right.
  | some ⟨(op, line), rest, lt⟩ =>
    let ⟨value, rest, lt⟩ ← expression eof rest
    return ⟨.mk line (.op op [target, value]), rest, by omega⟩
termination_by 16 * ts.length + 10

/-- Operands joined by connectives of at least the given level; above the last level stands a single
operand. -/
def binary (eof : Nat) (level : Nat) (ts : List Token) : Except ParseError (Parsed Node ts) := do
  if level < 6 then
    let ⟨left, rest, lt⟩ ← binary eof (level + 1) ts
    let ⟨node, rest, le⟩ ← binaryTail eof level left rest
    return ⟨node, rest, by omega⟩
  else
    unary eof ts
termination_by 16 * ts.length + 3 + (6 - level)

/-- Joins the operands that follow at one level to what stands on their left. -/
def binaryTail (eof : Nat) (level : Nat) (left : Node) (ts : List Token) :
    Except ParseError (Passed Node ts) := do
  match take (connective? level) ts with
  | none => return ⟨left, ts, Nat.le_refl _⟩
  | some ⟨(c, line), rest, lt⟩ =>
    -- The right operand binds tighter and the loop goes on from the joined node: operators nest to the left.
    let ⟨right, rest, lt⟩ ← binary eof (level + 1) rest
    let ⟨node, rest, le⟩ ← binaryTail eof level (.mk line (c.form left right)) rest
    return ⟨node, rest, by omega⟩
termination_by 16 * ts.length

/-- An operand with the operators in front of it. -/
def unary (eof : Nat) (ts : List Token) : Except ParseError (Parsed Node ts) := do
  match take (symbol? Symbol.unaryOp?) ts with
  | none => suffixed eof ts
  | some ⟨(op, line), rest, lt⟩ =>
    let ⟨operand, rest, lt⟩ ← unary eof rest
    return ⟨.mk line (unaryForm op operand), rest, by omega⟩
termination_by 16 * ts.length + 2

/-- An operand with the index and call operators behind it. -/
def suffixed (eof : Nat) (ts : List Token) : Except ParseError (Parsed Node ts) := do
  let ⟨node, rest, lt⟩ ← primary eof ts
  let ⟨node, rest, le⟩ ← suffixTail eof node rest
  return ⟨node, rest, by omega⟩
termination_by 16 * ts.length + 1

/-- Applies the index and call operators that follow to what stands on their left. -/
def suffixTail (eof : Nat) (node : Node) (ts : List Token) : Except ParseError (Passed Node ts) := do
  match take (symbol? Suffix.ofSymbol?) ts with
  | none => return ⟨node, ts, Nat.le_refl _⟩
  | some ⟨(.index, line), rest, lt⟩ =>
    let ⟨key, rest, lt⟩ ← indexKey eof rest
    let ⟨node, rest, le⟩ ← suffixTail eof (.mk line (.op .index [node, key])) rest
    return ⟨node, rest, by omega⟩
  | some ⟨(.call, line), rest, lt⟩ =>
    -- The arguments of a call are one operand, a list that is known only when it is evaluated.
    let ⟨args, rest, lt⟩ ← primary eof rest
    let ⟨node, rest, le⟩ ← suffixTail eof (.mk line (.call node args)) rest
    return ⟨node, rest, by omega⟩
termination_by 16 * ts.length

/-- The key behind an index operator: an operand, with the operators in front of it if there are
any. -/
def indexKey (eof : Nat) (ts : List Token) : Except ParseError (Parsed Node ts) :=
  match take (symbol? Symbol.unaryOp?) ts with
  | none => primary eof ts
  | some _ => unary eof ts
termination_by 16 * ts.length + 3

/-- An operand without operators: a literal, a path, a word with its arguments, an expression in
parentheses, a list or a block. -/
def primary (eof : Nat) (ts : List Token) : Except ParseError (Parsed Node ts) := do
  match take some ts with
  | none => .error ⟨.unexpected none, eof⟩
  | some ⟨(lexeme, line), rest, lt⟩ =>
    match lexeme with
    | .int n => return ⟨.mk line (.int n), rest, lt⟩
    | .float x => return ⟨.mk line (.float x), rest, lt⟩
    | .str s => return ⟨.mk line (.str s), rest, lt⟩
    | .path global names => return ⟨.mk line (.path global names), rest, lt⟩
    | .word w =>
      let ⟨form, rest, le⟩ ← word eof w rest
      return ⟨.mk line form, rest, by omega⟩
    | .opening .round =>
      let ⟨node, rest, lt⟩ ← expression eof rest
      let ⟨_, rest, lt⟩ ← expect eof (closes .round) (.expectedBracket ')') rest
      return ⟨node, rest, by omega⟩
    | .opening .square =>
      let ⟨items, rest, lt⟩ ← commaList eof .square rest
      return ⟨.mk line (.list items), rest, by omega⟩
    | .opening .curly =>
      let ⟨body, rest, lt⟩ ← blockBody eof line rest
      return ⟨.mk line (.block body), rest, by omega⟩
    | .symbol s => .error ⟨.unexpected (some (.symbol s)), line⟩
    | .closing b => .error ⟨.unexpected (some (.closing b)), line⟩
    | .comma => .error ⟨.unexpected (some .comma), line⟩
    | .semicolon => .error ⟨.unexpected (some .semicolon), line⟩
termination_by 16 * ts.length

/-- The form that a word starts: a literal, a keyword or a built-in with its arguments, or a local
path of one name. -/
def word (eof : Nat) (w : String) (ts : List Token) : Except ParseError (Passed Form ts) := do
  match Literal.ofWord? w, Keyword.ofWord? w, Op.builtin? w with
  | some form, _, _ => return ⟨form, ts, Nat.le_refl _⟩
  | none, some k, _ =>
    let ⟨args, rest, le⟩ ← arguments eof w k.shapes ts
    return ⟨k.form args, rest, le⟩
  | none, none, some op =>
    let ⟨args, rest, le⟩ ← arguments eof w (List.replicate op.arity .value) ts
    return ⟨.op op (Args.nodes op.arity args), rest, le⟩
  | none, none, none => return ⟨.path false [w], ts, Nat.le_refl _⟩
termination_by 16 * ts.length + 14

/-- The arguments of a word: all of them in parentheses, or the first one in parentheses and the
others after it, or one after another. A word without arguments takes an empty pair of
parentheses. -/
def arguments (eof : Nat) (name : String) (shapes : List Shape) (ts : List Token) :
    Except ParseError (Passed (Args shapes) ts) :=
  match shapes, take (opens .round) ts with
  | [], none => .ok ⟨(), ts, Nat.le_refl _⟩
  | [], some ⟨_, rest, lt⟩ =>
    match take (closes .round) rest with
    -- A parenthesis that is not closed at once belongs to what follows the word.
    | none => .ok ⟨(), ts, Nat.le_refl _⟩
    | some ⟨_, rest, lt⟩ => .ok ⟨(), rest, by omega⟩
  | s :: shapes, none => juxtaposed eof (s :: shapes) ts
  | s :: shapes, some ⟨(_, line), rest, lt⟩ => do
    let ⟨nodes, rest, lt⟩ ← commaList eof .round rest
    if h : nodes.length = (s :: shapes).length then
      let args ← convertAll (s :: shapes) nodes h
      return ⟨args, rest, by omega⟩
    else
      match nodes with
      -- One value in parentheses where more are wanted is only the first of them.
      | [node] =>
        let arg ← convert node s
        let ⟨args, rest, le⟩ ← juxtaposed eof shapes rest
        return ⟨(arg, args), rest, by omega⟩
      | nodes => .error ⟨.wrongArgumentCount name (s :: shapes).length nodes.length, line⟩
termination_by 16 * ts.length + 13

/-- Arguments one after another. The last value may be any expression, a value before it only an
operand with its operators. -/
def juxtaposed (eof : Nat) (shapes : List Shape) (ts : List Token) :
    Except ParseError (Passed (Args shapes) ts) :=
  match shapes with
  | [] => .ok ⟨(), ts, Nat.le_refl _⟩
  | s :: shapes => do
    let ⟨arg, rest, lt⟩ ← argument eof s (shapes.contains .value) ts
    let ⟨args, rest, le⟩ ← juxtaposed eof shapes rest
    return ⟨(arg, args), rest, by omega⟩
termination_by 16 * ts.length + 12

/-- One argument outside of parentheses; `more` says whether another value follows. -/
def argument (eof : Nat) (s : Shape) (more : Bool) (ts : List Token) :
    Except ParseError (Parsed s.Arg ts) :=
  match s with
  | .value => if more then unary eof ts else expression eof ts
  | .block => block eof ts
  | .param => do
    let ⟨node, rest, lt⟩ ← primary eof ts
    let name ← convert node .param
    return ⟨name, rest, lt⟩
  | .params => do
    let ⟨node, rest, lt⟩ ← primary eof ts
    let names ← convert node .params
    return ⟨names, rest, lt⟩
termination_by 16 * ts.length + 11

/-- Expressions separated by commas, up to the closing bracket; there may be none. -/
def commaList (eof : Nat) (b : Bracket) (ts : List Token) :
    Except ParseError (Parsed (List Node) ts) :=
  match take (closes b) ts with
  | some ⟨_, rest, lt⟩ => .ok ⟨[], rest, lt⟩
  | none => commaItems eof b ts
termination_by 16 * ts.length + 12

/-- At least one expression, separated by commas, up to the closing bracket. -/
def commaItems (eof : Nat) (b : Bracket) (ts : List Token) :
    Except ParseError (Parsed (List Node) ts) := do
  let ⟨item, rest, lt⟩ ← expression eof ts
  match take comma? rest with
  | some ⟨_, rest, lt⟩ =>
    let ⟨items, rest, lt⟩ ← commaItems eof b rest
    return ⟨item :: items, rest, by omega⟩
  | none =>
    let ⟨_, rest, lt⟩ ← expect eof (closes b) (listFault b) rest
    return ⟨[item], rest, by omega⟩
termination_by 16 * ts.length + 11

/-- A block in braces. -/
def block (eof : Nat) (ts : List Token) : Except ParseError (Parsed Block ts) := do
  let ⟨(_, line), rest, lt⟩ ←
    expect eof (opens .curly) (.expectedBracket Bracket.curly.openChar) ts
  let ⟨body, rest, lt⟩ ← blockBody eof line rest
  return ⟨body, rest, by omega⟩
termination_by 16 * ts.length

/-- The rest of a block after its opening brace on a given line. -/
def blockBody (eof : Nat) (line : Nat) (ts : List Token) : Except ParseError (Parsed Block ts) := do
  let ⟨nodes, rest, le⟩ ← statements eof ts
  let ⟨_, rest, lt⟩ ← expect eof (closes .curly) (.expectedBracket Bracket.curly.closeChar) rest
  return ⟨.mk line nodes, rest, by omega⟩
termination_by 16 * ts.length + 12

/-- Statements up to a closing brace or the end of the input; each ends with a semicolon. -/
def statements (eof : Nat) (ts : List Token) : Except ParseError (Passed (List Node) ts) := do
  if (take (closes .curly) ts).isSome || ts.isEmpty then
    return ⟨[], ts, Nat.le_refl _⟩
  else if (take semicolon? ts).isSome then
    .error ⟨.emptyStatement, lineOf eof ts⟩
  else
    let ⟨node, rest, lt⟩ ← expression eof ts
    match take semicolon? rest with
    -- The report points at the statement, whose end may lie some lines above the next token.
    | none => .error ⟨.missingSemicolon, node.line⟩
    | some ⟨_, rest, lt⟩ =>
      let ⟨nodes, rest, le⟩ ← statements eof rest
      return ⟨node :: nodes, rest, by omega⟩
termination_by 16 * ts.length + 11

end

end Parser

/-- The line of the last token; zero if there is none. -/
def lastLine (ts : List Token) : Nat :=
  (ts.getLast?.map Token.line).getD 0

/-- The script that a token list writes. -/
def Block.ofTokens (ts : List Token) : Except ParseError Block := do
  let ⟨nodes, rest, _⟩ ← Parser.statements (lastLine ts) ts
  match rest with
  | [] => return .mk 0 nodes
  | t :: _ => .error ⟨.unexpected (some t.lexeme), t.line⟩

end Stepwise
