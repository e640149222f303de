import Stepwise.Tree.Parser
import Stepwise.Proofs.Negation
import Stepwise.Proofs.Regular

/-!
# `Stepwise.Proofs.Printing`: the lexemes of a tree

`Block.lexemes` writes a script as lexemes. Operators stand in parentheses with their operands, built-ins and
keywords take their arguments in parentheses with commas between them, and a block has braces around its
statements and a semicolon after each. So every node is written as a single operand, which can stand next to
any other. No number is written with a sign (`Block.unsigned_lexemes`): a negative one is a minus in front
of its magnitude.

`Block.unlined` forgets the lines of a tree, which the lexemes do not tell.
-/

set_option autoImplicit false

namespace Stepwise

/-! ### Brackets and operators -/

namespace Lexeme

/-- Lexemes between brackets. -/
def inside (b : Bracket) (ls : List Lexeme) : List Lexeme :=
  .opening b :: (ls ++ [.closing b])

/-- Groups of lexemes with commas between them. -/
def separated : List (List Lexeme) → List Lexeme
  | [] => []
  | [ls] => ls
  | ls :: next :: groups => ls ++ .comma :: separated (next :: groups)

/-- A word with arguments in parentheses. -/
def called (w : String) (args : List (List Lexeme)) : List Lexeme :=
  .word w :: inside .round (separated args)

/-- Two operands with a symbol between them. -/
def joined (s : Symbol) (left right : List Lexeme) : List Lexeme :=
  inside .round (left ++ .symbol s :: right)

/-- An operand with a symbol in front of it. -/
def fronted (s : Symbol) (operand : List Lexeme) : List Lexeme :=
  inside .round (.symbol s :: operand)

/-- The lexeme of a parameter name. -/
def param (name : String) : List Lexeme :=
  [.path false [name]]

end Lexeme

/-- The symbol of an operation; a built-in has none. -/
def Op.symbol? : Op → Option Symbol
  | .arith a => some (.arith a)
  | .compare c => some (.compare c)
  | .equal => some .equal
  | .differ => some .differ
  | .index => some .colon
  | .assign => some .assign
  | .update a => some (.update a)
  | .neg => some (.arith .sub)
  | .not => some .bang
  | .increment => some .increment
  | .decrement => some .decrement
  | .invert => some .invert
  | _ => none

/-- The lexemes of an operation, from those of its arguments. -/
def Op.lexemes (op : Op) (args : List (List Lexeme)) : List Lexeme :=
  match op.symbol?, args with
  | some s, [operand] => Lexeme.fronted s operand
  | some s, [left, right] => Lexeme.joined s left right
  | _, _ => Lexeme.called op.name args

theorem Op.lexemes_single {op : Op} {s : Symbol} (h : op.symbol? = some s) (operand : List Lexeme) :
    op.lexemes [operand] = Lexeme.fronted s operand := by
  simp [Op.lexemes, h]

theorem Op.lexemes_pair {op : Op} {s : Symbol} (h : op.symbol? = some s) (left right : List Lexeme) :
    op.lexemes [left, right] = Lexeme.joined s left right := by
  simp [Op.lexemes, h]

/-- The word of a keyword. -/
def Parser.Keyword.word : Parser.Keyword → String
  | .ifThen => "if"
  | .whileDo => "while"
  | .forEach => "for"
  | .call => "call"
  | .object => "object"
  | .function => "function"
  | .tryCatch => "try"

/-- The lexemes of an integer. -/
def Number.intLexemes (n : Int64) : List Lexeme :=
  if n.toInt < 0 then Lexeme.fronted (.arith .sub) [.int (-n)] else [.int n]

/-- The lexemes of a float. -/
def Number.floatLexemes (x : Float) : List Lexeme :=
  if Number.isNegative x then Lexeme.fronted (.arith .sub) [.float (-x)] else [.float x]

/-! ### Trees -/

mutual

/-- The lexemes of a node. -/
def Node.lexemes : Node → List Lexeme
  | .mk _ form => form.lexemes

/-- The lexemes of what a node says. -/
def Form.lexemes : Form → List Lexeme
  | .null => [.word "null"]
  | .bool b => [.word (if b then "true" else "false")]
  | .int n => Number.intLexemes n
  | .float x => Number.floatLexemes x
  | .str s => [.str s]
  | .path global names => [.path global names]
  | .list items => Lexeme.inside .square (Lexeme.separated (Node.eachLexemes items))
  | .block body => Lexeme.inside .curly body.lexemes
  | .function params body =>
    Lexeme.called Parser.Keyword.function.word
      [Lexeme.inside .square (Lexeme.separated (params.map Lexeme.param)),
        Lexeme.inside .curly body.lexemes]
  | .op op args => op.lexemes (Node.eachLexemes args)
  | .ifThen cond body =>
    Lexeme.called Parser.Keyword.ifThen.word [cond.lexemes, Lexeme.inside .curly body.lexemes]
  | .whileDo cond body =>
    Lexeme.called Parser.Keyword.whileDo.word [cond.lexemes, Lexeme.inside .curly body.lexemes]
  | .forEach target source body =>
    Lexeme.called Parser.Keyword.forEach.word
      [target.lexemes, source.lexemes, Lexeme.inside .curly body.lexemes]
  | .call callee args => Lexeme.called Parser.Keyword.call.word [callee.lexemes, args.lexemes]
  | .object body => Lexeme.called Parser.Keyword.object.word [Lexeme.inside .curly body.lexemes]
  | .andAlso left right => Lexeme.joined .andAlso left.lexemes right.lexemes
  | .orElse left right => Lexeme.joined .orElse left.lexemes right.lexemes
  | .tryCatch body name handler =>
    Lexeme.called Parser.Keyword.tryCatch.word
      [Lexeme.inside .curly body.lexemes, Lexeme.param name, Lexeme.inside .curly handler.lexemes]

/-- The lexemes of the statements of a block, without its braces. -/
def Block.lexemes : Block → List Lexeme
  | .mk _ statements => (Node.eachLexemes statements).flatMap (· ++ [.semicolon])

/-- The lexemes of each node of a list. -/
def Node.eachLexemes : List Node → List (List Lexeme)
  | [] => []
  | n :: nodes => n.lexemes :: Node.eachLexemes nodes

end

mutual

/-- A node without its lines. -/
def Node.unlined : Node → Node
  | .mk _ form => .mk 0 form.unlined

/-- What a node says, without its lines. -/
def Form.unlined : Form → Form
  | .list items => .list (Node.eachUnlined items)
  | .block body => .block body.unlined
  | .function params body => .function params body.unlined
  | .op op args => .op op (Node.eachUnlined args)
  | .ifThen cond body => .ifThen cond.unlined body.unlined
  | .whileDo cond body => .whileDo cond.unlined body.unlined
  | .forEach target source body => .forEach target.unlined source.unlined body.unlined
  | .call callee args => .call callee.unlined args.unlined
  | .object body => .object body.unlined
  | .andAlso left right => .andAlso left.unlined right.unlined
  | .orElse left right => .orElse left.unlined right.unlined
  | .tryCatch body name handler => .tryCatch body.unlined name handler.unlined
  | .null => .null
  | .bool b => .bool b
  | .int n => .int n
  | .float x => .float x
  | .str s => .str s
  | .path global names => .path global names

/-- A block without its lines. -/
def Block.unlined : Block → Block
  | .mk _ statements => .mk 0 (Node.eachUnlined statements)

/-- The nodes of a list without their lines. -/
def Node.eachUnlined : List Node → List Node
  | [] => []
  | n :: nodes => n.unlined :: Node.eachUnlined nodes

end

/-! ### Numbers have no sign -/

/-- A number has no sign. -/
def Lexeme.IsUnsigned : Lexeme → Prop
  | .int n => 0 ≤ n.toInt
  | .float x => Number.isNegative x = false
  | _ => True

/-- No lexeme is a number with a sign. -/
def Lexeme.Unsigned (ls : List Lexeme) : Prop :=
  ∀ l ∈ ls, l.IsUnsigned

namespace Lexeme

@[simp] theorem unsigned_nil : Unsigned [] := by
  simp [Unsigned]

@[simp] theorem unsigned_cons {l : Lexeme} {ls : List Lexeme} :
    Unsigned (l :: ls) ↔ l.IsUnsigned ∧ Unsigned ls := by
  simp [Unsigned]

@[simp] theorem unsigned_append {ls rest : List Lexeme} :
    Unsigned (ls ++ rest) ↔ Unsigned ls ∧ Unsigned rest := by
  simp [Unsigned, or_imp, forall_and]

@[simp] theorem unsigned_inside {b : Bracket} {ls : List Lexeme} :
    Unsigned (inside b ls) ↔ Unsigned ls := by
  simp [inside, IsUnsigned]

@[simp] theorem unsigned_separated {groups : List (List Lexeme)} :
    Unsigned (separated groups) ↔ ∀ ls ∈ groups, Unsigned ls := by
  fun_induction separated groups with
  | case1 => simp
  | case2 ls => simp
  | case3 ls next groups ih => simp [ih, IsUnsigned]

@[simp] theorem unsigned_called {w : String} {args : List (List Lexeme)} :
    Unsigned (called w args) ↔ ∀ ls ∈ args, Unsigned ls := by
  simp [called, IsUnsigned]

@[simp] theorem unsigned_joined {s : Symbol} {left right : List Lexeme} :
    Unsigned (joined s left right) ↔ Unsigned left ∧ Unsigned right := by
  simp [joined, IsUnsigned]

@[simp] theorem unsigned_fronted {s : Symbol} {operand : List Lexeme} :
    Unsigned (fronted s operand) ↔ Unsigned operand := by
  simp [fronted, IsUnsigned]

@[simp] theorem unsigned_param {name : String} : Unsigned (param name) := by
  simp [param, IsUnsigned]

end Lexeme

theorem Op.unsigned_lexemes {op : Op} {args : List (List Lexeme)}
    (h : ∀ ls ∈ args, Lexeme.Unsigned ls) : Lexeme.Unsigned (op.lexemes args) := by
  unfold Op.lexemes
  split
  · simpa using h
  · simpa using h
  · simpa using h

/-- The negative of an integer that is not the least one. -/
theorem Number.toInt_neg {n : Int64} (h : n ≠ Int64.minValue) : (-n).toInt = -n.toInt := by
  have hgt : -9223372036854775808 < n.toInt := Number.least_lt_toInt h
  have hlt : n.toInt < 9223372036854775808 := Int64.toInt_lt n
  rw [Int64.toInt_neg]
  exact Int.bmod_eq_of_le (by omega) (by omega)

theorem Number.unsigned_intLexemes {n : Int64} (h : n ≠ Int64.minValue) :
    Lexeme.Unsigned (Number.intLexemes n) := by
  unfold Number.intLexemes
  split
  · have hneg : (-n).toInt = -n.toInt := Number.toInt_neg h
    have hsign : 0 ≤ (-n).toInt := by omega
    simpa only [Lexeme.unsigned_fronted, Lexeme.unsigned_cons, Lexeme.IsUnsigned, and_true,
      Lexeme.unsigned_nil] using hsign
  · simp [Lexeme.IsUnsigned]
    omega

theorem Number.unsigned_floatLexemes (x : Float) : Lexeme.Unsigned (Number.floatLexemes x) := by
  unfold Number.floatLexemes
  split
  · rename_i hneg
    simp [Lexeme.IsUnsigned, Number.isNegative_neg hneg]
  · rename_i hpos
    simpa [Lexeme.IsUnsigned] using hpos

section

variable {name : String → Bool} {line : Nat → Bool}

mutual

theorem Node.unsigned_lexemes (n : Node) (h : n.isRegular name line = true) :
    Lexeme.Unsigned n.lexemes := by
  cases n with
  | mk l form =>
      simp only [Node.isRegular, Bool.and_eq_true] at h
      rw [Node.lexemes]
      exact form.unsigned_lexemes h.2

theorem Form.unsigned_lexemes (form : Form) (h : form.isRegular name line = true) :
    Lexeme.Unsigned form.lexemes := by
  -- Only literals have numbers; what is not a literal is made of the lexemes of its parts.
  cases form with
  | null => simp [Form.lexemes, Lexeme.IsUnsigned]
  | bool b => simp [Form.lexemes, Lexeme.IsUnsigned]
  | int n =>
      simp only [Form.isRegular, bne_iff_ne] at h
      rw [Form.lexemes]
      exact Number.unsigned_intLexemes h
  | float x =>
      rw [Form.lexemes]
      exact Number.unsigned_floatLexemes x
  | str s => simp [Form.lexemes, Lexeme.IsUnsigned]
  | path global names => simp [Form.lexemes, Lexeme.IsUnsigned]
  | list items =>
      simp only [Form.isRegular] at h
      simpa [Form.lexemes] using Node.unsigned_eachLexemes items h
  | block body =>
      simp only [Form.isRegular] at h
      simpa [Form.lexemes] using body.unsigned_lexemes h
  | function params body =>
      simp only [Form.isRegular, Bool.and_eq_true] at h
      simpa [Form.lexemes] using body.unsigned_lexemes h.2
  | op op args =>
      simp only [Form.isRegular, Bool.and_eq_true] at h
      rw [Form.lexemes]
      exact Op.unsigned_lexemes (Node.unsigned_eachLexemes args h.2)
  | ifThen cond body =>
      simp only [Form.isRegular, Bool.and_eq_true] at h
      simpa [Form.lexemes] using ⟨cond.unsigned_lexemes h.1, body.unsigned_lexemes h.2⟩
  | whileDo cond body =>
      simp only [Form.isRegular, Bool.and_eq_true] at h
      simpa [Form.lexemes] using ⟨cond.unsigned_lexemes h.1, body.unsigned_lexemes h.2⟩
  | forEach target source body =>
      simp only [Form.isRegular, Bool.and_eq_true] at h
      simpa [Form.lexemes] using ⟨target.unsigned_lexemes h.1.1, source.unsigned_lexemes h.1.2,
        body.unsigned_lexemes h.2⟩
  | call callee args =>
      simp only [Form.isRegular, Bool.and_eq_true] at h
      simpa [Form.lexemes] using ⟨callee.unsigned_lexemes h.1, args.unsigned_lexemes h.2⟩
  | object body =>
      simp only [Form.isRegular] at h
      simpa [Form.lexemes] using body.unsigned_lexemes h
  | andAlso left right =>
      simp only [Form.isRegular, Bool.and_eq_true] at h
      simpa [Form.lexemes] using ⟨left.unsigned_lexemes h.1, right.unsigned_lexemes h.2⟩
  | orElse left right =>
      simp only [Form.isRegular, Bool.and_eq_true] at h
      simpa [Form.lexemes] using ⟨left.unsigned_lexemes h.1, right.unsigned_lexemes h.2⟩
  | tryCatch body name handler =>
      simp only [Form.isRegular, Bool.and_eq_true] at h
      simpa [Form.lexemes] using ⟨body.unsigned_lexemes h.1, handler.unsigned_lexemes h.2⟩

theorem Block.unsigned_lexemes (b : Block) (h : b.isRegular name line = true) :
    Lexeme.Unsigned b.lexemes := by
  cases b with
  | mk l statements =>
      simp only [Block.isRegular, Bool.and_eq_true] at h
      have heach := Node.unsigned_eachLexemes statements h.2
      rw [Block.lexemes]
      intro lexeme hmem
      obtain ⟨ls, hls, hin⟩ := List.mem_flatMap.mp hmem
      have hstatement : Lexeme.Unsigned (ls ++ [.semicolon]) := by
        simp [Lexeme.IsUnsigned, heach ls hls]
      exact hstatement lexeme hin

theorem Node.unsigned_eachLexemes (nodes : List Node) (h : Node.allRegular name line nodes = true) :
    ∀ ls ∈ Node.eachLexemes nodes, Lexeme.Unsigned ls := by
  cases nodes with
  | nil => simp [Node.eachLexemes]
  | cons n nodes =>
      simp only [Node.allRegular, Bool.and_eq_true] at h
      simpa [Node.eachLexemes] using
        ⟨n.unsigned_lexemes h.1, Node.unsigned_eachLexemes nodes h.2⟩

end

end

end Stepwise
