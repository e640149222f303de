import Mathlib
import Stepwise.Proofs.WellFormed

/-!
# `Stepwise.Proofs.Regular`: the trees that can be written

A regular tree is one that some text can stand for. An operation has exactly its number of arguments, a
path has at least one name, no parameter list has a name twice, no integer is the least one (its digits
without the minus do not fit), and no minus stands in front of a literal that it would be part of. What the
names and the lines must be is left open: `Block.isRegular` has a test for each.

Every script that is read from a source text is regular (`Block.allRegular_of_source`): its names are made of
letters, digits and underscores, and its lines are lines of tokens.
-/

set_option autoImplicit false

namespace Stepwise

/-- Whether a minus in front of a form becomes part of it: it does for numbers and truth values. -/
def Form.takesMinus : Form → Bool
  | .int _ | .float _ | .bool _ => true
  | _ => false

mutual

/-- Whether a node is regular, with a test for the names of paths and one for lines. -/
def Node.isRegular (name : String → Bool) (line : Nat → Bool) : Node → Bool
  | .mk l form => line l && form.isRegular name line

/-- Whether what a node says is regular. -/
def Form.isRegular (name : String → Bool) (line : Nat → Bool) : Form → Bool
  | .int n => n != Int64.minValue
  | .path _ names => !names.isEmpty && names.all name
  | .list items => Node.allRegular name line items
  | .block body => body.isRegular name line
  | .function params body => decide params.Nodup && body.isRegular name line
  | .op op args =>
    args.length == op.arity && (op != .neg || args.all fun operand => !operand.form.takesMinus)
      && Node.allRegular name line args
  | .ifThen cond body => cond.isRegular name line && body.isRegular name line
  | .whileDo cond body => cond.isRegular name line && body.isRegular name line
  | .forEach target source body =>
    target.isRegular name line && source.isRegular name line && body.isRegular name line
  | .call callee args => callee.isRegular name line && args.isRegular name line
  | .object body => body.isRegular name line
  | .andAlso left right => left.isRegular name line && right.isRegular name line
  | .orElse left right => left.isRegular name line && right.isRegular name line
  | .tryCatch body _ handler => body.isRegular name line && handler.isRegular name line
  | .null | .bool _ | .float _ | .str _ => true

/-- Whether a block is regular. -/
def Block.isRegular (name : String → Bool) (line : Nat → Bool) : Block → Bool
  | .mk l statements => line l && Node.allRegular name line statements

/-- Whether all nodes of a list are regular. -/
def Node.allRegular (name : String → Bool) (line : Nat → Bool) : List Node → Bool
  | [] => true
  | n :: nodes => n.isRegular name line && Node.allRegular name line nodes

end

section

variable {name : String → Bool} {line : Nat → Bool}

theorem Node.allRegular_iff {nodes : List Node} :
    Node.allRegular name line nodes = true ↔ ∀ n ∈ nodes, n.isRegular name line = true := by
  induction nodes with
  | nil => simp [Node.allRegular]
  | cons n nodes ih => simp [Node.allRegular, ih]

/-- The value of every integer but the least one has a negative that fits. -/
theorem Number.least_lt_toInt {n : Int64} (h : n ≠ Int64.minValue) :
    -9223372036854775808 < n.toInt := by
  have hleast : Int64.minValue.toInt = -9223372036854775808 := by decide
  have hne : n.toInt ≠ -9223372036854775808 := fun heq => h (Int64.toInt_inj.mp (heq.trans hleast.symm))
  have hge : -9223372036854775808 ≤ n.toInt := Int64.le_toInt n
  omega

/-- The negative of an integer that is not the least one fits, and it is not the least one either. -/
theorem Number.exists_checked_neg {n : Int64} (h : n ≠ Int64.minValue) :
    ∃ m, Number.checked (-n.toInt) = some m ∧ m ≠ Int64.minValue := by
  have hgt : -9223372036854775808 < n.toInt := Number.least_lt_toInt h
  have hlt : n.toInt < 9223372036854775808 := Int64.toInt_lt n
  have hfits : Number.Fits (-n.toInt) := ⟨by omega, by omega⟩
  cases hm : Number.checked (-n.toInt) with
  | none => exact absurd hfits (Number.checked_eq_none_iff.mp hm)
  | some m =>
      refine ⟨m, rfl, ?_⟩
      rintro rfl
      have hvalue : Int64.minValue.toInt = -n.toInt := Number.toInt_of_checked hm
      have hleast : Int64.minValue.toInt = -9223372036854775808 := by decide
      omega

/-- An operator in front of a regular operand gives a regular node: a minus in front of a literal is made
part of it, and the number always fits since the operand is not the least integer. -/
theorem Node.isRegular_unaryForm {l : Nat} {op : Op} {operand : Node} (hl : line l = true)
    (harity : op.arity = 1) (h : operand.isRegular name line = true) :
    Node.isRegular name line (.mk l (Parser.unaryForm op operand)) = true := by
  obtain ⟨l', form⟩ := operand
  unfold Parser.unaryForm
  split
  · rename_i n hform
    cases hform
    have hn : n ≠ Int64.minValue := by
      simp only [Node.isRegular, Form.isRegular, Bool.and_eq_true, bne_iff_ne] at h
      exact h.2
    obtain ⟨m, hm, hleast⟩ := Number.exists_checked_neg hn
    simp [hm, Node.isRegular, Form.isRegular, hl, hleast]
  · simp [Node.isRegular, Form.isRegular, hl]
  · rename_i b hform
    have hsmall : (if b then -1 else 0 : Int64) ≠ Int64.minValue := by
      cases b <;> decide
    simp [Node.isRegular, Form.isRegular, hl, hsmall]
  · rename_i op _ _ hint hfloat hbool
    -- What is left is an operation, and its operand is no literal if it is a minus.
    have hminus : op = .neg → form.takesMinus = false := by
      intro hneg
      cases form with
      | int n => exact absurd rfl (hint n hneg)
      | float x => exact absurd rfl (hfloat x hneg)
      | bool b => exact absurd rfl (hbool b hneg)
      | _ => rfl
    have hargs : Node.allRegular name line [.mk l' form] = true := by
      simpa [Node.allRegular] using h
    by_cases hneg : op = .neg
    · simp [Node.isRegular, Form.isRegular, Node.form, hl, harity, hminus hneg, hargs]
    · simp [Node.isRegular, Form.isRegular, hl, harity, hneg, hargs]

end

/-- Tokens as they are read from a text, on lines that pass a test. -/
def Token.FromText (line : Nat → Bool) (t : Token) : Prop :=
  t.lexeme.FromText ∧ line t.line = true

/-- The line of a token passes the test. -/
theorem Parser.OnLine.passes {line : Nat → Bool} {l : Nat}
    (h : Parser.OnLine (Token.FromText line) l) : line l = true :=
  h.elim fun _ ht => ht.2

/-- The readers keep regularity: what they build has the names and the lines of its tokens. -/
theorem closed_isRegular (line : Nat → Bool) :
    Parser.Closed (Token.FromText line) (fun n => n.isRegular isName line = true)
      (fun b => b.isRegular isName line = true) where
  null l h := by simp [Node.isRegular, Form.isRegular, h.passes]
  bool l b h := by simp [Node.isRegular, Form.isRegular, h.passes]
  int l n h := by
    obtain ⟨hsign, hl⟩ := h
    -- A numeral has no sign, so it is not the least integer.
    have hleast : n ≠ Int64.minValue := by
      rintro rfl
      revert hsign
      show ¬ 0 ≤ Int64.minValue.toInt
      decide
    simp [Node.isRegular, Form.isRegular, hleast, hl]
  float l x h := by simp [Node.isRegular, Form.isRegular, h.2]
  str l s h := by simp [Node.isRegular, Form.isRegular, h.2]
  path l global names h := by
    obtain ⟨⟨hne, hnames⟩, hl⟩ := h
    have hall : names.all isName = true := List.all_eq_true.mpr hnames
    simp [Node.isRegular, Form.isRegular, hl, hne, hall]
  word l w h := by
    obtain ⟨hname, hl⟩ := h
    have hall : [w].all isName = true := List.all_eq_true.mpr fun name hmem => by
      rw [List.mem_singleton.mp hmem]
      exact hname
    simp only [Node.isRegular, Form.isRegular, hl, hall]
    rfl
  list l items h hitems := by
    simp [Node.isRegular, Form.isRegular, h.passes, Node.allRegular_iff.mpr hitems]
  nested l b h hb := by simp [Node.isRegular, Form.isRegular, h.passes, hb]
  inner l b h := by
    simp only [Node.isRegular, Form.isRegular, Bool.and_eq_true] at h
    exact h.2
  body l nodes h hnodes := by simp [Block.isRegular, h.passes, Node.allRegular_iff.mpr hnodes]
  function l params b h hparams hb := by
    simp [Node.isRegular, Form.isRegular, h.passes, hparams, hb]
  op l op args h hneg hlen hargs := by
    simp [Node.isRegular, Form.isRegular, h.passes, hneg, hlen, Node.allRegular_iff.mpr hargs]
  unary l op operand h harity hoperand := Node.isRegular_unaryForm h.passes harity hoperand
  ifThen l c b h hc hb := by simp [Node.isRegular, Form.isRegular, h.passes, hc, hb]
  whileDo l c b h hc hb := by simp [Node.isRegular, Form.isRegular, h.passes, hc, hb]
  forEach l t s b h ht hs hb := by simp [Node.isRegular, Form.isRegular, h.passes, ht, hs, hb]
  call l f a h hf ha := by simp [Node.isRegular, Form.isRegular, h.passes, hf, ha]
  object l b h hb := by simp [Node.isRegular, Form.isRegular, h.passes, hb]
  andAlso l left right h hleft hright := by
    simp [Node.isRegular, Form.isRegular, h.passes, hleft, hright]
  orElse l left right h hleft hright := by
    simp [Node.isRegular, Form.isRegular, h.passes, hleft, hright]
  tryCatch l b name handler h hb hhandler := by
    simp [Node.isRegular, Form.isRegular, h.passes, hb, hhandler]

/-- Every script that is read from a source text is regular. Its names are texts of letters, digits and
underscores, the line of every node and block in it is the line of a token of the source, and its own line
is zero. -/
theorem Block.allRegular_of_source {source : String} {root : Block}
    (h : Block.ofSource source = .ok root) :
    ∃ ts, tokenize source = .ok ts ∧ root.line = 0 ∧
      Node.allRegular isName (fun l => decide (l ∈ ts.map Token.line)) root.statements = true := by
  obtain ⟨ts, hts, hroot⟩ := Block.exists_tokens h
  have htext : Parser.Tokens (Token.FromText fun l => decide (l ∈ ts.map Token.line)) ts := by
    intro t ht
    have hline : t.line ∈ ts.map Token.line := List.mem_map_of_mem ht
    exact ⟨Lexer.scan_returns 0 _ ts hts t ht, decide_eq_true hline⟩
  obtain ⟨hzero, hnodes⟩ := Block.ofTokens_returns (closed_isRegular _) ts htext root hroot
  exact ⟨ts, hts, hzero, Node.allRegular_iff.mpr hnodes⟩

/-- A function over two lines, with a minus that is an operator and one that is part of a literal. -/
theorem Block.allRegular_of_function :
    let body : Node :=
      .mk 1 (.op (.arith .sub) [.mk 1 (.op .neg [.mk 1 (.path false ["a"])]), .mk 1 (.int (-1))])
    let root : Block := .mk 0 [.mk 0 (.function ["a", "b"] (.mk 0 [body]))]
    Block.ofSource "function([a, b], \x7b\n-a - -1;\x7d);" = .ok root ∧
      ∃ ts, tokenize "function([a, b], \x7b\n-a - -1;\x7d);" = .ok ts ∧ root.line = 0 ∧
        Node.allRegular isName (fun l => decide (l ∈ ts.map Token.line)) root.statements = true := by
  intro body root
  have hroot : Block.ofSource "function([a, b], \x7b\n-a - -1;\x7d);" = .ok root := by cbv
  exact ⟨hroot, Block.allRegular_of_source hroot⟩

end Stepwise
