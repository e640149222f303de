import Mathlib.Data.List.Induction
import Stepwise.Proofs.Locality

/-!
# `Stepwise.Proofs.Precedence`: chains of operators

A chain is a row of operands with a connective between each two of them. `OperatorTree` is a way to put
parentheses into a chain, and a tree is `Ordered` if at each connective the left operand binds at least as
tight and the right one tighter.

* `OperatorTree.exists_ordered`: every chain has an ordered tree. It is grown from the left, and the next
  operand goes down the right edge as far as the connectives there are looser.
* `OperatorTree.Ordered.unique`: it has only one. The connective at the root is the loosest, and of the loosest
  ones the last.
* `OperatorTree.binary_reads`: the tokens of an ordered tree are read as that tree. The induction is on the
  tree, and what is shown of a tree is that its tokens bring the loop of a level to the point where the tree
  stands on the left.
* `Block.ofTokens_chain` puts these together and lets any number of assignments stand in front.
-/

set_option autoImplicit false

namespace Stepwise

namespace Parser

/-! ### Chains -/

/-- A token that is a connective. -/
structure Operator where
  symbol : Symbol
  line : Nat
  connective : Connective
  reads : Connective.ofSymbol? symbol = some connective

namespace Operator

def token (o : Operator) : Token :=
  ⟨.symbol o.symbol, o.line⟩

/-- The level of an operator; a greater level binds tighter. -/
def level (o : Operator) : Nat :=
  o.connective.level

/-- The node of two operands with an operator between them. -/
def node (o : Operator) (left right : Node) : Node :=
  .mk o.line (o.connective.form left right)

end Operator

/-- An operator and the operand on its right. -/
structure Link where
  operator : Operator
  operand : Atom

def Link.tokens (link : Link) : List Token :=
  [link.operator.token, link.operand.token]

/-- An operand with an assignment to it. -/
structure Assignment where
  target : Atom
  symbol : Symbol
  line : Nat
  op : Op
  reads : symbol.assignOp? = some op

namespace Assignment

def tokens (a : Assignment) : List Token :=
  [a.target.token, ⟨.symbol a.symbol, a.line⟩]

/-- The node of an assignment of a value. -/
def node (a : Assignment) (value : Node) : Node :=
  .mk a.line (.op a.op [a.target.node, value])

end Assignment

/-! ### Trees -/

/-- Operands put together by operators. -/
inductive OperatorTree where
  | atom (a : Atom)
  | join (left : OperatorTree) (o : Operator) (right : OperatorTree)

namespace OperatorTree

/-- The node of a tree. -/
def node : OperatorTree → Node
  | atom a => a.node
  | join left o right => o.node left.node right.node

/-- The operand that stands first. -/
def first : OperatorTree → Atom
  | atom a => a
  | join left _ _ => left.first

/-- What follows the first operand, from left to right. -/
def links : OperatorTree → List Link
  | atom _ => []
  | join left o right => left.links ++ ⟨o, right.first⟩ :: right.links

/-- The tokens of a tree, from left to right. -/
def tokens (t : OperatorTree) : List Token :=
  t.first.token :: t.links.flatMap Link.tokens

/-- The operator at the root, if there is one, has at least a level. -/
def Binds (level : Nat) : OperatorTree → Prop
  | atom _ => True
  | join _ o _ => level ≤ o.level

/-- At each operator the left operand binds at least as tight, and the right one tighter. -/
def Ordered : OperatorTree → Prop
  | atom _ => True
  | join left o right => left.Binds o.level ∧ right.Binds (o.level + 1) ∧ left.Ordered ∧ right.Ordered

theorem tokens_join (left : OperatorTree) (o : Operator) (right : OperatorTree) :
    (join left o right).tokens = left.tokens ++ o.token :: right.tokens := by
  simp [tokens, first, links, Link.tokens]

theorem Binds.mono {level k : Nat} {t : OperatorTree} (h : t.Binds level) (hk : k ≤ level) : t.Binds k := by
  cases t with
  | atom a => trivial
  | join left o right => exact Nat.le_trans hk h

/-! ### There is an ordered tree -/

/-- A tree with one more operator and operand behind it: where the tree binds at least as tight it becomes the
left operand, and otherwise its right operand takes them. -/
def extend (link : Link) : OperatorTree → OperatorTree
  | atom a => join (atom a) link.operator (atom link.operand)
  | join left o right =>
    if link.operator.level ≤ o.level then join (join left o right) link.operator (atom link.operand)
    else join left o (right.extend link)

theorem first_extend (link : Link) (t : OperatorTree) : (t.extend link).first = t.first := by
  cases t with
  | atom a => rfl
  | join left o right =>
      rw [extend]
      split
      · rfl
      · rfl

theorem links_extend (link : Link) (t : OperatorTree) : (t.extend link).links = t.links ++ [link] := by
  induction t with
  | atom a => rfl
  | join left o right _ ih =>
      rw [extend]
      split
      · rfl
      · simp [links, first_extend, ih]

/-- What binds tighter than the operator that comes still does so with it, as long as the operator does. -/
theorem Binds.extend {level : Nat} {link : Link} {t : OperatorTree} (h : t.Binds level)
    (hlink : level ≤ link.operator.level) : (t.extend link).Binds level := by
  cases t with
  | atom a => exact hlink
  | join left o right =>
      rw [OperatorTree.extend]
      split
      · exact hlink
      · exact h

theorem Ordered.extend {link : Link} {t : OperatorTree} (h : t.Ordered) : (t.extend link).Ordered := by
  induction t with
  | atom a => exact ⟨trivial, trivial, trivial, trivial⟩
  | join left o right _ ih =>
      obtain ⟨hleft, hright, hl, hr⟩ := h
      rw [OperatorTree.extend]
      split
      · rename_i hle
        exact ⟨hle, trivial, ⟨hleft, hright, hl, hr⟩, trivial⟩
      · rename_i hlt
        have hlink : o.level + 1 ≤ link.operator.level := by omega
        exact ⟨hleft, hright.extend hlink, hl, ih hr⟩

/-- Every chain has an ordered tree. -/
theorem exists_ordered (a : Atom) (chain : List Link) :
    ∃ t : OperatorTree, t.first = a ∧ t.links = chain ∧ t.Ordered := by
  -- The chain is taken up from its end, so that the tree grows by one link at a time.
  induction chain using List.reverseRecOn with
  | nil => exact ⟨atom a, rfl, rfl, trivial⟩
  | append_singleton chain link ih =>
      obtain ⟨t, hfirst, hlinks, hordered⟩ := ih
      refine ⟨t.extend link, ?_, ?_, hordered.extend⟩
      · rw [first_extend, hfirst]
      · rw [links_extend, hlinks]

/-! ### There is only one -/

/-- In an ordered tree no operator is looser than the one at the root. -/
theorem Ordered.le_of_mem {level : Nat} {t : OperatorTree} (h : t.Ordered) (hbinds : t.Binds level) :
    ∀ link ∈ t.links, level ≤ link.operator.level := by
  induction t generalizing level with
  | atom a => simp [links]
  | join left o right ihl ihr =>
      obtain ⟨hleft, hright, hl, hr⟩ := h
      have hlevel : level ≤ o.level := hbinds
      intro link hlink
      simp only [links, List.mem_append, List.mem_cons] at hlink
      rcases hlink with hmem | rfl | hmem
      · exact ihl hl (hleft.mono hlevel) link hmem
      · exact hlevel
      · exact ihr hr (hright.mono (by omega)) link hmem

/-- The root of one ordered tree does not stand in front of the root of another one over the same chain: it
would be at least as tight as that one, and that one tighter than it. -/
theorem Ordered.not_before {left left' right right' : OperatorTree} {o o' : Operator} {mid : List Link}
    (h : (join left o right).Ordered) (h' : (join left' o' right').Ordered)
    (hleft : left'.links = left.links ++ ⟨o, right.first⟩ :: mid)
    (hright : right.links = mid ++ ⟨o', right'.first⟩ :: right'.links) : False := by
  have hle : o'.level ≤ o.level := by
    refine h'.2.2.1.le_of_mem h'.1 ⟨o, right.first⟩ ?_
    rw [hleft]
    simp
  have hlt : o.level + 1 ≤ o'.level := by
    refine h.2.2.2.le_of_mem h.2.1 ⟨o', right'.first⟩ ?_
    rw [hright]
    simp
  omega

/-- A chain has at most one ordered tree. -/
theorem Ordered.unique {t t' : OperatorTree} (h : t.Ordered) (h' : t'.Ordered) (hfirst : t.first = t'.first)
    (hlinks : t.links = t'.links) : t = t' := by
  induction t generalizing t' with
  | atom a =>
      cases t' with
      | atom b => exact congrArg atom hfirst
      | join left o right => simp [links] at hlinks
  | join left o right ihl ihr =>
      cases t' with
      | atom b => simp [links] at hlinks
      | join left' o' right' =>
          -- Both roots are connectives of one chain: they are the same one, or one of them stands in front
          -- of the other.
          rw [links, links, List.append_eq_append_iff] at hlinks
          rcases hlinks with ⟨more, hleft, hright⟩ | ⟨more, hleft, hright⟩
          · cases more with
            | nil =>
                rw [List.append_nil] at hleft
                simp only [List.nil_append, List.cons.injEq, Link.mk.injEq] at hright
                obtain ⟨⟨rfl, hrfirst⟩, hrlinks⟩ := hright
                rw [ihl h.2.2.1 h'.2.2.1 hfirst hleft.symm, ihr h.2.2.2 h'.2.2.2 hrfirst hrlinks]
            | cons link mid =>
                rw [List.cons_append, List.cons.injEq] at hright
                obtain ⟨rfl, hright⟩ := hright
                exact (h.not_before h' hleft hright).elim
          · cases more with
            | nil =>
                rw [List.append_nil] at hleft
                simp only [List.nil_append, List.cons.injEq, Link.mk.injEq] at hright
                obtain ⟨⟨rfl, hrfirst⟩, hrlinks⟩ := hright
                rw [ihl h.2.2.1 h'.2.2.1 hfirst hleft, ihr h.2.2.2 h'.2.2.2 hrfirst.symm hrlinks.symm]
            | cons link mid =>
                rw [List.cons_append, List.cons.injEq] at hright
                obtain ⟨rfl, hright⟩ := hright
                exact (h'.not_before h hleft hright).elim

/-! ### It is what is read -/

theorem atom_reads (a : Atom) {eof level : Nat} {rest : List Token} (hlevel : level ≤ 6)
    (hbare : take (symbol? Suffix.ofSymbol?) rest = none) (habove : Above level rest) :
    Gives (binary eof level (a.token :: rest)) a.node rest :=
  binary_of_unary hlevel (unary_of_primary (primary_of_atom a.reads eof a.line rest) hbare) habove

/-- The tokens of a tree bring the loop of a level to the point where the tree stands on its left. -/
def Enters (eof level : Nat) (t : OperatorTree) (rest : List Token) : Prop :=
  ∀ m rest', Leaves (binaryTail eof level t.node rest) m rest' →
    Gives (binary eof level (t.tokens ++ rest)) m rest'

/-- Where no connective follows, a level reads the tree. No operator has the level above all of them, so a tree
that binds as tight is a single operand. -/
theorem gives_of_enters {eof level : Nat} {t : OperatorTree} {rest : List Token} (hlevel : level ≤ 6)
    (hbinds : t.Binds level) (hbare : take (symbol? Suffix.ofSymbol?) rest = none)
    (habove : Above level rest) (henters : level < 6 → t.Enters eof level rest) :
    Gives (binary eof level (t.tokens ++ rest)) t.node rest := by
  by_cases hlt : level < 6
  · exact henters hlt t.node rest (binaryTail_of_end (habove level (Nat.le_refl level)))
  · cases t with
    | atom a => exact atom_reads a hlevel hbare habove
    | join left o right =>
        have hroot : level ≤ o.level := hbinds
        have hmax : o.level < 6 := o.connective.level_lt
        omega

/-- The tokens of an ordered tree are read as the tree at every level that it binds at. -/
theorem binary_reads (eof : Nat) {t : OperatorTree} (h : t.Ordered) {level : Nat} (hlevel : level < 6)
    (hbinds : t.Binds level) {rest : List Token} (hbare : take (symbol? Suffix.ofSymbol?) rest = none)
    (habove : Above (level + 1) rest) : t.Enters eof level rest := by
  induction t generalizing level rest with
  | atom a =>
      intro m rest' htail
      exact binary_of_tail hlevel (atom_reads a hlevel hbare habove) htail
  | join left o right ihl ihr =>
      obtain ⟨hleft, hright, hl, hr⟩ := h
      have hmax : o.level < 6 := o.connective.level_lt
      have hroot : level ≤ o.level := hbinds
      have htight : Above (o.level + 1) rest := fun k hk => habove k (by omega)
      have hrread : Gives (binary eof (o.level + 1) (right.tokens ++ rest)) right.node rest :=
        gives_of_enters hmax hright hbare htight fun hlt =>
          ihr hr hlt hright hbare fun k hk => htight k (by omega)
      -- At the level of the operator the loop has the left operand and goes once around.
      have hown : (join left o right).Enters eof o.level rest := by
        intro m rest' htail
        rw [tokens_join, List.append_assoc, List.cons_append]
        refine ihl hl hmax hleft (take_cons_of_none (suffix_of_connective o.reads) _ _)
          (above_of_connective o.reads _ _) m rest' ?_
        exact binaryTail_of_connective (connective?_level o.reads) hrread htail
      intro m rest' htail
      rcases Nat.eq_or_lt_of_le hroot with rfl | hloose
      · exact hown m rest' htail
      · -- A looser level gets the whole tree from the next one.
        have hwhole : Gives (binary eof o.level ((join left o right).tokens ++ rest)) (join left o right).node rest :=
          hown _ rest (binaryTail_of_end (habove o.level hloose))
        exact binary_of_tail hlevel (binary_lower hloose (by omega) hwhole habove) htail

end OperatorTree

/-- Assignments in front of a chain nest to the right. -/
theorem expression_of_assignments (eof line : Nat) (targets : List Assignment) {t : OperatorTree}
    (h : t.Ordered) :
    Gives (expression eof (targets.flatMap Assignment.tokens ++ t.tokens ++ [⟨.semicolon, line⟩]))
      (targets.foldr Assignment.node t.node) [⟨.semicolon, line⟩] := by
  have hends : Ends [⟨.semicolon, line⟩] := ends_cons (by simp) line []
  induction targets with
  | nil =>
      have hbinds : t.Binds 0 := by
        cases t with
        | atom a => trivial
        | join left o right => exact Nat.zero_le o.level
      have hchain := OperatorTree.binary_reads eof h (by decide) hbinds (hends.take _) (hends.above 1)
      exact expression_of_end (hchain _ _ (binaryTail_of_end (hends.take _))) (hends.take _)
  | cons a targets ih =>
      -- A target is a single operand: the sign of the assignment ends it at every level.
      have htarget (tail : List Token) : Gives (binary eof 0 (a.tokens ++ tail)) a.target.node
          (⟨.symbol a.symbol, a.line⟩ :: tail) :=
        OperatorTree.atom_reads a.target (Nat.zero_le 6)
          (take_cons_of_none (suffix_of_assign a.reads) a.line tail) (above_of_assign a.reads a.line tail)
      exact expression_of_assignment (htarget _) a.reads ih

end Parser

open Stepwise.Parser in
/-- A chain of operands with connectives between them, and any number of assignments in front, is read as one
statement. The assignments nest to the right. What they assign in the end is the tree of the chain that is
ordered by the levels of the connectives, and there is no other ordered tree of that chain. -/
theorem Block.ofTokens_chain (targets : List Assignment) (a : Atom) (chain : List Link) (line : Nat) :
    ∃ t : OperatorTree, t.first = a ∧ t.links = chain ∧ t.Ordered ∧
      (∀ t' : OperatorTree, t'.first = a → t'.links = chain → t'.Ordered → t' = t) ∧
      Block.ofTokens (targets.flatMap Assignment.tokens ++ a.token :: chain.flatMap Link.tokens
          ++ [⟨.semicolon, line⟩])
        = .ok (.mk 0 [targets.foldr Assignment.node t.node]) := by
  obtain ⟨t, rfl, rfl, hordered⟩ := OperatorTree.exists_ordered a chain
  refine ⟨t, rfl, rfl, hordered, ?_, ?_⟩
  · intro t' hfirst hlinks hordered'
    exact hordered'.unique hordered hfirst hlinks
  · exact Block.ofTokens_of_expression (expression_of_assignments 0 line targets hordered)

open Stepwise.Parser in
/-- The statement `x -= 1 + 2 * z - 3`: the product binds tighter than the sum, the sum stands to the left of
the difference, and the assignment takes the whole. -/
theorem Block.ofTokens_chain_of_four :
    let path (name : String) : Node := .mk 1 (.path false [name])
    let int (i : Int64) : Node := .mk 1 (.int i)
    let sum : Node := .mk 1 (.op (.arith .add) [int 1, .mk 1 (.op (.arith .mul) [int 2, path "z"])])
    Block.ofTokens ([.path false ["x"], .symbol (.update .sub), .int 1, .symbol (.arith .add), .int 2,
        .symbol (.arith .mul), .path false ["z"], .symbol (.arith .sub), .int 3, .semicolon].map (⟨·, 1⟩))
      = .ok (.mk 0 [.mk 1 (.op (.update .sub) [path "x", .mk 1 (.op (.arith .sub) [sum, int 3])])]) := by
  intro path int sum
  let operator (a : Arith) : Operator := ⟨.arith a, 1, .arith a, rfl⟩
  let x : Atom := ⟨.path false ["x"], 1, .path false ["x"], rfl⟩
  let z : Atom := ⟨.path false ["z"], 1, .path false ["z"], rfl⟩
  let number (i : Int64) : Atom := ⟨.int i, 1, .int i, rfl⟩
  let product := OperatorTree.join (.atom (number 2)) (operator .mul) (.atom z)
  let tree := OperatorTree.join (.join (.atom (number 1)) (operator .add) product) (operator .sub)
    (.atom (number 3))
  have hordered : tree.Ordered := by
    simp [tree, product, OperatorTree.Ordered, OperatorTree.Binds, operator, Operator.level,
      Connective.level]
  -- The tree above is ordered, and only one tree of this chain is.
  obtain ⟨t, hfirst, hlinks, -, hunique, hread⟩ := Block.ofTokens_chain
    [⟨x, .update .sub, 1, .update .sub, rfl⟩] (number 1)
    [⟨operator .add, number 2⟩, ⟨operator .mul, z⟩, ⟨operator .sub, number 3⟩] 1
  obtain rfl : tree = t := hunique tree rfl rfl hordered
  exact hread

end Stepwise
