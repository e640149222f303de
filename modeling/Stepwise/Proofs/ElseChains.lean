import Stepwise.Proofs.Branching
import Stepwise.Proofs.Locality
import Stepwise.Proofs.RoundTrip

/-!
# `Stepwise.Proofs.ElseChains`: one branch of many

There is no `else` in the tree of a script. The word is another spelling of `||`, an `if` yields whether its body
ran, and a block as an operand yields null. So `if a {..} else if b {..} else {..}` is a disjunction to the left
of two conditions and a block, and it runs one of the three.

`ElseChain.runs_one_branch` says both: how such a chain is read, and what it runs. On the side of the reader an
`if` with its block is an operand (`Branch.primary_reads`), so the chain is read by the loop of one level
(`binaryTail_reads`). On the side of the machine the disjunctions are taken from the inside: as long as all
conditions are false the disjunction so far skips (`skips_joined`), and once a block has been started it stays
the only one (`starts_joined`).
-/

set_option autoImplicit false

namespace Stepwise

open Stepwise.Parser

/-- A block in braces. The line where the input ends is only shown in errors, so any line serves to say that it can
be read. -/
structure Braces where
  tokens : List Token
  body : Block
  reads : Gives (Parser.block 0 tokens) body []

/-- The node of a block that stands as an operand. -/
def Braces.tree (b : Braces) : Node :=
  .mk b.body.line (.block b.body)

/-- An `if` with its block. The condition is an expression that ends at the block, and where it starts with a
parenthesis it is the expression in that pair of parentheses. -/
structure Branch where
  line : Nat
  cond : List Token
  node : Node
  block : Braces
  reads : Gives (expression 0 (cond ++ block.tokens)) node block.tokens
  whole : ∀ opening tail, cond = ⟨.opening .round, opening⟩ :: tail → ∃ inner closing m,
    tail = inner ++ [⟨.closing .round, closing⟩] ∧
      Gives (expression 0 (inner ++ [⟨.closing .round, closing⟩])) m [⟨.closing .round, closing⟩]

namespace Branch

def tokens (b : Branch) : List Token :=
  ⟨.word "if", b.line⟩ :: (b.cond ++ b.block.tokens)

def tree (b : Branch) : Node :=
  .mk b.line (.ifThen b.node b.block.body)

end Branch

/-- The token of an `else`, as the lexer reads that word. -/
def elseToken (line : Nat) : Token :=
  ⟨.symbol .orElse, line⟩

/-- Branches with an `else` between each two of them, and a block behind the last `else`. Each branch but the
first one has the line of the `else` in front of it. -/
structure ElseChain where
  first : Branch
  others : List (Nat × Branch)
  line : Nat
  final : Braces

namespace ElseChain

/-- A branch with the `else` in front of it. -/
def link (b : Nat × Branch) : List Token :=
  elseToken b.1 :: b.2.tokens

def tokens (chain : ElseChain) : List Token :=
  chain.first.tokens ++ (chain.others.flatMap link ++ elseToken chain.line :: chain.final.tokens)

def branches (chain : ElseChain) : List Branch :=
  chain.first :: chain.others.map Prod.snd

/-- The disjunction of a node and some branches, to the left. -/
def joined (left : Node) (others : List (Nat × Branch)) : Node :=
  others.foldl (fun left b => .mk b.1 (.orElse left b.2.tree)) left

/-- The tree of a chain: a disjunction to the left, with the final block as its last operand. -/
def tree (chain : ElseChain) : Node :=
  .mk chain.line (.orElse (joined chain.first.tree chain.others) chain.final.tree)

/-- The operands and disjunctions that `joined` adds. -/
def spine (left : Node) : List (Nat × Branch) → List Node
  | [] => []
  | b :: others => b.2.tree :: .mk b.1 (.orElse left b.2.tree) :: spine (.mk b.1 (.orElse left b.2.tree)) others

/-- The nodes that a chain consists of, without its conditions and what is in its blocks. -/
def nodes (chain : ElseChain) : List Node :=
  chain.tree :: chain.final.tree :: chain.first.tree :: spine chain.first.tree chain.others

end ElseChain

/-! ### Reading a chain -/

namespace Braces

theorem exists_opening (b : Braces) : ∃ line tail, b.tokens = ⟨.opening .curly, line⟩ :: tail := by
  obtain ⟨lt, hread⟩ := b.reads
  obtain ⟨tail, htokens, -⟩ := block_opens 0 b.tokens _ hread
  exact ⟨_, tail, htokens⟩

theorem block_reads (b : Braces) (eof : Nat) (rest : List Token) :
    Gives (Parser.block eof (b.tokens ++ rest)) b.body rest := by
  have hblock : Gives (Parser.block 0 (b.tokens ++ [])) b.body [] := by
    rw [List.append_nil]
    exact b.reads
  exact hblock.again block_replays trivial eof

theorem primary_reads (b : Braces) (eof : Nat) (rest : List Token) :
    Gives (primary eof (b.tokens ++ rest)) b.tree rest :=
  primary_of_block (b.block_reads eof rest)

/-- What stands in front of a block ends there, also if more stands behind the block. -/
theorem follows (b : Braces) (rest : List Token) : Follows b.tokens (b.tokens ++ rest) := by
  obtain ⟨line, tail, htokens⟩ := b.exists_opening
  rw [htokens]
  exact follows_cons (by simp) line tail (tail ++ rest)

theorem ends (b : Braces) (rest : List Token) : Ends (b.tokens ++ rest) := by
  obtain ⟨line, tail, htokens⟩ := b.exists_opening
  rw [htokens]
  exact ends_cons (by simp) line (tail ++ rest)

/-- The block as the last argument of a keyword. -/
theorem juxtaposed_reads (b : Braces) (eof : Nat) (rest : List Token) :
    Leaves (juxtaposed eof [.block] (b.tokens ++ rest)) (b.body, ()) rest := by
  have hargument : Gives (argument eof .block (([] : List Shape).contains .value) (b.tokens ++ rest))
      b.body rest := by
    rw [argument]
    exact b.block_reads eof rest
  exact juxtaposed_of_argument hargument juxtaposed_nil

end Braces

namespace Branch

/-- The arguments of an `if`. A condition in parentheses is read as the first argument in parentheses, any other
one as an argument without them. -/
theorem arguments_reads (b : Branch) (eof : Nat) (rest : List Token) :
    Leaves (arguments eof "if" Keyword.ifThen.shapes (b.cond ++ (b.block.tokens ++ rest)))
      (b.node, b.block.body, ()) rest := by
  by_cases hround : ∃ opening tail, b.cond = ⟨.opening .round, opening⟩ :: tail
  · obtain ⟨opening, tail, hcond⟩ := hround
    obtain ⟨inner, closing, m, htail, hinner⟩ := b.whole opening tail hcond
    -- The expression inside ends at its parenthesis, whatever stands behind that one.
    have hinside (eof : Nat) (more : List Token) : Gives (expression eof (tail ++ more)) m
        (⟨.closing .round, closing⟩ :: more) := by
      rw [htail, List.append_assoc]
      exact hinner.again expression_replays (follows_cons (by simp) closing [] more) eof
    have hnode : m = b.node := by
      have hparen : Gives (primary 0 (b.cond ++ b.block.tokens)) m b.block.tokens := by
        rw [hcond]
        exact primary_of_round (hinside 0 b.block.tokens)
      have hends : Ends b.block.tokens := by simpa using b.block.ends []
      exact (expression_of_primary hparen hends).unique b.reads
    subst hnode
    rw [hcond]
    have hlist := commaList_of_items (commaItems_of_close (hinside eof (b.block.tokens ++ rest)))
    exact arguments_of_first hlist (by simp) rfl (b.block.juxtaposed_reads eof rest)
  · have hcond : Gives (argument eof .value ([Shape.block].contains .value)
        (b.cond ++ (b.block.tokens ++ rest))) b.node (b.block.tokens ++ rest) := by
      rw [argument]
      exact b.reads.again expression_replays (b.block.follows rest) eof
    have hopens : take (opens .round) (b.cond ++ (b.block.tokens ++ rest)) = none := by
      refine take_opens_append (fun opening tail heq => hround ⟨opening, tail, heq⟩) ?_
      obtain ⟨line, tail, htokens⟩ := b.block.exists_opening
      rw [htokens]
      exact take_cons_of_none rfl line (tail ++ rest)
    exact arguments_of_juxtaposed hopens (juxtaposed_of_argument hcond (b.block.juxtaposed_reads eof rest))

theorem primary_reads (b : Branch) (eof : Nat) (rest : List Token) :
    Gives (primary eof (b.tokens ++ rest)) b.tree rest := by
  obtain ⟨hliteral, hkeyword⟩ := Keyword.ofWord?_word .ifThen
  have hword := word_of_keyword hliteral hkeyword (b.arguments_reads eof rest)
  rw [← List.append_assoc] at hword
  exact primary_of_word hword

end Branch

namespace ElseChain

/-- An operand in front of an `else` ends there. -/
theorem binary_of_operand {eof line : Nat} {ts tail : List Token} {m : Node}
    (h : Gives (primary eof ts) m (elseToken line :: tail)) :
    Gives (binary eof 1 ts) m (elseToken line :: tail) := by
  have hsymbol : Connective.ofSymbol? .orElse = some .orElse := rfl
  exact binary_of_unary (by decide) (unary_of_primary h (take_cons_of_none rfl line tail))
    (above_of_connective hsymbol line tail)

/-- Behind a branch stands an `else`, of another branch or of the final block. -/
theorem exists_else (others : List (Nat × Branch)) (line : Nat) (tail : List Token) :
    ∃ line' tail', others.flatMap link ++ elseToken line :: tail = elseToken line' :: tail' := by
  cases others with
  | nil => exact ⟨line, tail, rfl⟩
  | cons b others => exact ⟨b.1, _, rfl⟩

/-- The loop of the loosest level takes the branches one after another, and the final block last. -/
theorem binaryTail_reads (eof : Nat) (left : Node) (others : List (Nat × Branch)) (line : Nat) (final : Braces)
    {rest : List Token} (hrest : Ends rest) :
    Leaves (binaryTail eof 0 left (others.flatMap link ++ elseToken line :: (final.tokens ++ rest)))
      (.mk line (.orElse (joined left others) final.tree)) rest := by
  have hsymbol : connective? 0 (.symbol .orElse) = some .orElse := rfl
  induction others generalizing left with
  | nil =>
      have hfinal : Gives (binary eof 1 (final.tokens ++ rest)) final.tree rest :=
        binary_of_unary (by decide) (unary_of_primary (final.primary_reads eof rest) (hrest.take _))
          (hrest.above 1)
      exact binaryTail_of_connective hsymbol hfinal (binaryTail_of_end (hrest.take _))
  | cons b others ih =>
      -- Behind each branch stands another `else`, and it is at this level, so the branch ends in front of
      -- it.
      obtain ⟨line', tail, helse⟩ := exists_else others line (final.tokens ++ rest)
      have hbranch := b.2.primary_reads eof (others.flatMap link ++ elseToken line :: (final.tokens ++ rest))
      have htail := ih (.mk b.1 (.orElse left b.2.tree))
      rw [helse] at hbranch htail
      rw [List.flatMap_cons, List.append_assoc, helse]
      exact binaryTail_of_connective hsymbol (binary_of_operand hbranch) htail

theorem expression_reads (chain : ElseChain) (eof : Nat) {rest : List Token} (hrest : Ends rest) :
    Gives (expression eof (chain.tokens ++ rest)) chain.tree rest := by
  obtain ⟨line', tail, helse⟩ := exists_else chain.others chain.line (chain.final.tokens ++ rest)
  have hfirst := chain.first.primary_reads eof
    (chain.others.flatMap link ++ elseToken chain.line :: (chain.final.tokens ++ rest))
  have htail := binaryTail_reads eof chain.first.tree chain.others chain.line chain.final hrest
  rw [helse] at hfirst htail
  have hall := binary_of_tail (by decide) (binary_of_operand hfirst) htail
  rw [← helse] at hall
  have htokens : chain.tokens ++ rest = chain.first.tokens
      ++ (chain.others.flatMap link ++ elseToken chain.line :: (chain.final.tokens ++ rest)) := by
    simp [tokens]
  rw [htokens]
  exact expression_of_end hall (hrest.take _)

end ElseChain

/-! ### Running a chain -/

/-- Conditions are evaluated one after another, each of them completes with a value, and all are false. -/
inductive AllFalse : List Node → State → State → Prop where
  | nil (st : State) : AllFalse [] st st
  | cons {cond : Node} {conds : List Node} {n : Nat} {v : Value} {st st' st'' : State}
      (heval : eval n cond .any st = some (.value v, st')) (hfalse : st'.heap.truthy v = false)
      (hrest : AllFalse conds st' st'') : AllFalse (cond :: conds) st st''

open Stepwise.Machine

/-- Above any stack, a node evaluates some parts in this order, and then it starts a block and nothing else. The
block runs as the evaluator says. If it ends with its value, the node yields whether a branch has run, and an
interrupt that leaves the block leaves the node, both without starting anything. -/
def RunsOnly (nodes : List Node) (tree : Node) (parts : List Node) (body : Block) (ran : Bool)
    (st st' : State) : Prop :=
  ∀ base : List Frame, base ≠ [] → ∃ (above : List Frame) (line : Nat),
    Trace nodes base parts ⟨.request tree .any :: base, st⟩
      ⟨.block body.statements :: (above ++ base), st'.atLine line⟩ ∧
    (∀ n, Shows (above ++ base) n ⟨.block body.statements :: (above ++ base), st'.atLine line⟩
      (evalBlock (eval n) body.statements (st'.atLine line))) ∧
    (∀ st : State, st.pending = none → ∃ line',
      Trace nodes base [] ⟨.value .null :: (above ++ base), st⟩ ⟨.value (.bool ran) :: base, st.atLine line'⟩) ∧
    ∀ (i : Interrupt) (st : State), st.pending = none →
      Trace nodes base [] ⟨above ++ base, { st with pending := some i }⟩ ⟨base, { st with pending := some i }⟩

theorem runsOnly_of_starts {nodes parts : List Node} {tree : Node} {body : Block} {ran : Bool}
    {st st' : State} (h : StartsBlock nodes tree parts body (.bool ran) st st') :
    RunsOnly nodes tree parts body ran st st' := by
  intro base hbase
  obtain ⟨above, line, habove, htrace, hends⟩ := h.trace base st.line hbase
  refine ⟨above, line, htrace, ?_, hends, ?_⟩
  · intro n
    exact shows_evalBlock (shown_eval n) (by simp [hbase]) body.statements [] _ h.pending
  · intro i st hp
    exact trace_interrupt hbase habove hp

namespace ElseChain

section

variable {nodes parts : List Node} {left : Node} {st st' st'' : State}

/-- As long as all conditions are false, the disjunction so far starts no block. -/
theorem skips_joined (hp : st.pending = none) (hleft : Skips nodes left parts st st')
    (others : List (Nat × Branch)) (hmem : ∀ m ∈ spine left others, m ∈ nodes)
    (hfalse : AllFalse (others.map fun b => b.2.node) st' st'') :
    Skips nodes (joined left others) (parts ++ others.map fun b => b.2.node) st st'' := by
  induction others generalizing left parts st' with
  | nil =>
      cases hfalse
      simpa [joined] using hleft
  | cons b others ih =>
      cases hfalse with
      | cons heval hcond hrest =>
          have htree : b.2.tree ∈ nodes := hmem _ (by simp [spine])
          have hor : .mk b.1 (.orElse left b.2.tree) ∈ nodes := hmem _ (by simp [spine])
          -- The state in which a condition is evaluated is the one that the conditions before it have left.
          have hbranch := skips_if htree hleft.pending heval hcond
          have hnext := ih (skips_or hor hp hleft hbranch) (fun m hm => hmem m (by simp [spine, hm])) hrest
          simpa [joined] using hnext

/-- Once a block has been started, the branches behind it are skipped. -/
theorem starts_joined {body : Block} (hp : st.pending = none)
    (hleft : StartsBlock nodes left parts body (.bool true) st st') (others : List (Nat × Branch))
    (hmem : ∀ m ∈ spine left others, m ∈ nodes) :
    StartsBlock nodes (joined left others) parts body (.bool true) st st' := by
  induction others generalizing left with
  | nil => exact hleft
  | cons b others ih =>
      have hor : .mk b.1 (.orElse left b.2.tree) ∈ nodes := hmem _ (by simp [spine])
      exact ih (starts_or_left hor hp hleft) fun m hm => hmem m (by simp [spine, hm])

end

theorem spine_append (left : Node) (others more : List (Nat × Branch)) :
    spine left (others ++ more) = spine left others ++ spine (joined left others) more := by
  induction others generalizing left with
  | nil => rfl
  | cons b others ih => simp [spine, joined, ih]

theorem joined_append (left : Node) (others more : List (Nat × Branch)) :
    joined left (others ++ more) = joined (joined left others) more :=
  List.foldl_append

section

variable (chain : ElseChain) {st st₁ st₂ : State} {n : Nat} {v : Value}

theorem tree_mem : chain.tree ∈ chain.nodes := by
  simp [nodes]

theorem first_mem : chain.first.tree ∈ chain.nodes := by
  simp [nodes]

theorem spine_mem : ∀ m ∈ spine chain.first.tree chain.others, m ∈ chain.nodes := by
  intro m hm
  simp [nodes, hm]

/-- The first branch runs if its condition is true. -/
theorem starts_first (hp : st.pending = none)
    (heval : eval n chain.first.node .any st = some (.value v, st₁)) (htrue : st₁.heap.truthy v = true) :
    StartsBlock chain.nodes chain.tree [chain.first.node] chain.first.block.body (.bool true) st st₁ := by
  have hfirst := starts_if chain.first_mem hp heval htrue
  have hothers := starts_joined hp hfirst chain.others chain.spine_mem
  exact starts_or_left chain.tree_mem hp hothers

/-- Another branch runs if its condition is true and all before it are false. -/
theorem starts_other {before after : List (Nat × Branch)} {b : Nat × Branch}
    (hothers : chain.others = before ++ b :: after) (hp : st.pending = none)
    (hfalse : AllFalse (chain.first.node :: before.map fun b => b.2.node) st st₁)
    (heval : eval n b.2.node .any st₁ = some (.value v, st₂)) (htrue : st₂.heap.truthy v = true) :
    StartsBlock chain.nodes chain.tree (chain.first.node :: (before.map (fun b => b.2.node) ++ [b.2.node]))
      b.2.block.body (.bool true) st st₂ := by
  -- The nodes between a branch and the root of the tree are nodes of the chain.
  have hspine : ∀ m ∈ spine chain.first.tree (before ++ b :: after), m ∈ chain.nodes := by
    rw [← hothers]
    exact chain.spine_mem
  rw [spine_append] at hspine
  have hbefore : ∀ m ∈ spine chain.first.tree before, m ∈ chain.nodes :=
    fun m hm => hspine m (List.mem_append_left _ hm)
  have hfrom : ∀ m ∈ spine (joined chain.first.tree before) (b :: after), m ∈ chain.nodes :=
    fun m hm => hspine m (List.mem_append_right _ hm)
  cases hfalse with
  | cons hfirst hcond hrest =>
      -- The branches before it are skipped, its own block starts, and the disjunctions above wait for it to
      -- end.
      have hskips := skips_joined hp (skips_if chain.first_mem hp hfirst hcond) before hbefore hrest
      have hbranch := starts_if (hfrom b.2.tree (by simp [spine])) hskips.pending heval htrue
      have hor : .mk b.1 (.orElse (joined chain.first.tree before) b.2.tree) ∈ chain.nodes :=
        hfrom _ (by simp [spine])
      have hstarts := starts_or_right hor hp hskips hbranch fun _ => rfl
      have hafter := starts_joined hp hstarts after fun m hm => hfrom m (by simp [spine, hm])
      -- What was built up from the left is the tree of the chain.
      have hjoined : joined (.mk b.1 (.orElse (joined chain.first.tree before) b.2.tree)) after
          = joined chain.first.tree chain.others := by
        rw [hothers, joined_append]
        rfl
      rw [hjoined] at hafter
      exact starts_or_left chain.tree_mem hp hafter

/-- The final block runs if all conditions are false. -/
theorem starts_final (hp : st.pending = none)
    (hfalse : AllFalse (chain.first.node :: chain.others.map fun b => b.2.node) st st₁) :
    StartsBlock chain.nodes chain.tree (chain.first.node :: chain.others.map fun b => b.2.node)
      chain.final.body (.bool false) st st₁ := by
  cases hfalse with
  | cons hfirst hcond hrest =>
      have hskips := skips_joined hp (skips_if chain.first_mem hp hfirst hcond) chain.others chain.spine_mem hrest
      have hfinal : chain.final.tree ∈ chain.nodes := by simp [nodes]
      have hblock := starts_block hfinal hskips.pending
      have hstarts := starts_or_right chain.tree_mem hp hskips hblock fun _ => rfl
      rwa [List.append_nil] at hstarts

/-- A chain is read as a disjunction to the left of its branches and the final block. If its conditions are
false up to one that is true, it evaluates these conditions once each and in order, and runs the block of the
true one and no other. If all are false, it evaluates all of them and runs the final block. -/
theorem runs_one_branch (stop : Nat) :
    Block.ofTokens (chain.tokens ++ [⟨.semicolon, stop⟩]) = .ok (.mk 0 [chain.tree]) ∧
      (∀ (skipped : List Branch) (b : Branch) (later : List Branch) (st st₁ st₂ : State) (n : Nat) (v : Value),
        chain.branches = skipped ++ b :: later → st.pending = none →
        AllFalse (skipped.map Branch.node) st st₁ → eval n b.node .any st₁ = some (.value v, st₂) →
        st₂.heap.truthy v = true →
        RunsOnly chain.nodes chain.tree (skipped.map Branch.node ++ [b.node]) b.block.body true st st₂) ∧
      ∀ st st₁ : State, st.pending = none → AllFalse (chain.branches.map Branch.node) st st₁ →
        RunsOnly chain.nodes chain.tree (chain.branches.map Branch.node) chain.final.body false st st₁ := by
  refine ⟨?_, ?_, ?_⟩
  · have hends : Ends [⟨.semicolon, stop⟩] := ends_cons (by simp) stop []
    exact Block.ofTokens_of_expression (chain.expression_reads 0 hends)
  · intro skipped b later st st₁ st₂ n v hbranches hp hfalse heval htrue
    -- The first branch is no right operand of a disjunction, so it has a case of its own.
    cases skipped with
    | nil =>
        obtain ⟨rfl, -⟩ := List.cons.inj hbranches
        cases hfalse
        exact runsOnly_of_starts (chain.starts_first hp heval htrue)
    | cons a skipped =>
        obtain ⟨rfl, hmap⟩ := List.cons.inj hbranches
        obtain ⟨before, rest, hothers, rfl, hrest⟩ := List.map_eq_append_iff.mp hmap
        obtain ⟨o, after, rfl, rfl, -⟩ := List.map_eq_cons_iff.mp hrest
        have hsame : (before.map Prod.snd).map Branch.node = before.map fun b => b.2.node := by simp
        rw [List.map_cons, hsame] at hfalse ⊢
        exact runsOnly_of_starts (chain.starts_other hothers hp hfalse heval htrue)
  · intro st st₁ hp hfalse
    have hsame : chain.branches.map Branch.node = chain.first.node :: chain.others.map fun b => b.2.node := by
      simp [branches]
    rw [hsame] at hfalse ⊢
    exact runsOnly_of_starts (chain.starts_final hp hfalse)

end

/-- A false condition, a true one in parentheses, and a block behind them. -/
theorem runs_one_branch_of_two :
    ∃ chain : ElseChain,
      chain.tokens = [⟨.word "if", 0⟩, ⟨.word "false", 0⟩, ⟨.opening .curly, 0⟩, ⟨.closing .curly, 0⟩,
        ⟨.symbol .orElse, 1⟩, ⟨.word "if", 1⟩, ⟨.opening .round, 1⟩, ⟨.word "true", 1⟩, ⟨.closing .round, 1⟩,
        ⟨.opening .curly, 1⟩, ⟨.int 5, 1⟩, ⟨.semicolon, 1⟩, ⟨.closing .curly, 1⟩,
        ⟨.symbol .orElse, 2⟩, ⟨.opening .curly, 2⟩, ⟨.closing .curly, 2⟩] ∧
      Block.ofTokens (chain.tokens ++ [⟨.semicolon, 2⟩]) = .ok (.mk 0 [.mk 2 (.orElse
        (.mk 1 (.orElse (.mk 0 (.ifThen (.mk 0 (.bool false)) (.mk 0 [])))
          (.mk 1 (.ifThen (.mk 1 (.bool true)) (.mk 1 [.mk 1 (.int 5)])))))
        (.mk 2 (.block (.mk 2 []))))]) ∧
      RunsOnly chain.nodes chain.tree [.mk 0 (.bool false), .mk 1 (.bool true)] (.mk 1 [.mk 1 (.int 5)]) true
        (start (.mk 0 []) 9 7 .unlimited).state ((start (.mk 0 []) 9 7 .unlimited).state.atLine 1) := by
  have hempty (line : Nat) :
      Gives (Parser.block 0 [⟨.opening .curly, line⟩, ⟨.closing .curly, line⟩]) (.mk line []) [] :=
    block_of_curly (blockBody_of_statements (statements_of_end rfl))
  have hfive : Gives (Parser.block 0 [⟨.opening .curly, 1⟩, ⟨.int 5, 1⟩, ⟨.semicolon, 1⟩, ⟨.closing .curly, 1⟩])
      (.mk 1 [.mk 1 (.int 5)]) [] :=
    block_of_curly (blockBody_of_statements (statements_of_expression
      (expression_of_primary (primary_of_atom rfl 0 1 _) (ends_cons (by simp) 1 _)) (statements_of_end rfl)))
  have htrue (tail : List Token) : Gives (expression 0 (⟨.word "true", 1⟩ :: ⟨.closing .round, 1⟩ :: tail))
      (.mk 1 (.bool true)) (⟨.closing .round, 1⟩ :: tail) :=
    expression_of_primary (primary_of_atom rfl 0 1 _) (ends_cons (by simp) 1 tail)
  -- The two conditions with what they are read as; the second one is in parentheses, so its tokens say that
  -- they belong together.
  let first : Branch :=
    { line := 0
      cond := [⟨.word "false", 0⟩]
      node := .mk 0 (.bool false)
      block := ⟨_, _, hempty 0⟩
      reads := expression_of_primary (primary_of_atom rfl 0 0 _) (ends_cons (by simp) 0 _)
      whole := by simp }
  let second : Branch :=
    { line := 1
      cond := [⟨.opening .round, 1⟩, ⟨.word "true", 1⟩, ⟨.closing .round, 1⟩]
      node := .mk 1 (.bool true)
      block := ⟨_, _, hfive⟩
      reads := expression_of_primary (primary_of_round (htrue _)) (ends_cons (by simp) 1 _)
      whole := by
        intro opening tail hcond
        cases hcond
        exact ⟨[⟨.word "true", 1⟩], 1, .mk 1 (.bool true), rfl, htrue []⟩ }
  let chain : ElseChain := ⟨first, [(1, second)], 2, ⟨_, _, hempty 2⟩⟩
  obtain ⟨hread, hrun, -⟩ := chain.runs_one_branch 2
  refine ⟨chain, rfl, hread, ?_⟩
  -- Each condition is evaluated in one step and only sets the line.
  refine hrun [first] second [] _ ((start (.mk 0 []) 9 7 .unlimited).state.atLine 0) _ 1 (.bool true) rfl rfl ?_
    rfl rfl
  have hfalse : eval 1 (.mk 0 (.bool false)) .any (start (.mk 0 []) 9 7 .unlimited).state
      = some (.value (.bool false), (start (.mk 0 []) 9 7 .unlimited).state.atLine 0) := rfl
  exact .cons hfalse rfl (.nil _)

end ElseChain

end Stepwise
