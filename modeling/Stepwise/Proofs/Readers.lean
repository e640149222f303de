import Stepwise.Tree.Parser

/-!
# `Stepwise.Proofs.Readers`: what the parser builds

The readers of `Stepwise.Tree.Parser` build a tree from the bottom up, and every tree they build comes from
a few constructions. `Parser.Closed` lists these constructions for a property of nodes and a property of
blocks, with what is known where the tree is built: an operation has exactly its number of arguments, a
parameter list has no name twice, a literal or a path is one of the tokens, and every line is the line of
a token. `Parser.Failing` lists in the same way where an error is reported: on the line of a token or of a
node, or where the input ends. `Block.ofTokens_returns` says that the statements of every script that is read
from tokens have such a property, and `Block.ofTokens_settles` where its errors are besides.

The proofs follow the readers: each of them returns or fails as it should if the readers that it calls do, and
the recursion ends as theirs does.
-/

set_option autoImplicit false

namespace Stepwise

/-- If a computation succeeds, its result has a property. -/
def Returns {ε α : Type} (p : α → Prop) (r : Except ε α) : Prop :=
  ∀ a, r = .ok a → p a

namespace Returns

variable {ε α β : Type} {p : α → Prop} {q : β → Prop}

theorem ok {a : α} (h : p a) : Returns p (.ok a : Except ε α) := by
  intro b hb
  cases hb
  exact h

theorem pure {a : α} (h : p a) : Returns p (Pure.pure a : Except ε α) :=
  ok h

theorem error (e : ε) : Returns p (.error e : Except ε α) := by
  intro b hb
  cases hb

/-- What goes on after a result returns what it should if it does so after every good result. -/
theorem bind {r : Except ε α} {k : α → Except ε β} (hr : Returns p r)
    (hk : ∀ a, p a → Returns q (k a)) : Returns q (r >>= k) := by
  cases r with
  | error e => exact error e
  | ok a => exact hk a (hr a rfl)

theorem map {r : Except ε α} {g : α → β} (hr : Returns p r) (hg : ∀ a, p a → q (g a)) :
    Returns q (r.map g) := by
  cases r with
  | error e => exact error e
  | ok a => exact ok (hg a (hr a rfl))

theorem imp {q : α → Prop} {r : Except ε α} (hr : Returns p r) (h : ∀ a, p a → q a) :
    Returns q r :=
  fun a ha => h a (hr a ha)

end Returns

/-- A computation that succeeds with a result of one property or fails with an error of another. -/
def Settles {ε α : Type} (p : α → Prop) (q : ε → Prop) : Except ε α → Prop
  | .ok a => p a
  | .error e => q e

namespace Settles

variable {ε α β : Type} {p : α → Prop} {q : ε → Prop} {p' : β → Prop}

theorem returns {r : Except ε α} (h : Settles p q r) : Returns p r := by
  intro a ha
  rw [ha] at h
  exact h

theorem ok {a : α} (h : p a) : Settles p q (.ok a) := h

theorem pure {a : α} (h : p a) : Settles p q (Pure.pure a : Except ε α) := h

theorem error {e : ε} (h : q e) : Settles p q (.error e : Except ε α) := h

/-- What goes on after a result settles as it should if it does so after every good result. -/
theorem bind {r : Except ε α} {k : α → Except ε β} (hr : Settles p q r)
    (hk : ∀ a, p a → Settles p' q (k a)) : Settles p' q (r >>= k) := by
  cases r with
  | error e => exact hr
  | ok a => exact hk a hr

theorem map {r : Except ε α} {g : α → β} (hr : Settles p q r) (hg : ∀ a, p a → p' (g a)) :
    Settles p' q (r.map g) := by
  cases r with
  | error e => exact hr
  | ok a => exact hg a hr

theorem imp {p' : α → Prop} {r : Except ε α} (hr : Settles p q r) (h : ∀ a, p a → p' a) :
    Settles p' q r := by
  cases r with
  | error e => exact hr
  | ok a => exact h a hr

end Settles

namespace Parser

/-- A token with a property stands on a line. -/
def OnLine (token : Token → Prop) (line : Nat) : Prop :=
  ∃ l, token ⟨l, line⟩

/-- A property of nodes and one of blocks that every construction of the readers keeps; `token` is a
property of the tokens. -/
structure Closed (token : Token → Prop) (node : Node → Prop) (block : Block → Prop) : Prop where
  null : ∀ line, OnLine token line → node (.mk line .null)
  bool : ∀ line b, OnLine token line → node (.mk line (.bool b))
  int : ∀ line n, token ⟨.int n, line⟩ → node (.mk line (.int n))
  float : ∀ line x, token ⟨.float x, line⟩ → node (.mk line (.float x))
  str : ∀ line s, token ⟨.str s, line⟩ → node (.mk line (.str s))
  path : ∀ line global names, token ⟨.path global names, line⟩ →
    node (.mk line (.path global names))
  word : ∀ line w, token ⟨.word w, line⟩ → node (.mk line (.path false [w]))
  list : ∀ line items, OnLine token line → (∀ n ∈ items, node n) → node (.mk line (.list items))
  nested : ∀ line b, OnLine token line → block b → node (.mk line (.block b))
  inner : ∀ line b, node (.mk line (.block b)) → block b
  body : ∀ line nodes, OnLine token line → (∀ n ∈ nodes, node n) → block (.mk line nodes)
  function : ∀ line params b, OnLine token line → params.Nodup → block b →
    node (.mk line (.function params b))
  /-- Operations apart from a minus in front of an operand. -/
  op : ∀ line op args, OnLine token line → op ≠ .neg → args.length = op.arity →
    (∀ n ∈ args, node n) → node (.mk line (.op op args))
  unary : ∀ line op operand, OnLine token line → op.arity = 1 → node operand →
    node (.mk line (unaryForm op operand))
  ifThen : ∀ line c b, OnLine token line → node c → block b → node (.mk line (.ifThen c b))
  whileDo : ∀ line c b, OnLine token line → node c → block b → node (.mk line (.whileDo c b))
  forEach : ∀ line t s b, OnLine token line → node t → node s → block b →
    node (.mk line (.forEach t s b))
  call : ∀ line f a, OnLine token line → node f → node a → node (.mk line (.call f a))
  object : ∀ line b, OnLine token line → block b → node (.mk line (.object b))
  andAlso : ∀ line l r, OnLine token line → node l → node r → node (.mk line (.andAlso l r))
  orElse : ∀ line l r, OnLine token line → node l → node r → node (.mk line (.orElse l r))
  tryCatch : ∀ line b name h, OnLine token line → block b → block h →
    node (.mk line (.tryCatch b name h))

/-- A property of errors that every error of the readers has: they report the line of a token, of a node that
was read or of an item in a list of parameters, or the line `eof` where the input ends. -/
structure Failing (token : Token → Prop) (node : Node → Prop) (eof : Nat) (failure : ParseError → Prop) :
    Prop where
  onToken : ∀ fault line, OnLine token line → failure ⟨fault, line⟩
  atEnd : ∀ fault, failure ⟨fault, eof⟩
  onNode : ∀ fault n, node n → failure ⟨fault, n.line⟩
  onItem : ∀ fault line items n, node (.mk line (.list items)) → n ∈ items → failure ⟨fault, n.line⟩

section Closed

variable {token : Token → Prop} {node : Node → Prop} {block : Block → Prop} {eof : Nat}
  {failure : ParseError → Prop}

/-- All tokens have a property. -/
def Tokens (token : Token → Prop) (ts : List Token) : Prop :=
  ∀ t ∈ ts, token t

/-- What was read has a property, and so have the tokens that are left. -/
def Reads {α : Type} {ts : List Token} (token : Token → Prop) (p : α → Prop) (r : Parsed α ts) :
    Prop :=
  p r.value ∧ Tokens token r.rest

/-- What was read has a property, and so have the tokens that are left. -/
def Passes {α : Type} {ts : List Token} (token : Token → Prop) (p : α → Prop) (r : Passed α ts) :
    Prop :=
  p r.value ∧ Tokens token r.rest

/-- A token that is taken is one of the tokens, and so are those that are left. -/
theorem take_reads {α : Type} {p : Lexeme → Option α} {ts : List Token} {r : Parsed (α × Nat) ts}
    (hts : Tokens token ts) (h : take p ts = some r) :
    Tokens token r.rest ∧ ∃ l, token ⟨l, r.value.2⟩ ∧ p l = some r.value.1 := by
  cases ts with
  | nil => cases h
  | cons t rest =>
      obtain ⟨a, ha, hr⟩ := Option.map_eq_some_iff.mp h
      rw [← hr]
      exact ⟨fun u hu => hts u (by simp [hu]), t.lexeme, hts t (by simp), ha⟩

/-- The line of a token that is taken. -/
theorem onLine_of_take {α : Type} {p : Lexeme → Option α} {ts : List Token}
    {r : Parsed (α × Nat) ts} (hts : Tokens token ts) (h : take p ts = some r) :
    OnLine token r.value.2 := by
  obtain ⟨-, l, hl, -⟩ := take_reads hts h
  exact ⟨l, hl⟩

/-- What is reported on the next token, or at the end of the input. -/
theorem Failing.next (hf : Failing token node eof failure) {ts : List Token} (hts : Tokens token ts)
    (fault : ParseFault) : failure ⟨fault, lineOf eof ts⟩ := by
  cases ts with
  | nil => exact hf.atEnd fault
  | cons t rest => exact hf.onToken fault t.line ⟨t.lexeme, hts t (by simp)⟩

/-- A token that must be there is taken or fails. -/
theorem expect_settles {α : Type} (hf : Failing token node eof failure) (p : Lexeme → Option α)
    (fault : Option Lexeme → ParseFault) {ts : List Token} (hts : Tokens token ts) :
    Settles (Reads token fun v => OnLine token v.2) failure (expect eof p fault ts) := by
  simp only [expect]
  split
  · rename_i r htake
    exact .ok ⟨onLine_of_take hts htake, (take_reads hts htake).1⟩
  · exact .error (hf.next hts _)

/-! ### Arguments -/

/-- What an argument of a shape must be. -/
def ArgGood (node : Node → Prop) (block : Block → Prop) : (s : Shape) → s.Arg → Prop
  | .value, n => node n
  | .block, b => block b
  | .param, _ => True
  | .params, names => names.Nodup

/-- What arguments must be. -/
def ArgsGood (node : Node → Prop) (block : Block → Prop) : (shapes : List Shape) → Args shapes → Prop
  | [], _ => True
  | s :: shapes, (arg, args) => ArgGood node block s arg ∧ ArgsGood node block shapes args

/-- No name stands twice in a parameter list, nor among those seen before. -/
theorem paramNames_settles (seen : List String) (items : List Node)
    (hitems : ∀ fault, ∀ item ∈ items, failure ⟨fault, item.line⟩) :
    Settles (fun names => names.Nodup ∧ ∀ name ∈ names, name ∉ seen) failure (paramNames seen items) := by
  induction items generalizing seen with
  | nil => exact .ok ⟨List.nodup_nil, by simp⟩
  | cons item items ih =>
      simp only [paramNames]
      split
      · exact .error (hitems _ item (by simp))
      · rename_i name _
        split
        · exact .error (hitems _ item (by simp))
        · rename_i hseen
          -- The names behind this one are checked against it too, which is what makes the list free of
          -- repetitions.
          refine (ih (name :: seen) fun fault other hother => hitems fault other (by simp [hother])).map ?_
          intro names ⟨hnodup, hnew⟩
          refine ⟨List.nodup_cons.mpr ⟨fun hmem => hnew name hmem (by simp), hnodup⟩, ?_⟩
          intro other hother
          rcases List.mem_cons.mp hother with rfl | hmem
          · exact hseen
          · exact fun hs => hnew other hmem (by simp [hs])

/-- A node that is read as an argument. -/
theorem convert_settles (hc : Closed token node block) (hf : Failing token node eof failure) {n : Node}
    (hn : node n) (s : Shape) : Settles (ArgGood node block s) failure (convert n s) := by
  cases s with
  | value => exact .ok hn
  | block =>
      simp only [convert]
      split
      -- The block of a block node is one of its parts.
      · rename_i body hform
        obtain ⟨line, form⟩ := n
        simp only [Node.form] at hform
        rw [hform] at hn
        exact .ok (hc.inner line body hn)
      · exact .error (hf.onNode _ n hn)
  | param =>
      simp only [convert]
      split
      · exact .ok trivial
      · exact .error (hf.onNode _ n hn)
  | params =>
      obtain ⟨line, form⟩ := n
      unfold convert
      cases form with
      | list items =>
          refine (paramNames_settles [] items ?_).imp fun names h => h.1
          exact fun fault item hitem => hf.onItem fault line items item hn hitem
      | _ => exact .error (hf.onNode _ _ hn)

/-- Nodes that are read as arguments. -/
theorem convertAll_settles (hc : Closed token node block) (hf : Failing token node eof failure)
    (shapes : List Shape) (nodes : List Node) (hlen : nodes.length = shapes.length)
    (hn : ∀ n ∈ nodes, node n) :
    Settles (ArgsGood node block shapes) failure (convertAll shapes nodes hlen) := by
  induction shapes generalizing nodes with
  | nil => exact .ok trivial
  | cons s shapes ih =>
      cases nodes with
      | nil => cases hlen
      | cons n nodes =>
          refine (convert_settles hc hf (hn n (by simp)) s).bind fun arg harg => ?_
          refine (ih nodes (Nat.succ.inj hlen) fun m hm => hn m (by simp [hm])).bind fun args hargs => ?_
          exact .ok ⟨harg, hargs⟩

/-- The nodes of arguments that are all values. -/
theorem nodes_good (n : Nat) (args : Args (List.replicate n .value))
    (h : ArgsGood node block (List.replicate n .value) args) :
    (Args.nodes n args).length = n ∧ ∀ m ∈ Args.nodes n args, node m := by
  induction n with
  | zero => exact ⟨rfl, by simp [Args.nodes]⟩
  | succ n ih =>
      obtain ⟨arg, args⟩ := args
      obtain ⟨hlen, hall⟩ := ih args h.2
      refine ⟨congrArg Nat.succ hlen, ?_⟩
      intro m hm
      rcases List.mem_cons.mp hm with rfl | hm
      · exact h.1
      · exact hall m hm

/-- The form that a keyword builds. -/
theorem keyword_good (hc : Closed token node block) {line : Nat} (hline : OnLine token line)
    (k : Keyword) (args : Args k.shapes) (h : ArgsGood node block k.shapes args) :
    node (.mk line (k.form args)) := by
  cases k with
  | ifThen => exact hc.ifThen line _ _ hline h.1 h.2.1
  | whileDo => exact hc.whileDo line _ _ hline h.1 h.2.1
  | forEach => exact hc.forEach line _ _ _ hline h.1 h.2.1 h.2.2.1
  | call => exact hc.call line _ _ hline h.1 h.2.1
  | object => exact hc.object line _ hline h.1
  | function => exact hc.function line _ _ hline h.1 h.2.1
  | tryCatch => exact hc.tryCatch line _ _ _ hline h.1 h.2.2.1

/-- The form of two operands under a connective. -/
theorem connective_good (hc : Closed token node block) {line : Nat} (hline : OnLine token line)
    (c : Connective) {l r : Node} (hl : node l) (hr : node r) : node (.mk line (c.form l r)) := by
  have hboth : ∀ n ∈ [l, r], node n := by
    intro n hn
    simp only [List.mem_cons, List.not_mem_nil, or_false] at hn
    rcases hn with rfl | rfl
    · exact hl
    · exact hr
  cases c with
  | orElse => exact hc.orElse line l r hline hl hr
  | andAlso => exact hc.andAlso line l r hline hl hr
  | compare c => exact hc.op line _ _ hline (by simp) rfl hboth
  | equal => exact hc.op line _ _ hline (by simp) rfl hboth
  | differ => exact hc.op line _ _ hline (by simp) rfl hboth
  | arith a => exact hc.op line _ _ hline (by simp) (by cases a <;> rfl) hboth

/-! ### The readers -/

/-- An assignment takes two arguments. -/
theorem arity_of_assignOp {s : Symbol} {op : Op} (h : s.assignOp? = some op) :
    op ≠ .neg ∧ op.arity = 2 := by
  cases s with
  | assign =>
      cases h
      exact ⟨by simp, rfl⟩
  | update a =>
      cases h
      exact ⟨by simp, by cases a <;> rfl⟩
  | _ => cases h

/-- An operator in front of an operand takes one argument. -/
theorem arity_of_unaryOp {s : Symbol} {op : Op} (h : s.unaryOp? = some op) : op.arity = 1 := by
  cases s with
  | arith a =>
      cases a with
      | sub =>
          cases h
          rfl
      | _ => cases h
  | bang =>
      cases h
      rfl
  | increment =>
      cases h
      rfl
  | decrement =>
      cases h
      rfl
  | invert =>
      cases h
      rfl
  | _ => cases h

/-- No built-in is a minus. -/
theorem ne_neg_of_builtin {w : String} {op : Op} (h : Op.builtin? w = some op) : op ≠ .neg := by
  intro hop
  have hmem : op ∈ Op.builtins := List.mem_of_find?_eq_some h
  rw [hop] at hmem
  revert hmem
  decide

/-- Accepting a symbol accepts it as what it stands for. -/
theorem exists_symbol {α : Type} {f : Symbol → Option α} {l : Lexeme} {a : α}
    (h : symbol? f l = some a) : ∃ s, f s = some a := by
  cases l with
  | symbol s => exact ⟨s, h⟩
  | _ => cases h

mutual

theorem expression_settles (hc : Closed token node block) (hf : Failing token node eof failure)
    (ts : List Token) (hts : Tokens token ts) : Settles (Reads token node) failure (expression eof ts) := by
  rw [expression]
  refine (binary_settles hc hf 0 ts hts).bind ?_
  rintro ⟨target, rest, lt⟩ ⟨htarget, hrest⟩
  dsimp only at htarget hrest ⊢
  split
  · exact .pure ⟨htarget, hrest⟩
  · rename_i op line rest' lt' htake
    obtain ⟨hrest', l, hl, hop⟩ := take_reads hrest htake
    obtain ⟨s, hs⟩ := exists_symbol hop
    obtain ⟨hneg, harity⟩ := arity_of_assignOp hs
    -- What is assigned is an expression again: assignments nest to the right.
    refine (expression_settles hc hf rest' hrest').bind ?_
    rintro ⟨value, rest'', lt''⟩ ⟨hvalue, hrest''⟩
    refine .pure ⟨hc.op line op _ ⟨l, hl⟩ hneg harity.symm ?_, hrest''⟩
    intro n hn
    simp only [List.mem_cons, List.not_mem_nil, or_false] at hn
    rcases hn with rfl | rfl
    · exact htarget
    · exact hvalue
termination_by 16 * ts.length + 10

theorem binary_settles (hc : Closed token node block) (hf : Failing token node eof failure)
    (level : Nat) (ts : List Token) (hts : Tokens token ts) :
    Settles (Reads token node) failure (binary eof level ts) := by
  rw [binary]
  split
  · refine (binary_settles hc hf (level + 1) ts hts).bind ?_
    rintro ⟨left, rest, lt⟩ ⟨hleft, hrest⟩
    refine (binaryTail_settles hc hf level left rest hleft hrest).bind ?_
    rintro ⟨n, rest', le⟩ ⟨hn, hrest'⟩
    exact .pure ⟨hn, hrest'⟩
  · exact unary_settles hc hf ts hts
termination_by 16 * ts.length + 3 + (6 - level)

theorem binaryTail_settles (hc : Closed token node block) (hf : Failing token node eof failure)
    (level : Nat) (left : Node) (ts : List Token) (hleft : node left) (hts : Tokens token ts) :
    Settles (Passes token node) failure (binaryTail eof level left ts) := by
  rw [binaryTail]
  split
  · exact .pure ⟨hleft, hts⟩
  · rename_i c line rest lt htake
    obtain ⟨hrest, -⟩ := take_reads hts htake
    refine (binary_settles hc hf (level + 1) rest hrest).bind ?_
    rintro ⟨right, rest', lt'⟩ ⟨hright, hrest'⟩
    refine (binaryTail_settles hc hf level (.mk line (c.form left right)) rest'
      (connective_good hc (onLine_of_take hts htake) c hleft hright) hrest').bind ?_
    rintro ⟨n, rest'', le⟩ ⟨hn, hrest''⟩
    exact .pure ⟨hn, hrest''⟩
termination_by 16 * ts.length

theorem unary_settles (hc : Closed token node block) (hf : Failing token node eof failure)
    (ts : List Token) (hts : Tokens token ts) : Settles (Reads token node) failure (unary eof ts) := by
  rw [unary]
  split
  · exact suffixed_settles hc hf ts hts
  · rename_i op line rest lt htake
    obtain ⟨hrest, l, hl, hop⟩ := take_reads hts htake
    obtain ⟨s, hs⟩ := exists_symbol hop
    refine (unary_settles hc hf rest hrest).bind ?_
    rintro ⟨operand, rest', lt'⟩ ⟨hoperand, hrest'⟩
    exact .pure ⟨hc.unary line op operand ⟨l, hl⟩ (arity_of_unaryOp hs) hoperand, hrest'⟩
termination_by 16 * ts.length + 2

theorem suffixed_settles (hc : Closed token node block) (hf : Failing token node eof failure)
    (ts : List Token) (hts : Tokens token ts) : Settles (Reads token node) failure (suffixed eof ts) := by
  rw [suffixed]
  refine (primary_settles hc hf ts hts).bind ?_
  rintro ⟨n, rest, lt⟩ ⟨hn, hrest⟩
  refine (suffixTail_settles hc hf n rest hn hrest).bind ?_
  rintro ⟨m, rest', le⟩ ⟨hm, hrest'⟩
  exact .pure ⟨hm, hrest'⟩
termination_by 16 * ts.length + 1

theorem suffixTail_settles (hc : Closed token node block) (hf : Failing token node eof failure)
    (n : Node) (ts : List Token) (hn : node n) (hts : Tokens token ts) :
    Settles (Passes token node) failure (suffixTail eof n ts) := by
  rw [suffixTail]
  split
  · exact .pure ⟨hn, hts⟩
  · rename_i line rest lt htake
    obtain ⟨hrest, -⟩ := take_reads hts htake
    refine (indexKey_settles hc hf rest hrest).bind ?_
    rintro ⟨key, rest', lt'⟩ ⟨hkey, hrest'⟩
    -- An index is an operation on the node so far and the key.
    have hindex : node (.mk line (.op .index [n, key])) := by
      refine hc.op line _ _ (onLine_of_take hts htake) (by simp) rfl ?_
      intro m hm
      simp only [List.mem_cons, List.not_mem_nil, or_false] at hm
      rcases hm with rfl | rfl
      · exact hn
      · exact hkey
    refine (suffixTail_settles hc hf _ rest' hindex hrest').bind ?_
    rintro ⟨m, rest'', le⟩ ⟨hm, hrest''⟩
    exact .pure ⟨hm, hrest''⟩
  · rename_i line rest lt htake
    obtain ⟨hrest, -⟩ := take_reads hts htake
    refine (primary_settles hc hf rest hrest).bind ?_
    rintro ⟨args, rest', lt'⟩ ⟨hargs, hrest'⟩
    have hcall := hc.call line n args (onLine_of_take hts htake) hn hargs
    refine (suffixTail_settles hc hf _ rest' hcall hrest').bind ?_
    rintro ⟨m, rest'', le⟩ ⟨hm, hrest''⟩
    exact .pure ⟨hm, hrest''⟩
termination_by 16 * ts.length

theorem indexKey_settles (hc : Closed token node block) (hf : Failing token node eof failure)
    (ts : List Token) (hts : Tokens token ts) : Settles (Reads token node) failure (indexKey eof ts) := by
  rw [indexKey]
  split
  · exact primary_settles hc hf ts hts
  · exact unary_settles hc hf ts hts
termination_by 16 * ts.length + 3

theorem primary_settles (hc : Closed token node block) (hf : Failing token node eof failure)
    (ts : List Token) (hts : Tokens token ts) : Settles (Reads token node) failure (primary eof ts) := by
  rw [primary]
  split
  · exact .error (hf.atEnd _)
  · rename_i l line rest lt htake
    obtain ⟨hrest, l', hl, heq⟩ := take_reads hts htake
    cases heq
    dsimp only at hrest hl ⊢
    -- The node takes the line of its first token.
    have hline : OnLine token line := ⟨l, hl⟩
    split
    · exact .pure ⟨hc.int line _ hl, hrest⟩
    · exact .pure ⟨hc.float line _ hl, hrest⟩
    · exact .pure ⟨hc.str line _ hl, hrest⟩
    · exact .pure ⟨hc.path line _ _ hl, hrest⟩
    · refine (word_settles hc hf line _ rest hl hrest).bind ?_
      rintro ⟨form, rest', le⟩ ⟨hform, hrest'⟩
      exact .pure ⟨hform, hrest'⟩
    · refine (expression_settles hc hf rest hrest).bind ?_
      rintro ⟨n, rest', lt'⟩ ⟨hn, hrest'⟩
      refine (expect_settles hf _ _ hrest').bind ?_
      rintro ⟨_, rest'', lt''⟩ ⟨-, hrest''⟩
      exact .pure ⟨hn, hrest''⟩
    · refine (commaList_settles hc hf .square rest hrest).bind ?_
      rintro ⟨items, rest', lt'⟩ ⟨hitems, hrest'⟩
      exact .pure ⟨hc.list line items hline hitems, hrest'⟩
    · refine (blockBody_settles hc hf line rest hline hrest).bind ?_
      rintro ⟨body, rest', lt'⟩ ⟨hbody, hrest'⟩
      exact .pure ⟨hc.nested line body hline hbody, hrest'⟩
    · exact .error (hf.onToken _ line hline)
    · exact .error (hf.onToken _ line hline)
    · exact .error (hf.onToken _ line hline)
    · exact .error (hf.onToken _ line hline)
termination_by 16 * ts.length

theorem word_settles (hc : Closed token node block) (hf : Failing token node eof failure)
    (line : Nat) (w : String) (ts : List Token) (hw : token ⟨.word w, line⟩) (hts : Tokens token ts) :
    Settles (Passes token fun form => node (.mk line form)) failure (word eof w ts) := by
  have hline : OnLine token line := ⟨.word w, hw⟩
  rw [word]
  cases hliteral : Literal.ofWord? w with
  | some form =>
      refine .pure ⟨?_, hts⟩
      unfold Literal.ofWord? at hliteral
      split at hliteral
      · cases hliteral
        exact hc.null line hline
      · cases hliteral
        exact hc.bool line true hline
      · cases hliteral
        exact hc.bool line false hline
      · cases hliteral
  | none =>
      -- A word that is no literal is a keyword or a built-in with its arguments, or a variable.
      cases Keyword.ofWord? w with
      | some k =>
          refine (arguments_settles hc hf w k.shapes ts hts).bind ?_
          rintro ⟨args, rest, le⟩ ⟨hargs, hrest⟩
          exact .pure ⟨keyword_good hc hline k args hargs, hrest⟩
      | none =>
          cases hop : Op.builtin? w with
          | some op =>
              refine (arguments_settles hc hf w (List.replicate op.arity .value) ts hts).bind ?_
              rintro ⟨args, rest, le⟩ ⟨hargs, hrest⟩
              obtain ⟨hlen, hall⟩ := nodes_good op.arity args hargs
              exact .pure ⟨hc.op line op _ hline (ne_neg_of_builtin hop) hlen hall, hrest⟩
          | none => exact .pure ⟨hc.word line w hw, hts⟩
termination_by 16 * ts.length + 14

theorem arguments_settles (hc : Closed token node block) (hf : Failing token node eof failure) (name : String)
    (shapes : List Shape) (ts : List Token) (hts : Tokens token ts) :
    Settles (Passes token (ArgsGood node block shapes)) failure (arguments eof name shapes ts) := by
  cases htake : take (opens .round) ts with
  | none =>
      cases shapes with
      | nil =>
          rw [arguments, htake]
          exact .ok ⟨trivial, hts⟩
      | cons s shapes =>
          rw [arguments, htake]
          exact juxtaposed_settles hc hf (s :: shapes) ts hts
  | some opened =>
      obtain ⟨⟨_, line⟩, rest, lt⟩ := opened
      obtain ⟨hrest, -⟩ := take_reads hts htake
      cases shapes with
      | nil =>
          rw [arguments, htake]
          dsimp only
          split
          · exact .ok ⟨trivial, hts⟩
          · rename_i rest' lt' htake'
            exact .ok ⟨trivial, (take_reads hrest htake').1⟩
      | cons s shapes =>
          rw [arguments, htake]
          refine (commaList_settles hc hf .round rest hrest).bind ?_
          rintro ⟨nodes, rest', lt'⟩ ⟨hnodes, hrest'⟩
          dsimp only at hnodes hrest' ⊢
          split
          -- Either the parentheses hold all arguments, or the one that they hold is the first of several.
          · rename_i hlen
            refine (convertAll_settles hc hf (s :: shapes) nodes hlen hnodes).bind fun args hargs => ?_
            exact .pure ⟨hargs, hrest'⟩
          · split
            · rename_i n _
              refine (convert_settles hc hf (hnodes n (by simp)) s).bind fun arg harg => ?_
              refine (juxtaposed_settles hc hf shapes rest' hrest').bind ?_
              rintro ⟨args, rest'', le⟩ ⟨hargs, hrest''⟩
              exact .pure ⟨⟨harg, hargs⟩, hrest''⟩
            · exact .error (hf.onToken _ line (onLine_of_take hts htake))
termination_by 16 * ts.length + 13

theorem juxtaposed_settles (hc : Closed token node block) (hf : Failing token node eof failure)
    (shapes : List Shape) (ts : List Token) (hts : Tokens token ts) :
    Settles (Passes token (ArgsGood node block shapes)) failure (juxtaposed eof shapes ts) := by
  cases shapes with
  | nil =>
      rw [juxtaposed]
      exact .ok ⟨trivial, hts⟩
  | cons s shapes =>
      rw [juxtaposed]
      refine (argument_settles hc hf s (shapes.contains .value) ts hts).bind ?_
      rintro ⟨arg, rest, lt⟩ ⟨harg, hrest⟩
      refine (juxtaposed_settles hc hf shapes rest hrest).bind ?_
      rintro ⟨args, rest', le⟩ ⟨hargs, hrest'⟩
      exact .pure ⟨⟨harg, hargs⟩, hrest'⟩
termination_by 16 * ts.length + 12

theorem argument_settles (hc : Closed token node block) (hf : Failing token node eof failure)
    (s : Shape) (more : Bool) (ts : List Token) (hts : Tokens token ts) :
    Settles (Reads token (ArgGood node block s)) failure (argument eof s more ts) := by
  cases s with
  | value =>
      rw [argument]
      cases more with
      | true => exact unary_settles hc hf ts hts
      | false => exact expression_settles hc hf ts hts
  | block =>
      rw [argument]
      exact block_settles hc hf ts hts
  -- Parameters are read as operands first and then taken apart.
  | param =>
      rw [argument]
      refine (primary_settles hc hf ts hts).bind ?_
      rintro ⟨n, rest, lt⟩ ⟨hn, hrest⟩
      refine (convert_settles hc hf hn .param).bind fun name hname => ?_
      exact .pure ⟨hname, hrest⟩
  | params =>
      rw [argument]
      refine (primary_settles hc hf ts hts).bind ?_
      rintro ⟨n, rest, lt⟩ ⟨hn, hrest⟩
      refine (convert_settles hc hf hn .params).bind fun names hnames => ?_
      exact .pure ⟨hnames, hrest⟩
termination_by 16 * ts.length + 11

theorem commaList_settles (hc : Closed token node block) (hf : Failing token node eof failure) (b : Bracket)
    (ts : List Token) (hts : Tokens token ts) :
    Settles (Reads token fun items => ∀ n ∈ items, node n) failure (commaList eof b ts) := by
  rw [commaList]
  split
  · rename_i rest lt htake
    exact .ok ⟨by simp, (take_reads hts htake).1⟩
  · exact commaItems_settles hc hf b ts hts
termination_by 16 * ts.length + 12

theorem commaItems_settles (hc : Closed token node block) (hf : Failing token node eof failure) (b : Bracket)
    (ts : List Token) (hts : Tokens token ts) :
    Settles (Reads token fun items => ∀ n ∈ items, node n) failure (commaItems eof b ts) := by
  rw [commaItems]
  refine (expression_settles hc hf ts hts).bind ?_
  rintro ⟨item, rest, lt⟩ ⟨hitem, hrest⟩
  dsimp only at hitem hrest ⊢
  split
  · rename_i rest' lt' htake
    obtain ⟨hrest', -⟩ := take_reads hrest htake
    refine (commaItems_settles hc hf b rest' hrest').bind ?_
    rintro ⟨items, rest'', lt''⟩ ⟨hitems, hrest''⟩
    refine .pure ⟨?_, hrest''⟩
    intro n hn
    rcases List.mem_cons.mp hn with rfl | hn
    · exact hitem
    · exact hitems n hn
  · refine (expect_settles hf _ _ hrest).bind ?_
    rintro ⟨_, rest', lt'⟩ ⟨-, hrest'⟩
    refine .pure ⟨?_, hrest'⟩
    intro n hn
    rw [List.mem_singleton.mp hn]
    exact hitem
termination_by 16 * ts.length + 11

theorem block_settles (hc : Closed token node block) (hf : Failing token node eof failure)
    (ts : List Token) (hts : Tokens token ts) : Settles (Reads token block) failure (Parser.block eof ts) := by
  rw [Parser.block]
  refine (expect_settles hf _ _ hts).bind ?_
  rintro ⟨⟨_, line⟩, rest, lt⟩ ⟨hline, hrest⟩
  refine (blockBody_settles hc hf line rest hline hrest).bind ?_
  rintro ⟨body, rest', lt'⟩ ⟨hbody, hrest'⟩
  exact .pure ⟨hbody, hrest'⟩
termination_by 16 * ts.length

theorem blockBody_settles (hc : Closed token node block) (hf : Failing token node eof failure)
    (line : Nat) (ts : List Token) (hline : OnLine token line) (hts : Tokens token ts) :
    Settles (Reads token block) failure (blockBody eof line ts) := by
  rw [blockBody]
  refine (statements_settles hc hf ts hts).bind ?_
  rintro ⟨nodes, rest, le⟩ ⟨hnodes, hrest⟩
  refine (expect_settles hf _ _ hrest).bind ?_
  rintro ⟨_, rest', lt'⟩ ⟨-, hrest'⟩
  exact .pure ⟨hc.body line nodes hline hnodes, hrest'⟩
termination_by 16 * ts.length + 12

theorem statements_settles (hc : Closed token node block) (hf : Failing token node eof failure)
    (ts : List Token) (hts : Tokens token ts) :
    Settles (Passes token fun nodes => ∀ n ∈ nodes, node n) failure (statements eof ts) := by
  rw [statements]
  split
  · exact .pure ⟨by simp, hts⟩
  · split
    · exact .error (hf.next hts _)
    · refine (expression_settles hc hf ts hts).bind ?_
      rintro ⟨n, rest, lt⟩ ⟨hn, hrest⟩
      dsimp only at hn hrest ⊢
      split
      -- A missing semicolon is blamed on the statement in front of it, not on the token that stands there.
      · exact .error (hf.onNode _ n hn)
      · rename_i rest' lt' htake
        obtain ⟨hrest', -⟩ := take_reads hrest htake
        refine (statements_settles hc hf rest' hrest').bind ?_
        rintro ⟨nodes, rest'', le⟩ ⟨hnodes, hrest''⟩
        refine .pure ⟨?_, hrest''⟩
        intro m hm
        rcases List.mem_cons.mp hm with rfl | hm
        · exact hn
        · exact hnodes m hm
termination_by 16 * ts.length + 11

end

end Closed

end Parser

/-- The statements of every script that is read from tokens have a property that the readers keep; the
script itself has no opening brace, and its line is zero. -/
theorem Block.ofTokens_settles {token : Token → Prop} {node : Node → Prop} {block : Block → Prop}
    {failure : ParseError → Prop} (hc : Parser.Closed token node block) (ts : List Token)
    (hf : Parser.Failing token node (lastLine ts) failure) (hts : Parser.Tokens token ts) :
    Settles (fun root => root.line = 0 ∧ ∀ n ∈ root.statements, node n) failure (Block.ofTokens ts) := by
  refine (Parser.statements_settles hc hf ts hts).bind ?_
  rintro ⟨nodes, rest, le⟩ ⟨hnodes, hrest⟩
  cases rest with
  | nil => exact .pure ⟨rfl, hnodes⟩
  | cons t rest => exact .error (hf.onToken _ t.line ⟨t.lexeme, hrest t (by simp)⟩)

theorem Block.ofTokens_returns {token : Token → Prop} {node : Node → Prop} {block : Block → Prop}
    (hc : Parser.Closed token node block) (ts : List Token) (hts : Parser.Tokens token ts) :
    Returns (fun root => root.line = 0 ∧ ∀ n ∈ root.statements, node n) (Block.ofTokens ts) := by
  have hany : Parser.Failing token node (lastLine ts) (fun _ => True) :=
    ⟨fun _ _ _ => trivial, fun _ => trivial, fun _ _ _ => trivial, fun _ _ _ _ _ _ => trivial⟩
  exact (Block.ofTokens_settles hc ts hany hts).returns

end Stepwise
