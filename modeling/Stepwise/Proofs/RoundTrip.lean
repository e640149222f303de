import Mathlib.Data.List.Forall2
import Stepwise.Proofs.Grammar
import Stepwise.Proofs.Printing

/-!
# `Stepwise.Proofs.RoundTrip`: reading what was written

The lexemes of a regular script are read as that script up to lines (`Block.ofTokens_lexemes`).

Every node is written so that `primary` reads it alone (`Operand`), whatever stands behind it. By the rules of
`Stepwise.Proofs.Grammar` an operand is an expression if no symbol follows, and an operator between operands is
read at its own level (`binary_of_connective`). The rest follows the tree: one lemma for each way in which a node
is written, and the induction over the tree puts them together.
-/

set_option autoImplicit false

namespace Stepwise

namespace Parser

/-! ### Tokens in front -/

/-- Tokens start with lexemes, and `rest` is left behind them. -/
def Starts : List Lexeme → List Token → List Token → Prop
  | [], ts, rest => ts = rest
  | l :: ls, ts, rest => ∃ line tail, ts = ⟨l, line⟩ :: tail ∧ Starts ls tail rest

theorem starts_append {ls more : List Lexeme} {ts rest : List Token} :
    Starts (ls ++ more) ts rest ↔ ∃ mid, Starts ls ts mid ∧ Starts more mid rest := by
  induction ls generalizing ts with
  | nil => simp [Starts]
  | cons l ls ih =>
      constructor
      · rintro ⟨line, tail, rfl, htail⟩
        obtain ⟨mid, hls, hmore⟩ := ih.mp htail
        exact ⟨mid, ⟨line, tail, rfl, hls⟩, hmore⟩
      · rintro ⟨mid, ⟨line, tail, rfl, hls⟩, hmore⟩
        exact ⟨line, tail, rfl, ih.mpr ⟨mid, hls, hmore⟩⟩

/-- Tokens are nothing but their lexemes. -/
theorem starts_self (ts : List Token) : Starts (ts.map Token.lexeme) ts [] := by
  induction ts with
  | nil => rfl
  | cons t ts ih => exact ⟨t.line, ts, rfl, ih⟩

/-! ### Operators -/

/-- A connective between two operands. Its own level reads it: at the tighter levels the left operand ends
in front of it, and the looser ones find nothing more behind the right operand. -/
theorem binary_of_connective {eof line : Nat} {s : Symbol} {c : Connective} {ts tail rest : List Token}
    {left right : Node} (hs : Connective.ofSymbol? s = some c)
    (hleft : Gives (primary eof ts) left (⟨.symbol s, line⟩ :: tail))
    (hright : Gives (primary eof tail) right rest) (hrest : Ends rest) :
    Gives (binary eof 0 ts) (.mk line (c.form left right)) rest := by
  have hlevel : c.level < 6 := c.level_lt
  have hsuffix : Suffix.ofSymbol? s = none := suffix_of_connective hs
  have htight : Above (c.level + 1) (⟨.symbol s, line⟩ :: tail) := above_of_connective hs line tail
  have hleftRead : Gives (binary eof (c.level + 1) ts) left (⟨.symbol s, line⟩ :: tail) :=
    binary_of_unary hlevel (unary_of_primary hleft (take_cons_of_none hsuffix _ _)) htight
  have hrightRead : Gives (binary eof (c.level + 1) tail) right rest :=
    binary_of_unary hlevel (unary_of_primary hright (hrest.take _)) (hrest.above (c.level + 1))
  -- No other connective of this level follows.
  have hend : Leaves (binaryTail eof c.level (.mk line (c.form left right)) rest) (.mk line (c.form left right))
      rest := binaryTail_of_end (hrest.take _)
  have hlevelRead : Gives (binary eof c.level ts) (.mk line (c.form left right)) rest :=
    binary_of_tail hlevel hleftRead (binaryTail_of_connective (connective?_level hs) hrightRead hend)
  exact binary_lower (Nat.zero_le _) (by omega) hlevelRead (hrest.above 0)

/-- A key behind an index operator. It may have operators in front of it, but this one starts like an
operand. -/
theorem unary_of_index {eof line : Nat} {ts tail rest : List Token} {left key : Node}
    (hleft : Gives (primary eof ts) left (⟨.symbol .colon, line⟩ :: tail))
    (hkey : Gives (primary eof tail) key rest) (hrest : Ends rest) :
    Gives (unary eof ts) (.mk line (.op .index [left, key])) rest := by
  have hcolon : symbol? Suffix.ofSymbol? (.symbol .colon) = some .index := rfl
  have hkeyRead : Gives (indexKey eof tail) key rest :=
    indexKey_of_primary (take_unaryOp_of_primary hkey) hkey
  have htail : Leaves (suffixTail eof left (⟨.symbol .colon, line⟩ :: tail)) (.mk line (.op .index [left, key]))
      rest := suffixTail_of_index hcolon hkeyRead (suffixTail_of_end (hrest.take _))
  exact unary_of_suffixed (take_unaryOp_of_primary hleft) (suffixed_of_primary hleft htail)

/-- An operator in front of an operand. -/
theorem unary_of_front {eof line : Nat} {s : Symbol} {op : Op} {tail rest : List Token} {operand : Node}
    (hs : s.unaryOp? = some op) (h : Gives (primary eof tail) operand rest) (hrest : Ends rest) :
    Gives (unary eof (⟨.symbol s, line⟩ :: tail)) (.mk line (unaryForm op operand)) rest :=
  unary_of_operator hs (unary_of_primary h (hrest.take _))

/-- An assignment between two operands. -/
theorem expression_of_assign {eof line : Nat} {s : Symbol} {op : Op} {ts tail rest : List Token}
    {left right : Node} (hs : s.assignOp? = some op)
    (hleft : Gives (primary eof ts) left (⟨.symbol s, line⟩ :: tail))
    (hright : Gives (primary eof tail) right rest) (hrest : Ends rest) :
    Gives (expression eof ts) (.mk line (.op op [left, right])) rest := by
  have hsuffix : Suffix.ofSymbol? s = none := suffix_of_assign hs
  have habove : Above 0 (⟨.symbol s, line⟩ :: tail) := above_of_assign hs line tail
  have hleftRead : Gives (binary eof 0 ts) left (⟨.symbol s, line⟩ :: tail) :=
    binary_of_unary (Nat.zero_le 6) (unary_of_primary hleft (take_cons_of_none hsuffix _ _)) habove
  exact expression_of_assignment hleftRead hs (expression_of_primary hright hrest)

/-! ### Operands -/

/-- Lexemes are read as an operand, which is a node up to lines, whatever stands behind them. -/
def Operand (ls : List Lexeme) (n : Node) : Prop :=
  ∀ eof ts rest, Starts ls ts rest → ∃ m, Gives (primary eof ts) m rest ∧ m.unlined = n.unlined

/-- Lexemes are read as an expression, which is a node up to lines, if no symbol stands behind them. -/
def Sentence (ls : List Lexeme) (n : Node) : Prop :=
  ∀ eof ts rest, Starts ls ts rest → Ends rest →
    ∃ m, Gives (expression eof ts) m rest ∧ m.unlined = n.unlined

/-- An expression in parentheses is an operand. -/
theorem Sentence.inside {ls : List Lexeme} {n : Node} (h : Sentence ls n) :
    Operand (Lexeme.inside .round ls) n := by
  rintro eof ts rest ⟨line, tail, rfl, htail⟩
  obtain ⟨mid, hls, line', tail', rfl, rfl⟩ := starts_append.mp htail
  obtain ⟨m, hm, hunlined⟩ := h eof tail _ hls (ends_cons (by simp) _ _)
  exact ⟨m, primary_of_round hm, hunlined⟩

theorem Connective.unlined_form (c : Connective) {left right left' right' : Node}
    (hleft : left'.unlined = left.unlined) (hright : right'.unlined = right.unlined) :
    (c.form left' right').unlined = (c.form left right).unlined := by
  cases c <;> simp [Connective.form, Form.unlined, Node.eachUnlined, hleft, hright]

/-- Two operands with a connective between them. -/
theorem Operand.connective {s : Symbol} {c : Connective} {ls ls' : List Lexeme} {left right : Node}
    (hs : Connective.ofSymbol? s = some c) (hleft : Operand ls left) (hright : Operand ls' right)
    (l : Nat) : Operand (Lexeme.joined s ls ls') (.mk l (c.form left right)) := by
  refine Sentence.inside ?_
  intro eof ts rest hts hrest
  obtain ⟨mid, hls, line, tail, rfl, hls'⟩ := starts_append.mp hts
  obtain ⟨left', hleft', hl⟩ := hleft eof ts _ hls
  obtain ⟨right', hright', hr⟩ := hright eof tail rest hls'
  refine ⟨_, expression_of_binary (binary_of_connective hs hleft' hright' hrest) hrest, ?_⟩
  simp [Node.unlined, c.unlined_form hl hr]

/-- An operand and a key with a colon between them. -/
theorem Operand.index {ls ls' : List Lexeme} {left key : Node} (hleft : Operand ls left)
    (hkey : Operand ls' key) (l : Nat) :
    Operand (Lexeme.joined .colon ls ls') (.mk l (.op .index [left, key])) := by
  refine Sentence.inside ?_
  intro eof ts rest hts hrest
  obtain ⟨mid, hls, line, tail, rfl, hls'⟩ := starts_append.mp hts
  obtain ⟨left', hleft', hl⟩ := hleft eof ts _ hls
  obtain ⟨key', hkey', hk⟩ := hkey eof tail rest hls'
  refine ⟨_, expression_of_unary (unary_of_index hleft' hkey' hrest) hrest, ?_⟩
  simp [Node.unlined, Form.unlined, Node.eachUnlined, hl, hk]

/-- Two operands with an assignment between them. -/
theorem Operand.assign {s : Symbol} {op : Op} {ls ls' : List Lexeme} {left right : Node}
    (hs : s.assignOp? = some op) (hleft : Operand ls left) (hright : Operand ls' right) (l : Nat) :
    Operand (Lexeme.joined s ls ls') (.mk l (.op op [left, right])) := by
  refine Sentence.inside ?_
  intro eof ts rest hts hrest
  obtain ⟨mid, hls, line, tail, rfl, hls'⟩ := starts_append.mp hts
  obtain ⟨left', hleft', hl⟩ := hleft eof ts _ hls
  obtain ⟨right', hright', hr⟩ := hright eof tail rest hls'
  refine ⟨_, expression_of_assign hs hleft' hright' hrest, ?_⟩
  simp [Node.unlined, Form.unlined, Node.eachUnlined, hl, hr]

theorem takesMinus_of_unlined {m n : Node} (h : m.unlined = n.unlined) :
    m.form.takesMinus = n.form.takesMinus := by
  obtain ⟨_, f⟩ := m
  obtain ⟨_, g⟩ := n
  simp only [Node.unlined, Node.mk.injEq, true_and] at h
  have hsame (form : Form) : form.unlined.takesMinus = form.takesMinus := by
    cases form <;> rfl
  show f.takesMinus = g.takesMinus
  rw [← hsame f, ← hsame g, h]

/-- An operation stands in front of an operand that it does not become a part of. -/
theorem unaryForm_eq {op : Op} {operand : Node}
    (h : op = .neg → operand.form.takesMinus = false) : unaryForm op operand = .op op [operand] := by
  unfold unaryForm
  split
  · rename_i hform
    rw [hform] at h
    cases h rfl
  · rename_i hform
    rw [hform] at h
    cases h rfl
  · rename_i hform
    rw [hform] at h
    cases h rfl
  · rfl

/-- An operator in front of an operand. -/
theorem Operand.front {s : Symbol} {op : Op} {ls : List Lexeme} {operand : Node}
    (hs : s.unaryOp? = some op) (hminus : op = .neg → operand.form.takesMinus = false)
    (h : Operand ls operand) (l : Nat) : Operand (Lexeme.fronted s ls) (.mk l (.op op [operand])) := by
  refine Sentence.inside ?_
  rintro eof ts rest ⟨line, tail, rfl, htail⟩ hrest
  obtain ⟨operand', hoperand, hunlined⟩ := h eof tail rest htail
  refine ⟨_, expression_of_unary (unary_of_front hs hoperand hrest) hrest, ?_⟩
  have hplain : unaryForm op operand' = .op op [operand'] :=
    unaryForm_eq fun heq => (takesMinus_of_unlined hunlined).trans (hminus heq)
  simp [hplain, Node.unlined, Form.unlined, Node.eachUnlined, hunlined]

/-- A single token that is an operand by itself. -/
theorem Operand.atom {l : Lexeme} {form : Form} (h : atom? l = some form) (line : Nat) :
    Operand [l] (.mk line form) := by
  rintro eof ts rest ⟨line', tail, rfl, rfl⟩
  exact ⟨_, primary_of_atom h eof line' tail, by simp [Node.unlined]⟩

/-- Every integer but the least one is read as it is written. -/
theorem Operand.int {n : Int64} (h : n ≠ Int64.minValue) (l : Nat) :
    Operand (Number.intLexemes n) (.mk l (.int n)) := by
  unfold Number.intLexemes
  split
  · refine Sentence.inside ?_
    rintro eof ts rest ⟨line, tail, rfl, line', tail', rfl, rfl⟩ hrest
    have hdigits : Gives (primary eof (⟨.int (-n), line'⟩ :: tail')) (.mk line' (.int (-n))) tail' :=
      primary_of_atom rfl eof line' tail'
    refine ⟨_, expression_of_unary (unary_of_front rfl hdigits hrest) hrest, ?_⟩
    -- The minus is made part of the number again.
    have hvalue : -(-n).toInt = n.toInt := by
      rw [Number.toInt_neg h]
      omega
    have hform : unaryForm .neg (.mk line' (.int (-n))) = .int n := by
      simp only [unaryForm, Node.form, hvalue, Number.checked_toInt]
    simp [hform, Node.unlined]
  · exact Operand.atom rfl l

/-- Every float is read as it is written. -/
theorem Operand.float (x : Float) (l : Nat) :
    Operand (Number.floatLexemes x) (.mk l (.float x)) := by
  unfold Number.floatLexemes
  split
  · refine Sentence.inside ?_
    rintro eof ts rest ⟨line, tail, rfl, line', tail', rfl, rfl⟩ hrest
    have hdigits : Gives (primary eof (⟨.float (-x), line'⟩ :: tail')) (.mk line' (.float (-x))) tail' :=
      primary_of_atom rfl eof line' tail'
    refine ⟨_, expression_of_unary (unary_of_front rfl hdigits hrest) hrest, ?_⟩
    have hform : unaryForm .neg (.mk line' (.float (-x))) = .float x := by
      simp only [unaryForm, Node.form, Number.neg_neg]
    simp [hform, Node.unlined]
  · exact Operand.atom rfl l

/-! ### Lists and blocks -/

/-- Groups of lexemes are read as operands, one by one. -/
abbrev Operands : List (List Lexeme) → List Node → Prop :=
  List.Forall₂ Operand

/-- Operands with commas between them, up to a closing bracket. The induction is on the operands; the last
one ends at the bracket, every other one at a comma. -/
theorem commaItems_of_operands {groups : List (List Lexeme)} {nodes : List Node}
    (h : Operands groups nodes) (hne : groups ≠ []) (eof line : Nat) (b : Bracket) (ts rest : List Token)
    (hts : Starts (Lexeme.separated groups) ts (⟨.closing b, line⟩ :: rest)) :
    ∃ ms, Gives (commaItems eof b ts) ms rest ∧ Node.eachUnlined ms = Node.eachUnlined nodes := by
  induction h generalizing ts with
  | nil => exact absurd rfl hne
  | @cons ls n groups nodes hfirst htail ih =>
      cases groups with
      | nil =>
          cases htail
          obtain ⟨m, hm, hunlined⟩ := hfirst eof ts _ hts
          refine ⟨[m], ?_, by simp [Node.eachUnlined, hunlined]⟩
          exact commaItems_of_close (expression_of_primary hm (ends_cons (by simp) _ _))
      | cons next groups =>
          obtain ⟨mid, hls, line', tail, rfl, hnext⟩ := starts_append.mp hts
          obtain ⟨m, hm, hunlined⟩ := hfirst eof ts _ hls
          obtain ⟨ms, hms, hothers⟩ := ih (by simp) tail hnext
          refine ⟨m :: ms, ?_, by simp [Node.eachUnlined, hunlined, hothers]⟩
          exact commaItems_of_comma (expression_of_primary hm (ends_cons (by simp) _ _)) hms

theorem commaList_of_operands {groups : List (List Lexeme)} {nodes : List Node}
    (h : Operands groups nodes) (eof line : Nat) (b : Bracket) (ts rest : List Token)
    (hts : Starts (Lexeme.separated groups) ts (⟨.closing b, line⟩ :: rest)) :
    ∃ ms, Gives (commaList eof b ts) ms rest ∧ Node.eachUnlined ms = Node.eachUnlined nodes := by
  cases h with
  | nil =>
      cases hts
      exact ⟨[], commaList_of_close, rfl⟩
  | cons hfirst htail =>
      obtain ⟨ms, hms, hunlined⟩ :=
        commaItems_of_operands (.cons hfirst htail) (by simp) eof line b ts rest hts
      exact ⟨ms, commaList_of_items hms, hunlined⟩

/-- Operands in square brackets are a list. -/
theorem Operand.list {groups : List (List Lexeme)} {nodes : List Node} (h : Operands groups nodes)
    (l : Nat) : Operand (Lexeme.inside .square (Lexeme.separated groups)) (.mk l (.list nodes)) := by
  rintro eof ts rest ⟨line, tail, rfl, htail⟩
  obtain ⟨mid, hgroups, line', tail', rfl, rfl⟩ := starts_append.mp htail
  obtain ⟨ms, hms, hunlined⟩ := commaList_of_operands h eof line' .square tail tail' hgroups
  exact ⟨.mk line (.list ms), primary_of_square hms, by simp [Node.unlined, Form.unlined, hunlined]⟩

/-- Operands with a semicolon after each are statements. -/
theorem statements_of_operands {groups : List (List Lexeme)} {nodes : List Node}
    (h : Operands groups nodes) (eof : Nat) (ts rest : List Token) (hrest : closesBlock rest = true)
    (hts : Starts (groups.flatMap (· ++ [.semicolon])) ts rest) :
    ∃ ms, Leaves (statements eof ts) ms rest ∧ Node.eachUnlined ms = Node.eachUnlined nodes := by
  induction h generalizing ts with
  | nil =>
      cases hts
      exact ⟨[], statements_of_end hrest, rfl⟩
  | @cons ls n groups nodes hfirst htail ih =>
      rw [List.flatMap_cons, List.append_assoc] at hts
      obtain ⟨mid, hls, line, tail, rfl, hnext⟩ := starts_append.mp hts
      obtain ⟨m, hm, hunlined⟩ := hfirst eof ts _ hls
      obtain ⟨ms, hms, hothers⟩ := ih tail hnext
      refine ⟨m :: ms, ?_, by simp [Node.eachUnlined, hunlined, hothers]⟩
      exact statements_of_expression (expression_of_primary hm (ends_cons (by simp) _ _)) hms

/-- Statements in braces are a block. -/
theorem Operand.block {groups : List (List Lexeme)} {nodes : List Node} (h : Operands groups nodes)
    (l l' : Nat) :
    Operand (Lexeme.inside .curly (groups.flatMap (· ++ [.semicolon])))
      (.mk l (.block (.mk l' nodes))) := by
  rintro eof ts rest ⟨line, tail, rfl, htail⟩
  obtain ⟨mid, hgroups, line', tail', rfl, rfl⟩ := starts_append.mp htail
  obtain ⟨ms, hms, hunlined⟩ := statements_of_operands h eof tail _ rfl hgroups
  refine ⟨.mk line (.block (.mk line ms)), ?_,
    by simp [Node.unlined, Form.unlined, Block.unlined, hunlined]⟩
  exact primary_of_curly (blockBody_of_statements hms)

/-! ### Arguments -/

/-- The node that an argument is written as. -/
def Shape.node : (s : Shape) → s.Arg → Node
  | .value, n => n
  | .block, b => .mk 0 (.block b)
  | .param, name => .mk 0 (.path false [name])
  | .params, names => .mk 0 (.list (names.map fun name => .mk 0 (.path false [name])))

/-- The nodes that arguments are written as. -/
def Args.written : (shapes : List Shape) → Args shapes → List Node
  | [], _ => []
  | s :: shapes, (arg, args) => s.node arg :: Args.written shapes args

/-- Two arguments are the same up to lines. -/
def Shape.Alike : (s : Shape) → s.Arg → s.Arg → Prop
  | .value, m, n => m.unlined = n.unlined
  | .block, b, c => b.unlined = c.unlined
  | .param, name, other => name = other
  | .params, names, others => names = others

/-- Arguments are the same up to lines, one by one. -/
def Args.Alike : (shapes : List Shape) → Args shapes → Args shapes → Prop
  | [], _, _ => True
  | s :: shapes, (arg, args), (arg', args') => s.Alike arg arg' ∧ Args.Alike shapes args args'

/-- What an argument must be: no name stands twice in a parameter list. -/
abbrev ArgsDistinct (shapes : List Shape) (args : Args shapes) : Prop :=
  ArgsGood (fun _ => True) (fun _ => True) shapes args

theorem length_eachUnlined (nodes : List Node) : (Node.eachUnlined nodes).length = nodes.length := by
  induction nodes with
  | nil => rfl
  | cons n nodes ih => simp [Node.eachUnlined, ih]

/-- A node that is a parameter name up to lines is that name. -/
theorem paramName_of_unlined {m : Node} {name : String}
    (h : m.unlined = Node.unlined (.mk 0 (.path false [name]))) : paramName? m = some name := by
  obtain ⟨line, form⟩ := m
  simp only [Node.unlined, Node.mk.injEq, true_and, Form.unlined] at h
  cases form with
  | path global names =>
      cases h
      rfl
  | _ => cases h

theorem paramNames_of_unlined {items : List Node} {names seen : List String}
    (h : Node.eachUnlined items
      = Node.eachUnlined (names.map fun name => .mk 0 (.path false [name])))
    (hnodup : names.Nodup) (hseen : ∀ name ∈ names, name ∉ seen) :
    paramNames seen items = .ok names := by
  induction names generalizing items seen with
  | nil =>
      cases items with
      | nil => rfl
      | cons item items => cases h
  | cons name names ih =>
      cases items with
      | nil => cases h
      | cons item items =>
          simp only [List.map_cons, Node.eachUnlined, List.cons.injEq] at h
          obtain ⟨hname, hnames⟩ := List.nodup_cons.mp hnodup
          have hfresh : name ∉ seen := hseen name (by simp)
          -- A name that was taken must not come again, nor any from before it.
          have hrest : ∀ other ∈ names, other ∉ name :: seen := by
            intro other hother hmem
            rcases List.mem_cons.mp hmem with rfl | hmem
            · exact hname hother
            · exact hseen other (by simp [hother]) hmem
          simp [paramNames, paramName_of_unlined h.1, hfresh, ih h.2 hnames hrest, Except.map]

theorem convert_of_unlined (s : Shape) {arg : s.Arg} {m : Node} (h : m.unlined = (s.node arg).unlined)
    (hgood : ArgGood (fun _ => True) (fun _ => True) s arg) :
    ∃ arg', convert m s = .ok arg' ∧ s.Alike arg' arg := by
  cases s with
  | value => exact ⟨m, rfl, h⟩
  | block =>
      obtain ⟨line, form⟩ := m
      simp only [Shape.node, Node.unlined, Node.mk.injEq, true_and, Form.unlined] at h
      -- Up to lines the node is a block, so it is one.
      cases form with
      | block b =>
          simp only [Form.unlined, Form.block.injEq] at h
          exact ⟨b, rfl, h⟩
      | _ => cases h
  | param =>
      refine ⟨arg, ?_, rfl⟩
      simp only [convert, paramName_of_unlined h]
  | params =>
      refine ⟨arg, ?_, rfl⟩
      obtain ⟨line, form⟩ := m
      simp only [Shape.node, Node.unlined, Node.mk.injEq, true_and, Form.unlined] at h
      cases form with
      | list items =>
          simp only [Form.unlined, Form.list.injEq] at h
          exact paramNames_of_unlined h hgood (by simp)
      | _ => cases h

/-- Nodes that are written arguments up to lines are read as these arguments. -/
theorem convertAll_of_unlined (shapes : List Shape) {args : Args shapes} {nodes : List Node}
    (h : Node.eachUnlined nodes = Node.eachUnlined (args.written shapes))
    (hgood : ArgsDistinct shapes args) :
    ∃ hlen args', convertAll shapes nodes hlen = .ok args' ∧ Args.Alike shapes args' args := by
  induction shapes generalizing nodes with
  | nil =>
      cases nodes with
      | nil => exact ⟨rfl, (), rfl, trivial⟩
      | cons n nodes => cases h
  | cons s shapes ih =>
      obtain ⟨arg, args⟩ := args
      cases nodes with
      | nil => cases h
      | cons n nodes =>
          simp only [Args.written, Node.eachUnlined, List.cons.injEq] at h
          -- The shapes are taken off one by one, with one node each.
          obtain ⟨arg', harg, halike⟩ := convert_of_unlined s h.1 hgood.1
          obtain ⟨hlen, args', hargs, hothers⟩ := ih h.2 hgood.2
          refine ⟨congrArg Nat.succ hlen, (arg', args'), ?_, halike, hothers⟩
          rw [convertAll, harg, ok_bind, hargs]
          rfl

/-- Nodes are read as arguments that are all values as they are. -/
theorem convertAll_values (nodes : List Node) (n : Nat)
    (hlen : nodes.length = (List.replicate n Shape.value).length) :
    ∃ args, convertAll (List.replicate n .value) nodes hlen = .ok args ∧ Args.nodes n args = nodes := by
  induction n generalizing nodes with
  | zero =>
      cases nodes with
      | nil => exact ⟨(), rfl, rfl⟩
      | cons m nodes => cases hlen
  | succ n ih =>
      cases nodes with
      | nil => cases hlen
      | cons m nodes =>
          obtain ⟨args, hargs, hnodes⟩ := ih nodes (Nat.succ.inj hlen)
          refine ⟨(m, args), ?_, congrArg (m :: ·) hnodes⟩
          show (convertAll (List.replicate n .value) nodes _ >>= _) = _
          rw [hargs]
          rfl

/-! ### Words -/

/-- A word that starts a form. -/
theorem Operand.word {w : String} {ls : List Lexeme} {n : Node}
    (h : ∀ eof ts rest, Starts ls ts rest →
      ∃ form, Leaves (Parser.word eof w ts) form rest ∧ form.unlined = n.form.unlined) :
    Operand (.word w :: ls) n := by
  rintro eof ts rest ⟨line, tail, rfl, htail⟩
  obtain ⟨form, hform, hunlined⟩ := h eof tail rest htail
  obtain ⟨l, form'⟩ := n
  exact ⟨.mk line form, primary_of_word hform, congrArg (Node.mk 0) hunlined⟩

/-- A word that stands for a literal. -/
theorem Operand.literal {w : String} {form : Form} (h : Literal.ofWord? w = some form) (l : Nat) :
    Operand [.word w] (.mk l form) := by
  refine Operand.word ?_
  rintro eof ts rest rfl
  exact ⟨form, word_of_literal h, rfl⟩

theorem Keyword.ofWord?_word (k : Keyword) :
    Literal.ofWord? k.word = none ∧ Keyword.ofWord? k.word = some k := by
  cases k <;> decide

/-- The form of a keyword is the same up to lines if its arguments are. -/
theorem Keyword.unlined_form (k : Keyword) {args args' : Args k.shapes}
    (h : Args.Alike k.shapes args' args) : (k.form args').unlined = (k.form args).unlined := by
  -- The parts of the form are the arguments, one by one.
  cases k with
  | ifThen =>
      obtain ⟨cond, body, _⟩ := args
      obtain ⟨cond', body', _⟩ := args'
      obtain ⟨hcond, hbody, -⟩ := h
      exact congrArg₂ Form.ifThen hcond hbody
  | whileDo =>
      obtain ⟨cond, body, _⟩ := args
      obtain ⟨cond', body', _⟩ := args'
      obtain ⟨hcond, hbody, -⟩ := h
      exact congrArg₂ Form.whileDo hcond hbody
  | forEach =>
      obtain ⟨target, source, body, _⟩ := args
      obtain ⟨target', source', body', _⟩ := args'
      obtain ⟨htarget, hsource, hbody, -⟩ := h
      show Form.forEach (Node.unlined target') (Node.unlined source') (Block.unlined body')
        = Form.forEach (Node.unlined target) (Node.unlined source) (Block.unlined body)
      exact congr (congrArg₂ Form.forEach htarget hsource) hbody
  | call =>
      obtain ⟨callee, arg, _⟩ := args
      obtain ⟨callee', arg', _⟩ := args'
      obtain ⟨hcallee, harg, -⟩ := h
      exact congrArg₂ Form.call hcallee harg
  | object =>
      obtain ⟨body, _⟩ := args
      obtain ⟨body', _⟩ := args'
      exact congrArg Form.object h.1
  | function =>
      obtain ⟨params, body, _⟩ := args
      obtain ⟨params', body', _⟩ := args'
      obtain ⟨hparams, hbody, -⟩ := h
      exact congrArg₂ Form.function hparams hbody
  | tryCatch =>
      obtain ⟨body, name, handler, _⟩ := args
      obtain ⟨body', name', handler', _⟩ := args'
      obtain ⟨hbody, hname, hhandler, -⟩ := h
      show Form.tryCatch (Block.unlined body') name' (Block.unlined handler')
        = Form.tryCatch (Block.unlined body) name (Block.unlined handler)
      exact congr (congrArg₂ Form.tryCatch hbody hname) hhandler

/-- A keyword with its arguments in parentheses. -/
theorem Operand.keyword (k : Keyword) {args : Args k.shapes} {groups : List (List Lexeme)}
    (h : Operands groups (args.written k.shapes)) (hgood : ArgsDistinct k.shapes args) (l : Nat) :
    Operand (Lexeme.called k.word groups) (.mk l (k.form args)) := by
  obtain ⟨hliteral, hkeyword⟩ := k.ofWord?_word
  refine Operand.word ?_
  rintro eof ts rest ⟨line, tail, rfl, htail⟩
  obtain ⟨mid, hgroups, line', tail', rfl, rfl⟩ := starts_append.mp htail
  obtain ⟨nodes, hnodes, hunlined⟩ := commaList_of_operands h eof line' .round tail tail' hgroups
  obtain ⟨hlen, args', hargs, halike⟩ := convertAll_of_unlined k.shapes hunlined hgood
  have hread : Leaves (arguments eof k.word k.shapes (⟨.opening .round, line⟩ :: tail)) args' tail' := by
    cases k <;> exact arguments_of_commaList hnodes hlen hargs
  exact ⟨k.form args', word_of_keyword hliteral hkeyword hread, k.unlined_form halike⟩

/-- The built-ins are the operations without a symbol. -/
theorem mem_builtins {op : Op} (h : op.symbol? = none) : op ∈ Op.builtins := by
  cases op <;> simp_all [Op.symbol?, Op.builtins]

/-- The name of a built-in stands for nothing else. -/
theorem ofWord?_name : ∀ op ∈ Op.builtins, Literal.ofWord? op.name = none ∧
    Keyword.ofWord? op.name = none ∧ Op.builtin? op.name = some op := by
  decide

/-- Values in parentheses are read as arguments, also if there are none. -/
theorem arguments_of_operands {groups : List (List Lexeme)} {nodes : List Node}
    (h : Operands groups nodes) {n : Nat} (hlen : nodes.length = n) (eof line line' : Nat) (w : String)
    (tail rest : List Token)
    (hts : Starts (Lexeme.separated groups) tail (⟨.closing .round, line'⟩ :: rest)) :
    ∃ args, Leaves (arguments eof w (List.replicate n .value) (⟨.opening .round, line⟩ :: tail)) args rest
      ∧ Node.eachUnlined (Args.nodes n args) = Node.eachUnlined nodes := by
  cases n with
  -- An empty pair of parentheses is a form of its own, not an empty list of arguments.
  | zero =>
      obtain rfl : nodes = [] := List.length_eq_zero_iff.mp hlen
      cases h
      cases hts
      exact ⟨(), arguments_of_pair, rfl⟩
  | succ n =>
      obtain ⟨ms, hms, hunlined⟩ := commaList_of_operands h eof line' .round tail rest hts
      have hmslen : ms.length = n + 1 := by
        rw [← length_eachUnlined, hunlined, length_eachUnlined, hlen]
      obtain ⟨args, hargs, hnodes⟩ := convertAll_values ms (n + 1) (by simp [hmslen])
      rw [← hnodes] at hunlined
      exact ⟨args, arguments_of_commaList hms _ hargs, hunlined⟩

/-- A built-in with its arguments in parentheses. -/
theorem Operand.builtin {op : Op} (hop : op.symbol? = none) {groups : List (List Lexeme)}
    {nodes : List Node} (h : Operands groups nodes) (hlen : nodes.length = op.arity) (l : Nat) :
    Operand (Lexeme.called op.name groups) (.mk l (.op op nodes)) := by
  obtain ⟨hliteral, hkeyword, hbuiltin⟩ := ofWord?_name op (mem_builtins hop)
  refine Operand.word ?_
  rintro eof ts rest ⟨line, tail, rfl, htail⟩
  obtain ⟨mid, hgroups, line', tail', rfl, rfl⟩ := starts_append.mp htail
  obtain ⟨args, hargs, hunlined⟩ :=
    arguments_of_operands h hlen eof line line' op.name tail tail' hgroups
  refine ⟨.op op (Args.nodes op.arity args), ?_, by simp [Form.unlined, Node.form, hunlined]⟩
  exact word_of_builtin hliteral hkeyword hbuiltin hargs

/-! ### Trees -/

/-- The names of a parameter list are read as they are written. -/
theorem Operands.params (names : List String) :
    Operands (names.map Lexeme.param) (names.map fun name => .mk 0 (.path false [name])) := by
  induction names with
  | nil => exact .nil
  | cons name names ih => exact .cons (Operand.atom rfl 0) ih

theorem Operands.single {groups : List (List Lexeme)} {nodes : List Node} (h : Operands groups nodes)
    (hlen : nodes.length = 1) : ∃ ls operand, groups = [ls] ∧ nodes = [operand] ∧ Operand ls operand := by
  obtain ⟨operand, rfl⟩ := List.length_eq_one_iff.mp hlen
  cases h with
  | cons hoperand hnil =>
      cases hnil
      exact ⟨_, operand, rfl, rfl, hoperand⟩

theorem Operands.pair {groups : List (List Lexeme)} {nodes : List Node} (h : Operands groups nodes)
    (hlen : nodes.length = 2) : ∃ ls ls' left right, groups = [ls, ls'] ∧ nodes = [left, right] ∧
      Operand ls left ∧ Operand ls' right := by
  obtain ⟨left, right, rfl⟩ := List.length_eq_two.mp hlen
  cases h with
  | cons hleft hrest =>
      obtain ⟨ls', _, rfl, hright, hboth⟩ := Operands.single hrest rfl
      cases hright
      exact ⟨_, ls', left, right, rfl, rfl, hleft, hboth⟩

section

variable {op : Op} {s : Symbol} {groups : List (List Lexeme)} {nodes : List Node}

/-- An operation that is a connective. -/
theorem Operand.ofConnective {c : Connective} (hs : op.symbol? = some s)
    (hc : Connective.ofSymbol? s = some c)
    (hform : ∀ left right, c.form left right = .op op [left, right]) (h : Operands groups nodes)
    (hlen : nodes.length = 2) (l : Nat) : Operand (op.lexemes groups) (.mk l (.op op nodes)) := by
  obtain ⟨ls, ls', left, right, rfl, rfl, hleft, hright⟩ := h.pair hlen
  rw [Op.lexemes_pair hs, ← hform]
  exact Operand.connective hc hleft hright l

/-- An operation that is an assignment. -/
theorem Operand.ofAssign (hs : op.symbol? = some s) (hop : s.assignOp? = some op)
    (h : Operands groups nodes) (hlen : nodes.length = 2) (l : Nat) :
    Operand (op.lexemes groups) (.mk l (.op op nodes)) := by
  obtain ⟨ls, ls', left, right, rfl, rfl, hleft, hright⟩ := h.pair hlen
  rw [Op.lexemes_pair hs]
  exact Operand.assign hop hleft hright l

/-- An operation in front of its operand. -/
theorem Operand.ofFront (hs : op.symbol? = some s) (hop : s.unaryOp? = some op)
    (hminus : op = .neg → ∀ operand ∈ nodes, operand.form.takesMinus = false)
    (h : Operands groups nodes) (hlen : nodes.length = 1) (l : Nat) :
    Operand (op.lexemes groups) (.mk l (.op op nodes)) := by
  obtain ⟨ls, operand, rfl, rfl, hoperand⟩ := h.single hlen
  rw [Op.lexemes_single hs]
  exact Operand.front hop (fun heq => hminus heq operand (by simp)) hoperand l

/-- An operation is read as it is written. Its symbol says which reader takes it, and an operation without
one is a built-in. -/
theorem Operand.ofOp (h : Operands groups nodes) (hlen : nodes.length = op.arity)
    (hminus : op = .neg → ∀ operand ∈ nodes, operand.form.takesMinus = false) (l : Nat) :
    Operand (op.lexemes groups) (.mk l (.op op nodes)) := by
  cases op with
  | arith a => exact Operand.ofConnective rfl rfl (fun _ _ => rfl) h (by cases a <;> exact hlen) l
  | compare c => exact Operand.ofConnective rfl rfl (fun _ _ => rfl) h hlen l
  | equal => exact Operand.ofConnective rfl rfl (fun _ _ => rfl) h hlen l
  | differ => exact Operand.ofConnective rfl rfl (fun _ _ => rfl) h hlen l
  -- An index stands in brackets behind its container, so it is neither in front nor between.
  | index =>
      obtain ⟨ls, ls', left, right, rfl, rfl, hleft, hright⟩ := h.pair hlen
      exact Operand.index hleft hright l
  | assign => exact Operand.ofAssign rfl rfl h hlen l
  | update a => exact Operand.ofAssign rfl rfl h (by cases a <;> exact hlen) l
  | neg => exact Operand.ofFront rfl rfl hminus h hlen l
  | not => exact Operand.ofFront rfl rfl hminus h hlen l
  | increment => exact Operand.ofFront rfl rfl hminus h hlen l
  | decrement => exact Operand.ofFront rfl rfl hminus h hlen l
  | invert => exact Operand.ofFront rfl rfl hminus h hlen l
  | _ => exact Operand.builtin rfl h hlen l

end

section

variable {name : String → Bool} {line : Nat → Bool}

mutual

/-- A regular node is read as it is written. -/
theorem Operand.ofNode (n : Node) (h : n.isRegular name line = true) : Operand n.lexemes n := by
  cases n with
  | mk l form =>
      simp only [Node.isRegular, Bool.and_eq_true] at h
      rw [Node.lexemes]
      exact Operand.ofForm form h.2 l

theorem Operand.ofForm (form : Form) (h : form.isRegular name line = true) (l : Nat) :
    Operand form.lexemes (.mk l form) := by
  cases form with
  | null =>
      rw [Form.lexemes]
      exact Operand.literal rfl l
  | bool b =>
      rw [Form.lexemes]
      cases b with
      | true => exact Operand.literal rfl l
      | false => exact Operand.literal rfl l
  | int n =>
      simp only [Form.isRegular, bne_iff_ne] at h
      rw [Form.lexemes]
      exact Operand.int h l
  | float x =>
      rw [Form.lexemes]
      exact Operand.float x l
  | str s =>
      rw [Form.lexemes]
      exact Operand.atom rfl l
  | path global names =>
      rw [Form.lexemes]
      exact Operand.atom rfl l
  | list items =>
      simp only [Form.isRegular] at h
      rw [Form.lexemes]
      exact Operand.list (Operands.ofNodes items h) l
  | block body =>
      simp only [Form.isRegular] at h
      rw [Form.lexemes]
      exact Operand.ofBlock body h l
  -- A keyword is read with the operands that its arguments are written as; the parameters are written as a
  -- list.
  | function params body =>
      simp only [Form.isRegular, Bool.and_eq_true, decide_eq_true_eq] at h
      rw [Form.lexemes]
      have hparams : Operands (params.map Lexeme.param)
          (params.map fun name => .mk 0 (.path false [name])) := Operands.params params
      have hargs : Operands _ (Args.written Keyword.function.shapes (params, body, ())) :=
        .cons (Operand.list hparams 0) (.cons (Operand.ofBlock body h.2 0) .nil)
      exact Operand.keyword .function hargs ⟨h.1, trivial, trivial⟩ l
  | op op args =>
      simp only [Form.isRegular, Bool.and_eq_true] at h
      rw [Form.lexemes]
      refine Operand.ofOp (Operands.ofNodes args h.2) (by simpa using h.1.1) ?_ l
      -- Only the minus of a literal would be read as another node, and a regular tree has none.
      rintro rfl
      simpa using h.1.2
  | ifThen cond body =>
      simp only [Form.isRegular, Bool.and_eq_true] at h
      rw [Form.lexemes]
      have hargs : Operands _ (Args.written Keyword.ifThen.shapes (cond, body, ())) :=
        .cons (Operand.ofNode cond h.1) (.cons (Operand.ofBlock body h.2 0) .nil)
      exact Operand.keyword .ifThen hargs ⟨trivial, trivial, trivial⟩ l
  | whileDo cond body =>
      simp only [Form.isRegular, Bool.and_eq_true] at h
      rw [Form.lexemes]
      have hargs : Operands _ (Args.written Keyword.whileDo.shapes (cond, body, ())) :=
        .cons (Operand.ofNode cond h.1) (.cons (Operand.ofBlock body h.2 0) .nil)
      exact Operand.keyword .whileDo hargs ⟨trivial, trivial, trivial⟩ l
  | forEach target source body =>
      simp only [Form.isRegular, Bool.and_eq_true] at h
      rw [Form.lexemes]
      have hargs : Operands _ (Args.written Keyword.forEach.shapes (target, source, body, ())) :=
        .cons (Operand.ofNode target h.1.1)
          (.cons (Operand.ofNode source h.1.2) (.cons (Operand.ofBlock body h.2 0) .nil))
      exact Operand.keyword .forEach hargs ⟨trivial, trivial, trivial, trivial⟩ l
  | call callee args =>
      simp only [Form.isRegular, Bool.and_eq_true] at h
      rw [Form.lexemes]
      have hargs : Operands _ (Args.written Keyword.call.shapes (callee, args, ())) :=
        .cons (Operand.ofNode callee h.1) (.cons (Operand.ofNode args h.2) .nil)
      exact Operand.keyword .call hargs ⟨trivial, trivial, trivial⟩ l
  | object body =>
      simp only [Form.isRegular] at h
      rw [Form.lexemes]
      have hargs : Operands _ (Args.written Keyword.object.shapes (body, ())) :=
        .cons (Operand.ofBlock body h 0) .nil
      exact Operand.keyword .object hargs ⟨trivial, trivial⟩ l
  | andAlso left right =>
      simp only [Form.isRegular, Bool.and_eq_true] at h
      rw [Form.lexemes]
      have hsymbol : Connective.ofSymbol? .andAlso = some .andAlso := rfl
      exact Operand.connective hsymbol (Operand.ofNode left h.1) (Operand.ofNode right h.2) l
  | orElse left right =>
      simp only [Form.isRegular, Bool.and_eq_true] at h
      rw [Form.lexemes]
      have hsymbol : Connective.ofSymbol? .orElse = some .orElse := rfl
      exact Operand.connective hsymbol (Operand.ofNode left h.1) (Operand.ofNode right h.2) l
  | tryCatch body name handler =>
      simp only [Form.isRegular, Bool.and_eq_true] at h
      rw [Form.lexemes]
      have hname : Operand (Lexeme.param name) (.mk 0 (.path false [name])) := Operand.atom rfl 0
      have hargs : Operands _ (Args.written Keyword.tryCatch.shapes (body, name, handler, ())) :=
        .cons (Operand.ofBlock body h.1 0) (.cons hname (.cons (Operand.ofBlock handler h.2 0) .nil))
      exact Operand.keyword .tryCatch hargs ⟨trivial, trivial, trivial, trivial⟩ l

/-- A regular block is read as it is written. -/
theorem Operand.ofBlock (b : Block) (h : b.isRegular name line = true) (l : Nat) :
    Operand (Lexeme.inside .curly b.lexemes) (.mk l (.block b)) := by
  cases b with
  | mk l' statements =>
      simp only [Block.isRegular, Bool.and_eq_true] at h
      rw [Block.lexemes]
      exact Operand.block (Operands.ofNodes statements h.2) l l'

theorem Operands.ofNodes (nodes : List Node) (h : Node.allRegular name line nodes = true) :
    Operands (Node.eachLexemes nodes) nodes := by
  cases nodes with
  | nil => exact .nil
  | cons n nodes =>
      simp only [Node.allRegular, Bool.and_eq_true] at h
      exact .cons (Operand.ofNode n h.1) (Operands.ofNodes nodes h.2)

end

end

end Parser

/-- Every regular script can be written and read again. Its lexemes have no number with a sign, and whatever
lines the tokens stand on, they are read as the script up to lines. -/
theorem Block.ofTokens_lexemes {b : Block} {ts : List Token}
    (h : b.isRegular (fun _ => true) (fun _ => true) = true) (hts : ts.map Token.lexeme = b.lexemes) :
    Lexeme.Unsigned b.lexemes ∧
      ∃ b', Block.ofTokens ts = .ok b' ∧ b'.line = 0 ∧ b'.unlined = b.unlined := by
  obtain ⟨l, nodes⟩ := b
  have hnodes : Node.allRegular (fun _ => true) (fun _ => true) nodes = true := by
    simpa [Block.isRegular] using h
  have hstarts : Parser.Starts (Block.lexemes (.mk l nodes)) ts [] := hts ▸ Parser.starts_self ts
  rw [Block.lexemes] at hstarts
  obtain ⟨ms, ⟨le, hms⟩, hunlined⟩ :=
    Parser.statements_of_operands (Parser.Operands.ofNodes nodes hnodes) (lastLine ts) ts [] rfl hstarts
  refine ⟨Block.unsigned_lexemes _ h, .mk 0 ms, ?_, rfl, by simp [Block.unlined, hunlined]⟩
  rw [Block.ofTokens, hms]
  rfl

/-- Numbers with a sign, a minus in front of a path, and a function. -/
theorem Block.ofTokens_lexemes_of_signs :
    let b : Block := .mk 0
      [.mk 0 (.op .neg [.mk 0 (.path false ["x"])]),
        .mk 1 (.function ["a", "b"] (.mk 1 [.mk 2 (.float (-0.0)), .mk 3 (.int (-3))]))]
    let ts : List Token := b.lexemes.map fun l => ⟨l, 5⟩
    b.isRegular (fun _ => true) (fun _ => true) = true ∧ ts.length = 27 ∧ Lexeme.Unsigned b.lexemes ∧
      ∃ b', Block.ofTokens ts = .ok b' ∧ b'.line = 0 ∧ b'.unlined = b.unlined := by
  intro b ts
  have hregular : b.isRegular (fun _ => true) (fun _ => true) = true := by decide
  have hts : ts.map Token.lexeme = b.lexemes := by
    rw [List.map_map]
    exact List.map_id _
  exact ⟨hregular, by decide, Block.ofTokens_lexemes hregular hts⟩

end Stepwise
