import Stepwise.Proofs.Readers

/-!
# `Stepwise.Proofs.Grammar`: the rules that the readers follow

The readers of `Stepwise.Tree.Parser` return what they have read with the tokens behind it and a proof that these
are fewer. Here every way in which a reader goes on is a rule: if the readers that it calls return their parts,
it returns the whole (`Gives`, `Leaves`). Proofs about what is read apply these rules and do not open the readers.

* An operand is an expression if nothing follows that would go on (`expression_of_primary`). Between the two
  stand the levels of the connectives: what is read at one level is read at every looser one (`binary_lower`),
  if no connective of these levels follows (`Above`).
* `atom?` says which tokens are an operand by themselves.
* What an expression starts with (`Begins`) is no bracket that closes and no semicolon, so a list or a block does
  not end in front of it (`commaList_of_items`, `statements_of_expression`).
-/

set_option autoImplicit false

namespace Stepwise

namespace Parser

/-! ### Results -/

/-- A reader returns a value and leaves tokens behind it. -/
def Gives {α : Type} {ts : List Token} (r : Except ParseError (Parsed α ts)) (a : α)
    (rest : List Token) : Prop :=
  ∃ lt, r = .ok ⟨a, rest, lt⟩

/-- A reader that may take no token returns a value and leaves tokens behind it. -/
def Leaves {α : Type} {ts : List Token} (r : Except ParseError (Passed α ts)) (a : α)
    (rest : List Token) : Prop :=
  ∃ le, r = .ok ⟨a, rest, le⟩

/-- What goes on after a result. -/
theorem ok_bind {ε α β : Type} (a : α) (k : α → Except ε β) : (Except.ok a >>= k) = k a :=
  rfl

theorem take_cons {α : Type} {p : Lexeme → Option α} {l : Lexeme} {a : α} (h : p l = some a)
    (line : Nat) (ts : List Token) :
    take p (⟨l, line⟩ :: ts) = some ⟨(a, line), ts, Nat.lt_succ_self _⟩ := by
  simp [take, h]

theorem take_cons_of_none {α : Type} {p : Lexeme → Option α} {l : Lexeme} (h : p l = none)
    (line : Nat) (ts : List Token) : take p (⟨l, line⟩ :: ts) = none := by
  simp [take, h]

theorem gives_expect {α : Type} {p : Lexeme → Option α} {l : Lexeme} {a : α} (h : p l = some a)
    (eof line : Nat) (fault : Option Lexeme → ParseFault) (ts : List Token) :
    Gives (expect eof p fault (⟨l, line⟩ :: ts)) (a, line) ts := by
  rw [expect, take_cons h]
  exact ⟨_, rfl⟩

/-- No symbol follows, so an expression ends here. -/
def Ends (rest : List Token) : Prop :=
  ∀ s, peek? rest ≠ some (.symbol s)

/-- An expression ends in front of every token that is no symbol. -/
theorem ends_cons {l : Lexeme} (h : ∀ s, l ≠ .symbol s) (line : Nat) (rest : List Token) :
    Ends (⟨l, line⟩ :: rest) := by
  intro s hs
  exact h s (Option.some.inj hs)

theorem Ends.take {rest : List Token} (h : Ends rest) {α : Type} (f : Symbol → Option α) :
    take (symbol? f) rest = none := by
  cases rest with
  | nil => rfl
  | cons t rest =>
      obtain ⟨l, line⟩ := t
      refine take_cons_of_none ?_ line rest
      cases l with
      | symbol s => exact absurd rfl (h s)
      | _ => rfl

/-- Whether statements end here: at a closing brace or at the end of the input. -/
def closesBlock (rest : List Token) : Bool :=
  (take (closes .curly) rest).isSome || rest.isEmpty

/-! ### One rule for each way to go on -/

section

variable {eof line : Nat} {ts mid tail rest : List Token} {l : Lexeme} {m left right : Node}

theorem expression_of_end (h : Gives (binary eof 0 ts) m rest)
    (hrest : take (symbol? Symbol.assignOp?) rest = none) : Gives (expression eof ts) m rest := by
  obtain ⟨lt, h⟩ := h
  refine ⟨lt, ?_⟩
  rw [expression, h, ok_bind]
  dsimp only
  rw [hrest]
  rfl

theorem expression_of_assignment {op : Op} (hleft : Gives (binary eof 0 ts) left (⟨l, line⟩ :: tail))
    (hl : symbol? Symbol.assignOp? l = some op) (hright : Gives (expression eof tail) right rest) :
    Gives (expression eof ts) (.mk line (.op op [left, right])) rest := by
  obtain ⟨lt, hleft⟩ := hleft
  obtain ⟨lt', hright⟩ := hright
  rw [expression, hleft, ok_bind]
  dsimp only
  rw [take_cons hl]
  dsimp only
  rw [hright, ok_bind]
  exact ⟨_, rfl⟩

theorem binary_of_tail {level : Nat} (hlevel : level < 6) (hleft : Gives (binary eof (level + 1) ts) left mid)
    (htail : Leaves (binaryTail eof level left mid) m rest) : Gives (binary eof level ts) m rest := by
  obtain ⟨lt, hleft⟩ := hleft
  obtain ⟨le, htail⟩ := htail
  rw [binary, if_pos hlevel, hleft, ok_bind]
  dsimp only
  rw [htail, ok_bind]
  exact ⟨_, rfl⟩

theorem binaryTail_of_end {level : Nat} (h : take (connective? level) ts = none) :
    Leaves (binaryTail eof level left ts) left ts := by
  rw [binaryTail, h]
  exact ⟨_, rfl⟩

theorem binaryTail_of_connective {level : Nat} {c : Connective} (hl : connective? level l = some c)
    (hright : Gives (binary eof (level + 1) tail) right mid)
    (htail : Leaves (binaryTail eof level (.mk line (c.form left right)) mid) m rest) :
    Leaves (binaryTail eof level left (⟨l, line⟩ :: tail)) m rest := by
  obtain ⟨lt, hright⟩ := hright
  obtain ⟨le, htail⟩ := htail
  rw [binaryTail, take_cons hl]
  dsimp only
  rw [hright, ok_bind]
  dsimp only
  rw [htail, ok_bind]
  exact ⟨_, rfl⟩

theorem unary_of_operator {op : Op} (hl : symbol? Symbol.unaryOp? l = some op)
    (h : Gives (unary eof tail) m rest) :
    Gives (unary eof (⟨l, line⟩ :: tail)) (.mk line (unaryForm op m)) rest := by
  obtain ⟨lt, h⟩ := h
  rw [unary, take_cons hl]
  dsimp only
  rw [h, ok_bind]
  exact ⟨_, rfl⟩

theorem unary_of_suffixed (hts : take (symbol? Symbol.unaryOp?) ts = none)
    (h : Gives (suffixed eof ts) m rest) : Gives (unary eof ts) m rest := by
  rw [unary, hts]
  exact h

theorem suffixed_of_primary (h : Gives (primary eof ts) left mid)
    (htail : Leaves (suffixTail eof left mid) m rest) : Gives (suffixed eof ts) m rest := by
  obtain ⟨lt, h⟩ := h
  obtain ⟨le, htail⟩ := htail
  rw [suffixed, h, ok_bind]
  dsimp only
  rw [htail, ok_bind]
  exact ⟨_, rfl⟩

theorem suffixTail_of_end (h : take (symbol? Suffix.ofSymbol?) ts = none) :
    Leaves (suffixTail eof m ts) m ts := by
  rw [suffixTail, h]
  exact ⟨_, rfl⟩

theorem suffixTail_of_index (hl : symbol? Suffix.ofSymbol? l = some .index)
    (hkey : Gives (indexKey eof tail) right mid)
    (htail : Leaves (suffixTail eof (.mk line (.op .index [left, right])) mid) m rest) :
    Leaves (suffixTail eof left (⟨l, line⟩ :: tail)) m rest := by
  obtain ⟨lt, hkey⟩ := hkey
  obtain ⟨le, htail⟩ := htail
  rw [suffixTail, take_cons hl]
  dsimp only
  rw [hkey, ok_bind]
  dsimp only
  rw [htail, ok_bind]
  exact ⟨_, rfl⟩

theorem suffixTail_of_call (hl : symbol? Suffix.ofSymbol? l = some .call)
    (hargs : Gives (primary eof tail) right mid)
    (htail : Leaves (suffixTail eof (.mk line (.call left right)) mid) m rest) :
    Leaves (suffixTail eof left (⟨l, line⟩ :: tail)) m rest := by
  obtain ⟨lt, hargs⟩ := hargs
  obtain ⟨le, htail⟩ := htail
  rw [suffixTail, take_cons hl]
  dsimp only
  rw [hargs, ok_bind]
  dsimp only
  rw [htail, ok_bind]
  exact ⟨_, rfl⟩

theorem indexKey_of_primary (hts : take (symbol? Symbol.unaryOp?) ts = none)
    (h : Gives (primary eof ts) m rest) : Gives (indexKey eof ts) m rest := by
  rw [indexKey, hts]
  exact h

theorem primary_of_word {w : String} {form : Form} (h : Leaves (word eof w ts) form rest) :
    Gives (primary eof (⟨.word w, line⟩ :: ts)) (.mk line form) rest := by
  obtain ⟨le, h⟩ := h
  rw [primary, take_cons (p := some) rfl]
  dsimp only
  rw [h, ok_bind]
  exact ⟨_, rfl⟩

theorem word_of_literal {w : String} {form : Form} (h : Literal.ofWord? w = some form) :
    Leaves (word eof w ts) form ts := by
  rw [word, h]
  exact ⟨_, rfl⟩

theorem word_of_name {w : String} (hliteral : Literal.ofWord? w = none)
    (hkeyword : Keyword.ofWord? w = none) (hop : Op.builtin? w = none) :
    Leaves (word eof w ts) (.path false [w]) ts := by
  rw [word, hliteral, hkeyword, hop]
  exact ⟨_, rfl⟩

theorem primary_of_round {close : Nat}
    (h : Gives (expression eof ts) m (⟨.closing .round, close⟩ :: rest)) :
    Gives (primary eof (⟨.opening .round, line⟩ :: ts)) m rest := by
  obtain ⟨lt, h⟩ := h
  have hclose : closes .round (.closing .round) = some () := rfl
  obtain ⟨lt', hexpect⟩ := gives_expect hclose eof close (.expectedBracket ')') rest
  rw [primary, take_cons (p := some) rfl]
  dsimp only
  rw [h, ok_bind]
  dsimp only
  rw [hexpect, ok_bind]
  exact ⟨_, rfl⟩

theorem primary_of_square {items : List Node} (h : Gives (commaList eof .square ts) items rest) :
    Gives (primary eof (⟨.opening .square, line⟩ :: ts)) (.mk line (.list items)) rest := by
  obtain ⟨lt, h⟩ := h
  rw [primary, take_cons (p := some) rfl]
  dsimp only
  rw [h, ok_bind]
  exact ⟨_, rfl⟩

theorem primary_of_curly {body : Block} (h : Gives (blockBody eof line ts) body rest) :
    Gives (primary eof (⟨.opening .curly, line⟩ :: ts)) (.mk line (.block body)) rest := by
  obtain ⟨lt, h⟩ := h
  rw [primary, take_cons (p := some) rfl]
  dsimp only
  rw [h, ok_bind]
  exact ⟨_, rfl⟩

theorem block_of_curly {body : Block} (h : Gives (blockBody eof line ts) body rest) :
    Gives (Parser.block eof (⟨.opening .curly, line⟩ :: ts)) body rest := by
  have hopen : opens .curly (.opening .curly) = some () := rfl
  obtain ⟨lt, h⟩ := h
  obtain ⟨lt', hexpect⟩ :=
    gives_expect hopen eof line (.expectedBracket Bracket.curly.openChar) ts
  rw [Parser.block, hexpect, ok_bind]
  dsimp only
  rw [h, ok_bind]
  exact ⟨_, rfl⟩

theorem blockBody_of_statements {close : Nat} {nodes : List Node}
    (h : Leaves (statements eof ts) nodes (⟨.closing .curly, close⟩ :: rest)) :
    Gives (blockBody eof line ts) (.mk line nodes) rest := by
  have hclose : closes .curly (.closing .curly) = some () := rfl
  obtain ⟨le, h⟩ := h
  obtain ⟨lt', hexpect⟩ :=
    gives_expect hclose eof close (.expectedBracket Bracket.curly.closeChar) rest
  rw [blockBody, h, ok_bind]
  dsimp only
  rw [hexpect, ok_bind]
  exact ⟨_, rfl⟩

theorem word_of_keyword {w : String} {k : Keyword} {args : Args k.shapes}
    (hliteral : Literal.ofWord? w = none) (hk : Keyword.ofWord? w = some k)
    (h : Leaves (arguments eof w k.shapes ts) args rest) :
    Leaves (word eof w ts) (k.form args) rest := by
  obtain ⟨le, h⟩ := h
  rw [word, hliteral, hk]
  dsimp only
  rw [h, ok_bind]
  exact ⟨_, rfl⟩

theorem word_of_builtin {w : String} {op : Op} {args : Args (List.replicate op.arity .value)}
    (hliteral : Literal.ofWord? w = none) (hkeyword : Keyword.ofWord? w = none)
    (hop : Op.builtin? w = some op)
    (h : Leaves (arguments eof w (List.replicate op.arity .value) ts) args rest) :
    Leaves (word eof w ts) (.op op (Args.nodes op.arity args)) rest := by
  obtain ⟨le, h⟩ := h
  rw [word, hliteral, hkeyword, hop]
  dsimp only
  rw [h, ok_bind]
  exact ⟨_, rfl⟩

/-- A built-in without arguments takes an empty pair of parentheses. -/
theorem arguments_of_pair {w : String} {close : Nat} :
    Leaves (arguments eof w [] (⟨.opening .round, line⟩ :: ⟨.closing .round, close⟩ :: rest)) () rest := by
  have hopen : opens .round (.opening .round) = some () := rfl
  have hclose : closes .round (.closing .round) = some () := rfl
  rw [arguments, take_cons hopen]
  dsimp only
  rw [take_cons hclose]
  exact ⟨_, rfl⟩

/-- Arguments in parentheses. -/
theorem arguments_of_commaList {w : String} {s : Shape} {shapes : List Shape} {nodes : List Node}
    {args : Args (s :: shapes)}
    (h : Gives (commaList eof .round tail) nodes rest) (hlen : nodes.length = (s :: shapes).length)
    (hargs : convertAll (s :: shapes) nodes hlen = .ok args) :
    Leaves (arguments eof w (s :: shapes) (⟨.opening .round, line⟩ :: tail)) args rest := by
  have hopen : opens .round (.opening .round) = some () := rfl
  obtain ⟨lt, h⟩ := h
  rw [arguments, take_cons hopen]
  dsimp only
  rw [h, ok_bind]
  dsimp only
  rw [dif_pos hlen, hargs, ok_bind]
  exact ⟨_, rfl⟩

theorem arguments_of_juxtaposed {w : String} {s : Shape} {shapes : List Shape} {args : Args (s :: shapes)}
    (hts : take (opens .round) ts = none) (h : Leaves (juxtaposed eof (s :: shapes) ts) args rest) :
    Leaves (arguments eof w (s :: shapes) ts) args rest := by
  rw [arguments, hts]
  exact h

/-- The first argument in parentheses, and the others behind it. -/
theorem arguments_of_first {w : String} {s : Shape} {shapes : List Shape} {arg : s.Arg} {args : Args shapes}
    (h : Gives (commaList eof .round tail) [m] mid) (hlen : [m].length ≠ (s :: shapes).length)
    (harg : convert m s = .ok arg) (hargs : Leaves (juxtaposed eof shapes mid) args rest) :
    Leaves (arguments eof w (s :: shapes) (⟨.opening .round, line⟩ :: tail)) (arg, args) rest := by
  have hopen : opens .round (.opening .round) = some () := rfl
  obtain ⟨lt, h⟩ := h
  obtain ⟨le, hargs⟩ := hargs
  rw [arguments, take_cons hopen]
  dsimp only
  rw [h, ok_bind]
  dsimp only
  rw [dif_neg hlen, harg, ok_bind, hargs, ok_bind]
  exact ⟨_, rfl⟩

theorem juxtaposed_of_argument {s : Shape} {shapes : List Shape} {arg : s.Arg} {args : Args shapes}
    (h : Gives (argument eof s (shapes.contains .value) ts) arg mid)
    (hargs : Leaves (juxtaposed eof shapes mid) args rest) :
    Leaves (juxtaposed eof (s :: shapes) ts) (arg, args) rest := by
  obtain ⟨lt, h⟩ := h
  obtain ⟨le, hargs⟩ := hargs
  rw [juxtaposed, h, ok_bind]
  dsimp only
  rw [hargs, ok_bind]
  exact ⟨_, rfl⟩

theorem juxtaposed_nil : Leaves (juxtaposed eof [] ts) () ts := by
  rw [juxtaposed]
  exact ⟨_, rfl⟩

theorem commaItems_of_comma {b : Bracket} {items : List Node}
    (h : Gives (expression eof ts) m (⟨.comma, line⟩ :: tail))
    (hitems : Gives (commaItems eof b tail) items rest) : Gives (commaItems eof b ts) (m :: items) rest := by
  obtain ⟨lt, h⟩ := h
  obtain ⟨lt', hitems⟩ := hitems
  rw [commaItems, h, ok_bind]
  dsimp only
  rw [take_cons (p := comma?) rfl]
  dsimp only
  rw [hitems, ok_bind]
  exact ⟨_, rfl⟩

theorem commaItems_of_close {b : Bracket} (h : Gives (expression eof ts) m (⟨.closing b, line⟩ :: rest)) :
    Gives (commaItems eof b ts) [m] rest := by
  have hclose : closes b (.closing b) = some () := by simp [closes]
  obtain ⟨lt, h⟩ := h
  obtain ⟨lt', hexpect⟩ := gives_expect hclose eof line (listFault b) rest
  rw [commaItems, h, ok_bind]
  dsimp only
  rw [take_cons_of_none (p := comma?) rfl]
  dsimp only
  rw [hexpect, ok_bind]
  exact ⟨_, rfl⟩

theorem commaList_of_close {b : Bracket} :
    Gives (commaList eof b (⟨.closing b, line⟩ :: rest)) [] rest := by
  have hclose : closes b (.closing b) = some () := by simp [closes]
  rw [commaList, take_cons hclose]
  exact ⟨_, rfl⟩

theorem statements_of_end (h : closesBlock ts = true) : Leaves (statements eof ts) [] ts := by
  rw [statements]
  exact ⟨Nat.le_refl _, if_pos h⟩

end

/-! ### From an operand to an expression -/

/-- Whether an operand can start with a lexeme. -/
def startsOperand : Lexeme → Bool
  | .symbol _ | .closing _ | .comma | .semicolon => false
  | _ => true

theorem exists_head_of_primary {eof : Nat} {ts rest : List Token} {m : Node}
    (h : Gives (primary eof ts) m rest) :
    ∃ l line tail, ts = ⟨l, line⟩ :: tail ∧ startsOperand l = true := by
  obtain ⟨lt, h⟩ := h
  cases ts with
  | nil => simp at lt
  | cons t tail =>
      obtain ⟨l, line⟩ := t
      refine ⟨l, line, tail, rfl, ?_⟩
      rw [primary, take_cons (p := some) rfl] at h
      cases l with
      -- Each lexeme that starts no operand is refused at once.
      | symbol s => cases h
      | closing b => cases h
      | comma => cases h
      | semicolon => cases h
      | _ => rfl

/-- No operator stands in front of an operand. -/
theorem take_unaryOp_of_primary {eof : Nat} {ts rest : List Token} {m : Node}
    (h : Gives (primary eof ts) m rest) : take (symbol? Symbol.unaryOp?) ts = none := by
  obtain ⟨l, line, tail, rfl, hl⟩ := exists_head_of_primary h
  refine take_cons_of_none ?_ line tail
  cases l with
  | symbol s => cases hl
  | _ => rfl

theorem unary_of_primary {eof : Nat} {ts rest : List Token} {m : Node}
    (h : Gives (primary eof ts) m rest) (hrest : take (symbol? Suffix.ofSymbol?) rest = none) :
    Gives (unary eof ts) m rest := by
  have hhead : take (symbol? Symbol.unaryOp?) ts = none := take_unaryOp_of_primary h
  exact unary_of_suffixed hhead (suffixed_of_primary h (suffixTail_of_end hrest))

/-- No connective of a level from `level` on follows. -/
def Above (level : Nat) (rest : List Token) : Prop :=
  ∀ k, level ≤ k → take (connective? k) rest = none

theorem binary_of_binary_succ {eof level : Nat} {ts rest : List Token} {m : Node}
    (h : Gives (binary eof (level + 1) ts) m rest) (hlevel : level < 6)
    (hrest : take (connective? level) rest = none) : Gives (binary eof level ts) m rest :=
  binary_of_tail hlevel h (binaryTail_of_end hrest)

/-- What is read at one level is read at every looser one if no connective follows that would go on. -/
theorem binary_lower {eof level k : Nat} {ts rest : List Token} {m : Node} (hle : level ≤ k)
    (hk : k ≤ 6) (h : Gives (binary eof k ts) m rest) (hrest : Above level rest) :
    Gives (binary eof level ts) m rest := by
  induction hle with
  | refl => exact h
  | step hle ih =>
      exact ih (by omega) (binary_of_binary_succ h (by omega) (hrest _ hle))

theorem binary_of_unary {eof level : Nat} {ts rest : List Token} {m : Node} (hlevel : level ≤ 6)
    (h : Gives (unary eof ts) m rest) (hrest : Above level rest) :
    Gives (binary eof level ts) m rest := by
  have htop : Gives (binary eof 6 ts) m rest := by
    rw [binary, if_neg (by decide)]
    exact h
  exact binary_lower hlevel (Nat.le_refl 6) htop hrest

theorem expression_of_binary {eof : Nat} {ts rest : List Token} {m : Node}
    (h : Gives (binary eof 0 ts) m rest) (hrest : Ends rest) : Gives (expression eof ts) m rest :=
  expression_of_end h (hrest.take _)

theorem Ends.above {rest : List Token} (h : Ends rest) (level : Nat) : Above level rest :=
  fun _ _ => h.take _

theorem expression_of_unary {eof : Nat} {ts rest : List Token} {m : Node}
    (h : Gives (unary eof ts) m rest) (hrest : Ends rest) : Gives (expression eof ts) m rest :=
  expression_of_binary (binary_of_unary (Nat.zero_le 6) h (hrest.above 0)) hrest

theorem expression_of_primary {eof : Nat} {ts rest : List Token} {m : Node}
    (h : Gives (primary eof ts) m rest) (hrest : Ends rest) : Gives (expression eof ts) m rest :=
  expression_of_unary (unary_of_primary h (hrest.take _)) hrest

/-! ### Connectives and assignments -/

section

variable {s : Symbol} {c : Connective}

theorem Connective.level_lt (c : Connective) : c.level < 6 := by
  cases c with
  | arith a => cases a <;> decide
  | _ => exact of_decide_eq_true rfl

theorem suffix_of_connective (hs : Connective.ofSymbol? s = some c) : Suffix.ofSymbol? s = none := by
  cases s with
  | colon => cases hs
  | arrow => cases hs
  | _ => rfl

theorem connective?_level (hs : Connective.ofSymbol? s = some c) :
    connective? c.level (.symbol s) = some c := by
  simp [connective?, symbol?, hs]

/-- The levels that are tighter than a connective end in front of it. -/
theorem above_of_connective (hs : Connective.ofSymbol? s = some c) (line : Nat) (tail : List Token) :
    Above (c.level + 1) (⟨.symbol s, line⟩ :: tail) := by
  intro k hk
  refine take_cons_of_none ?_ line tail
  have hne : c.level ≠ k := by omega
  simp [connective?, symbol?, hs, hne]

theorem suffix_of_assign {op : Op} (hs : s.assignOp? = some op) : Suffix.ofSymbol? s = none := by
  cases s with
  | colon => cases hs
  | arrow => cases hs
  | _ => rfl

/-- An assignment is no connective of any level, so its left side ends in front of it. -/
theorem above_of_assign {op : Op} (hs : s.assignOp? = some op) (line : Nat) (tail : List Token) :
    Above 0 (⟨.symbol s, line⟩ :: tail) := by
  intro k _
  refine take_cons_of_none ?_ line tail
  cases s with
  | assign => rfl
  | update a => rfl
  | _ => cases hs

end

/-! ### Operands of one token -/

/-- The form of a lexeme that is an operand by itself: a literal or the name of a variable. -/
def atom? : Lexeme → Option Form
  | .int n => some (.int n)
  | .float x => some (.float x)
  | .str s => some (.str s)
  | .path global names => some (.path global names)
  | .word w =>
    match Literal.ofWord? w, Keyword.ofWord? w, Op.builtin? w with
    | some form, _, _ => some form
    | none, none, none => some (.path false [w])
    | _, _, _ => none
  | _ => none

theorem primary_of_atom {l : Lexeme} {form : Form} (h : atom? l = some form) (eof line : Nat) (rest : List Token) :
    Gives (primary eof (⟨l, line⟩ :: rest)) (.mk line form) rest := by
  cases l with
  -- A word may be a literal; the name of a variable is neither a keyword nor a built-in.
  | word w =>
      refine primary_of_word ?_
      simp only [atom?] at h
      split at h
      · rename_i hliteral
        cases h
        exact word_of_literal hliteral
      · rename_i hliteral hkeyword hbuiltin
        cases h
        exact word_of_name hliteral hkeyword hbuiltin
      · cases h
  | int n =>
      cases h
      rw [primary, take_cons (p := some) rfl]
      exact ⟨_, rfl⟩
  | float x =>
      cases h
      rw [primary, take_cons (p := some) rfl]
      exact ⟨_, rfl⟩
  | str s =>
      cases h
      rw [primary, take_cons (p := some) rfl]
      exact ⟨_, rfl⟩
  | path global names =>
      cases h
      rw [primary, take_cons (p := some) rfl]
      exact ⟨_, rfl⟩
  | _ => cases h

/-- A token that is an operand by itself, and what it is read as. -/
structure Atom where
  lexeme : Lexeme
  line : Nat
  form : Form
  reads : atom? lexeme = some form

namespace Atom

def token (a : Atom) : Token :=
  ⟨a.lexeme, a.line⟩

def node (a : Atom) : Node :=
  .mk a.line a.form

end Atom

/-! ### Where an expression starts -/

/-- Whether an expression can start with a lexeme: an operand can, or it is an operator in front of one. -/
def startsExpression (l : Lexeme) : Bool :=
  startsOperand l || (symbol? Symbol.unaryOp? l).isSome

/-- Tokens start with one that an expression can start with. -/
def Begins (ts : List Token) : Prop :=
  ∃ l line tail, ts = ⟨l, line⟩ :: tail ∧ startsExpression l = true

theorem Begins.take {ts : List Token} {α : Type} {p : Lexeme → Option α} (h : Begins ts)
    (hp : ∀ l, startsExpression l = true → p l = none) : take p ts = none := by
  obtain ⟨l, line, tail, rfl, hl⟩ := h
  exact take_cons_of_none (hp l hl) line tail

/-- A token that is taken stands in front. -/
theorem eq_cons_of_take {α : Type} {p : Lexeme → Option α} {ts rest : List Token} {a : α} {line : Nat}
    {lt : rest.length < ts.length} (h : take p ts = some ⟨(a, line), rest, lt⟩) :
    ∃ l, ts = ⟨l, line⟩ :: rest ∧ p l = some a := by
  cases ts with
  | nil => cases h
  | cons t tail =>
      obtain ⟨b, hb, hr⟩ := Option.map_eq_some_iff.mp h
      cases hr
      exact ⟨t.lexeme, rfl, hb⟩

theorem primary_begins (eof : Nat) (ts : List Token) : Returns (fun _ => Begins ts) (primary eof ts) := by
  rintro ⟨m, rest, lt⟩ h
  obtain ⟨l, line, tail, hts, hl⟩ := exists_head_of_primary ⟨lt, h⟩
  exact ⟨l, line, tail, hts, by simp [startsExpression, hl]⟩

theorem unary_begins (eof : Nat) (ts : List Token) : Returns (fun _ => Begins ts) (unary eof ts) := by
  rw [unary]
  split
  · rw [suffixed]
    exact (primary_begins eof ts).bind fun _ hbegins _ _ => hbegins
  · rename_i op line rest lt htake
    obtain ⟨l, hts, hl⟩ := eq_cons_of_take htake
    intro _ _
    exact ⟨l, line, rest, hts, by simp [startsExpression, hl]⟩

theorem binary_begins (eof level : Nat) (ts : List Token) :
    Returns (fun _ => Begins ts) (binary eof level ts) := by
  rw [binary]
  split
  · exact (binary_begins eof (level + 1) ts).bind fun _ hbegins _ _ => hbegins
  · exact unary_begins eof ts
termination_by 6 - level

theorem expression_begins (eof : Nat) (ts : List Token) :
    Returns (fun _ => Begins ts) (expression eof ts) := by
  rw [expression]
  exact (binary_begins eof 0 ts).bind fun _ hbegins _ _ => hbegins

theorem Gives.begins {eof : Nat} {ts rest : List Token} {m : Node} (h : Gives (expression eof ts) m rest) :
    Begins ts := by
  obtain ⟨lt, h⟩ := h
  exact expression_begins eof ts _ h

theorem closes_of_startsExpression (b : Bracket) (l : Lexeme) (h : startsExpression l = true) :
    closes b l = none := by
  cases l with
  | closing b' => cases h
  | _ => rfl

theorem semicolon_of_startsExpression (l : Lexeme) (h : startsExpression l = true) :
    semicolon? l = none := by
  cases l with
  | semicolon => cases h
  | _ => rfl

/-- A minus goes on after an operand, but no expression starts with a symbol that stands behind one. -/
theorem suffix_of_startsExpression (l : Lexeme) (h : startsExpression l = true) :
    symbol? Suffix.ofSymbol? l = none := by
  cases l with
  | symbol s =>
      cases s with
      | colon => cases h
      | arrow => cases h
      | _ => rfl
  | _ => rfl

theorem commaItems_begins (eof : Nat) (b : Bracket) (ts : List Token) :
    Returns (fun _ => Begins ts) (commaItems eof b ts) := by
  rw [commaItems]
  exact (expression_begins eof ts).bind fun _ hbegins _ _ => hbegins

theorem commaList_of_items {eof : Nat} {b : Bracket} {ts rest : List Token} {items : List Node}
    (h : Gives (commaItems eof b ts) items rest) : Gives (commaList eof b ts) items rest := by
  obtain ⟨lt, h⟩ := h
  have hopen : take (closes b) ts = none :=
    (commaItems_begins eof b ts _ h).take (closes_of_startsExpression b)
  rw [commaList, hopen]
  exact ⟨lt, h⟩

/-- A statement and those behind it. -/
theorem statements_of_expression {eof line : Nat} {ts tail rest : List Token} {m : Node} {nodes : List Node}
    (h : Gives (expression eof ts) m (⟨.semicolon, line⟩ :: tail))
    (hnodes : Leaves (statements eof tail) nodes rest) : Leaves (statements eof ts) (m :: nodes) rest := by
  -- What starts an expression is neither the end of the block nor an empty statement.
  have hbrace : take (closes .curly) ts = none := h.begins.take (closes_of_startsExpression .curly)
  have hfull : take semicolon? ts = none := h.begins.take semicolon_of_startsExpression
  have hsome : ts.isEmpty = false := by
    obtain ⟨l, line', tail', rfl, -⟩ := h.begins
    rfl
  obtain ⟨lt, h⟩ := h
  obtain ⟨le, hnodes⟩ := hnodes
  rw [statements, hbrace, hfull, hsome, if_neg (by simp), if_neg (by simp), h, ok_bind]
  dsimp only
  rw [take_cons (p := semicolon?) rfl]
  dsimp only
  rw [hnodes, ok_bind]
  exact ⟨_, rfl⟩

end Parser

end Stepwise
