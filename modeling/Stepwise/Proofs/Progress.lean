import Stepwise.Proofs.Locality

/-!
# `Stepwise.Proofs.Progress`: parsing moves on and ends

A reader takes tokens off the front, so what it leaves is its token list from a later position on. This is what
`Stepwise.Proofs.Locality` says of each reader; `Advances` and `Stays` say it of positions.

That the readers end is a fact about how they call each other. `Reading` is one such call. What a reader does
is written once more in `Reading.unfolded`, with the calls that it makes left open, and the readers are what
fills them in (`Reading.read_eq_unfolded`). A reader asks only for calls below its own (`Reading.Below`): with fewer
tokens, or with as many at a lower rank of the grammar. So two ways to fill the calls in agree at a call if they
agree below it (`Reading.unfolded_congr`, from one lemma for each reader), and the readers can be unrolled to a
depth that the tokens and the rank bound, after which nothing is asked any more (`Reading.unrolled_eq_read`).
-/

set_option autoImplicit false

namespace Stepwise

namespace Parser

/-! ### Results on fewer tokens -/

section Widening

variable {α β : Type} {ts rest : List Token}

/-- What was read from the rest of some tokens, as read from all of them. -/
def Parsed.widen (r : Parsed α rest) (lt : rest.length < ts.length) : Parsed α ts :=
  ⟨r.value, r.rest, Nat.lt_trans r.lt lt⟩

/-- The same for a reader that may have taken no token of the rest. -/
def Passed.widen (r : Passed α rest) (lt : rest.length < ts.length) : Parsed α ts :=
  ⟨r.value, r.rest, Nat.lt_of_le_of_lt r.le lt⟩

/-- What was read behind a result, as read from all tokens. -/
def Passed.upTo (r : Passed β ts) (r' : Parsed α r.rest) : Parsed α ts :=
  ⟨r'.value, r'.rest, Nat.lt_of_lt_of_le r'.lt r.le⟩

theorem length_le_self (ts : List Token) : ts.length ≤ ts.length :=
  Nat.le_refl _

/-- A value for which no token is taken. -/
def Passed.stay (a : α) : Passed α ts :=
  ⟨a, ts, length_le_self ts⟩

/-- Forgets that a token was taken. -/
def Parsed.passed (r : Parsed α ts) : Passed α ts :=
  ⟨r.value, r.rest, Nat.le_of_lt r.lt⟩

/-- A result with another value. -/
def Parsed.map (f : α → β) (r : Parsed α ts) : Parsed β ts :=
  ⟨f r.value, r.rest, r.lt⟩

def Passed.map (f : α → β) (r : Passed α ts) : Passed β ts :=
  ⟨f r.value, r.rest, r.le⟩

end Widening

/-! ### The recursion -/

/-- A call of one of the readers: which one, with what, and on which tokens. -/
inductive Reading where
  | expression (ts : List Token)
  | binary (level : Nat) (ts : List Token)
  | binaryTail (level : Nat) (left : Node) (ts : List Token)
  | unary (ts : List Token)
  | suffixed (ts : List Token)
  | suffixTail (node : Node) (ts : List Token)
  | indexKey (ts : List Token)
  | primary (ts : List Token)
  | word (w : String) (ts : List Token)
  | arguments (name : String) (shapes : List Shape) (ts : List Token)
  | juxtaposed (shapes : List Shape) (ts : List Token)
  | argument (s : Shape) (more : Bool) (ts : List Token)
  | commaList (b : Bracket) (ts : List Token)
  | commaItems (b : Bracket) (ts : List Token)
  | block (ts : List Token)
  | blockBody (line : Nat) (ts : List Token)
  | statements (ts : List Token)

namespace Reading

/-- What a call returns. -/
@[reducible] def Result : Reading → Type
  | expression ts | binary _ ts | unary ts | suffixed ts | indexKey ts | primary ts => Parsed Node ts
  | binaryTail _ _ ts | suffixTail _ ts => Passed Node ts
  | word _ ts => Passed Form ts
  | arguments _ shapes ts | juxtaposed shapes ts => Passed (Args shapes) ts
  | argument s _ ts => Parsed s.Arg ts
  | commaList _ ts | commaItems _ ts => Parsed (List Node) ts
  | block ts | blockBody _ ts => Parsed Block ts
  | statements ts => Passed (List Node) ts

/-- Answers to all calls. -/
abbrev Answers : Type :=
  (c : Reading) → Except ParseError c.Result

/-- The answers that the readers give. -/
def read (eof : Nat) : Answers
  | expression ts => Parser.expression eof ts
  | binary level ts => Parser.binary eof level ts
  | binaryTail level left ts => Parser.binaryTail eof level left ts
  | unary ts => Parser.unary eof ts
  | suffixed ts => Parser.suffixed eof ts
  | suffixTail node ts => Parser.suffixTail eof node ts
  | indexKey ts => Parser.indexKey eof ts
  | primary ts => Parser.primary eof ts
  | word w ts => Parser.word eof w ts
  | arguments name shapes ts => Parser.arguments eof name shapes ts
  | juxtaposed shapes ts => Parser.juxtaposed eof shapes ts
  | argument s more ts => Parser.argument eof s more ts
  | commaList b ts => Parser.commaList eof b ts
  | commaItems b ts => Parser.commaItems eof b ts
  | block ts => Parser.block eof ts
  | blockBody line ts => Parser.blockBody eof line ts
  | statements ts => Parser.statements eof ts

/-- The number of tokens that a call has in front of it. -/
def remaining : Reading → Nat
  | expression ts | binary _ ts | binaryTail _ _ ts | unary ts | suffixed ts | suffixTail _ ts
  | indexKey ts | primary ts | word _ ts | arguments _ _ ts | juxtaposed _ ts | argument _ _ ts
  | commaList _ ts | commaItems _ ts | block ts | blockBody _ ts | statements ts => ts.length

/-- The rank of a reader in the grammar; a tighter level of connectives is of a lower rank. -/
def rank : Reading → Nat
  | binaryTail .. | suffixTail .. | primary .. | block .. => 0
  | suffixed .. => 1
  | unary .. => 2
  | indexKey .. => 3
  | binary level _ => 3 + (6 - level)
  | expression .. => 10
  | argument .. | commaItems .. | statements .. => 11
  | juxtaposed .. | commaList .. | blockBody .. => 12
  | arguments .. => 13
  | word .. => 14

/-- A call with fewer tokens, or with as many at a lower rank. -/
def Below (c' c : Reading) : Prop :=
  Prod.Lex (· < ·) (· < ·) (c'.remaining, c'.rank) (c.remaining, c.rank)

/-- What a reader does, where the readers that it calls give the answers of `ask`. -/
def unfolded (eof : Nat) (ask : Answers) : Answers
  | expression ts => do
    let ⟨target, rest, lt⟩ ← ask (.binary 0 ts)
    match take (symbol? Symbol.assignOp?) rest with
    | none => return ⟨target, rest, lt⟩
    | some ⟨(op, line), rest, lt'⟩ =>
      let value ← ask (.expression rest)
      return ((value.map fun value => .mk line (.op op [target, value])).widen lt').widen lt
  | binary level ts => do
    if level < 6 then
      let ⟨left, rest, lt⟩ ← ask (.binary (level + 1) ts)
      let node ← ask (.binaryTail level left rest)
      return node.widen lt
    else
      ask (.unary ts)
  | binaryTail level left ts => do
    match take (connective? level) ts with
    | none => return .stay left
    | some ⟨(c, line), rest, lt⟩ =>
      let ⟨right, rest, lt'⟩ ← ask (.binary (level + 1) rest)
      let node ← ask (.binaryTail level (.mk line (c.form left right)) rest)
      return ((node.widen lt').widen lt).passed
  | unary ts => do
    match take (symbol? Symbol.unaryOp?) ts with
    | none => ask (.suffixed ts)
    | some ⟨(op, line), rest, lt⟩ =>
      let operand ← ask (.unary rest)
      return (operand.map fun operand => .mk line (unaryForm op operand)).widen lt
  | suffixed ts => do
    let ⟨node, rest, lt⟩ ← ask (.primary ts)
    let node ← ask (.suffixTail node rest)
    return node.widen lt
  | suffixTail node ts => do
    match take (symbol? Suffix.ofSymbol?) ts with
    | none => return .stay node
    | some ⟨(.index, line), rest, lt⟩ =>
      let ⟨key, rest, lt'⟩ ← ask (.indexKey rest)
      let node ← ask (.suffixTail (.mk line (.op .index [node, key])) rest)
      return ((node.widen lt').widen lt).passed
    | some ⟨(.call, line), rest, lt⟩ =>
      let ⟨args, rest, lt'⟩ ← ask (.primary rest)
      let node ← ask (.suffixTail (.mk line (.call node args)) rest)
      return ((node.widen lt').widen lt).passed
  | indexKey ts =>
    match take (symbol? Symbol.unaryOp?) ts with
    | none => ask (.primary ts)
    | some _ => ask (.unary ts)
  | primary ts => do
    match take some ts with
    | none => .error ⟨.unexpected none, eof⟩
    | some ⟨(lexeme, line), rest, lt⟩ =>
      match lexeme with
      | .int n => return ⟨.mk line (.int n), rest, lt⟩
      | .float x => return ⟨.mk line (.float x), rest, lt⟩
      | .str s => return ⟨.mk line (.str s), rest, lt⟩
      | .path global names => return ⟨.mk line (.path global names), rest, lt⟩
      | .word w =>
        let form ← ask (.word w rest)
        return (form.map (.mk line)).widen lt
      | .opening .round =>
        let ⟨node, rest, lt'⟩ ← ask (.expression rest)
        let close ← expect eof (closes .round) (.expectedBracket ')') rest
        return ((close.map fun _ => node).widen lt').widen lt
      | .opening .square =>
        let items ← ask (.commaList .square rest)
        return (items.map fun items => .mk line (.list items)).widen lt
      | .opening .curly =>
        let body ← ask (.blockBody line rest)
        return (body.map fun body => .mk line (.block body)).widen lt
      | .symbol s => .error ⟨.unexpected (some (.symbol s)), line⟩
      | .closing b => .error ⟨.unexpected (some (.closing b)), line⟩
      | .comma => .error ⟨.unexpected (some .comma), line⟩
      | .semicolon => .error ⟨.unexpected (some .semicolon), line⟩
  | word w ts => do
    match Literal.ofWord? w, Keyword.ofWord? w, Op.builtin? w with
    | some form, _, _ => return .stay form
    | none, some k, _ =>
      let args ← ask (.arguments w k.shapes ts)
      return args.map k.form
    | none, none, some op =>
      let args ← ask (.arguments w (List.replicate op.arity .value) ts)
      return args.map fun args => .op op (Args.nodes op.arity args)
    | none, none, none => return .stay (.path false [w])
  | arguments name shapes ts =>
    match shapes, take (opens .round) ts with
    | [], none => .ok (.stay ())
    | [], some ⟨_, rest, lt⟩ =>
      match take (closes .round) rest with
      | none => .ok (.stay ())
      | some ⟨_, rest, lt'⟩ => .ok (Parsed.widen ⟨(), rest, lt'⟩ lt).passed
    | s :: shapes, none => ask (.juxtaposed (s :: shapes) ts)
    | s :: shapes, some ⟨(_, line), rest, lt⟩ => do
      let list ← ask (.commaList .round rest)
      if h : list.value.length = (s :: shapes).length then
        let args ← convertAll (s :: shapes) list.value h
        return ((list.map fun _ => args).widen lt).passed
      else
        match list.value with
        | [node] =>
          let arg ← convert node s
          let args ← ask (.juxtaposed shapes list.rest)
          return (((args.map (arg, ·)).widen list.lt).widen lt).passed
        | nodes => .error ⟨.wrongArgumentCount name (s :: shapes).length nodes.length, line⟩
  | juxtaposed shapes ts =>
    match shapes with
    | [] => .ok (.stay ())
    | s :: shapes => do
      let ⟨arg, rest, lt⟩ ← ask (.argument s (shapes.contains .value) ts)
      let args ← ask (.juxtaposed shapes rest)
      return ((args.map (arg, ·)).widen lt).passed
  | argument s more ts =>
    match s with
    | .value => if more then ask (.unary ts) else ask (.expression ts)
    | .block => ask (.block ts)
    | .param => do
      let ⟨node, rest, lt⟩ ← ask (.primary ts)
      let name ← convert node .param
      return ⟨name, rest, lt⟩
    | .params => do
      let ⟨node, rest, lt⟩ ← ask (.primary ts)
      let names ← convert node .params
      return ⟨names, rest, lt⟩
  | commaList b ts =>
    match take (closes b) ts with
    | some ⟨_, rest, lt⟩ => .ok ⟨[], rest, lt⟩
    | none => ask (.commaItems b ts)
  | commaItems b ts => do
    let ⟨item, rest, lt⟩ ← ask (.expression ts)
    match take comma? rest with
    | some ⟨_, rest, lt'⟩ =>
      let items ← ask (.commaItems b rest)
      return ((items.map (item :: ·)).widen lt').widen lt
    | none =>
      let close ← expect eof (closes b) (listFault b) rest
      return (close.map fun _ => [item]).widen lt
  | block ts => do
    let ⟨(_, line), rest, lt⟩ ←
      expect eof (opens .curly) (.expectedBracket Bracket.curly.openChar) ts
    let body ← ask (.blockBody line rest)
    return body.widen lt
  | blockBody line ts => do
    let nodes ← ask (.statements ts)
    let close ← expect eof (closes .curly) (.expectedBracket Bracket.curly.closeChar) nodes.rest
    return nodes.upTo (close.map fun _ => .mk line nodes.value)
  | statements ts => do
    if (take (closes .curly) ts).isSome || ts.isEmpty then
      return .stay []
    else if (take semicolon? ts).isSome then
      .error ⟨.emptyStatement, lineOf eof ts⟩
    else
      let ⟨node, rest, lt⟩ ← ask (.expression ts)
      match take semicolon? rest with
      | none => .error ⟨.missingSemicolon, node.line⟩
      | some ⟨_, rest, lt'⟩ =>
        let nodes ← ask (.statements rest)
        return (((nodes.map (node :: ·)).widen lt').widen lt).passed

/-- The calls that a reader makes are answered by the readers. -/
theorem read_eq_unfolded (eof : Nat) (c : Reading) : c.read eof = c.unfolded eof (read eof) := by
  cases c with
  -- The readers call each other, so each equation is the one that Lean has for the whole group.
  | expression ts => exact Parser.expression.eq_def eof ts
  | binary level ts => exact Parser.binary.eq_def eof level ts
  | binaryTail level left ts => exact Parser.binaryTail.eq_def eof level left ts
  | unary ts => exact Parser.unary.eq_def eof ts
  | suffixed ts => exact Parser.suffixed.eq_def eof ts
  | suffixTail node ts => exact Parser.suffixTail.eq_def eof node ts
  | indexKey ts => exact Parser.indexKey.eq_def eof ts
  | primary ts => exact Parser.primary.eq_def eof ts
  | word w ts => exact Parser.word.eq_def eof w ts
  | arguments name shapes ts => exact Parser.arguments.eq_def eof name shapes ts
  | juxtaposed shapes ts => exact Parser.juxtaposed.eq_def eof shapes ts
  | argument s more ts => exact Parser.argument.eq_def eof s more ts
  | commaList b ts => exact Parser.commaList.eq_def eof b ts
  | commaItems b ts => exact Parser.commaItems.eq_def eof b ts
  | block ts => exact Parser.block.eq_def eof ts
  | blockBody line ts => exact Parser.blockBody.eq_def eof line ts
  | statements ts => exact Parser.statements.eq_def eof ts

/-- There is no endless descent of calls. -/
theorem wellFounded_below : WellFounded Below :=
  InvImage.wf (fun c : Reading => (c.remaining, c.rank)) (Prod.lex Nat.lt_wfRel Nat.lt_wfRel).wf

/-- Two families of answers that agree below a call. -/
def Agree (ask ask' : Answers) (c : Reading) : Prop :=
  ∀ c', Below c' c → ask c' = ask' c'

section Asking

variable {eof : Nat} {ask ask' : Answers}

theorem Agree.fewer {c : Reading} (h : Agree ask ask' c) (c' : Reading) (hlt : c'.remaining < c.remaining) :
    ask c' = ask' c' :=
  h c' (.left _ _ hlt)

theorem Agree.lower {c : Reading} (h : Agree ask ask' c) (c' : Reading) (heq : c'.remaining = c.remaining)
    (hrank : c'.rank < c.rank) : ask c' = ask' c' := by
  refine h c' ?_
  rw [Below, heq]
  exact .right _ hrank

theorem expression_congr {ts : List Token} (h : Agree ask ask' (.expression ts)) :
    unfolded eof ask (.expression ts) = unfolded eof ask' (.expression ts) := by
  simp only [unfolded]
  rw [h.lower (.binary 0 ts) rfl (by simp [rank])]
  refine bind_congr ?_
  rintro ⟨target, rest, lt⟩
  dsimp only
  split
  · rfl
  · rename_i op line tail lt' htake
    rw [h.fewer (.expression tail) (Nat.lt_trans lt' lt)]

theorem binary_congr {level : Nat} {ts : List Token} (h : Agree ask ask' (.binary level ts)) :
    unfolded eof ask (.binary level ts) = unfolded eof ask' (.binary level ts) := by
  simp only [unfolded]
  split
  · rename_i hlevel
    -- The tighter level is of a lower rank, and the tail starts behind a token.
    rw [h.lower (.binary (level + 1) ts) rfl (by simp only [rank]; omega)]
    refine bind_congr ?_
    rintro ⟨left, rest, lt⟩
    rw [h.fewer (.binaryTail level left rest) lt]
  · exact h.lower (.unary ts) rfl (by simp only [rank]; omega)

theorem binaryTail_congr {level : Nat} {left : Node} {ts : List Token}
    (h : Agree ask ask' (.binaryTail level left ts)) :
    unfolded eof ask (.binaryTail level left ts) = unfolded eof ask' (.binaryTail level left ts) := by
  simp only [unfolded]
  split
  · rfl
  · rename_i c line tail lt htake
    rw [h.fewer (.binary (level + 1) tail) lt]
    refine bind_congr ?_
    rintro ⟨right, rest, lt'⟩
    rw [h.fewer (.binaryTail level (.mk line (c.form left right)) rest) (Nat.lt_trans lt' lt)]

theorem unary_congr {ts : List Token} (h : Agree ask ask' (.unary ts)) :
    unfolded eof ask (.unary ts) = unfolded eof ask' (.unary ts) := by
  simp only [unfolded]
  split
  · exact h.lower (.suffixed ts) rfl (by simp [rank])
  · rename_i op line tail lt htake
    rw [h.fewer (.unary tail) lt]

theorem suffixed_congr {ts : List Token} (h : Agree ask ask' (.suffixed ts)) :
    unfolded eof ask (.suffixed ts) = unfolded eof ask' (.suffixed ts) := by
  simp only [unfolded]
  rw [h.lower (.primary ts) rfl (by simp [rank])]
  refine bind_congr ?_
  rintro ⟨node, rest, lt⟩
  rw [h.fewer (.suffixTail node rest) lt]

theorem suffixTail_congr {node : Node} {ts : List Token} (h : Agree ask ask' (.suffixTail node ts)) :
    unfolded eof ask (.suffixTail node ts) = unfolded eof ask' (.suffixTail node ts) := by
  simp only [unfolded]
  split
  · rfl
  · rename_i line tail lt htake
    rw [h.fewer (.indexKey tail) lt]
    refine bind_congr ?_
    rintro ⟨key, rest, lt'⟩
    rw [h.fewer (.suffixTail (.mk line (.op .index [node, key])) rest) (Nat.lt_trans lt' lt)]
  · rename_i line tail lt htake
    rw [h.fewer (.primary tail) lt]
    refine bind_congr ?_
    rintro ⟨args, rest, lt'⟩
    rw [h.fewer (.suffixTail (.mk line (.call node args)) rest) (Nat.lt_trans lt' lt)]

theorem indexKey_congr {ts : List Token} (h : Agree ask ask' (.indexKey ts)) :
    unfolded eof ask (.indexKey ts) = unfolded eof ask' (.indexKey ts) := by
  simp only [unfolded]
  split
  · exact h.lower (.primary ts) rfl (by simp [rank])
  · exact h.lower (.unary ts) rfl (by simp [rank])

theorem primary_congr {ts : List Token} (h : Agree ask ask' (.primary ts)) :
    unfolded eof ask (.primary ts) = unfolded eof ask' (.primary ts) := by
  simp only [unfolded]
  split
  · rfl
  · rename_i lexeme line tail lt htake
    -- Every reader that an operand calls starts behind its first token.
    cases lexeme with
    | word w => simp only [h.fewer (.word w tail) lt]
    | opening b =>
        cases b with
        | round => simp only [h.fewer (.expression tail) lt]
        | square => simp only [h.fewer (.commaList .square tail) lt]
        | curly => simp only [h.fewer (.blockBody line tail) lt]
    | _ => rfl

theorem word_congr {w : String} {ts : List Token} (h : Agree ask ask' (.word w ts)) :
    unfolded eof ask (.word w ts) = unfolded eof ask' (.word w ts) := by
  have harguments (shapes : List Shape) : ask (.arguments w shapes ts) = ask' (.arguments w shapes ts) :=
    h.lower (.arguments w shapes ts) rfl (by simp [rank])
  simp only [unfolded, harguments]

theorem arguments_congr {name : String} {shapes : List Shape} {ts : List Token}
    (h : Agree ask ask' (.arguments name shapes ts)) :
    unfolded eof ask (.arguments name shapes ts) = unfolded eof ask' (.arguments name shapes ts) := by
  cases shapes with
  | nil =>
      cases htake : take (opens .round) ts with
      | none => simp only [unfolded, htake]
      | some opened => simp only [unfolded, htake]
  | cons s shapes =>
      -- Without a parenthesis the same tokens are read at a lower rank, and behind one there are fewer
      -- tokens.
      cases htake : take (opens .round) ts with
      | none =>
          simp only [unfolded, htake]
          exact h.lower (.juxtaposed (s :: shapes) ts) rfl (by simp [rank])
      | some opened =>
          obtain ⟨⟨_, line⟩, tail, lt⟩ := opened
          simp only [unfolded, htake]
          rw [h.fewer (.commaList .round tail) lt]
          refine bind_congr ?_
          rintro ⟨nodes, rest, lt'⟩
          dsimp only
          split
          · rfl
          -- Only a single expression in the parentheses may be the first of several arguments.
          · cases nodes with
            | nil => rfl
            | cons node nodes =>
                cases nodes with
                | nil =>
                    refine bind_congr ?_
                    intro arg
                    rw [h.fewer (.juxtaposed shapes rest) (Nat.lt_trans lt' lt)]
                | cons node' nodes => rfl

theorem juxtaposed_congr {shapes : List Shape} {ts : List Token} (h : Agree ask ask' (.juxtaposed shapes ts)) :
    unfolded eof ask (.juxtaposed shapes ts) = unfolded eof ask' (.juxtaposed shapes ts) := by
  cases shapes with
  | nil => rfl
  | cons s shapes =>
      simp only [unfolded]
      rw [h.lower (.argument s (shapes.contains .value) ts) rfl (by simp [rank])]
      refine bind_congr ?_
      rintro ⟨arg, rest, lt⟩
      rw [h.fewer (.juxtaposed shapes rest) lt]

theorem argument_congr {s : Shape} {more : Bool} {ts : List Token}
    (h : Agree ask ask' (.argument s more ts)) :
    unfolded eof ask (.argument s more ts) = unfolded eof ask' (.argument s more ts) := by
  have hprimary : ask (.primary ts) = ask' (.primary ts) := h.lower (.primary ts) rfl (by simp [rank])
  cases s with
  | value =>
      simp only [unfolded]
      rw [h.lower (.unary ts) rfl (by simp [rank]), h.lower (.expression ts) rfl (by simp [rank])]
  | block => exact h.lower (.block ts) rfl (by simp [rank])
  | param => simp only [unfolded, hprimary]
  | params => simp only [unfolded, hprimary]

theorem commaList_congr {b : Bracket} {ts : List Token} (h : Agree ask ask' (.commaList b ts)) :
    unfolded eof ask (.commaList b ts) = unfolded eof ask' (.commaList b ts) := by
  simp only [unfolded]
  split
  · rfl
  · exact h.lower (.commaItems b ts) rfl (by simp [rank])

theorem commaItems_congr {b : Bracket} {ts : List Token} (h : Agree ask ask' (.commaItems b ts)) :
    unfolded eof ask (.commaItems b ts) = unfolded eof ask' (.commaItems b ts) := by
  simp only [unfolded]
  rw [h.lower (.expression ts) rfl (by simp [rank])]
  refine bind_congr ?_
  rintro ⟨item, rest, lt⟩
  dsimp only
  split
  · rename_i v tail lt' htake
    rw [h.fewer (.commaItems b tail) (Nat.lt_trans lt' lt)]
  · rfl

theorem block_congr {ts : List Token} (h : Agree ask ask' (.block ts)) :
    unfolded eof ask (.block ts) = unfolded eof ask' (.block ts) := by
  simp only [unfolded]
  refine bind_congr ?_
  rintro ⟨⟨_, line⟩, rest, lt⟩
  rw [h.fewer (.blockBody line rest) lt]

theorem blockBody_congr {line : Nat} {ts : List Token} (h : Agree ask ask' (.blockBody line ts)) :
    unfolded eof ask (.blockBody line ts) = unfolded eof ask' (.blockBody line ts) := by
  simp only [unfolded]
  rw [h.lower (.statements ts) rfl (by simp [rank])]

theorem statements_congr {ts : List Token} (h : Agree ask ask' (.statements ts)) :
    unfolded eof ask (.statements ts) = unfolded eof ask' (.statements ts) := by
  simp only [unfolded]
  split
  · rfl
  · split
    · rfl
    · rw [h.lower (.expression ts) rfl (by simp [rank])]
      refine bind_congr ?_
      rintro ⟨node, rest, lt⟩
      dsimp only
      split
      · rfl
      · rename_i v tail lt' htake
        rw [h.fewer (.statements tail) (Nat.lt_trans lt' lt)]

end Asking

/-- A reader asks only for calls below its own, so what it does depends on no other answers. -/
theorem unfolded_congr {eof : Nat} {ask ask' : Answers} {c : Reading} (h : Agree ask ask' c) :
    c.unfolded eof ask = c.unfolded eof ask' := by
  cases c with
  | expression ts => exact expression_congr h
  | binary level ts => exact binary_congr h
  | binaryTail level left ts => exact binaryTail_congr h
  | unary ts => exact unary_congr h
  | suffixed ts => exact suffixed_congr h
  | suffixTail node ts => exact suffixTail_congr h
  | indexKey ts => exact indexKey_congr h
  | primary ts => exact primary_congr h
  | word w ts => exact word_congr h
  | arguments name shapes ts => exact arguments_congr h
  | juxtaposed shapes ts => exact juxtaposed_congr h
  | argument s more ts => exact argument_congr h
  | commaList b ts => exact commaList_congr h
  | commaItems b ts => exact commaItems_congr h
  | block ts => exact block_congr h
  | blockBody line ts => exact blockBody_congr h
  | statements ts => exact statements_congr h

/-- A bound on how many calls can stand inside each other below a call. -/
def depth (c : Reading) : Nat :=
  15 * c.remaining + c.rank

theorem rank_lt (c : Reading) : c.rank < 15 := by
  cases c with
  | binary level ts =>
      simp only [rank]
      omega
  | _ => simp [rank]

theorem depth_lt_of_below {c' c : Reading} (h : Below c' c) : c'.depth < c.depth := by
  have hrank := c'.rank_lt
  simp only [depth]
  rcases Prod.lex_def.mp h with hlt | ⟨heq, hlt⟩
  · have hlt : c'.remaining < c.remaining := hlt
    omega
  · have heq : c'.remaining = c.remaining := heq
    have hlt : c'.rank < c.rank := hlt
    omega

/-- What the readers do down to a number of calls inside each other; those below get the answers of `ask`. -/
def unrolled (eof : Nat) (ask : Answers) : Nat → Answers
  | 0 => ask
  | n + 1 => fun c => c.unfolded eof (unrolled eof ask n)

/-- Unrolled beyond the depth of a call, the readers ask for nothing: the answers of `ask` have no part. -/
theorem unrolled_eq_read {eof n : Nat} (ask : Answers) {c : Reading} (h : c.depth < n) :
    unrolled eof ask n c = c.read eof := by
  induction n generalizing c with
  | zero => omega
  | succ n ih =>
      show c.unfolded eof (unrolled eof ask n) = c.read eof
      rw [read_eq_unfolded]
      refine unfolded_congr ?_
      intro c' hbelow
      have hdepth := depth_lt_of_below hbelow
      exact ih (by omega)

end Reading

/-! ### Positions -/

/-- A reader moves forward: from a position in a token list it comes to a later one. -/
def Advances {α : Type} (read : (ts : List Token) → Except ParseError (Parsed α ts)) : Prop :=
  ∀ (ts : List Token) (pos : Nat), pos ≤ ts.length → ∀ r, read (ts.drop pos) = .ok r →
    ∃ pos', r.rest = ts.drop pos' ∧ pos < pos' ∧ pos' ≤ ts.length

/-- A reader does not move back: from a position in a token list it comes to a later one, or stays there. -/
def Stays {α : Type} (read : (ts : List Token) → Except ParseError (Passed α ts)) : Prop :=
  ∀ (ts : List Token) (pos : Nat), pos ≤ ts.length → ∀ r, read (ts.drop pos) = .ok r →
    ∃ pos', r.rest = ts.drop pos' ∧ pos ≤ pos' ∧ pos' ≤ ts.length

/-- What is left behind the tokens that were taken is the token list from a later position on. -/
theorem exists_position {ts used rest : List Token} {pos : Nat} (hpos : pos ≤ ts.length)
    (h : ts.drop pos = used ++ rest) : rest = ts.drop (pos + used.length) ∧ pos + used.length ≤ ts.length := by
  constructor
  · rw [← List.drop_drop, h, List.drop_left]
  · have hlength := congrArg List.length h
    rw [List.length_drop, List.length_append] at hlength
    omega

theorem advances_of_replays {α : Type} {may : List Token → List Token → Prop}
    {read : Nat → (ts : List Token) → Except ParseError (Parsed α ts)}
    (h : ∀ eof ts, Returns (Replays may read) (read eof ts)) (eof : Nat) : Advances (read eof) := by
  intro ts pos hpos r hr
  obtain ⟨used, hused, -⟩ := h eof _ r hr
  obtain ⟨hrest, hle⟩ := exists_position hpos hused
  have hlength := congrArg List.length hused
  rw [List.length_append] at hlength
  have hlt := r.lt
  exact ⟨pos + used.length, hrest, by omega, hle⟩

theorem stays_of_repasses {α : Type} {may : List Token → List Token → Prop}
    {read : Nat → (ts : List Token) → Except ParseError (Passed α ts)}
    (h : ∀ eof ts, Returns (Repasses may read) (read eof ts)) (eof : Nat) : Stays (read eof) := by
  intro ts pos hpos r hr
  obtain ⟨used, hused, -⟩ := h eof _ r hr
  obtain ⟨hrest, hle⟩ := exists_position hpos hused
  exact ⟨pos + used.length, hrest, by omega, hle⟩

end Parser

/-! ### Scripts -/

/-- A token list is a script if its statements take all of it, and there is a fault otherwise. -/
theorem Block.ofTokens_cases (ts : List Token) :
    (∃ nodes, Parser.Leaves (Parser.statements (lastLine ts) ts) nodes [] ∧
      Block.ofTokens ts = .ok (.mk 0 nodes)) ∨
    ∃ e, Block.ofTokens ts = .error e := by
  rw [Block.ofTokens]
  cases hread : Parser.statements (lastLine ts) ts with
  | error e => exact .inr ⟨e, rfl⟩
  | ok r =>
      obtain ⟨nodes, rest, le⟩ := r
      cases rest with
      | nil => exact .inl ⟨nodes, ⟨le, rfl⟩, rfl⟩
      | cons t rest => exact .inr ⟨_, rfl⟩

/-- Parsing moves on and ends, whatever the tokens are.

- An expression, the operands at a level, an operand with its operators in front of it or behind it, an
  operand by itself and a block take at least one token and no more than there are; statements, lists and
  arguments do not move back.
- A reader calls others only with fewer tokens, or with as many at a lower rank of the grammar, and this order
  is well-founded. So the readers can be unrolled: beyond the depth of a call, it does not count how calls are
  answered.
- A token list is a script or has a parse error, and the statements of a script take all tokens. -/
theorem Parser.parsing_progresses_and_ends (eof : Nat) :
    (Advances (expression eof) ∧ (∀ level, Advances (binary eof level)) ∧ Advances (unary eof) ∧
      Advances (suffixed eof) ∧ Advances (primary eof) ∧ Advances (Parser.block eof)) ∧
    (Stays (statements eof) ∧ (∀ b, Advances (commaList eof b)) ∧
      ∀ name shapes, Stays (arguments eof name shapes)) ∧
    (WellFounded Reading.Below ∧ (∀ c, Reading.read eof c = c.unfolded eof (Reading.read eof)) ∧
      (∀ ask ask' (c : Reading), (∀ c', c'.Below c → ask c' = ask' c') →
        c.unfolded eof ask = c.unfolded eof ask') ∧
      ∀ ask (c : Reading) n, c.depth < n → Reading.unrolled eof ask n c = c.read eof) ∧
    ∀ ts, (∃ nodes, Leaves (statements (lastLine ts) ts) nodes [] ∧
        Block.ofTokens ts = .ok (.mk 0 nodes)) ∨
      ∃ e, Block.ofTokens ts = .error e ∧ e.report.stage = .parse := by
  refine ⟨⟨?_, ?_, ?_, ?_, ?_, ?_⟩, ⟨?_, ?_, ?_⟩, ⟨?_, ?_, ?_, ?_⟩, ?_⟩
  -- A reader that can be replayed has taken what is in front of its rest.
  · exact advances_of_replays expression_replays eof
  · intro level
    exact advances_of_replays (fun eof => binary_replays eof level) eof
  · exact advances_of_replays unary_replays eof
  · exact advances_of_replays suffixed_replays eof
  · exact advances_of_replays primary_replays eof
  · exact advances_of_replays block_replays eof
  · exact stays_of_repasses statements_replays eof
  · intro b
    exact advances_of_replays (fun eof => commaList_replays eof b) eof
  · intro name shapes
    exact stays_of_repasses (fun eof => arguments_replays eof name shapes) eof
  -- The order of calls, and what it is good for.
  · exact Reading.wellFounded_below
  · exact Reading.read_eq_unfolded eof
  · intro ask ask' c hagree
    exact Reading.unfolded_congr hagree
  · intro ask c n hdepth
    exact Reading.unrolled_eq_read ask hdepth
  · intro ts
    rcases Block.ofTokens_cases ts with hscript | ⟨e, he⟩
    · exact .inl hscript
    · exact .inr ⟨e, he, rfl⟩

/-- A product with a difference in brackets, in front of a semicolon: the call is answered within its depth, and
it takes all tokens but the semicolon. -/
theorem Parser.parsing_progresses_to_semicolon :
    let ts : List Token := ([.int 2, .symbol (.arith .mul), .opening .round, .int 1, .symbol (.arith .sub),
      .path false ["x"], .closing .round, .semicolon] : List Lexeme).map (⟨·, 0⟩)
    let difference : Node := .mk 0 (.op (.arith .sub) [.mk 0 (.int 1), .mk 0 (.path false ["x"])])
    let ask : Reading.Answers := fun _ => .error default
    (Reading.expression ts).depth < 136 ∧ ∃ r, expression 0 ts = .ok r ∧
      Reading.unrolled 0 ask 136 (.expression ts) = .ok r ∧
      r.value = .mk 0 (.op (.arith .mul) [.mk 0 (.int 2), difference]) ∧ r.rest = [⟨.semicolon, 0⟩] ∧
      ∃ pos', r.rest = ts.drop pos' ∧ 0 < pos' ∧ pos' ≤ ts.length := by
  intro ts difference ask
  have hdepth : (Reading.expression ts).depth < 136 := by decide
  obtain ⟨⟨hadvances, -⟩, -, ⟨-, -, -, hunrolled⟩, -⟩ := parsing_progresses_and_ends 0
  -- An operand at a level, in front of tokens that the level leaves alone.
  have operand {l : Lexeme} {form : Form} {level : Nat} {rest : List Token} (hl : atom? l = some form)
      (hlevel : level ≤ 6) (hbare : take (symbol? Suffix.ofSymbol?) rest = none)
      (habove : Above level rest) : Gives (binary 0 level (⟨l, 0⟩ :: rest)) (.mk 0 form) rest :=
    binary_of_unary hlevel (unary_of_primary (primary_of_atom hl 0 0 rest) hbare) habove
  have hsemicolon : Ends [⟨.semicolon, 0⟩] := ends_cons (by simp) 0 []
  have hclose : Ends [⟨.closing .round, 0⟩, ⟨.semicolon, 0⟩] := ends_cons (by simp) 0 _
  have hinner : Gives (binary 0 3 (ts.drop 3)) difference (ts.drop 6) :=
    binary_of_tail (by decide)
      (operand rfl (by decide) rfl (above_of_connective (c := .arith .sub) rfl 0 _))
      (binaryTail_of_connective (c := .arith .sub) rfl (operand rfl (by decide) rfl (hclose.above 4))
        (binaryTail_of_end rfl))
  have hround : Gives (primary 0 (ts.drop 2)) difference (ts.drop 7) :=
    primary_of_round (expression_of_binary
      (binary_lower (Nat.zero_le 3) (by decide) hinner (hclose.above 0)) hclose)
  have houter : Gives (binary 0 4 ts) (.mk 0 (.op (.arith .mul) [.mk 0 (.int 2), difference])) (ts.drop 7) :=
    binary_of_tail (by decide)
      (operand rfl (by decide) rfl (above_of_connective (c := .arith .mul) rfl 0 _))
      (binaryTail_of_connective (c := .arith .mul) rfl
        (binary_of_unary (by decide) (unary_of_primary hround rfl) (hsemicolon.above 5))
        (binaryTail_of_end rfl))
  obtain ⟨lt, hread⟩ := expression_of_binary
    (binary_lower (Nat.zero_le 4) (by decide) houter (hsemicolon.above 0)) hsemicolon
  exact ⟨hdepth, _, hread, (hunrolled ask (.expression ts) 136 hdepth).trans hread, rfl, rfl,
    hadvances ts 0 (Nat.zero_le _) _ hread⟩

end Stepwise
