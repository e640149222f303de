import Stepwise.Proofs.Locality
import Stepwise.Proofs.RoundTrip

/-!
# `Stepwise.Proofs.CallForms`: arguments with and without parentheses

A built-in takes its arguments in parentheses with commas between them, or one after another. The two forms go
through different readers: in parentheses every argument is an expression, and outside only the last one is,
while those before it are operands. `Block.ofTokens_call_forms` says that both are read as the same if the
arguments in front are literals, variables or lists (`Front`).

Such an argument is read by `primary` alone whatever stands behind it (`Front.primary_reads`). The last one ends
at the semicolon in one form and at the parenthesis in the other, and by `expression_replays` that makes no
difference.
-/

set_option autoImplicit false

namespace Stepwise

namespace Parser

/-- An argument in front of the last one: a literal or a variable, or a list in brackets. The line where the
input ends is only shown in errors, so any line serves to say that the list can be read. -/
inductive Front where
  | atom (a : Atom)
  | list (line : Nat) (inside : List Token) (items : List Node)
      (reads : Gives (commaList 0 .square inside) items [])

namespace Front

def tokens : Front → List Token
  | atom a => [a.token]
  | list line inside _ _ => ⟨.opening .square, line⟩ :: inside

def node : Front → Node
  | atom a => a.node
  | list line _ items _ => .mk line (.list items)

theorem primary_reads (f : Front) (eof : Nat) (rest : List Token) :
    Gives (primary eof (f.tokens ++ rest)) f.node rest := by
  cases f with
  | atom a => exact primary_of_atom a.reads eof a.line rest
  | list line inside items reads =>
      have hinside : Gives (commaList 0 .square (inside ++ [])) items [] := by
        rw [List.append_nil]
        exact reads
      have hread : Gives (commaList eof .square (inside ++ rest)) items rest :=
        hinside.again (fun eof ts => commaList_replays eof .square ts) trivial eof
      exact primary_of_square hread

/-- No argument in front opens a parenthesis. -/
theorem take_opens (f : Front) (rest : List Token) : take (opens .round) (f.tokens ++ rest) = none := by
  cases f with
  | atom a =>
      refine take_cons_of_none ?_ a.line rest
      cases hl : a.lexeme with
      | opening b =>
          have hreads := a.reads
          rw [hl] at hreads
          cases hreads
      | _ => rfl
  | list line inside items reads => exact take_cons_of_none rfl line (inside ++ rest)

/-- What follows an argument starts an expression, so it is no operator that would go on. -/
theorem unary_reads (f : Front) (eof : Nat) {rest : List Token} (hrest : Begins rest) :
    Gives (unary eof (f.tokens ++ rest)) f.node rest :=
  unary_of_primary (f.primary_reads eof rest) (hrest.take suffix_of_startsExpression)

theorem begins (f : Front) (rest : List Token) : Begins (f.tokens ++ rest) := by
  obtain ⟨lt, hread⟩ := f.primary_reads 0 rest
  exact primary_begins 0 _ _ hread

end Front

section

variable {eof : Nat} {last rest : List Token} {m : Node}

theorem begins_of_fronts (front : List Front) (hlast : Gives (expression eof last) m rest) :
    Begins (front.flatMap Front.tokens ++ last) := by
  cases front with
  | nil => exact hlast.begins
  | cons f front =>
      rw [List.flatMap_cons, List.append_assoc]
      exact f.begins _

/-- Arguments one after another. The induction is on those in front: each is followed by another value, so it is
read as an operand, and only the last one as an expression. -/
theorem juxtaposed_reads (front : List Front) (hlast : Gives (expression eof last) m rest) :
    ∃ args, Leaves (juxtaposed eof (List.replicate (front.length + 1) .value)
        (front.flatMap Front.tokens ++ last)) args rest ∧
      Args.nodes (front.length + 1) args = front.map Front.node ++ [m] := by
  induction front with
  | nil =>
      -- No value is expected behind the last argument, so it is read as an expression.
      have hargument : Gives (argument eof .value (([] : List Shape).contains .value) last) m rest := by
        rw [argument]
        exact hlast
      exact ⟨(m, ()), juxtaposed_of_argument hargument juxtaposed_nil, rfl⟩
  | cons f front ih =>
      obtain ⟨args, hread, hnodes⟩ := ih
      have hmore : (List.replicate (front.length + 1) Shape.value).contains .value = true := by
        simp [List.replicate_succ]
      have hargument : Gives (argument eof .value ((List.replicate (front.length + 1) Shape.value).contains .value)
          (f.tokens ++ (front.flatMap Front.tokens ++ last))) f.node (front.flatMap Front.tokens ++ last) := by
        rw [hmore, argument]
        exact f.unary_reads eof (begins_of_fronts front hlast)
      refine ⟨(f.node, args), ?_, congrArg (f.node :: ·) hnodes⟩
      rw [List.flatMap_cons, List.append_assoc]
      exact juxtaposed_of_argument hargument hread

/-- An argument with the comma behind it. -/
def Front.separated (f : Front × Nat) : List Token :=
  f.1.tokens ++ [⟨.comma, f.2⟩]

/-- Arguments with commas between them, up to the closing parenthesis. -/
theorem commaItems_reads {close : Nat} (front : List (Front × Nat))
    (hlast : Gives (expression eof last) m (⟨.closing .round, close⟩ :: rest)) :
    Gives (commaItems eof .round (front.flatMap Front.separated ++ last))
      (front.map (fun f => f.1.node) ++ [m]) rest := by
  induction front with
  | nil => exact commaItems_of_close hlast
  | cons f front ih =>
      rw [List.flatMap_cons, Front.separated, List.append_assoc, List.append_assoc]
      exact commaItems_of_comma (expression_of_primary (f.1.primary_reads eof _) (ends_cons (by simp) f.2 _)) ih

/-- All arguments of a built-in, one after another. -/
theorem arguments_juxtaposed (name : String) (front : List Front) {n : Nat} (hn : front.length + 1 = n)
    (hlast : Gives (expression eof last) m rest)
    (hround : take (opens .round) (front.flatMap Front.tokens ++ last) = none) :
    ∃ args, Leaves (arguments eof name (List.replicate n .value) (front.flatMap Front.tokens ++ last)) args rest ∧
      Args.nodes n args = front.map Front.node ++ [m] := by
  subst hn
  obtain ⟨args, hread, hnodes⟩ := juxtaposed_reads front hlast
  exact ⟨args, arguments_of_juxtaposed hround hread, hnodes⟩

/-- All arguments of a built-in, in parentheses. -/
theorem arguments_enclosed (name : String) (front : List (Front × Nat)) {n : Nat}
    (hn : front.length + 1 = n) {close : Nat}
    (hlast : Gives (expression eof last) m (⟨.closing .round, close⟩ :: rest)) (line : Nat) :
    ∃ args, Leaves (arguments eof name (List.replicate n .value)
        (⟨.opening .round, line⟩ :: (front.flatMap Front.separated ++ last))) args rest ∧
      Args.nodes n args = front.map (fun f => f.1.node) ++ [m] := by
  subst hn
  have hitems := commaList_of_items (commaItems_reads front hlast)
  obtain ⟨args, hargs, hnodes⟩ :=
    convertAll_values (front.map (fun f => f.1.node) ++ [m]) (front.length + 1) (by simp)
  exact ⟨args, arguments_of_commaList hitems _ hargs, hnodes⟩

end

/-- A built-in with its arguments is an expression if nothing follows that would go on. -/
theorem expression_of_builtin {name : String} {op : Op} (hop : Op.builtin? name = some op) {eof : Nat}
    {ts rest : List Token} {nodes : List Node}
    (h : ∃ args, Leaves (arguments eof name (List.replicate op.arity .value) ts) args rest ∧
      Args.nodes op.arity args = nodes) (hrest : Ends rest) (line : Nat) :
    Gives (expression eof (⟨.word name, line⟩ :: ts)) (.mk line (.op op nodes)) rest := by
  obtain ⟨args, hargs, rfl⟩ := h
  have hname : op.name = name := by
    simpa using List.find?_some hop
  obtain ⟨hliteral, hkeyword, -⟩ := ofWord?_name op (List.mem_of_find?_eq_some hop)
  rw [hname] at hliteral hkeyword
  exact expression_of_primary (primary_of_word (word_of_builtin hliteral hkeyword hop hargs)) hrest

end Parser

open Stepwise.Parser in
/-- A built-in with its arguments one after another and the same built-in with them in parentheses are read as
the same script, lines included. All arguments but the last one are literals, variables or lists, each with the
line of the comma behind it. The last one is any expression that ends at the semicolon. If it is the only one, it
does not start with a parenthesis, which would be taken for the one of the other form. -/
theorem Block.ofTokens_call_forms {name : String} {op : Op} (hop : Op.builtin? name = some op)
    (front : List (Front × Nat)) (hlength : front.length + 1 = op.arity) (last : List Token) {m : Node}
    {eof stop : Nat} (hlast : Gives (expression eof (last ++ [⟨.semicolon, stop⟩])) m [⟨.semicolon, stop⟩])
    (hround : op.arity = 1 → ∀ line tail, last ≠ ⟨.opening .round, line⟩ :: tail)
    (line opening closing : Nat) :
    Block.ofTokens (⟨.word name, line⟩ :: (front.flatMap (fun f => f.1.tokens) ++ last)
          ++ [⟨.semicolon, stop⟩])
        = .ok (.mk 0 [.mk line (.op op (front.map (fun f => f.1.node) ++ [m]))]) ∧
      Block.ofTokens (⟨.word name, line⟩ :: ⟨.opening .round, opening⟩ ::
            (front.flatMap Front.separated ++ last ++ [⟨.closing .round, closing⟩]) ++ [⟨.semicolon, stop⟩])
        = .ok (.mk 0 [.mk line (.op op (front.map (fun f => f.1.node) ++ [m]))]) := by
  have hends : Ends [⟨.semicolon, stop⟩] := ends_cons (by simp) stop []
  constructor
  · -- One after another: no parenthesis stands in front, so the arguments are not taken for the other form.
    have hopens : take (opens .round) ((front.map Prod.fst).flatMap Front.tokens
        ++ (last ++ [⟨.semicolon, stop⟩])) = none := by
      cases front with
      | nil =>
          show take (opens .round) (last ++ [⟨.semicolon, stop⟩]) = none
          exact take_opens_append (hround hlength.symm) rfl
      | cons f front =>
          rw [List.map_cons, List.flatMap_cons, List.append_assoc]
          exact f.1.take_opens _
    have hargs := arguments_juxtaposed name (front.map Prod.fst) (by simpa using hlength) hlast hopens
    have hread := expression_of_builtin hop hargs hends line
    rw [List.flatMap_map, List.map_map, ← List.append_assoc] at hread
    exact Block.ofTokens_of_expression hread
  · -- In parentheses: the last argument ends at the closing one as it does at the semicolon.
    have hclosed : Gives (expression eof (last ++ ([⟨.closing .round, closing⟩] ++ [⟨.semicolon, stop⟩]))) m
        ([⟨.closing .round, closing⟩] ++ [⟨.semicolon, stop⟩]) :=
      hlast.again expression_replays (follows_of_ends (ends_cons (by simp) _ _) rfl) eof
    have hargs := arguments_enclosed name front hlength hclosed opening
    have hread := expression_of_builtin hop hargs hends line
    rw [← List.append_assoc, ← List.append_assoc] at hread
    exact Block.ofTokens_of_expression hread

open Stepwise.Parser in
/-- A list and a variable in front of a minus: without commas the minus does not go on from the variable. -/
theorem Block.ofTokens_call_forms_of_minus :
    Block.ofTokens [⟨.word "slice", 0⟩, ⟨.opening .square, 0⟩, ⟨.int 1, 0⟩, ⟨.closing .square, 0⟩,
          ⟨.path false ["x"], 0⟩, ⟨.symbol (.arith .sub), 1⟩, ⟨.path false ["y"], 1⟩, ⟨.semicolon, 2⟩]
        = .ok (.mk 0 [.mk 0 (.op .slice [.mk 0 (.list [.mk 0 (.int 1)]), .mk 0 (.path false ["x"]),
            .mk 1 (.op .neg [.mk 1 (.path false ["y"])])])]) ∧
      Block.ofTokens [⟨.word "slice", 0⟩, ⟨.opening .round, 3⟩, ⟨.opening .square, 0⟩, ⟨.int 1, 0⟩,
          ⟨.closing .square, 0⟩, ⟨.comma, 4⟩, ⟨.path false ["x"], 0⟩, ⟨.comma, 5⟩, ⟨.symbol (.arith .sub), 1⟩,
          ⟨.path false ["y"], 1⟩, ⟨.closing .round, 6⟩, ⟨.semicolon, 2⟩]
        = .ok (.mk 0 [.mk 0 (.op .slice [.mk 0 (.list [.mk 0 (.int 1)]), .mk 0 (.path false ["x"]),
            .mk 1 (.op .neg [.mk 1 (.path false ["y"])])])]) := by
  have hends : Ends [⟨.semicolon, 2⟩] := ends_cons (by simp) 2 []
  have hitems : Gives (commaList 0 .square [⟨.int 1, 0⟩, ⟨.closing .square, 0⟩]) [.mk 0 (.int 1)] [] :=
    commaList_of_items (commaItems_of_close
      (expression_of_primary (primary_of_atom rfl 0 0 _) (ends_cons (by simp) 0 [])))
  have hy : Gives (primary 0 [⟨.path false ["y"], 1⟩, ⟨.semicolon, 2⟩]) (.mk 1 (.path false ["y"]))
      [⟨.semicolon, 2⟩] := primary_of_atom rfl 0 1 _
  have hminus : Symbol.unaryOp? (.arith .sub) = some .neg := rfl
  -- The last argument starts with its minus: in front of a comma nothing was left for the minus to subtract
  -- from.
  have hlast : Gives (expression 0 [⟨.symbol (.arith .sub), 1⟩, ⟨.path false ["y"], 1⟩, ⟨.semicolon, 2⟩])
      (.mk 1 (.op .neg [.mk 1 (.path false ["y"])])) [⟨.semicolon, 2⟩] :=
    expression_of_unary (unary_of_front hminus hy hends) hends
  have hop : Op.builtin? "slice" = some .slice := by decide
  exact Block.ofTokens_call_forms hop
    [(.list 0 [⟨.int 1, 0⟩, ⟨.closing .square, 0⟩] [.mk 0 (.int 1)] hitems, 4),
      (.atom ⟨.path false ["x"], 0, .path false ["x"], rfl⟩, 5)]
    rfl [⟨.symbol (.arith .sub), 1⟩, ⟨.path false ["y"], 1⟩] hlast (fun hone => absurd hone (by decide)) 0 3 6

end Stepwise
