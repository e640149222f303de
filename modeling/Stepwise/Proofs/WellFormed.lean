import Stepwise.Program
import Stepwise.Proofs.Readers

/-!
# `Stepwise.Proofs.WellFormed`: well-formed scripts

A script is well-formed if every operation in it has at least as many arguments as it takes and no path is
empty. That is what the machine relies on, and every script that is read from a source text has it
(`Block.isWellFormed_of_source`): the readers build operations with exactly their number of arguments, and
the lexer reads no empty path. `Lexer.scan_returns` says what else is known of a lexeme that was read from a
text (`Lexeme.FromText`).
-/

set_option autoImplicit false

namespace Stepwise

mutual

/-- Whether a node is well-formed. -/
def Node.isWellFormed : Node → Bool
  | .mk _ form => form.isWellFormed

/-- Whether what a node says is well-formed. -/
def Form.isWellFormed : Form → Bool
  | .path _ names => !names.isEmpty
  | .list items => Node.allWellFormed items
  | .block body => body.isWellFormed
  | .function _ body => body.isWellFormed
  | .op op args => op.arity ≤ args.length && Node.allWellFormed args
  | .ifThen cond body => cond.isWellFormed && body.isWellFormed
  | .whileDo cond body => cond.isWellFormed && body.isWellFormed
  | .forEach target source body =>
    target.isWellFormed && source.isWellFormed && body.isWellFormed
  | .call callee args => callee.isWellFormed && args.isWellFormed
  | .object body => body.isWellFormed
  | .andAlso left right => left.isWellFormed && right.isWellFormed
  | .orElse left right => left.isWellFormed && right.isWellFormed
  | .tryCatch body _ handler => body.isWellFormed && handler.isWellFormed
  | _ => true

/-- Whether a block is well-formed. -/
def Block.isWellFormed : Block → Bool
  | .mk _ statements => Node.allWellFormed statements

/-- Whether all nodes of a list are well-formed. -/
def Node.allWellFormed : List Node → Bool
  | [] => true
  | n :: nodes => n.isWellFormed && Node.allWellFormed nodes

end

theorem Node.allWellFormed_iff {nodes : List Node} :
    Node.allWellFormed nodes = true ↔ ∀ n ∈ nodes, n.isWellFormed = true := by
  induction nodes with
  | nil => simp [Node.allWellFormed]
  | cons n nodes ih => simp [Node.allWellFormed, ih]

/-- A block is well-formed if its statements are. -/
theorem Block.isWellFormed_iff {b : Block} :
    b.isWellFormed = true ↔ ∀ n ∈ b.statements, n.isWellFormed = true := by
  obtain ⟨line, statements⟩ := b
  exact Node.allWellFormed_iff

/-! ### Scripts that are read -/

/-- Whether a text is a name: letters, digits and underscores, and at least one of them. -/
def isName (s : String) : Bool :=
  !s.toList.isEmpty && s.toList.all Lexer.isNameChar

/-- A lexeme as it is read from a text: an integer has no sign, a word is a name, and a path is made of
names, of which there is at least one. -/
def Lexeme.FromText : Lexeme → Prop
  | .int n => 0 ≤ n.toInt
  | .path _ names => names ≠ [] ∧ ∀ name ∈ names, isName name = true
  | .word w => isName w = true
  | _ => True

/-- The readers keep well-formedness. -/
theorem closed_isWellFormed :
    Parser.Closed (fun t => t.lexeme.FromText) (fun n => n.isWellFormed = true)
      (fun b => b.isWellFormed = true) where
  null line _ := rfl
  bool line b _ := rfl
  int line n _ := rfl
  float line x _ := rfl
  str line s _ := rfl
  path line global names h := by
    cases names with
    | nil => exact absurd rfl h.1
    | cons name names => rfl
  word line w _ := rfl
  list line items _ h := Node.allWellFormed_iff.mpr h
  nested line b _ h := h
  inner line b h := h
  body line nodes _ h := Node.allWellFormed_iff.mpr h
  function line params b _ _ h := h
  op line op args _ _ hlen h := by
    have hargs : Node.allWellFormed args = true := Node.allWellFormed_iff.mpr h
    simp [Node.isWellFormed, Form.isWellFormed, hlen, hargs]
  -- A minus that is part of its literal leaves a literal, of which there is nothing to check.
  unary line op operand _ harity h := by
    have hop : Node.isWellFormed (.mk line (.op op [operand])) = true := by
      simp [Node.isWellFormed, Form.isWellFormed, harity, Node.allWellFormed, h]
    unfold Parser.unaryForm
    split
    · split
      · rfl
      · exact hop
    · rfl
    · rfl
    · exact hop
  ifThen line c b _ hc hb := by simp [Node.isWellFormed, Form.isWellFormed, hc, hb]
  whileDo line c b _ hc hb := by simp [Node.isWellFormed, Form.isWellFormed, hc, hb]
  forEach line t s b _ ht hs hb := by simp [Node.isWellFormed, Form.isWellFormed, ht, hs, hb]
  call line f a _ hf ha := by simp [Node.isWellFormed, Form.isWellFormed, hf, ha]
  object line b _ hb := hb
  andAlso line l r _ hl hr := by simp [Node.isWellFormed, Form.isWellFormed, hl, hr]
  orElse line l r _ hl hr := by simp [Node.isWellFormed, Form.isWellFormed, hl, hr]
  tryCatch line b name h _ hb hh := by simp [Node.isWellFormed, Form.isWellFormed, hb, hh]

namespace Lexer

/-- The longest run of name characters is a name if it is not empty. -/
theorem isName_takeWhile {cs : List Char} (h : cs.takeWhile isNameChar ≠ []) :
    isName (String.ofList (cs.takeWhile isNameChar)) = true := by
  simp [isName, h, List.all_takeWhile]

/-- A path has a first name. -/
theorem pathNames_ne_nil (cs : List Char) : (pathNames cs).1 ≠ [] := by
  rw [pathNames]
  split
  · split
    · simp
    · simp
  · simp

/-- All names of a path are names if the first one is: after a point the path only goes on at a name
character. -/
theorem pathNames_isName (cs : List Char) (h : cs.takeWhile isNameChar ≠ []) :
    ∀ name ∈ (pathNames cs).1, isName name = true := by
  fun_induction pathNames cs with
  | case1 cs name c rest hdrop hc names rest' heq ih =>
      have hnext : (c :: rest).takeWhile isNameChar ≠ [] := by simp [hc]
      rw [heq] at ih
      intro other hother
      rcases List.mem_cons.mp hother with rfl | hother
      · exact isName_takeWhile h
      · exact ih hnext other hother
  | case2 cs name c rest hdrop hc =>
      rw [List.forall_mem_singleton]
      exact isName_takeWhile h
  | case3 cs name hdrop =>
      rw [List.forall_mem_singleton]
      exact isName_takeWhile h

theorem path_returns (line : Nat) (global : Bool) (cs : List Char) :
    Returns (fun r => r.lexeme.FromText) (path line global cs) := by
  unfold path
  split
  · exact .error _
  · rename_i hfirst
    have hne : cs.takeWhile isNameChar ≠ [] := by simpa using hfirst
    exact .ok ⟨pathNames_ne_nil cs, pathNames_isName cs hne⟩

theorem number_returns (line : Nat) (c : Char) (cs : List Char) :
    Returns (fun r => r.lexeme.FromText) (number line c cs) := by
  -- Digits have no sign, so the number that is read is not negative.
  have hinteger (whole : List Char) :
      Returns (fun r => r.lexeme.FromText) (number.integer line cs whole) := by
    unfold number.integer
    cases hn : Number.checked (Number.natOfDigits whole) with
    | none => exact .error _
    | some n =>
        have hvalue : n.toInt = Number.natOfDigits whole := Number.toInt_of_checked hn
        have hsign : 0 ≤ n.toInt := by omega
        exact .ok hsign
  unfold number
  dsimp only
  split
  · split
    · exact .ok trivial
    · exact hinteger _
  · exact hinteger _

/-- A word starts with a letter or an underscore, so it is a name. -/
theorem word_returns (line : Nat) (c : Char) (cs : List Char) (hc : isNameChar c = true) :
    Returns (fun r => r.lexeme.FromText) (word line c cs) := by
  have hword : isName (String.ofList (c :: cs.takeWhile isNameChar)) = true := by
    simp [isName, hc, List.all_takeWhile]
  have hplain (w : String) (hw : isName w = true) : (word.plain line cs w).lexeme.FromText := by
    unfold word.plain
    dsimp only
    split
    · trivial
    · exact hw
  unfold word
  dsimp only
  split
  -- The word `global` in front of a point starts a path.
  · split
    · exact (path_returns line true _).map fun r hr => hr
    · exact .ok (hplain _ hword)
  · exact .ok (hplain _ hword)

/-- What is known of each lexeme that is read. -/
theorem lexeme_returns (line : Nat) (c : Char) (cs : List Char) :
    Returns (fun r => r.lexeme.FromText) (lexeme line c cs) := by
  unfold lexeme
  split
  · exact .ok trivial
  · exact .ok trivial
  · split
    · exact .ok trivial
    split
    · exact .ok trivial
    split
    · split
      · exact .error _
      · exact .ok trivial
    split
    -- Only paths, numbers and words carry what `FromText` speaks of; the branches follow the reader.
    · exact path_returns line false cs
    split
    · exact number_returns line c cs
    split
    · rename_i halpha
      refine word_returns line c cs ?_
      rcases halpha with halpha | rfl
      · simp [isNameChar, Char.isAlphanum, halpha]
      · rfl
    split
    · exact .error _
    · exact .ok trivial

/-- What is known of each token of a text. The induction is on the text that is left. -/
theorem scan_returns (line : Nat) (cs : List Char) :
    Returns (Parser.Tokens fun t => t.lexeme.FromText) (scan line cs) := by
  fun_induction scan line cs with
  | case1 line => exact .ok (by simp [Parser.Tokens])
  | case2 line cs ih => exact ih
  | case3 line c cs _ _ ih => exact ih
  | case4 line cs _ _ ih => exact ih
  | case5 line c cs _ _ _ e _ => exact .error e
  | case6 line c cs _ _ _ r hr ih =>
      refine ih.map fun tokens htokens => ?_
      intro t ht
      rcases List.mem_cons.mp ht with rfl | ht
      · exact lexeme_returns line c cs r hr
      · exact htokens t ht

end Lexer

/-- A script that is read from a source text is read from its tokens. -/
theorem Block.exists_tokens {source : String} {root : Block}
    (h : Block.ofSource source = .ok root) :
    ∃ ts, tokenize source = .ok ts ∧ Block.ofTokens ts = .ok root := by
  unfold Block.ofSource at h
  split at h
  · cases h
  · rename_i ts hts
    split at h
    · cases h
    · rename_i block hblock
      cases h
      exact ⟨ts, hts, hblock⟩

/-- Every script that is read from a source text is well-formed. -/
theorem Block.isWellFormed_of_source {source : String} {root : Block}
    (h : Block.ofSource source = .ok root) : root.isWellFormed = true := by
  obtain ⟨ts, hts, hroot⟩ := Block.exists_tokens h
  have hread := Block.ofTokens_returns closed_isWellFormed ts (Lexer.scan_returns 0 _ ts hts)
  exact Block.isWellFormed_iff.mpr (hread root hroot).2

end Stepwise
