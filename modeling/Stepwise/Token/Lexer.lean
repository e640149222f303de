import Stepwise.Number.Reading
import Stepwise.Report
import Stepwise.Token

/-!
# `Stepwise.Token.Lexer`: tokens of a text

`tokenize` cuts a text into tokens. Blanks and comments stand between tokens; at every other
character one lexeme is read, the longest that the text allows there. Each reader of a lexeme returns
the text that is left with a proof that it is no longer than the text it was given, and the loop
ends because it has consumed a character before.
-/

set_option autoImplicit false

namespace Stepwise

/-- Why a text has no tokens. -/
inductive LexFault where
  | invalidEscape (c : Char)
  | unterminatedString
  | invalidVariableName
  | integerOutOfRange (digits : String)
  | unexpectedCharacter (c : Char)
deriving DecidableEq, Repr, Inhabited

/-- The message of a fault. -/
def LexFault.message : LexFault → String
  | invalidEscape c => "Invalid escape " ++ quoted ("\\" ++ String.singleton c) ++ " in string"
  | unterminatedString => "Unterminated string literal"
  | invalidVariableName => "Invalid variable name"
  | integerOutOfRange digits => "Integer " ++ quoted digits ++ " is out of range"
  | unexpectedCharacter c => "Unexpected character " ++ quoted (String.singleton c)

/-- A fault and the line that the lexer had reached. -/
structure LexError where
  fault : LexFault
  line : Nat
deriving DecidableEq, Repr, Inhabited

/-- The report of a lexical error. -/
def LexError.report (e : LexError) : Report :=
  .onLine .lex e.fault.message e.line

namespace Lexer

/-- A name is made of ASCII letters, ASCII digits and underscores. -/
def isNameChar (c : Char) : Bool :=
  c.isAlphanum || c == '_'

/-- A lexeme read from the front of `cs`, what is left, and the line reached. -/
structure Reading (cs : List Char) where
  lexeme : Lexeme
  rest : List Char
  line : Nat
  le : rest.length ≤ cs.length

/-- The text left after the longest run of a class is no longer than the text. -/
theorem length_dropWhile_le {α : Type} (p : α → Bool) (cs : List α) :
    (cs.dropWhile p).length ≤ cs.length :=
  (List.dropWhile_suffix p).length_le

/-! ### Strings -/

/-- The character that an escape stands for. -/
def unescape? : Char → Option Char
  | '\\' => some '\\'
  | '\'' => some '\''
  | '"' => some '"'
  | 'n' => some '\n'
  | 't' => some '\t'
  | 'r' => some '\r'
  | _ => none

/-- There are six escapes. The escape mark and the quotes stand for themselves, and `n`, `t` and `r` for the
characters 10, 9 and 13: a line feed, a tab and a carriage return. -/
theorem unescape?_eq_some_iff {e d : Char} :
    unescape? e = some d ↔
      (e = d ∧ e ∈ ['\\', '\'', '"']) ∨
        (e, d) ∈ [('n', Char.ofNat 10), ('t', Char.ofNat 9), ('r', Char.ofNat 13)] := by
  constructor
  · intro h
    unfold unescape? at h
    split at h <;> cases h <;> decide
  · rintro (⟨rfl, he⟩ | he)
    · simp only [List.mem_cons, List.not_mem_nil, or_false] at he
      rcases he with rfl | rfl | rfl <;> rfl
    · simp only [List.mem_cons, List.not_mem_nil, or_false, Prod.mk.injEq] at he
      rcases he with ⟨rfl, rfl⟩ | ⟨rfl, rfl⟩ | ⟨rfl, rfl⟩ <;> rfl

/-- The contents of a string up to its closing quote, what follows the quote, and the line
reached. -/
def stringBody (quote : Char) : List Char → Nat → Except LexError (List Char × List Char × Nat)
  | [], line => .error ⟨.unterminatedString, line⟩
  | c :: cs, line =>
    if c = quote then
      .ok ([], cs, line)
    else if c = '\\' then
      match cs with
      -- A mark at the end of the text escapes nothing, so it is the string that has no end.
      | [] => .error ⟨.unterminatedString, line⟩
      | e :: cs =>
        match unescape? e with
        | none => .error ⟨.invalidEscape e, line⟩
        | some d => (stringBody quote cs line).map fun r => (d :: r.1, r.2)
    else
      -- A string may go over lines; the tokens behind it count them.
      (stringBody quote cs (if c = '\n' then line + 1 else line)).map fun r => (c :: r.1, r.2)

/-- A string body consumes at least its closing quote. -/
theorem stringBody_length_lt {quote : Char} {cs : List Char} {line : Nat}
    {r : List Char × List Char × Nat} (h : stringBody quote cs line = .ok r) :
    r.2.1.length < cs.length := by
  fun_induction stringBody quote cs line generalizing r with
  | case1 => cases h
  | case2 => cases h; simp
  | case3 => cases h
  | case4 => cases h
  | case5 line e cs d _ _ ih =>
      cases hr : stringBody quote cs line with
      | error e => rw [hr] at h; cases h
      | ok b =>
          rw [hr] at h
          cases h
          have := ih hr
          simp only [List.length_cons]
          omega
  | case6 c cs line _ _ ih =>
      cases hr : stringBody quote cs (if c = '\n' then line + 1 else line) with
      | error e => rw [hr] at h; cases h
      | ok b =>
          rw [hr] at h
          cases h
          have := ih hr
          simp only [List.length_cons]
          omega

/-! ### Numbers, words and paths -/

/-- A number that starts with the digit `c`: digits, and after them a point with digits if a digit
follows the point. -/
def number (line : Nat) (c : Char) (cs : List Char) : Except LexError (Reading cs) :=
  let whole := c :: cs.takeWhile Char.isDigit
  match h : cs.dropWhile Char.isDigit with
  | '.' :: d :: rest =>
    -- A point without a digit behind it is left to whatever follows the number.
    if d.isDigit then
      let places := (d :: rest).takeWhile Char.isDigit
      let decimal : Number.Decimal :=
        ⟨Number.natOfDigits (whole ++ places), -(places.length : Int)⟩
      .ok
        { lexeme := .float decimal.toFloat
          rest := (d :: rest).dropWhile Char.isDigit
          line := line
          le := by
            have h1 := length_dropWhile_le Char.isDigit (d :: rest)
            have h2 := length_dropWhile_le Char.isDigit cs
            rw [h] at h2
            simp only [List.length_cons] at h1 h2 ⊢
            omega }
    else integer whole
  | _ => integer whole
where
  /-- A number without a point. -/
  integer (whole : List Char) : Except LexError (Reading cs) :=
    (Number.checked (Number.natOfDigits whole)).elim
      (.error ⟨.integerOutOfRange (String.ofList whole), line⟩)
      fun n => .ok ⟨.int n, cs.dropWhile Char.isDigit, line, length_dropWhile_le Char.isDigit cs⟩

/-- The names of a dotted path and what follows it; a point continues the path only if a name
follows it. -/
def pathNames (cs : List Char) : List String × List Char :=
  let name := String.ofList (cs.takeWhile isNameChar)
  match _h : cs.dropWhile isNameChar with
  | '.' :: c :: rest =>
    if isNameChar c then
      let (names, rest) := pathNames (c :: rest)
      (name :: names, rest)
    else ([name], '.' :: c :: rest)
  | rest => ([name], rest)
termination_by cs.length
decreasing_by
  have h' := length_dropWhile_le isNameChar cs
  rw [_h] at h'
  simp only [List.length_cons] at h' ⊢
  omega

/-- A path leaves no more text than it was given. -/
theorem pathNames_length_le (cs : List Char) : (pathNames cs).2.length ≤ cs.length := by
  fun_induction pathNames cs with
  | case1 cs name c rest h hc names rest' heq ih =>
      have h' := length_dropWhile_le isNameChar cs
      rw [h] at h'
      rw [heq] at ih
      simp only [List.length_cons] at h' ih ⊢
      omega
  | case2 cs name c rest h hc =>
      have h' := length_dropWhile_le isNameChar cs
      rw [h] at h'
      exact h'
  | case3 cs name h =>
      exact length_dropWhile_le isNameChar cs

/-- A path after its leading point. -/
def path (line : Nat) (global : Bool) (cs : List Char) : Except LexError (Reading cs) :=
  if (cs.takeWhile isNameChar).isEmpty then .error ⟨.invalidVariableName, line⟩
  else .ok ⟨.path global (pathNames cs).1, (pathNames cs).2, line, pathNames_length_le cs⟩

/-- A word that starts with the character `c`, or the path that the word `global` starts when a
point and a name follow it. The word `else` is another spelling of the symbol `||`. -/
def word (line : Nat) (c : Char) (cs : List Char) : Except LexError (Reading cs) :=
  let w := String.ofList (c :: cs.takeWhile isNameChar)
  match h : cs.dropWhile isNameChar with
  | '.' :: d :: rest =>
    if w = "global" ∧ isNameChar d = true then
      (path line true (d :: rest)).map fun r =>
        { r with
          le := by
            have h1 := r.le
            have h2 := length_dropWhile_le isNameChar cs
            rw [h] at h2
            simp only [List.length_cons] at h1 h2 ⊢
            omega }
    else .ok (plain w)
  | _ => .ok (plain w)
where
  /-- A word that starts no path. -/
  plain (w : String) : Reading cs :=
    ⟨if w = "else" then .symbol .orElse else .word w, cs.dropWhile isNameChar, line,
      length_dropWhile_le isNameChar cs⟩

/-! ### The loop -/

/-- The longest symbol that a text starts with. -/
def symbol? (cs : List Char) : Option Symbol :=
  Symbol.all.find? fun s => s.text.toList.isPrefixOf cs

/-- Reads the lexeme at the front of a text whose first character is neither blank nor the start of
a comment; `line` is the line of that character. -/
def lexeme (line : Nat) (c : Char) (cs : List Char) : Except LexError (Reading cs) :=
  match Bracket.ofOpen? c, Bracket.ofClose? c with
  | some b, _ => .ok ⟨.opening b, cs, line, Nat.le_refl _⟩
  | none, some b => .ok ⟨.closing b, cs, line, Nat.le_refl _⟩
  | none, none =>
    if c = ',' then .ok ⟨.comma, cs, line, Nat.le_refl _⟩
    else if c = ';' then .ok ⟨.semicolon, cs, line, Nat.le_refl _⟩
    else if c = '"' ∨ c = '\'' then
      match h : stringBody c cs line with
      | .error e => .error e
      | .ok (text, rest, reached) =>
        .ok ⟨.str (String.ofList text), rest, reached, Nat.le_of_lt (stringBody_length_lt h)⟩
    else if c = '.' then path line false cs
    else if c.isDigit then number line c cs
    else if c.isAlpha ∨ c = '_' then word line c cs
    else
      match symbol? (c :: cs) with
      | none => .error ⟨.unexpectedCharacter c, line⟩
      | some s => .ok ⟨.symbol s, cs.drop (s.text.length - 1), line, by simp⟩

/-- The tokens of a text that starts on a given line. -/
def scan (line : Nat) (cs : List Char) : Except LexError (List Token) :=
  match cs with
  | [] => .ok []
  | c :: cs =>
    if c = '\n' then scan (line + 1) cs
    else if Text.isBlank c then scan line cs
    else if c = '#' then scan line (cs.dropWhile fun d => d ≠ '\n')
    else
      match lexeme line c cs with
      | .error e => .error e
      | .ok r => (scan r.line r.rest).map fun tokens => ⟨r.lexeme, line⟩ :: tokens
termination_by cs.length
decreasing_by
  · simp
  · simp
  · exact Nat.lt_succ_of_le (length_dropWhile_le _ cs)
  · exact Nat.lt_succ_of_le r.le

end Lexer

/-- The tokens of a source text. -/
def tokenize (source : String) : Except LexError (List Token) :=
  Lexer.scan 0 source.toList

end Stepwise
