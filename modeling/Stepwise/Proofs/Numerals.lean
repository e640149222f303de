import Stepwise.Program
import Stepwise.Proofs.Locality
import Stepwise.Proofs.Printing
import Stepwise.Proofs.Relabelling
import Stepwise.Proofs.Writing

/-!
# `Stepwise.Proofs.Numerals`: integers read as they are printed

The text of an integer is its digits, with a minus in front of those of a negative one
(`Number.toList_writeInt_of_neg`). There are two readers of such a text.

The operation `int` drops the blanks around the text (`Text.trimChars_of_blanks`) and reads the sign and the
digits together (`Number.readInt?_writeInt`).

In a script the minus and the digits are two tokens. The digits have to be a script integer by themselves
(`Lexer.scan_digits`), and the parser makes the minus a part of it (`Block.ofTokens_minus_int`). So a script
with the least integer is refused: its digits stand for an integer that is too large by one.

* `State.integers_read_as_printed`: both readers give back the integer that was printed, except for the least
  one in a script.
-/

set_option autoImplicit false

namespace Stepwise

/-! ### The text of an integer -/

namespace Number

/-- A negative integer is written by a minus and the digits of its absolute value. -/
theorem toList_writeInt_of_neg {n : Int64} (h : n.toInt < 0) :
    (writeInt n).toList = '-' :: Nat.toDigits 10 n.toInt.natAbs := by
  obtain ⟨k, hk⟩ := Int.eq_negSucc_of_lt_zero h
  unfold writeInt
  rw [hk]
  show ("-" ++ Nat.repr (k + 1)).toList = _
  rw [String.toList_append, Nat.repr_eq_ofList_toDigits, String.toList_ofList, String.toList_ofList]
  rfl

theorem isDigit_of_mem_toDigits {k : Nat} {d : Char} (hd : d ∈ Nat.toDigits 10 k) : d.isDigit = true :=
  Nat.isDigit_of_mem_toDigits (by decide) (by decide) hd

theorem exists_toDigits_eq_cons (k : Nat) :
    ∃ c digits, Nat.toDigits 10 k = c :: digits ∧ c.isDigit = true := by
  have hne : Nat.toDigits 10 k ≠ [] := Nat.toDigits_ne_nil
  obtain ⟨c, digits, heq⟩ := List.exists_cons_of_ne_nil hne
  refine ⟨c, digits, heq, ?_⟩
  apply isDigit_of_mem_toDigits
  rw [heq]
  exact List.mem_cons_self

theorem toList_writeInt_ne_nil (n : Int64) : (writeInt n).toList ≠ [] := by
  by_cases hsign : 0 ≤ n.toInt
  · rw [Lexer.toList_writeInt hsign]
    exact Nat.toDigits_ne_nil
  · rw [toList_writeInt_of_neg (by omega)]
    exact List.cons_ne_nil _ _

/-- There are no blanks in the text of an integer. -/
theorem isBlank_of_mem_writeInt {n : Int64} {c : Char} (hc : c ∈ (writeInt n).toList) :
    Text.isBlank c = false := by
  have hdigit {k : Nat} (hd : c ∈ Nat.toDigits 10 k) : Text.isBlank c = false :=
    (Lexer.apart_of_isNameChar (Lexer.isNameChar_of_isDigit (isDigit_of_mem_toDigits hd))).1
  by_cases hsign : 0 ≤ n.toInt
  · rw [Lexer.toList_writeInt hsign] at hc
    exact hdigit hc
  · rw [toList_writeInt_of_neg (by omega)] at hc
    rcases List.mem_cons.mp hc with rfl | hc
    · decide
    · exact hdigit hc

/-- The digits of a number are accepted as digits. -/
theorem accepts_toDigits (k : Nat) :
    ((Nat.toDigits 10 k).isEmpty || !(Nat.toDigits 10 k).all Char.isDigit) = false := by
  have hall : (Nat.toDigits 10 k).all Char.isDigit = true :=
    List.all_eq_true.mpr fun d hd => isDigit_of_mem_toDigits hd
  rw [hall, List.isEmpty_eq_false_iff.mpr Nat.toDigits_ne_nil]
  rfl

/-- The text of an integer is read as the integer. The least one is no exception, since the sign is read before
the number is checked. -/
theorem readInt?_writeInt (n : Int64) : readInt? (writeInt n).toList = some n := by
  by_cases hsign : 0 ≤ n.toInt
  · have hvalue : ((n.toInt.toNat : Nat) : Int) = n.toInt := Int.toNat_of_nonneg hsign
    -- A text of digits has no sign to be split off.
    have hsplit : splitSign (Nat.toDigits 10 n.toInt.toNat) = (false, Nat.toDigits 10 n.toInt.toNat) := by
      obtain ⟨c, digits, heq, hc⟩ := exists_toDigits_eq_cons n.toInt.toNat
      rw [heq]
      exact Lexer.splitSign_of_digit hc digits
    rw [Lexer.toList_writeInt hsign, readInt?, hsplit]
    dsimp only
    rw [accepts_toDigits, Lexer.natOfDigits_toDigits, hvalue]
    exact checked_toInt n
  · have hvalue : -((n.toInt.natAbs : Nat) : Int) = n.toInt := by omega
    rw [toList_writeInt_of_neg (by omega), readInt?, splitSign]
    dsimp only
    rw [accepts_toDigits, Lexer.natOfDigits_toDigits, hvalue]
    exact checked_toInt n

end Number

/-- Blanks around a text without blanks are dropped. -/
theorem Text.trimChars_of_blanks {before cs after : List Char} (hbefore : ∀ c ∈ before, isBlank c = true)
    (hafter : ∀ c ∈ after, isBlank c = true) (hcs : ∀ c ∈ cs, isBlank c = false) (hne : cs ≠ []) :
    trimChars (before ++ cs ++ after) = cs := by
  have hfront : Lexer.Stops isBlank (cs ++ after) := by
    obtain ⟨c, cs, rfl⟩ := List.exists_cons_of_ne_nil hne
    exact Lexer.stops_cons (hcs c List.mem_cons_self)
  -- From behind, the text starts with its last character.
  have hback : Lexer.Stops isBlank cs.reverse := by
    intro c hc
    exact hcs c (List.mem_reverse.mp (List.mem_of_mem_head? hc))
  have hafter' : ∀ c ∈ after.reverse, isBlank c = true := by
    intro c hc
    exact hafter c (List.mem_reverse.mp hc)
  unfold trimChars
  rw [List.append_assoc, Lexer.dropWhile_run hbefore hfront, List.reverse_append,
    Lexer.dropWhile_run hafter' hback, List.reverse_reverse]

/-! ### The tokens of an integer -/

namespace Lexer

/-- Digits are refused as a whole if their number does not fit. -/
theorem lexeme_of_unfitting (line : Nat) {c : Char} {digits rest : List Char}
    (hdigits : ∀ d ∈ c :: digits, d.isDigit = true) (hstops : Stops Char.isDigit rest)
    (hpoint : StopsAtPoint Char.isDigit rest)
    (hlarge : Number.checked (Number.natOfDigits (c :: digits)) = none) :
    lexeme line c (digits ++ rest) = .error ⟨.integerOutOfRange (String.ofList (c :: digits)), line⟩ := by
  have hrun : ∀ d ∈ digits, d.isDigit = true := by
    intro d hd
    exact hdigits d (List.mem_cons_of_mem c hd)
  rw [lexeme_of_digit line _ (hdigits c List.mem_cons_self), number_of_digits line hrun hstops hpoint,
    number.integer, hlarge]
  rfl

/-- Digits in front of a semicolon are an integer if their number fits, and are refused if not. -/
theorem scan_digits (k : Nat) :
    scan 0 (Nat.toDigits 10 k ++ [';']) =
      match Number.checked k with
      | some m => .ok [⟨.int m, 0⟩, ⟨.semicolon, 0⟩]
      | none => .error ⟨.integerOutOfRange (String.ofList (Nat.toDigits 10 k)), 0⟩ := by
  have hdigits : ∀ d ∈ Nat.toDigits 10 k, d.isDigit = true := by
    intro d hd
    exact Number.isDigit_of_mem_toDigits hd
  -- The digits are not followed by a digit nor by a point.
  have hstops : Stops Char.isDigit [';'] := stops_cons (by decide)
  have hpoint : StopsAtPoint Char.isDigit [';'] := by
    intro c cs heq
    cases heq
  cases hk : Number.checked k with
  | some m =>
      have hspells : Spells [';'] (.int m) (Nat.toDigits 10 k) := by
        refine .int Nat.toDigits_ne_nil hdigits ?_ hstops hpoint
        rw [natOfDigits_toDigits]
        exact Number.toInt_of_checked hk
      have hend : scan 0 [';'] = .ok [⟨.semicolon, 0⟩] := by
        show scan 0 ([';'] ++ []) = _
        rw [scan_spelling .semicolon, scan]
        rfl
      rw [scan_spelling hspells, count_run hdigits (by decide), hend]
      rfl
  | none =>
      -- The lexer reads the same digits and refuses their number.
      obtain ⟨c, digits, heq, hc⟩ := Number.exists_toDigits_eq_cons k
      have hlarge : Number.checked (Number.natOfDigits (c :: digits)) = none := by
        rw [← heq, natOfDigits_toDigits, hk]
      obtain ⟨hblank, hmark⟩ := apart_of_isNameChar (isNameChar_of_isDigit hc)
      rw [heq] at hdigits ⊢
      rw [List.cons_append, scan_lexeme 0 _ hblank (ne_hash_of_not_mark hmark),
        lexeme_of_unfitting 0 hdigits hstops hpoint hlarge]
      rfl

/-- A minus in front of digits is a token of its own: no symbol goes on with a digit. -/
theorem scan_minus (k : Nat) (rest : List Char) :
    scan 0 ('-' :: (Nat.toDigits 10 k ++ rest)) =
      (scan 0 (Nat.toDigits 10 k ++ rest)).map fun tokens => ⟨.symbol (.arith .sub), 0⟩ :: tokens := by
  obtain ⟨c, digits, heq, hc⟩ := Number.exists_toDigits_eq_cons k
  have hapart (s : Symbol) : c ∉ s.text.toList := by
    intro hmem
    have hname := (Symbol.apart_of_mem_text hmem).1
    rw [isNameChar_of_isDigit hc] at hname
    cases hname
  have hspells : Spells (Nat.toDigits 10 k ++ rest) (.symbol (.arith .sub)) ['-'] := by
    rw [heq]
    exact .symbol (.arith .sub) (longest_of_apart hapart _)
  exact scan_spelling hspells 0

end Lexer

/-! ### The script of an integer -/

namespace Block

open Stepwise.Parser in
/-- An integer in front of a semicolon is a script. -/
theorem ofTokens_int (n : Int64) :
    ofTokens [⟨.int n, 0⟩, ⟨.semicolon, 0⟩] = .ok (.mk 0 [.mk 0 (.int n)]) := by
  have hends : Ends [⟨.semicolon, 0⟩] := ends_cons (by simp) 0 []
  have hread : Gives (expression 0 ([⟨.int n, 0⟩] ++ [⟨.semicolon, 0⟩])) (.mk 0 (.int n))
      [⟨.semicolon, 0⟩] :=
    expression_of_primary (primary_of_atom rfl 0 0 _) hends
  exact ofTokens_of_expression hread

open Stepwise.Parser in
/-- The minus in front of an integer becomes a part of it. -/
theorem ofTokens_minus_int {n : Int64} (h : n ≠ Int64.minValue) :
    ofTokens [⟨.symbol (.arith .sub), 0⟩, ⟨.int (-n), 0⟩, ⟨.semicolon, 0⟩] =
      .ok (.mk 0 [.mk 0 (.int n)]) := by
  have hends : Ends [⟨.semicolon, 0⟩] := ends_cons (by simp) 0 []
  have hform : unaryForm .neg (.mk 0 (.int (-n))) = .int n := by
    -- The least integer is its own negative in 64 bits and is excluded; every other one is negated exactly.
    have hvalue : -(-n).toInt = n.toInt := by
      rw [Number.toInt_neg h]
      omega
    simp only [unaryForm, Node.form, hvalue, Number.checked_toInt]
  have hoperand : Gives (unary 0 [⟨.int (-n), 0⟩, ⟨.semicolon, 0⟩]) (.mk 0 (.int (-n)))
      [⟨.semicolon, 0⟩] :=
    unary_of_primary (primary_of_atom rfl 0 0 _) (hends.take _)
  have hread : Gives (unary 0 ([⟨.symbol (.arith .sub), 0⟩, ⟨.int (-n), 0⟩] ++ [⟨.semicolon, 0⟩]))
      (.mk 0 (unaryForm .neg (.mk 0 (.int (-n))))) [⟨.semicolon, 0⟩] :=
    unary_of_operator rfl hoperand
  rw [hform] at hread
  exact ofTokens_of_expression (expression_of_unary hread hends)

theorem ofSource_of_tokens {source : String} {tokens : List Token} {root : Block}
    (htokens : tokenize source = .ok tokens) (hroot : ofTokens tokens = .ok root) :
    ofSource source = .ok root := by
  rw [ofSource, htokens]
  dsimp only
  rw [hroot]

/-- The text of every integer but the least one is a script with the integer as its only literal. -/
theorem ofSource_writeInt {n : Int64} (h : n ≠ Int64.minValue) :
    ofSource (Number.writeInt n ++ ";") = .ok (.mk 0 [.mk 0 (.int n)]) := by
  have htext : (Number.writeInt n ++ ";").toList = (Number.writeInt n).toList ++ [';'] :=
    String.toList_append
  by_cases hsign : 0 ≤ n.toInt
  · have hvalue : ((n.toInt.toNat : Nat) : Int) = n.toInt := Int.toNat_of_nonneg hsign
    refine ofSource_of_tokens ?_ (ofTokens_int n)
    rw [tokenize, htext, Lexer.toList_writeInt hsign, Lexer.scan_digits, hvalue, Number.checked_toInt]
  · have hvalue : ((n.toInt.natAbs : Nat) : Int) = (-n).toInt := by
      rw [Number.toInt_neg h]
      omega
    refine ofSource_of_tokens ?_ (ofTokens_minus_int h)
    rw [tokenize, htext, Number.toList_writeInt_of_neg (by omega), List.cons_append, Lexer.scan_minus,
      Lexer.scan_digits, hvalue, Number.checked_toInt]
    rfl

/-- The least integer is refused in a script: its digits are a token of their own, and their number is too large. -/
theorem ofSource_writeInt_least :
    ofSource (Number.writeInt Int64.minValue ++ ";") =
      .error (LexError.report ⟨.integerOutOfRange "9223372036854775808", 0⟩) := by
  have htext : (Number.writeInt Int64.minValue ++ ";").toList =
      (Number.writeInt Int64.minValue).toList ++ [';'] :=
    String.toList_append
  have hleast : Int64.minValue.toInt = -9223372036854775808 := by decide
  have habs : Int64.minValue.toInt.natAbs = 9223372036854775808 := by omega
  -- The digits are one beyond the greatest integer, and the sign is a token of its own.
  have hlarge : Number.checked (9223372036854775808 : Nat) = none := by
    rw [Number.checked_eq_none_iff]
    decide
  have hdigits : String.ofList (Nat.toDigits 10 9223372036854775808) = "9223372036854775808" := by decide
  have htokens : tokenize (Number.writeInt Int64.minValue ++ ";") =
      .error ⟨.integerOutOfRange "9223372036854775808", 0⟩ := by
    rw [tokenize, htext, Number.toList_writeInt_of_neg (by omega), habs, List.cons_append,
      Lexer.scan_minus, Lexer.scan_digits, hlarge, hdigits]
    rfl
  rw [ofSource, htokens]

end Block

theorem Heap.displayAlone_int (h : Heap) (n : Int64) : h.displayAlone (.int n) = Number.writeInt n := by
  show h.render [] [.value (.int n)] "" = _
  rw [render_atom rfl, render, String.empty_append]
  rfl

namespace State

/-- The operation `int` on the text of an integer with blanks around it. -/
theorem apply_int_writeInt (st : State) (n : Int64) {before after : List Char}
    (hbefore : ∀ c ∈ before, Text.isBlank c = true) (hafter : ∀ c ∈ after, Text.isBlank c = true) :
    st.apply .int [.str (String.ofList (before ++ (Number.writeInt n).toList ++ after))] =
      (.ok (.int n), st) := by
  have htrim : Text.trimChars (before ++ (Number.writeInt n).toList ++ after) = (Number.writeInt n).toList :=
    Text.trimChars_of_blanks hbefore hafter (fun c hc => Number.isBlank_of_mem_writeInt hc)
      (Number.toList_writeInt_ne_nil n)
  apply apply_of_value
  show (st.heap.toInt _).map _ = _
  rw [Heap.toInt, String.toList_ofList, htrim, Number.readInt?_writeInt]

/-- Integers are read as they are printed. The operation `int` gives back the integer, also from a text with
blanks around it. A script of the text and a semicolon has the integer as its only literal; if it is the least
one, the script is refused, since its digits alone are too large. -/
theorem integers_read_as_printed (st : State) (n : Int64) :
    (∀ before after : List Char, (∀ c ∈ before ++ after, Text.isBlank c = true) →
      st.apply .int [.str (String.ofList (before ++ (st.heap.displayAlone (.int n)).toList ++ after))] =
        (.ok (.int n), st)) ∧
    (n ≠ Int64.minValue →
      Block.ofSource (st.heap.displayAlone (.int n) ++ ";") = .ok (.mk 0 [.mk 0 (.int n)])) ∧
    (n = Int64.minValue →
      Block.ofSource (st.heap.displayAlone (.int n) ++ ";") =
        .error (LexError.report ⟨.integerOutOfRange "9223372036854775808", 0⟩)) := by
  rw [Heap.displayAlone_int]
  refine ⟨?_, Block.ofSource_writeInt, ?_⟩
  · intro before after hblank
    apply apply_int_writeInt
    · intro c hc
      exact hblank c (List.mem_append_left after hc)
    · intro c hc
      exact hblank c (List.mem_append_right before hc)
  · rintro rfl
    exact Block.ofSource_writeInt_least

/-- A negative integer between blanks, and the least integer, which is no literal of a script. -/
theorem integers_read_as_printed_of_signs :
    let st : State := default
    st.apply .int [.str " \t-42\n"] = (.ok (.int (-42)), st) ∧
      Block.ofSource "-42;" = .ok (.mk 0 [.mk 0 (.int (-42))]) ∧
      Block.ofSource "-9223372036854775808;" =
        .error (LexError.report ⟨.integerOutOfRange "9223372036854775808", 0⟩) := by
  intro st
  have hblank : ∀ c ∈ [' ', '\t'] ++ ['\n'], Text.isBlank c = true := List.all_eq_true.mp rfl
  obtain ⟨hint, hscript, -⟩ := integers_read_as_printed st (-42)
  obtain ⟨-, -, hleast⟩ := integers_read_as_printed st Int64.minValue
  rw [Heap.displayAlone_int] at hint hscript hleast
  -- The texts of the script, spelled out.
  have htext : String.ofList ([' ', '\t'] ++ (Number.writeInt (-42)).toList ++ ['\n']) = " \t-42\n" := by
    decide
  have hsource : Number.writeInt (-42) ++ ";" = "-42;" := by decide
  have hsourceLeast : Number.writeInt Int64.minValue ++ ";" = "-9223372036854775808;" := by decide
  have hint' := hint [' ', '\t'] ['\n'] hblank
  have hscript' := hscript (by decide)
  have hleast' := hleast rfl
  rw [htext] at hint'
  rw [hsource] at hscript'
  rw [hsourceLeast] at hleast'
  exact ⟨hint', hscript', hleast'⟩

end State

end Stepwise
