import Stepwise.Proofs.Partition

/-!
# `Stepwise.Proofs.Writing`: lexemes written and read again

`Lexeme.written` writes a lexeme as text: an integer in decimal, a string between quotes with the quote and the
escape mark escaped, a path with a point in front of each name, and everything else as it stands in a script.
`Lexeme.writtenAll` writes lexemes one after another with a space between two of them.

`tokenize_writtenAll` says that the text of lexemes has these lexemes as its tokens, each on the line that is
reached before it. The lexemes have to be some that a text can spell (`Lexeme.Writable`); for floats this
assumes numerals that are read as the float they are written for. A space ends every lexeme, so that each is
spelled by its own text whatever comes next (`Lexer.spells_written`), and the theorem follows from what is known
of the cuts of a text.
-/

set_option autoImplicit false

namespace Stepwise

namespace Lexer

/-- The contents of a string with the quote and the escape mark escaped. -/
def escaped (quote : Char) (text : List Char) : List Char :=
  text.flatMap fun c => if c = quote ∨ c = '\\' then ['\\', c] else [c]

/-- A text that writes a float: digits, a point and digits that are read as the float. -/
def Numeral (x : Float) (text : List Char) : Prop :=
  ∃ whole places, text = whole ++ '.' :: places ∧ whole ≠ [] ∧ places ≠ [] ∧
    (∀ d ∈ whole ++ places, d.isDigit = true) ∧ Number.readFloat? text = some x

end Lexer

namespace Lexeme

open Lexer

/-- The text of a lexeme, with a given quote around strings and given numerals for floats. -/
def written (quote : Char) (numeral : Float → List Char) : Lexeme → List Char
  | .int n => (Number.writeInt n).toList
  | .float x => numeral x
  | .str s => quote :: (escaped quote s.toList ++ [quote])
  | .path false names => pathText names
  | .path true names => "global".toList ++ pathText names
  | .word w => w.toList
  | .symbol s => s.text.toList
  | .opening b => [b.openChar]
  | .closing b => [b.closeChar]
  | .comma => [',']
  | .semicolon => [';']

/-- The text of lexemes one after another with a space between them. -/
def writtenAll (quote : Char) (numeral : Float → List Char) (lexemes : List Lexeme) : List Char :=
  [' '].intercalate (lexemes.map (written quote numeral))

/-- A lexeme that some text spells: an integer has no sign, a path and a word are made of names, a word neither
starts with a digit nor is `else`, and a float has its numeral. -/
def Writable (numeral : Float → List Char) : Lexeme → Prop
  | .int n => 0 ≤ n.toInt
  | .float x => Numeral x (numeral x)
  | .path _ names => names ≠ [] ∧ ∀ name ∈ names, isName name = true
  | .word w => isName w = true ∧ Stops Char.isDigit w.toList ∧ w ≠ "else"
  | _ => True

end Lexeme

namespace Lexer

/-! ### Numbers -/

/-- The digits of a number are read as the number. -/
theorem natOfDigits_toDigits (k : Nat) : Number.natOfDigits (Nat.toDigits 10 k) = k :=
  Nat.ofDigitChars_toDigits (by decide) (by decide)

/-- An integer without a sign is written by its digits. -/
theorem toList_writeInt {n : Int64} (h : 0 ≤ n.toInt) :
    (Number.writeInt n).toList = Nat.toDigits 10 n.toInt.toNat := by
  obtain ⟨k, hk⟩ := Int.eq_ofNat_of_zero_le h
  unfold Number.writeInt
  rw [hk]
  show (Nat.repr k).toList = _
  rw [Nat.repr_eq_ofList_toDigits, String.toList_ofList]
  rfl

/-- A digit is no sign. -/
theorem splitSign_of_digit {c : Char} (hc : c.isDigit = true) (cs : List Char) :
    Number.splitSign (c :: cs) = (false, c :: cs) := by
  unfold Number.splitSign
  split
  · rename_i heq
    cases heq
    cases hc
  · rename_i heq
    cases heq
    cases hc
  · rfl

/-- A numeral is read digit by digit. -/
theorem readDecimal?_numeral {whole places : List Char} (hwhole : whole ≠ [])
    (hdigits : ∀ d ∈ whole ++ places, d.isDigit = true) :
    Number.readDecimal? (whole ++ '.' :: places) =
      some ⟨Number.natOfDigits (whole ++ places), -(places.length : Int)⟩ := by
  have hwhole' : ∀ d ∈ whole, d.isDigit = true := fun d hd => hdigits d (List.mem_append_left _ hd)
  have hplaces : ∀ d ∈ places, d.isDigit = true := fun d hd => hdigits d (List.mem_append_right _ hd)
  have hpoint : Stops Char.isDigit ('.' :: places) := stops_cons (by decide)
  have htake := takeWhile_run hplaces stops_nil
  have hdrop := dropWhile_run hplaces stops_nil
  rw [List.append_nil] at htake hdrop
  unfold Number.readDecimal?
  simp only [takeWhile_run hwhole' hpoint, dropWhile_run hwhole' hpoint, htake, hdrop]
  simp [hwhole, Number.readExponent?]

theorem readFloat?_numeral {whole places : List Char} (hwhole : whole ≠ [])
    (hdigits : ∀ d ∈ whole ++ places, d.isDigit = true) :
    Number.readFloat? (whole ++ '.' :: places) =
      some (Number.Decimal.toFloat ⟨Number.natOfDigits (whole ++ places), -(places.length : Int)⟩) := by
  have hdecimal := readDecimal?_numeral hwhole hdigits
  obtain ⟨c, whole, rfl⟩ := List.exists_cons_of_ne_nil hwhole
  have hc : c.isDigit = true := hdigits c (by simp)
  -- A digit is neither a sign nor the start of a name.
  have hsign : Number.splitSign (c :: whole ++ '.' :: places) = (false, c :: whole ++ '.' :: places) :=
    splitSign_of_digit hc _
  have hlower : c.toLower = c := by
    grind [Char.isDigit, Char.toLower, Char.isUpper]
  have hname : ∀ name : String, Stops Char.isDigit name.toList →
      String.ofList ((c :: whole ++ '.' :: places).map Char.toLower) ≠ name := by
    intro name hstops heq
    rw [← heq, String.toList_ofList, List.cons_append, List.map_cons, hlower] at hstops
    rw [hstops c rfl] at hc
    cases hc
  unfold Number.readFloat?
  simp only [hsign]
  rw [if_neg, if_neg, hdecimal]
  · rfl
  · exact hname "nan" (stops_cons (by decide))
  · rintro (heq | heq)
    · exact hname "inf" (stops_cons (by decide)) heq
    · exact hname "infinity" (stops_cons (by decide)) heq

/-! ### What stands in front of a space -/

/-- A text that is empty or starts with a blank. -/
def Breaks (rest : List Char) : Prop :=
  Stops (fun c => !Text.isBlank c) rest

theorem breaks_nil : Breaks [] := stops_nil

theorem breaks_space (rest : List Char) : Breaks (' ' :: rest) :=
  stops_cons (by decide)

/-- No class without blanks goes on behind a break. -/
theorem Breaks.stops {p : Char → Bool} {rest : List Char} (h : Breaks rest)
    (hp : ∀ c, p c = true → Text.isBlank c = false) : Stops p rest := by
  intro c hc
  have hblank : Text.isBlank c = true := by simpa using h c hc
  cases hpc : p c with
  | false => rfl
  | true =>
      rw [hp c hpc] at hblank
      cases hblank

theorem Breaks.stopsAtPoint {p : Char → Bool} {rest : List Char} (h : Breaks rest) :
    StopsAtPoint p rest := by
  intro c cs heq
  rw [heq] at h
  have hblank := h '.' rfl
  cases hblank

/-- No symbol reaches beyond a character that is in no symbol. -/
theorem longest_of_apart {c : Char} (hc : ∀ s : Symbol, c ∉ s.text.toList) {rest : List Char} (s s' : Symbol)
    (hs : s'.text.toList <+: s.text.toList ++ c :: rest) : s'.text.length ≤ s.text.length := by
  by_contra hlt
  have hlen : (s.text.toList ++ [c]).length ≤ s'.text.toList.length := by
    simp only [List.length_append, List.length_singleton, String.length_toList]
    omega
  have hfront : s.text.toList ++ [c] <+: s.text.toList ++ c :: rest := ⟨rest, by simp⟩
  have hmem : c ∈ s'.text.toList :=
    (List.prefix_of_prefix_length_le hfront hs hlen).subset (by simp)
  exact hc s' hmem

/-- No symbol reaches beyond a break. -/
theorem Breaks.longest {rest : List Char} (h : Breaks rest) (s s' : Symbol)
    (hs : s'.text.toList <+: s.text.toList ++ rest) : s'.text.length ≤ s.text.length := by
  cases rest with
  | nil =>
      rw [List.append_nil] at hs
      simpa only [String.length_toList] using hs.length_le
  | cons c rest =>
      refine longest_of_apart ?_ s s' hs
      intro s'' hmem
      have hblank : Text.isBlank c = true := by simpa using h c rfl
      rw [(Symbol.apart_of_mem_text hmem).2.1] at hblank
      cases hblank

/-! ### Spellings -/

theorem escaped_cons (quote c : Char) (text : List Char) :
    escaped quote (c :: text) = (if c = quote ∨ c = '\\' then ['\\', c] else [c]) ++ escaped quote text :=
  rfl

/-- Escaping is undone by reading. -/
theorem unescapes_escaped {quote : Char} (hquote : quote = '"' ∨ quote = '\'') (text : List Char) :
    Unescapes quote (escaped quote text) text := by
  induction text with
  | nil => exact .nil
  | cons c text ih =>
      rw [escaped_cons]
      split
      · rename_i hc
        -- Only the quote and the escape mark are escaped, and each of them stands for itself.
        have hescape : unescape? c = some c := by
          rcases hc with rfl | rfl
          · rcases hquote with rfl | rfl <;> rfl
          · rfl
        exact .escape hescape ih
      · rename_i hc
        have hnot := not_or.mp hc
        exact .plain hnot.1 hnot.2 ih

/-- A lexeme is spelled by its text in front of a break. -/
theorem spells_written {quote : Char} (hquote : quote = '"' ∨ quote = '\'') {numeral : Float → List Char}
    {l : Lexeme} (hl : l.Writable numeral) {rest : List Char} (hrest : Breaks rest) :
    Spells rest l (l.written quote numeral) := by
  have hname : Stops isNameChar rest := hrest.stops fun c hc => (apart_of_isNameChar hc).1
  have hdigit : Stops Char.isDigit rest :=
    hrest.stops fun c hc => (apart_of_isNameChar (isNameChar_of_isDigit hc)).1
  cases l with
  | int n =>
      show Spells rest (.int n) (Number.writeInt n).toList
      rw [toList_writeInt hl]
      refine .int Nat.toDigits_ne_nil ?_ ?_ hdigit hrest.stopsAtPoint
      · intro d hd
        exact Nat.isDigit_of_mem_toDigits (by decide) (by decide) hd
      · rw [natOfDigits_toDigits]
        exact (Int.toNat_of_nonneg hl).symm
  | float x =>
      obtain ⟨whole, places, htext, hwhole, hplaces, hdigits, hread⟩ := hl
      show Spells rest (.float x) (numeral x)
      -- The numeral reads as `x`, so `x` is the float that its digits spell.
      rw [htext, readFloat?_numeral hwhole hdigits] at hread
      cases hread
      rw [htext]
      exact .float hwhole hplaces hdigits hdigit
  | str s =>
      have hspells : Spells rest (.str (String.ofList s.toList)) _ :=
        .str hquote (unescapes_escaped hquote s.toList)
      rw [String.ofList_toList] at hspells
      exact hspells
  | path global names =>
      obtain ⟨hne, hnames⟩ := hl
      cases global with
      | false => exact .path hne hnames hname hrest.stopsAtPoint
      | true => exact .globalPath hne hnames hname hrest.stopsAtPoint
  | word w =>
      -- A break is no character of a name, so the word ends where it was written to end.
      obtain ⟨hw, hfirst, helse⟩ := hl
      exact .word hw hfirst helse hname fun _ => hrest.stopsAtPoint
  | symbol s => exact .symbol s fun s' hs' => hrest.longest s s' hs'
  | opening b => exact .opening b
  | closing b => exact .closing b
  | comma => exact .comma
  | semicolon => exact .semicolon

/-! ### The whole text -/

/-- Lexemes as tokens, each on the line that the texts before it reach. -/
def numbered (quote : Char) (numeral : Float → List Char) (line : Nat) : List Lexeme → List Token
  | [] => []
  | l :: lexemes =>
    ⟨l, line⟩ :: numbered quote numeral (line + (l.written quote numeral).count '\n') lexemes

section Written

variable {quote : Char} {numeral : Float → List Char}

theorem writtenAll_singleton (l : Lexeme) :
    Lexeme.writtenAll quote numeral [l] = l.written quote numeral := by
  simp [Lexeme.writtenAll]

theorem writtenAll_cons_cons (l l' : Lexeme) (lexemes : List Lexeme) :
    Lexeme.writtenAll quote numeral (l :: l' :: lexemes) =
      l.written quote numeral ++ ' ' :: Lexeme.writtenAll quote numeral (l' :: lexemes) := by
  simp [Lexeme.writtenAll]

/-- The spaces between the texts are no line feeds. -/
theorem count_writtenAll_cons (l : Lexeme) (lexemes : List Lexeme) :
    (Lexeme.writtenAll quote numeral (l :: lexemes)).count '\n' =
      (l.written quote numeral).count '\n' + (Lexeme.writtenAll quote numeral lexemes).count '\n' := by
  cases lexemes with
  | nil =>
      rw [writtenAll_singleton]
      rfl
  | cons l' lexemes =>
      rw [writtenAll_cons_cons, List.count_append, List.count_cons_of_ne (by decide)]

/-- The text of lexemes is cut into their texts. -/
theorem cut_writtenAll (hquote : quote = '"' ∨ quote = '\'') {lexemes : List Lexeme}
    (h : ∀ l ∈ lexemes, l.Writable numeral) (line : Nat) :
    Cut line (numbered quote numeral line lexemes) (Lexeme.writtenAll quote numeral lexemes) := by
  induction lexemes generalizing line with
  | nil => exact .done .nil
  | cons l lexemes ih =>
      have hl : l.Writable numeral := h l (by simp)
      have htail := ih (fun l' hl' => h l' (by simp [hl']))
        (line + (l.written quote numeral).count '\n')
      cases lexemes with
      | nil =>
          have hspells := spells_written hquote hl breaks_nil
          rw [writtenAll_singleton, ← List.append_nil (l.written quote numeral)]
          exact .token (g := []) .nil hspells htail
      | cons l' lexemes =>
          -- The blank in front of the next lexeme is a break, and it belongs to the gap of that lexeme.
          have hspace : Gap (Lexeme.writtenAll quote numeral (l' :: lexemes)) [' '] :=
            .blank (by decide) .nil
          have hspells :=
            spells_written hquote hl (breaks_space (Lexeme.writtenAll quote numeral (l' :: lexemes)))
          rw [writtenAll_cons_cons]
          exact .token (g := []) .nil hspells (Cut.gap hspace htail)

theorem lexemes_numbered (line : Nat) (lexemes : List Lexeme) :
    (numbered quote numeral line lexemes).map Token.lexeme = lexemes := by
  induction lexemes generalizing line with
  | nil => rfl
  | cons l lexemes ih =>
      show l :: (numbered quote numeral _ lexemes).map Token.lexeme = l :: lexemes
      rw [ih]

/-- A token is on the line that the texts before it reach. -/
theorem line_of_numbered {line : Nat} {lexemes : List Lexeme} {before after : List Token} {t : Token}
    (h : numbered quote numeral line lexemes = before ++ t :: after) :
    t.line = line + (Lexeme.writtenAll quote numeral (before.map Token.lexeme)).count '\n' := by
  induction before generalizing line lexemes with
  | nil =>
      cases lexemes with
      | nil => cases h
      | cons l lexemes =>
          cases h
          rfl
  -- The line moves on by the line feeds of the first text, which are counted once on each side.
  | cons first before ih =>
      cases lexemes with
      | nil => cases h
      | cons l lexemes =>
          obtain ⟨rfl, htail⟩ := List.cons.inj h
          rw [ih htail, List.map_cons, count_writtenAll_cons, Nat.add_assoc]

end Written

end Lexer

/-- The text of lexemes has exactly them as its tokens, and the line of a token is the number of line feeds
written before it. -/
theorem tokenize_writtenAll {quote : Char} (hquote : quote = '"' ∨ quote = '\'')
    {numeral : Float → List Char} {lexemes : List Lexeme} (h : ∀ l ∈ lexemes, l.Writable numeral) :
    ∃ tokens, tokenize (String.ofList (Lexeme.writtenAll quote numeral lexemes)) = .ok tokens ∧
      tokens.map Token.lexeme = lexemes ∧
      ∀ before t after, tokens = before ++ t :: after →
        t.line = (Lexeme.writtenAll quote numeral (before.map Token.lexeme)).count '\n' := by
  refine ⟨Lexer.numbered quote numeral 0 lexemes, ?_, Lexer.lexemes_numbered 0 lexemes, ?_⟩
  · unfold tokenize
    rw [String.toList_ofList]
    exact Lexer.scan_eq_ok_iff.mpr (Lexer.cut_writtenAll hquote h 0)
  · intro before t after heq
    rw [Lexer.line_of_numbered heq, Nat.zero_add]

/-- The greatest integer, a float, a string with a quote, an escape mark and a line feed, the word `global` in
front of a path, and symbols that would run together. -/
theorem tokenize_writtenAll_mixed :
    let numeral : Float → List Char := fun _ => "0.5".toList
    let lexemes : List Lexeme :=
      [.int 9223372036854775807, .float 0.5, .str "'\\\n\"", .word "global", .path false ["x", "1"],
        .path true ["y_2"], .symbol (.arith .mul), .symbol (.update .mul), .symbol .orElse,
        .opening .curly, .semicolon]
    (∀ l ∈ lexemes, l.Writable numeral) ∧
      ∃ tokens, tokenize (String.ofList (Lexeme.writtenAll '\'' numeral lexemes)) = .ok tokens ∧
        tokens.map Token.lexeme = lexemes ∧
        ∀ before t after, tokens = before ++ t :: after →
          t.line = (Lexeme.writtenAll '\'' numeral (before.map Token.lexeme)).count '\n' := by
  intro numeral lexemes
  have hdigits : ∀ d ∈ ['0'] ++ ['5'], d.isDigit = true := List.all_eq_true.mp rfl
  have hfloat : Lexer.Numeral 0.5 "0.5".toList := ⟨['0'], ['5'], rfl, by decide, by decide, hdigits, rfl⟩
  have hword : Lexer.Stops Char.isDigit "global".toList := Lexer.stops_cons (by decide)
  have hlexemes : ∀ l ∈ lexemes, l.Writable numeral := by
    simp only [lexemes, List.forall_mem_cons, Lexeme.Writable]
    exact ⟨by decide, hfloat, trivial, ⟨by decide, hword, by decide⟩, by decide, by decide, trivial, trivial,
      trivial, trivial, trivial, fun _ h => nomatch h⟩
  exact ⟨hlexemes, tokenize_writtenAll (.inr rfl) hlexemes⟩

end Stepwise
