import Mathlib
import Stepwise.Proofs.WellFormed

/-!
# `Stepwise.Proofs.Spelling`: how lexemes are spelled

`Lexer.Spells rest l t` says that `t` is a spelling of the lexeme `l` in front of the text `rest`, and
`Lexer.Gap rest g` that `g` is made of blanks and comments. What follows matters to both: a spelling is
as long as the text allows, and a comment goes on to the end of its line.

Neither of them mentions how a text is read. Each reader of the lexer has a lemma in both directions: what it
reads is spelled by what it takes off the text (`Covers`), and it reads what is spelled (`Takes`).
`Lexer.lexeme_covers` and `Lexer.lexeme_of_spells` are these two for any lexeme.
-/

set_option autoImplicit false

namespace Stepwise

namespace Lexer

/-! ### What follows -/

/-- A text that does not start with a character of a class. -/
def Stops (p : Char → Bool) (rest : List Char) : Prop :=
  ∀ c ∈ rest.head?, p c = false

/-- A text that does not start with a point and a character of a class after it. -/
def StopsAtPoint (p : Char → Bool) (rest : List Char) : Prop :=
  ∀ c cs, rest = '.' :: c :: cs → p c = false

section Runs

variable {p : Char → Bool} {run rest : List Char}

theorem stops_nil : Stops p [] := by
  intro c hc
  cases hc

theorem stops_cons {c : Char} (h : p c = false) : Stops p (c :: rest) := by
  intro d hd
  cases hd
  exact h

/-- The longest run of a class ends where the class does. -/
theorem takeWhile_run (hrun : ∀ c ∈ run, p c = true) (hrest : Stops p rest) :
    (run ++ rest).takeWhile p = run := by
  rw [List.takeWhile_append_of_pos hrun]
  cases rest with
  | nil => simp
  | cons c rest => simp [hrest c rfl]

theorem dropWhile_run (hrun : ∀ c ∈ run, p c = true) (hrest : Stops p rest) :
    (run ++ rest).dropWhile p = rest := by
  rw [List.dropWhile_append_of_pos hrun]
  cases rest with
  | nil => rfl
  | cons c rest => simp [hrest c rfl]

theorem stops_dropWhile (p : Char → Bool) (cs : List Char) : Stops p (cs.dropWhile p) := by
  intro c hc
  have hnot := List.head?_dropWhile_not p cs
  rw [hc] at hnot
  simpa using hnot

/-- A run of a class without line feeds. -/
theorem count_run (hrun : ∀ c ∈ run, p c = true) (hp : p '\n' = false) : run.count '\n' = 0 := by
  refine List.count_eq_zero_of_not_mem ?_
  intro hmem
  rw [hrun '\n' hmem] at hp
  cases hp

end Runs

/-! ### Gaps -/

/-- Blanks and comments in front of a text. A comment is a mark and what stands after it on its line. -/
inductive Gap (rest : List Char) : List Char → Prop where
  | nil : Gap rest []
  | blank {c : Char} {g : List Char} (hc : Text.isBlank c = true) (h : Gap rest g) : Gap rest (c :: g)
  | comment {body g : List Char} (hbody : '\n' ∉ body) (hend : Stops (fun c => c ≠ '\n') (g ++ rest))
      (h : Gap rest g) : Gap rest ('#' :: (body ++ g))

/-! ### Spellings -/

/-- The contents of a string and how they stand between its quotes: escapes stand for their characters and
all else, the quote and the escape mark apart, for itself. -/
inductive Unescapes (quote : Char) : List Char → List Char → Prop where
  | nil : Unescapes quote [] []
  | plain {c : Char} {body text : List Char} (hquote : c ≠ quote) (hmark : c ≠ '\\')
      (h : Unescapes quote body text) : Unescapes quote (c :: body) (c :: text)
  | escape {e d : Char} {body text : List Char} (he : unescape? e = some d)
      (h : Unescapes quote body text) : Unescapes quote ('\\' :: e :: body) (d :: text)

/-- The names of a path with a point in front of each. -/
def pathText (names : List String) : List Char :=
  names.flatMap fun name => '.' :: name.toList

/-- The spellings of a lexeme in front of a text. -/
inductive Spells (rest : List Char) : Lexeme → List Char → Prop where
  | int {n : Int64} {digits : List Char} (hne : digits ≠ []) (hdigits : ∀ d ∈ digits, d.isDigit = true)
      (hvalue : n.toInt = Number.natOfDigits digits) (hstops : Stops Char.isDigit rest)
      (hpoint : StopsAtPoint Char.isDigit rest) : Spells rest (.int n) digits
  | float {whole places : List Char} (hwhole : whole ≠ []) (hplaces : places ≠ [])
      (hdigits : ∀ d ∈ whole ++ places, d.isDigit = true) (hstops : Stops Char.isDigit rest) :
      Spells rest
        (.float (Number.Decimal.toFloat
          ⟨Number.natOfDigits (whole ++ places), -(places.length : Int)⟩))
        (whole ++ '.' :: places)
  | str {quote : Char} {body text : List Char} (hquote : quote = '"' ∨ quote = '\'')
      (h : Unescapes quote body text) :
      Spells rest (.str (String.ofList text)) (quote :: (body ++ [quote]))
  | path {names : List String} (hne : names ≠ []) (hnames : ∀ name ∈ names, isName name = true)
      (hstops : Stops isNameChar rest) (hpoint : StopsAtPoint isNameChar rest) :
      Spells rest (.path false names) (pathText names)
  | globalPath {names : List String} (hne : names ≠ []) (hnames : ∀ name ∈ names, isName name = true)
      (hstops : Stops isNameChar rest) (hpoint : StopsAtPoint isNameChar rest) :
      Spells rest (.path true names) ("global".toList ++ pathText names)
  /-- The word `global` is one only if no path goes on from it. -/
  | word {w : String} (hname : isName w = true) (hfirst : Stops Char.isDigit w.toList) (helse : w ≠ "else")
      (hstops : Stops isNameChar rest) (hglobal : w = "global" → StopsAtPoint isNameChar rest) :
      Spells rest (.word w) w.toList
  | elseWord (hstops : Stops isNameChar rest) : Spells rest (.symbol .orElse) "else".toList
  /-- No symbol that the text starts with is longer. -/
  | symbol (s : Symbol)
      (hlongest : ∀ s' : Symbol, s'.text.toList <+: s.text.toList ++ rest →
        s'.text.length ≤ s.text.length) :
      Spells rest (.symbol s) s.text.toList
  | opening (b : Bracket) : Spells rest (.opening b) [b.openChar]
  | closing (b : Bracket) : Spells rest (.closing b) [b.closeChar]
  | comma : Spells rest .comma [',']
  | semicolon : Spells rest .semicolon [';']

/-- What was read of a text that starts with `c` on a line: a spelling was taken off, and the line goes on by
its line feeds. -/
def Covers (line : Nat) (c : Char) {cs : List Char} (r : Reading cs) : Prop :=
  ∃ t, c :: cs = t ++ r.rest ∧ Spells r.rest r.lexeme t ∧ r.line = line + t.count '\n'

/-- A reader takes a lexeme off its text and leaves the rest. -/
def Takes {cs : List Char} (reader : Except LexError (Reading cs)) (l : Lexeme) (rest : List Char)
    (line : Nat) : Prop :=
  ∃ le, reader = .ok ⟨l, rest, line, le⟩

/-! ### Strings -/

/-- An escape is not a line feed. -/
theorem ne_lineFeed_of_unescape {e d : Char} (h : unescape? e = some d) : e ≠ '\n' := by
  rintro rfl
  cases h

/-- The body of a string is read up to its closing quote. -/
theorem stringBody_covers {quote : Char} {cs : List Char} {line : Nat}
    {r : List Char × List Char × Nat} (h : stringBody quote cs line = .ok r) :
    ∃ body, cs = body ++ quote :: r.2.1 ∧ Unescapes quote body r.1 ∧
      r.2.2 = line + body.count '\n' := by
  fun_induction stringBody quote cs line generalizing r with
  | case1 => cases h
  | case2 =>
      cases h
      exact ⟨[], rfl, .nil, rfl⟩
  | case3 => cases h
  | case4 => cases h
  | case5 line e cs d hd _ ih =>
      cases hr : stringBody quote cs line with
      | error e => rw [hr] at h; cases h
      | ok b =>
          rw [hr] at h
          cases h
          obtain ⟨body, hcs, hbody, hline⟩ := ih hr
          -- No escape has a line feed in it, so it moves the line by nothing.
          have he : e ≠ '\n' := ne_lineFeed_of_unescape hd
          refine ⟨'\\' :: e :: body, by rw [hcs]; rfl, .escape hd hbody, ?_⟩
          rw [List.count_cons_of_ne (by decide), List.count_cons_of_ne he]
          exact hline
  | case6 c cs line hc hmark ih =>
      cases hr : stringBody quote cs (if c = '\n' then line + 1 else line) with
      | error e => rw [hr] at h; cases h
      | ok b =>
          rw [hr] at h
          cases h
          obtain ⟨body, hcs, hbody, hline⟩ := ih hr
          refine ⟨c :: body, by rw [hcs]; rfl, .plain hc hmark hbody, ?_⟩
          show b.2.2 = line + (c :: body).count '\n'
          rw [hline, List.count_cons]
          -- A line feed in the string itself does.
          by_cases hfeed : c = '\n'
          · simp [hfeed]
            omega
          · simp [hfeed]

/-- A string is read as it is spelled. -/
theorem stringBody_of_unescapes {quote : Char} (hmark : quote ≠ '\\') {body text : List Char}
    (h : Unescapes quote body text) (rest : List Char) (line : Nat) :
    stringBody quote (body ++ quote :: rest) line = .ok (text, rest, line + body.count '\n') := by
  induction h generalizing line with
  | nil =>
      rw [List.nil_append, stringBody.eq_def]
      simp
  | @plain c body text hquote hc _ ih =>
      rw [List.cons_append, stringBody.eq_def]
      simp only [if_neg hquote, if_neg hc, ih, List.count_cons]
      -- A line feed may stand in a string as it is, and only there it moves the line.
      by_cases hfeed : c = '\n'
      · simp [hfeed, Except.map]
        omega
      · simp [hfeed, Except.map]
  | @escape e d body text he _ ih =>
      have hfeed : e ≠ '\n' := ne_lineFeed_of_unescape he
      rw [List.cons_append, List.cons_append, stringBody.eq_def]
      simp only [if_neg hmark.symm, he, ih, if_true]
      rw [List.count_cons_of_ne (by decide), List.count_cons_of_ne hfeed]
      rfl

/-! ### Numbers -/

/-- A number is read as far as its digits go, and beyond a point only if a digit follows it. -/
theorem number_covers (line : Nat) {c : Char} (hc : c.isDigit = true) (cs : List Char) :
    Returns (Covers line c) (number line c cs) := by
  have hsplit : cs.takeWhile Char.isDigit ++ cs.dropWhile Char.isDigit = cs :=
    List.takeWhile_append_dropWhile
  have hwhole : ∀ d ∈ c :: cs.takeWhile Char.isDigit, d.isDigit = true := by
    intro d hd
    rcases List.mem_cons.mp hd with rfl | hd
    · exact hc
    · exact List.mem_takeWhile_imp hd
  -- An integer, if it fits and no places follow.
  have hinteger (hpoint : StopsAtPoint Char.isDigit (cs.dropWhile Char.isDigit)) :
      Returns (Covers line c) (number.integer line cs (c :: cs.takeWhile Char.isDigit)) := by
    unfold number.integer
    cases hn : Number.checked (Number.natOfDigits (c :: cs.takeWhile Char.isDigit)) with
    | none => exact .error _
    | some n =>
        refine .ok ⟨c :: cs.takeWhile Char.isDigit, by rw [List.cons_append, hsplit], ?_, ?_⟩
        · exact .int (by simp) hwhole (Number.toInt_of_checked hn) (stops_dropWhile _ cs) hpoint
        · rw [count_run hwhole (by decide), Nat.add_zero]
  unfold number
  dsimp only
  split
  · rename_i d rest hdrop
    split
    · rename_i hd
      -- A point with a digit behind it: the places belong to the number.
      have hplaces : ∀ e ∈ (d :: rest).takeWhile Char.isDigit, e.isDigit = true :=
        fun e he => List.mem_takeWhile_imp he
      have hdigits : ∀ e ∈ (c :: cs.takeWhile Char.isDigit) ++ (d :: rest).takeWhile Char.isDigit,
          e.isDigit = true := by
        intro e he
        rcases List.mem_append.mp he with he | he
        · exact hwhole e he
        · exact hplaces e he
      refine .ok ⟨(c :: cs.takeWhile Char.isDigit) ++ '.' :: (d :: rest).takeWhile Char.isDigit, ?_,
        ?_, ?_⟩
      · rw [List.append_assoc, List.cons_append, List.cons_append, List.takeWhile_append_dropWhile,
          ← hdrop, hsplit]
      · exact .float (by simp) (by simp [hd]) hdigits (stops_dropWhile _ _)
      · rw [List.count_append, count_run hwhole (by decide), List.count_cons_of_ne (by decide),
          count_run hplaces (by decide)]
        rfl
    · rename_i hd
      -- A point without a digit is left to the next token.
      refine hinteger ?_
      intro e es heq
      rw [hdrop] at heq
      cases heq
      simpa using hd
  · rename_i hdrop
    refine hinteger ?_
    intro e es heq
    exact absurd heq (hdrop e es)

/-- A run of digits that no point goes on from is a number without a point. -/
theorem number_of_digits (line : Nat) {c : Char} {digits rest : List Char}
    (hdigits : ∀ d ∈ digits, d.isDigit = true) (hstops : Stops Char.isDigit rest)
    (hpoint : StopsAtPoint Char.isDigit rest) :
    number line c (digits ++ rest) = number.integer line (digits ++ rest) (c :: digits) := by
  have htake : (digits ++ rest).takeWhile Char.isDigit = digits := takeWhile_run hdigits hstops
  have hdrop : (digits ++ rest).dropWhile Char.isDigit = rest := dropWhile_run hdigits hstops
  unfold number
  dsimp only
  rw [htake]
  split
  · rename_i d rest' heq
    rw [hdrop] at heq
    rw [if_neg (by simp [hpoint d rest' heq])]
  · rfl

/-- An integer is read as it is spelled. -/
theorem number_of_int (line : Nat) {c : Char} {digits rest : List Char} {n : Int64}
    (hdigits : ∀ d ∈ digits, d.isDigit = true) (hvalue : n.toInt = Number.natOfDigits (c :: digits))
    (hstops : Stops Char.isDigit rest) (hpoint : StopsAtPoint Char.isDigit rest) :
    Takes (number line c (digits ++ rest)) (.int n) rest line := by
  have hdrop : (digits ++ rest).dropWhile Char.isDigit = rest := dropWhile_run hdigits hstops
  rw [number_of_digits line hdigits hstops hpoint]
  unfold number.integer
  rw [← hvalue, Number.checked_toInt]
  refine ⟨by simp, ?_⟩
  simp only [Option.elim, hdrop]

/-- A float is read as it is spelled. -/
theorem number_of_float (line : Nat) {c : Char} {whole places rest : List Char}
    (hwhole : ∀ d ∈ whole, d.isDigit = true) (hne : places ≠ [])
    (hplaces : ∀ d ∈ places, d.isDigit = true) (hstops : Stops Char.isDigit rest) :
    Takes (number line c (whole ++ '.' :: (places ++ rest)))
      (.float (Number.Decimal.toFloat
        ⟨Number.natOfDigits (c :: whole ++ places), -(places.length : Int)⟩)) rest line := by
  -- The whole digits end at the point, and the places where the run of digits ends.
  have hpoint : Stops Char.isDigit ('.' :: (places ++ rest)) := stops_cons (by decide)
  have htake : (whole ++ '.' :: (places ++ rest)).takeWhile Char.isDigit = whole :=
    takeWhile_run hwhole hpoint
  have hdrop : (whole ++ '.' :: (places ++ rest)).dropWhile Char.isDigit = '.' :: (places ++ rest) :=
    dropWhile_run hwhole hpoint
  obtain ⟨d, places, rfl⟩ := List.exists_cons_of_ne_nil hne
  have hd : d.isDigit = true := hplaces d (by simp)
  unfold number
  dsimp only
  rw [htake]
  split
  · rename_i e rest' heq
    rw [hdrop] at heq
    cases heq
    rw [if_pos hd]
    refine ⟨by simp only [List.length_append, List.length_cons]; omega, ?_⟩
    have htake' := takeWhile_run hplaces hstops
    have hdrop' := dropWhile_run hplaces hstops
    simp only [List.append_eq, ← List.cons_append, htake', hdrop']
  -- The point is there, so the other case does not arise.
  · rename_i hnot
    exact absurd hdrop (hnot d (places ++ rest))

/-! ### Paths and words -/

theorem isName_iff {s : String} :
    isName s = true ↔ s.toList ≠ [] ∧ ∀ c ∈ s.toList, isNameChar c = true := by
  simp [isName]

@[simp] theorem pathText_nil : pathText [] = [] := rfl

@[simp] theorem pathText_cons (name : String) (names : List String) :
    pathText (name :: names) = '.' :: (name.toList ++ pathText names) := rfl

/-- A path stands on one line. -/
theorem count_pathText {names : List String} (h : ∀ name ∈ names, isName name = true) :
    (pathText names).count '\n' = 0 := by
  induction names with
  | nil => rfl
  | cons name names ih =>
      have hname : ∀ c ∈ name.toList, isNameChar c = true := (isName_iff.mp (h name (by simp))).2
      have hrest : (pathText names).count '\n' = 0 := ih fun other hother => h other (by simp [hother])
      rw [pathText_cons, List.count_cons_of_ne (by decide), List.count_append,
        count_run hname (by decide), hrest]

/-- The names of a path are read as far as they go. -/
theorem pathNames_covers (cs : List Char) :
    '.' :: cs = pathText (pathNames cs).1 ++ (pathNames cs).2 ∧ Stops isNameChar (pathNames cs).2 ∧
      StopsAtPoint isNameChar (pathNames cs).2 := by
  fun_induction pathNames cs with
  -- A name, a point and the start of another name.
  | case1 cs name c rest hdrop hc names rest' heq ih =>
      rw [heq] at ih
      obtain ⟨hsplit, hstops, hpoint⟩ := ih
      refine ⟨?_, hstops, hpoint⟩
      rw [pathText_cons, List.cons_append, List.append_assoc, ← hsplit, ← hdrop]
      simp [name]
  -- A point that no name follows does not belong to the path.
  | case2 cs name c rest hdrop hc =>
      refine ⟨?_, stops_cons (by decide), ?_⟩
      · rw [pathText_cons, List.cons_append, ← hdrop]
        simp [name]
      · intro d ds heq
        cases heq
        simpa using hc
  | case3 cs name hdrop =>
      refine ⟨?_, stops_dropWhile _ cs, ?_⟩
      · simp [name]
      · intro d ds heq
        exact absurd heq (hdrop d ds)

/-- A path is read as it is spelled. -/
theorem pathNames_of_names {name : String} {names : List String} {rest : List Char}
    (hname : isName name = true) (hnames : ∀ other ∈ names, isName other = true)
    (hstops : Stops isNameChar rest) (hpoint : StopsAtPoint isNameChar rest) :
    pathNames (name.toList ++ (pathText names ++ rest)) = (name :: names, rest) := by
  induction names generalizing name with
  | nil =>
      have hrun : ∀ c ∈ name.toList, isNameChar c = true := (isName_iff.mp hname).2
      rw [pathText_nil, List.nil_append, pathNames]
      simp only [takeWhile_run hrun hstops, String.ofList_toList]
      split
      · rename_i c rest' heq
        rw [dropWhile_run hrun hstops] at heq
        rw [if_neg (by simp [hpoint c rest' heq]), heq]
      · rw [dropWhile_run hrun hstops]
  | cons next names ih =>
      have hrun : ∀ c ∈ name.toList, isNameChar c = true := (isName_iff.mp hname).2
      have hnext : isName next = true := hnames next (by simp)
      have hrest := ih hnext fun other hother => hnames other (by simp [hother])
      obtain ⟨c, cs, hcs⟩ := List.exists_cons_of_ne_nil (isName_iff.mp hnext).1
      have hc : isNameChar c = true := (isName_iff.mp hnext).2 c (by simp [hcs])
      rw [hcs, List.cons_append] at hrest
      -- The run of a name ends at the point in front of the next one.
      have hafter : Stops isNameChar (pathText (next :: names) ++ rest) := stops_cons (by decide)
      have hnames' : pathText (next :: names) ++ rest = '.' :: c :: (cs ++ (pathText names ++ rest)) := by
        simp [hcs]
      rw [pathNames]
      simp only [takeWhile_run hrun hafter, String.ofList_toList]
      split
      · rename_i d rest' heq
        rw [dropWhile_run hrun hafter, hnames'] at heq
        cases heq
        rw [if_pos hc, hrest]
      · rename_i hnot
        rw [dropWhile_run hrun hafter, hnames'] at hnot
        exact absurd rfl (hnot c _)

/-- What is read after the point of a path. -/
theorem path_covers (line : Nat) (global : Bool) (cs : List Char) :
    Returns (fun r => ∃ names, r.lexeme = .path global names ∧ r.line = line ∧ names ≠ [] ∧
      (∀ name ∈ names, isName name = true) ∧ '.' :: cs = pathText names ++ r.rest ∧
      Stops isNameChar r.rest ∧ StopsAtPoint isNameChar r.rest) (path line global cs) := by
  unfold path
  split
  · exact .error _
  · rename_i hfirst
    have hne : cs.takeWhile isNameChar ≠ [] := by simpa using hfirst
    exact .ok ⟨(pathNames cs).1, rfl, rfl, pathNames_ne_nil cs, pathNames_isName cs hne,
      pathNames_covers cs⟩

theorem path_of_names (line : Nat) (global : Bool) {names : List String} (hne : names ≠ [])
    (hnames : ∀ name ∈ names, isName name = true) {rest cs : List Char}
    (hstops : Stops isNameChar rest) (hpoint : StopsAtPoint isNameChar rest)
    (hcs : '.' :: cs = pathText names ++ rest) :
    Takes (path line global cs) (.path global names) rest line := by
  obtain ⟨name, names, rfl⟩ := List.exists_cons_of_ne_nil hne
  have hname : isName name = true := hnames name (by simp)
  have hrest : ∀ other ∈ names, isName other = true := fun other hother => hnames other (by simp [hother])
  have hread := pathNames_of_names hname hrest hstops hpoint
  rw [pathText_cons, List.cons_append, List.append_assoc] at hcs
  cases hcs
  -- The first name is not empty, so a name character stands behind the point.
  obtain ⟨c, cs, hfirst⟩ := List.exists_cons_of_ne_nil (isName_iff.mp hname).1
  have hc : isNameChar c = true := (isName_iff.mp hname).2 c (by simp [hfirst])
  unfold path
  rw [if_neg (by simp [hfirst, hc])]
  refine ⟨?_, by simp only [hread]⟩
  simp only [List.length_append]
  omega

/-- A letter or an underscore is a name character. -/
theorem isNameChar_of_letter {c : Char} (hc : c.isAlpha = true ∨ c = '_') : isNameChar c = true := by
  rcases hc with hc | rfl
  · simp [isNameChar, Char.isAlphanum, hc]
  · rfl

/-- A letter or an underscore is no digit. -/
theorem isDigit_of_letter {c : Char} (hc : c.isAlpha = true ∨ c = '_') : c.isDigit = false := by
  rcases hc with hc | rfl
  · grind [Char.isAlpha, Char.isUpper, Char.isLower, Char.isDigit, UInt32.le_iff_toNat_le]
  · rfl

/-- A name that does not start with a digit spells a word, or the symbol that `else` stands for. -/
theorem spells_name {w : String} {rest : List Char} (hname : isName w = true)
    (hfirst : Stops Char.isDigit w.toList) (hstops : Stops isNameChar rest)
    (hglobal : w = "global" → StopsAtPoint isNameChar rest) :
    Spells rest (if w = "else" then .symbol .orElse else .word w) w.toList := by
  split
  · rename_i helse
    rw [helse]
    exact .elseWord hstops
  · rename_i helse
    exact .word hname hfirst helse hstops hglobal

/-- A word is read as far as its letters, digits and underscores go, and further only if it starts a
path. -/
theorem word_covers (line : Nat) {c : Char} (hc : c.isAlpha = true ∨ c = '_') (cs : List Char) :
    Returns (Covers line c) (word line c cs) := by
  have hsplit : cs.takeWhile isNameChar ++ cs.dropWhile isNameChar = cs :=
    List.takeWhile_append_dropWhile
  have hrun : ∀ d ∈ c :: cs.takeWhile isNameChar, isNameChar d = true := by
    intro d hd
    rcases List.mem_cons.mp hd with rfl | hd
    · exact isNameChar_of_letter hc
    · exact List.mem_takeWhile_imp hd
  obtain ⟨w, hw⟩ : ∃ w, w = String.ofList (c :: cs.takeWhile isNameChar) := ⟨_, rfl⟩
  have hchars : w.toList = c :: cs.takeWhile isNameChar := by rw [hw, String.toList_ofList]
  -- A word that is no path; the word `else` spells a symbol.
  have hplain (hglobal : w = "global" → StopsAtPoint isNameChar (cs.dropWhile isNameChar)) :
      Covers line c (word.plain line cs w) := by
    refine ⟨w.toList, ?_, ?_, ?_⟩
    · show c :: cs = w.toList ++ cs.dropWhile isNameChar
      rw [hchars, List.cons_append, hsplit]
    · refine spells_name (isName_iff.mpr ?_) ?_ (stops_dropWhile _ cs) hglobal
      · rw [hchars]
        exact ⟨by simp, hrun⟩
      · rw [hchars]
        exact stops_cons (isDigit_of_letter hc)
    · show line = line + w.toList.count '\n'
      rw [hchars, count_run hrun (by decide), Nat.add_zero]
  unfold word
  dsimp only
  rw [← hw]
  split
  · rename_i d rest hdrop
    split
    · rename_i hglobal
      -- The word `global` with a name behind its point is a path.
      rw [hglobal.1] at hchars
      refine (path_covers line true (d :: rest)).map ?_
      rintro r ⟨names, hlexeme, hline, hne, hnames, hpath, hstops, hpoint⟩
      refine ⟨"global".toList ++ pathText names, ?_, ?_, ?_⟩
      · show c :: cs = "global".toList ++ pathText names ++ r.rest
        rw [List.append_assoc, ← hpath, ← hdrop, hchars, List.cons_append, hsplit]
      · show Spells r.rest r.lexeme _
        rw [hlexeme]
        exact .globalPath hne hnames hstops hpoint
      · show r.line = line + ("global".toList ++ pathText names).count '\n'
        rw [hline, List.count_append, count_pathText hnames]
        rfl
    · rename_i hnot
      refine .ok (hplain ?_)
      intro hglobal e es heq
      rw [hdrop] at heq
      cases heq
      simpa [hglobal] using hnot
  · rename_i hdrop
    refine .ok (hplain ?_)
    intro _ e es heq
    exact absurd heq (hdrop e es)

/-- A word is read as it is spelled. -/
theorem word_of_name (line : Nat) {c : Char} {run rest : List Char} {w : String}
    (hw : w.toList = c :: run) (hrun : ∀ d ∈ run, isNameChar d = true)
    (hstops : Stops isNameChar rest) (hglobal : w = "global" → StopsAtPoint isNameChar rest) :
    Takes (word line c (run ++ rest)) (if w = "else" then .symbol .orElse else .word w) rest line := by
  have htake : (run ++ rest).takeWhile isNameChar = run := takeWhile_run hrun hstops
  have hdrop : (run ++ rest).dropWhile isNameChar = rest := dropWhile_run hrun hstops
  have hchars : String.ofList (c :: run) = w := by rw [← hw, String.ofList_toList]
  have hplain : Takes (.ok (word.plain line (run ++ rest) w))
      (if w = "else" then .symbol .orElse else .word w) rest line := by
    refine ⟨by simp, ?_⟩
    simp only [word.plain, hdrop]
  unfold word
  dsimp only
  rw [htake, hchars]
  split
  -- A point and a name may follow, but then the word is not `global`.
  · rename_i d rest' heq
    rw [hdrop] at heq
    rw [if_neg ?_]
    · exact hplain
    · rintro ⟨hw, hd⟩
      rw [hglobal hw d rest' heq] at hd
      cases hd
  · exact hplain

/-- A path from the global scope is read as it is spelled. -/
theorem word_of_globalPath (line : Nat) {names : List String} (hne : names ≠ [])
    (hnames : ∀ name ∈ names, isName name = true) {rest : List Char}
    (hstops : Stops isNameChar rest) (hpoint : StopsAtPoint isNameChar rest) :
    Takes (word line 'g' ("lobal".toList ++ (pathText names ++ rest))) (.path true names) rest line := by
  obtain ⟨name, names', rfl⟩ := List.exists_cons_of_ne_nil hne
  obtain ⟨d, ds, hfirst⟩ := List.exists_cons_of_ne_nil (isName_iff.mp (hnames name (by simp))).1
  have hd : isNameChar d = true := (isName_iff.mp (hnames name (by simp))).2 d (by simp [hfirst])
  -- What follows the word `global` is a point and the first character of a name.
  have hcut : pathText (name :: names') ++ rest = '.' :: d :: (ds ++ (pathText names' ++ rest)) := by
    simp [hfirst]
  have hrun : ∀ e ∈ "lobal".toList, isNameChar e = true := List.all_eq_true.mp rfl
  have hafter : Stops isNameChar (pathText (name :: names') ++ rest) := stops_cons (by decide)
  have htake := takeWhile_run hrun hafter
  have hdrop := dropWhile_run hrun hafter
  obtain ⟨le, hread⟩ := path_of_names line true hne hnames hstops hpoint hcut.symm
  unfold word
  dsimp only
  rw [htake]
  split
  · rename_i e rest' heq
    rw [hdrop, hcut] at heq
    cases heq
    rw [if_pos ⟨by decide, hd⟩, hread]
    exact ⟨_, rfl⟩
  · rename_i hnot
    rw [hdrop, hcut] at hnot
    exact absurd rfl (hnot d _)

/-! ### Symbols and brackets -/

/-- The characters that start a comment, a string or a path, or are a lexeme by themselves. -/
def marks : List Char :=
  ['#', '"', '\'', '.', ',', ';', '(', ')', '[', ']', '\x7b', '\x7d']

end Lexer

namespace Symbol

theorem mem_all (s : Symbol) : s ∈ all := by
  cases s with
  | arith a => cases a <;> decide
  | update a => cases a <;> decide
  | compare c => cases c <;> decide
  | _ => decide

theorem all_sorted : all.Pairwise fun s s' => s'.text.length ≤ s.text.length := by
  decide

theorem eq_of_text_eq {s s' : Symbol} (h : s.text = s'.text) : s = s' := by
  have hall : ∀ s ∈ all, ∀ s' ∈ all, s.text = s'.text → s = s' := by decide
  exact hall s s.mem_all s' s'.mem_all h

/-- The characters of symbols are in no name, no gap and no other lexeme. -/
theorem apart_of_mem_text {s : Symbol} {c : Char} (hc : c ∈ s.text.toList) :
    Lexer.isNameChar c = false ∧ Text.isBlank c = false ∧ c ∉ Lexer.marks := by
  have hall : ∀ s ∈ all, s.text.toList.all (fun c =>
      !Lexer.isNameChar c && (!Text.isBlank c && !Lexer.marks.contains c)) = true := by
    decide
  simpa using List.all_eq_true.mp (hall s s.mem_all) c hc

theorem text_ne_nil (s : Symbol) : s.text.toList ≠ [] := by
  have hall : ∀ s ∈ all, s.text.toList ≠ [] := by decide
  exact hall s s.mem_all

end Symbol

namespace Bracket

theorem ofOpen?_eq_some_iff {c : Char} {b : Bracket} : ofOpen? c = some b ↔ c = b.openChar := by
  constructor
  · intro h
    unfold ofOpen? at h
    split at h <;> cases h <;> rfl
  · rintro rfl
    cases b <;> rfl

theorem ofClose?_eq_some_iff {c : Char} {b : Bracket} : ofClose? c = some b ↔ c = b.closeChar := by
  constructor
  · intro h
    unfold ofClose? at h
    split at h <;> cases h <;> rfl
  · rintro rfl
    cases b <;> rfl

end Bracket

namespace Lexer

/-- The symbol that is read is the longest one that the text starts with. -/
theorem symbol?_eq_some_iff {cs : List Char} {s : Symbol} :
    symbol? cs = some s ↔ s.text.toList <+: cs ∧
      ∀ s' : Symbol, s'.text.toList <+: cs → s'.text.length ≤ s.text.length := by
  have hread {s : Symbol} (h : symbol? cs = some s) : s.text.toList <+: cs ∧
      ∀ s' : Symbol, s'.text.toList <+: cs → s'.text.length ≤ s.text.length := by
    obtain ⟨hs, before, after, hall, hbefore⟩ := List.find?_eq_some_iff_append.mp h
    refine ⟨List.isPrefixOf_iff_prefix.mp hs, ?_⟩
    intro s' hs'
    have hmem : s' ∈ before ++ s :: after := by
      rw [← hall]
      exact s'.mem_all
    have hsorted := Symbol.all_sorted
    rw [hall] at hsorted
    rcases List.mem_append.mp hmem with hmem | hmem
    · -- A symbol further to the front would have been found.
      have hno := hbefore s' hmem
      rw [List.isPrefixOf_iff_prefix.mpr hs'] at hno
      cases hno
    · rcases List.mem_cons.mp hmem with rfl | hmem
      · exact Nat.le_refl _
      · exact List.rel_of_pairwise_cons (List.pairwise_append.mp hsorted).2.1 hmem
  constructor
  · exact hread
  · rintro ⟨hs, hlongest⟩
    cases hfound : symbol? cs with
    | none =>
        have hno := List.find?_eq_none.mp hfound s s.mem_all
        rw [List.isPrefixOf_iff_prefix.mpr hs] at hno
        exact absurd rfl hno
    | some s' =>
        -- Both are the longest, so they have the same characters.
        obtain ⟨hs', hlongest'⟩ := hread hfound
        have hlen : s'.text.toList.length = s.text.toList.length := by
          have h1 := hlongest s' hs'
          have h2 := hlongest' s hs
          simp only [String.length_toList]
          omega
        have htext : s'.text.toList = s.text.toList :=
          (List.prefix_of_prefix_length_le hs' hs (Nat.le_of_eq hlen)).eq_of_length hlen
        rw [Symbol.eq_of_text_eq (String.toList_injective htext)]

/-! ### Lexemes -/

/-- A character that is no mark starts a number, a word or a symbol. -/
theorem lexeme_of_not_mark (line : Nat) {c : Char} (cs : List Char) (hc : c ∉ marks) :
    lexeme line c cs =
      if c.isDigit then number line c cs
      else if c.isAlpha ∨ c = '_' then word line c cs
      else
        match symbol? (c :: cs) with
        | none => .error ⟨.unexpectedCharacter c, line⟩
        | some s => .ok ⟨.symbol s, cs.drop (s.text.length - 1), line, by simp⟩ := by
  have hopen : Bracket.ofOpen? c = none := by
    refine Option.eq_none_iff_forall_ne_some.mpr ?_
    intro b hb
    rw [Bracket.ofOpen?_eq_some_iff.mp hb] at hc
    cases b <;> exact absurd (by decide) hc
  have hclose : Bracket.ofClose? c = none := by
    refine Option.eq_none_iff_forall_ne_some.mpr ?_
    intro b hb
    rw [Bracket.ofClose?_eq_some_iff.mp hb] at hc
    cases b <;> exact absurd (by decide) hc
  simp only [marks, List.mem_cons, List.not_mem_nil, or_false, not_or] at hc
  obtain ⟨-, hdouble, hsingle, hpoint, hcomma, hsemicolon, -⟩ := hc
  unfold lexeme
  simp only [hopen, hclose]
  -- What is left differs at most in the proofs that the rest is shorter.
  rewrite [if_neg hcomma, if_neg hsemicolon, if_neg (not_or.mpr ⟨hdouble, hsingle⟩), if_neg hpoint]
  rfl

/-- A name character is neither blank nor a mark. -/
theorem apart_of_isNameChar {c : Char} (hc : isNameChar c = true) :
    Text.isBlank c = false ∧ c ∉ marks := by
  constructor
  -- Blanks all lie outside of the range of the name characters.
  · have hrange : 48 ≤ c.toNat ∧ c.toNat ≤ 122 := by
      by_cases hunderscore : c = '_'
      · rw [hunderscore]
        decide
      · grind [isNameChar, Char.isAlphanum, Char.isAlpha, Char.isUpper, Char.isLower, Char.isDigit,
          UInt32.le_iff_toNat_le, Char.toNat]
    simp only [Text.isBlank, Bool.or_eq_false_iff, Bool.and_eq_false_iff, beq_eq_false_iff_ne,
      decide_eq_false_iff_not]
    omega
  · intro hmark
    have hmarks : ∀ d ∈ marks, (!isNameChar d) = true := List.all_eq_true.mp rfl
    have hnot : (!isNameChar c) = true := hmarks c hmark
    rw [hc] at hnot
    cases hnot

theorem isNameChar_of_isDigit {c : Char} (hc : c.isDigit = true) : isNameChar c = true := by
  simp [isNameChar, Char.isAlphanum, hc]

/-- A name character that is no digit is a letter or an underscore. -/
theorem letter_of_isNameChar {c : Char} (hc : isNameChar c = true) (hdigit : c.isDigit = false) :
    c.isAlpha = true ∨ c = '_' := by
  simpa [isNameChar, Char.isAlphanum, hdigit] using hc

theorem lexeme_of_digit (line : Nat) {c : Char} (cs : List Char) (hc : c.isDigit = true) :
    lexeme line c cs = number line c cs := by
  rw [lexeme_of_not_mark line cs (apart_of_isNameChar (isNameChar_of_isDigit hc)).2, if_pos hc]

theorem lexeme_of_letter (line : Nat) {c : Char} (cs : List Char) (hc : c.isAlpha = true ∨ c = '_') :
    lexeme line c cs = word line c cs := by
  rw [lexeme_of_not_mark line cs (apart_of_isNameChar (isNameChar_of_letter hc)).2,
    if_neg (by simp [isDigit_of_letter hc]), if_pos hc]

theorem ne_hash_of_not_mark {c : Char} (hc : c ∉ marks) : c ≠ '#' := by
  rintro rfl
  exact hc (by decide)

/-- What is left after a symbol. -/
theorem drop_symbol {s : Symbol} {c : Char} {cs rest : List Char} (h : s.text.toList ++ rest = c :: cs) :
    cs.drop (s.text.length - 1) = rest := by
  obtain ⟨d, ds, hs⟩ := List.exists_cons_of_ne_nil s.text_ne_nil
  have hlen : s.text.length - 1 = ds.length := by
    rw [← String.length_toList, hs]
    rfl
  rw [hs] at h
  cases h
  rw [hlen]
  exact List.drop_left

/-- A symbol stands on one line. -/
theorem count_symbol (s : Symbol) : s.text.toList.count '\n' = 0 := by
  refine List.count_eq_zero_of_not_mem ?_
  intro hfeed
  cases (Symbol.apart_of_mem_text hfeed).2.1

/-- Every lexeme is read as far as it goes. -/
theorem lexeme_covers (line : Nat) (c : Char) (cs : List Char) :
    Returns (Covers line c) (lexeme line c cs) := by
  unfold lexeme
  split
  · rename_i b hb
    obtain rfl := Bracket.ofOpen?_eq_some_iff.mp hb
    refine .ok ⟨[b.openChar], rfl, .opening b, ?_⟩
    cases b <;> rfl
  · rename_i b _ hb
    obtain rfl := Bracket.ofClose?_eq_some_iff.mp hb
    refine .ok ⟨[b.closeChar], rfl, .closing b, ?_⟩
    cases b <;> rfl
  -- From here on in the order in which the lexer asks: separators, strings, paths, numbers, words and
  -- symbols.
  · split
    · rename_i hc
      exact .ok ⟨[','], by rw [hc]; rfl, .comma, rfl⟩
    split
    · rename_i hc
      exact .ok ⟨[';'], by rw [hc]; rfl, .semicolon, rfl⟩
    split
    · rename_i hquote
      split
      · exact .error _
      · rename_i text rest reached hbody
        obtain ⟨body, rfl, hunescapes, hline⟩ := stringBody_covers hbody
        refine .ok ⟨c :: (body ++ [c]), by simp, .str hquote hunescapes, ?_⟩
        -- The quotes are no line feeds, so the line feeds are those of the body.
        have hfeed : c ≠ '\n' := by
          rintro rfl
          revert hquote
          decide
        rw [List.count_cons_of_ne hfeed, List.count_append, List.count_cons_of_ne hfeed]
        exact hline
    split
    · rename_i hc
      refine (path_covers line false cs).imp ?_
      rintro r ⟨names, hlexeme, hline, hne, hnames, hpath, hstops, hpoint⟩
      refine ⟨pathText names, by rw [hc, hpath], ?_, ?_⟩
      · rw [hlexeme]
        exact .path hne hnames hstops hpoint
      · rw [hline, count_pathText hnames, Nat.add_zero]
    split
    · rename_i hdigit
      exact number_covers line hdigit cs
    split
    · rename_i hletter
      exact word_covers line hletter cs
    split
    · exact .error _
    · rename_i s hs
      -- The symbol is the longest that the text starts with.
      obtain ⟨hfront, hlongest⟩ := symbol?_eq_some_iff.mp hs
      obtain ⟨rest, hrest⟩ := hfront
      have hdrop : cs.drop (s.text.length - 1) = rest := drop_symbol hrest
      refine .ok ⟨s.text.toList, ?_, ?_, ?_⟩
      · show c :: cs = s.text.toList ++ cs.drop (s.text.length - 1)
        rw [hdrop, hrest]
      · show Spells (cs.drop (s.text.length - 1)) (.symbol s) s.text.toList
        rw [hdrop]
        refine .symbol s ?_
        rw [hrest]
        exact hlongest
      · show line = line + s.text.toList.count '\n'
        rw [count_symbol, Nat.add_zero]

/-- Where a lexeme starts: a character that is neither blank nor the start of a comment, from which the
lexeme is read. -/
def Starts (line : Nat) (t rest : List Char) (l : Lexeme) : Prop :=
  ∃ c cs, t ++ rest = c :: cs ∧ Text.isBlank c = false ∧ c ≠ '#' ∧
    Takes (lexeme line c cs) l rest (line + t.count '\n')

theorem lexeme_of_string (line : Nat) {quote : Char} {body text : List Char} {rest : List Char}
    (hquote : quote = '"' ∨ quote = '\'') (h : Unescapes quote body text) :
    Starts line (quote :: (body ++ [quote])) rest (.str (String.ofList text)) := by
  -- A quote is none of the characters that the lexer asks for before it.
  have hchar : quote ≠ '\\' ∧ Text.isBlank quote = false ∧ quote ≠ '#' ∧ quote ≠ ',' ∧ quote ≠ ';' ∧
      Bracket.ofOpen? quote = none ∧ Bracket.ofClose? quote = none := by
    rcases hquote with rfl | rfl <;> decide
  obtain ⟨hmark, hblank, hhash, hcomma, hsemicolon, hopen, hclose⟩ := hchar
  have hcount : (quote :: (body ++ [quote])).count '\n' = body.count '\n' := by
    rcases hquote with rfl | rfl <;> simp
  have hbody := stringBody_of_unescapes hmark h rest line
  refine ⟨quote, body ++ quote :: rest, by simp, hblank, hhash, ?_⟩
  rw [hcount]
  unfold lexeme
  rw [hopen, hclose]
  dsimp only
  rw [if_neg hcomma, if_neg hsemicolon, if_pos hquote]
  split
  · rename_i herror
    rw [hbody] at herror
    cases herror
  · rename_i hok
    rw [hbody] at hok
    cases hok
    exact ⟨_, rfl⟩

theorem lexeme_of_name (line : Nat) {w : String} {rest : List Char} (hname : isName w = true)
    (hfirst : Stops Char.isDigit w.toList) (hstops : Stops isNameChar rest)
    (hglobal : w = "global" → StopsAtPoint isNameChar rest) :
    Starts line w.toList rest (if w = "else" then .symbol .orElse else .word w) := by
  obtain ⟨hne, hchars⟩ := isName_iff.mp hname
  obtain ⟨c, run, hw⟩ := List.exists_cons_of_ne_nil hne
  have hrun : ∀ d ∈ run, isNameChar d = true := fun d hd => hchars d (by simp [hw, hd])
  have hc : isNameChar c = true := hchars c (by simp [hw])
  have hletter : c.isAlpha = true ∨ c = '_' :=
    letter_of_isNameChar hc (hfirst c (by simp [hw]))
  obtain ⟨hblank, hmark⟩ := apart_of_isNameChar hc
  refine ⟨c, run ++ rest, by simp [hw], hblank, ne_hash_of_not_mark hmark, ?_⟩
  rw [count_run hchars (by decide), Nat.add_zero, lexeme_of_letter line _ hletter]
  exact word_of_name line hw hrun hstops hglobal

theorem lexeme_of_symbol (line : Nat) {s : Symbol} {rest : List Char}
    (hlongest : ∀ s' : Symbol, s'.text.toList <+: s.text.toList ++ rest →
      s'.text.length ≤ s.text.length) :
    Starts line s.text.toList rest (.symbol s) := by
  obtain ⟨c, cs, hs⟩ := List.exists_cons_of_ne_nil s.text_ne_nil
  obtain ⟨hname, hblank, hmark⟩ := Symbol.apart_of_mem_text (s := s) (c := c) (by simp [hs])
  have hcut : s.text.toList ++ rest = c :: (cs ++ rest) := by simp [hs]
  have hfound : symbol? (c :: (cs ++ rest)) = some s := by
    rw [← hcut]
    exact symbol?_eq_some_iff.mpr ⟨List.prefix_append _ _, hlongest⟩
  have hfeed : s.text.toList.count '\n' = 0 := count_symbol s
  -- A symbol starts with a character of its own, not with one of a number or a word.
  have hdigit : c.isDigit = false := by
    cases hd : c.isDigit with
    | false => rfl
    | true => rw [isNameChar_of_isDigit hd] at hname; cases hname
  have hletter : ¬(c.isAlpha = true ∨ c = '_') := by
    intro hl
    rw [isNameChar_of_letter hl] at hname
    cases hname
  have hdrop : (cs ++ rest).drop (s.text.length - 1) = rest := drop_symbol hcut
  refine ⟨c, cs ++ rest, hcut, hblank, ne_hash_of_not_mark hmark, by simp, ?_⟩
  rw [lexeme_of_not_mark line _ hmark, if_neg (by simp [hdigit]), if_neg hletter, hfound]
  simp only [hdrop, hfeed, Nat.add_zero]

/-- Every lexeme is read as it is spelled. -/
theorem lexeme_of_spells {rest t : List Char} {l : Lexeme} (h : Spells rest l t) (line : Nat) :
    Starts line t rest l := by
  -- The first character of a spelling decides which reader takes it.
  cases h with
  | @int n digits hne hdigits hvalue hstops hpoint =>
      obtain ⟨c, digits, rfl⟩ := List.exists_cons_of_ne_nil hne
      have hc : c.isDigit = true := hdigits c (by simp)
      obtain ⟨hblank, hmark⟩ := apart_of_isNameChar (isNameChar_of_isDigit hc)
      refine ⟨c, digits ++ rest, rfl, hblank, ne_hash_of_not_mark hmark, ?_⟩
      rw [count_run hdigits (by decide), Nat.add_zero, lexeme_of_digit line _ hc]
      exact number_of_int line (fun d hd => hdigits d (by simp [hd])) hvalue hstops hpoint
  | @float whole places hwhole hplaces hdigits hstops =>
      obtain ⟨c, whole, rfl⟩ := List.exists_cons_of_ne_nil hwhole
      have hc : c.isDigit = true := hdigits c (by simp)
      obtain ⟨hblank, hmark⟩ := apart_of_isNameChar (isNameChar_of_isDigit hc)
      have hcount : (c :: whole ++ '.' :: places).count '\n' = 0 := by
        have hrun : (c :: whole).count '\n' = 0 :=
          count_run (fun d hd => hdigits d (List.mem_append_left _ hd)) (by decide)
        have hrun' : places.count '\n' = 0 :=
          count_run (fun d hd => hdigits d (List.mem_append_right _ hd)) (by decide)
        rw [List.count_append, hrun, List.count_cons_of_ne (by decide), hrun']
      refine ⟨c, whole ++ '.' :: (places ++ rest), by simp, hblank, ne_hash_of_not_mark hmark, ?_⟩
      rw [hcount, Nat.add_zero, lexeme_of_digit line _ hc]
      exact number_of_float line (fun d hd => hdigits d (by simp [hd])) hplaces
        (fun d hd => hdigits d (by simp [hd])) hstops
  | @str quote body text hquote hunescapes =>
      exact lexeme_of_string line hquote hunescapes
  | @path names hne hnames hstops hpoint =>
      obtain ⟨name, names, rfl⟩ := List.exists_cons_of_ne_nil hne
      refine ⟨'.', name.toList ++ pathText names ++ rest, by simp, rfl, by decide, ?_⟩
      rw [count_pathText hnames, Nat.add_zero]
      exact path_of_names line false hne hnames hstops hpoint (by simp)
  | @globalPath names hne hnames hstops hpoint =>
      refine ⟨'g', "lobal".toList ++ (pathText names ++ rest), by simp, rfl, by decide, ?_⟩
      rw [List.count_append, count_pathText hnames, lexeme_of_letter line _ (by decide)]
      exact word_of_globalPath line hne hnames hstops hpoint
  | @word w hname hfirst helse hstops hglobal =>
      obtain ⟨c, cs, hread⟩ := lexeme_of_name line hname hfirst hstops hglobal
      rw [if_neg helse] at hread
      exact ⟨c, cs, hread⟩
  | elseWord hstops =>
      exact lexeme_of_name line (w := "else") (by decide) (stops_cons (by decide)) hstops
        (fun h => absurd h (by decide))
  | symbol s hlongest =>
      exact lexeme_of_symbol line hlongest
  | opening b =>
      cases b <;> exact ⟨_, rest, rfl, by decide, by decide, Nat.le_refl _, rfl⟩
  | closing b =>
      cases b <;> exact ⟨_, rest, rfl, by decide, by decide, Nat.le_refl _, rfl⟩
  | comma => exact ⟨',', rest, rfl, rfl, by decide, Nat.le_refl _, rfl⟩
  | semicolon => exact ⟨';', rest, rfl, rfl, by decide, Nat.le_refl _, rfl⟩

end Lexer

end Stepwise
