import Stepwise.Program
import Stepwise.Proofs.Lines

/-!
# `Stepwise.Proofs.Refusals`: where a text is refused

A text without tokens is refused at some place, and the report names the line that the lexer had reached there.
`Lexer.RefusedAt` says what that place can be. Most faults stand at a character, which is never a line feed, so
its line has at least this character. Only a string without end is refused behind the last character.

The lexer counts line feeds and `Text.lines` cuts at them, so both agree on every line with a character. They
part where a text ends with a line feed: the lexer has then reached a line that is empty, and `Text.lines` does
not have it (`Text.lineAt?_count`). `Program.lexical_errors_show_line` follows: a report shows the text of its
line, unless a string without end runs up to a line feed that ends the text. `Program.lexical_error_without_text`
has such a text.
-/

set_option autoImplicit false

namespace Stepwise

namespace Lexer

/-! ### The place of a fault -/

/-- Where a text that starts on a line is refused. -/
inductive RefusedAt (line : Nat) (cs : List Char) (e : LexError) : Prop where
  /-- At a character of the text, on the line of this character. -/
  | character (before : List Char) (c : Char) (after : List Char) (text : cs = before ++ c :: after)
      (feed : c ≠ '\n') (fault : e.fault ≠ .unterminatedString)
      (reached : e.line = line + before.count '\n')
  /-- Behind the last character, in a string without end. -/
  | ending (fault : e.fault = .unterminatedString) (reached : e.line = line + cs.count '\n')

/-- What is refused behind a text is refused in the whole, and the line goes on by the line feeds in between. -/
theorem RefusedAt.behind {line : Nat} {front cs : List Char} {e : LexError}
    (h : RefusedAt (line + front.count '\n') cs e) : RefusedAt line (front ++ cs) e := by
  cases h with
  | character before c after text feed fault reached =>
      refine .character (front ++ before) c after ?_ feed fault ?_
      · rw [text, List.append_assoc]
      · rw [reached, List.count_append, Nat.add_assoc]
  | ending fault reached =>
      refine .ending fault ?_
      rw [reached, List.count_append, Nat.add_assoc]

/-- The body of a string is refused at a bad escape, or behind the text if no quote closes it. -/
theorem stringBody_refused {quote : Char} {cs : List Char} {line : Nat} {e : LexError}
    (h : stringBody quote cs line = .error e) : RefusedAt line cs e := by
  fun_induction stringBody quote cs line with
  | case1 line =>
      cases h
      exact .ending rfl rfl
  | case2 => cases h
  | case3 line _ =>
      cases h
      exact .ending rfl rfl
  -- A bad escape is refused at its mark, which stands on the line reached.
  | case4 line d cs hescape _ =>
      cases h
      exact .character [] '\\' (d :: cs) rfl (by decide) (by rintro ⟨⟩) rfl
  -- A good escape has no line feed in it, so the rest starts on the same line.
  | case5 line d cs _ hescape _ ih =>
      cases hrest : stringBody quote cs line with
      | ok r =>
          rw [hrest] at h
          cases h
      | error e' =>
          rw [hrest] at h
          cases h
          have hfeed : d ≠ '\n' := ne_lineFeed_of_unescape hescape
          have hcount : ['\\', d].count '\n' = 0 := by simp [hfeed]
          show RefusedAt line (['\\', d] ++ cs) e
          refine .behind ?_
          rw [hcount]
          exact ih hrest
  -- Any other character may be one.
  | case6 c cs line _ _ ih =>
      cases hrest : stringBody quote cs (if c = '\n' then line + 1 else line) with
      | ok r =>
          rw [hrest] at h
          cases h
      | error e' =>
          rw [hrest] at h
          cases h
          have hline : line + [c].count '\n' = if c = '\n' then line + 1 else line := by
            by_cases hc : c = '\n'
            · simp [hc]
            · simp [hc]
          show RefusedAt line ([c] ++ cs) e
          refine .behind ?_
          rw [hline]
          exact ih hrest

/-- A reader that takes characters of one line fails on that line, and not because the text ends. -/
def FailsOn (line : Nat) {cs : List Char} (r : Except LexError (Reading cs)) : Prop :=
  ∀ e, r = .error e → e.line = line ∧ e.fault ≠ .unterminatedString

namespace FailsOn

variable {line : Nat} {cs : List Char}

theorem ok (r : Reading cs) : FailsOn line (.ok r) := by
  intro e he
  cases he

theorem error {fault : LexFault} (h : fault ≠ .unterminatedString) :
    FailsOn line (.error ⟨fault, line⟩ : Except LexError (Reading cs)) := by
  intro e he
  cases he
  exact ⟨rfl, h⟩

theorem map {ds : List Char} {r : Except LexError (Reading ds)} (h : FailsOn line r)
    (g : Reading ds → Reading cs) : FailsOn line (r.map g) := by
  intro e he
  cases r with
  | ok a => cases he
  | error e' =>
      cases he
      exact h e rfl

end FailsOn

theorem number_failsOn (line : Nat) (c : Char) (cs : List Char) : FailsOn line (number line c cs) := by
  have hinteger : FailsOn line (number.integer line cs (c :: cs.takeWhile Char.isDigit)) := by
    unfold number.integer
    cases Number.checked (Number.natOfDigits (c :: cs.takeWhile Char.isDigit)) with
    | none => exact .error (by rintro ⟨⟩)
    | some n => exact .ok _
  unfold number
  dsimp only
  split
  · split
    · exact .ok _
    · exact hinteger
  · exact hinteger

theorem path_failsOn (line : Nat) (global : Bool) (cs : List Char) : FailsOn line (path line global cs) := by
  unfold path
  split
  · exact .error (by rintro ⟨⟩)
  · exact .ok _

theorem word_failsOn (line : Nat) (c : Char) (cs : List Char) : FailsOn line (word line c cs) := by
  unfold word
  dsimp only
  split
  · split
    · exact (path_failsOn line true _).map _
    · exact .ok _
  · exact .ok _

/-- A lexeme is refused at its first character, or inside of a string. -/
theorem lexeme_refused {line : Nat} {c : Char} {cs : List Char} {e : LexError} (hc : c ≠ '\n')
    (h : lexeme line c cs = .error e) : RefusedAt line (c :: cs) e := by
  -- A number, a path or a word is refused on the line it starts on.
  have hfirst {r : Except LexError (Reading cs)} (hr : FailsOn line r) (he : r = .error e) :
      RefusedAt line (c :: cs) e := by
    obtain ⟨hline, hfault⟩ := hr e he
    exact .character [] c cs rfl hc hfault hline
  unfold lexeme at h
  split at h
  · cases h
  · cases h
  · split at h
    · cases h
    split at h
    · cases h
    split at h
    · split at h
      -- A string is refused somewhere behind its opening quote.
      · rename_i e' hbody
        cases h
        show RefusedAt line ([c] ++ cs) e
        refine .behind ?_
        rw [List.count_cons_of_ne hc]
        exact stringBody_refused hbody
      · cases h
    split at h
    · exact hfirst (path_failsOn line false cs) h
    split at h
    · exact hfirst (number_failsOn line c cs) h
    split at h
    · exact hfirst (word_failsOn line c cs) h
    split at h
    · cases h
      exact .character [] c cs rfl hc (by rintro ⟨⟩) rfl
    · cases h

/-- The induction goes through the text as the lexer does: what was read before the fault moves the line on by
its line feeds. -/
theorem scan_refused {line : Nat} {cs : List Char} {e : LexError} (h : scan line cs = .error e) :
    RefusedAt line cs e := by
  fun_induction scan line cs with
  | case1 => cases h
  | case2 line cs ih =>
      show RefusedAt line (['\n'] ++ cs) e
      exact .behind (ih h)
  | case3 line c cs hfeed _ ih =>
      show RefusedAt line ([c] ++ cs) e
      refine .behind ?_
      rw [List.count_cons_of_ne hfeed]
      exact ih h
  -- A comment has no line feed, since it ends in front of one.
  | case4 line cs _ _ ih =>
      obtain ⟨body, rest, hcs, hdrop, hbody, -⟩ := exists_rest_of_line cs
      rw [hdrop] at ih h
      have hcount : ('#' :: body).count '\n' = 0 := by
        rw [List.count_cons_of_ne (by decide), List.count_eq_zero_of_not_mem hbody]
      rw [hcs, ← List.cons_append]
      refine .behind ?_
      rw [hcount]
      exact ih h
  | case5 line c cs hfeed _ _ e' hread =>
      cases h
      exact lexeme_refused hfeed hread
  -- The fault is behind a lexeme that was read, which may have had line feeds in it.
  | case6 line c cs _ _ _ r hread ih =>
      cases hrest : scan r.line r.rest with
      | ok tokens =>
          rw [hrest] at h
          cases h
      | error e' =>
          rw [hrest] at h
          cases h
          obtain ⟨t, hcs, -, hline⟩ := lexeme_covers line c cs r hread
          rw [hcs]
          refine .behind ?_
          rw [← hline]
          exact ih hrest

end Lexer

/-! ### The line of the place -/

namespace Text

theorem length_splitLines (cs : List Char) : (splitLines cs).length = cs.count '\n' + 1 := by
  induction cs with
  | nil => rfl
  | cons c cs ih =>
      by_cases hc : c = '\n'
      · subst hc
        simp [splitLines, ih]
      · obtain ⟨line, rest, hsplit, hcons⟩ := splitLines_cons hc cs
        rw [hsplit] at ih
        rw [hcons, List.count_cons_of_ne hc, ← ih]
        rfl

/-- The end of a text that ends with a line feed is an empty line. -/
theorem isLine_of_lineFeed (cs : List Char) (h : cs.getLast? = some '\n') : IsLine cs (cs.count '\n') [] := by
  refine ⟨cs, [], by simp, rfl, by simp, ?_, by simp⟩
  intro c hc
  rw [h] at hc
  exact (Option.mem_some.mp hc).symm

/-- This empty line is not one of the lines that can be looked up. -/
theorem lineAt?_count {source : String} (h : source.toList.getLast? = some '\n') :
    lineAt? source (source.toList.count '\n') = none := by
  have hpiece := splitLines_of_isLine (isLine_of_lineFeed source.toList h)
  have hlength := length_splitLines source.toList
  have hlast : (splitLines source.toList).getLast? = some [] := by
    rw [List.getLast?_eq_getElem?, hlength]
    exact hpiece
  have hlines : (lines source.toList).length = source.toList.count '\n' := by
    simp only [lines, hlast, if_true, List.length_dropLast, hlength]
    omega
  rw [lineAt?, List.getElem?_eq_none (Nat.le_of_eq hlines)]
  rfl

/-- The text of the line of a character can be looked up. -/
theorem lineAt?_of_character {source : String} {before : List Char} {c : Char} {after : List Char}
    (hsource : source.toList = before ++ c :: after) (hc : c ≠ '\n') :
    ∃ line, IsLine source.toList (before.count '\n') line ∧
      lineAt? source (before.count '\n') = some (String.ofList (trimChars line)) := by
  obtain ⟨line, hisLine, hmem⟩ := exists_isLine before hc after
  rw [← hsource] at hisLine
  refine ⟨line, hisLine, ?_⟩
  rw [lineAt?, lines_of_isLine hisLine (List.ne_nil_of_mem hmem)]
  rfl

end Text

/-- Whether a text is refused on an empty line at its end: a string without end runs up to a line feed that
ends the text. -/
def LexError.PastLastLine (e : LexError) (source : String) : Prop :=
  e.fault = .unterminatedString ∧ source.toList.getLast? = some '\n'

instance (e : LexError) (source : String) : Decidable (e.PastLastLine source) :=
  inferInstanceAs (Decidable (_ ∧ _))

/-- What is looked up for the line of a text that is refused. -/
theorem Text.lineAt?_of_refused {source : String} {e : LexError} (h : tokenize source = .error e) :
    ∃ line, IsLine source.toList e.line line ∧
      lineAt? source e.line =
        if e.PastLastLine source then none else some (String.ofList (trimChars line)) := by
  have hplace : Lexer.RefusedAt 0 source.toList e := Lexer.scan_refused h
  cases hplace with
  | character before c after text feed fault reached =>
      rw [Nat.zero_add] at reached
      have hnot : ¬ e.PastLastLine source := fun hpast => fault hpast.1
      obtain ⟨line, hisLine, hlookup⟩ := lineAt?_of_character text feed
      refine ⟨line, reached ▸ hisLine, ?_⟩
      rw [if_neg hnot, reached, hlookup]
  -- The end of the text has been reached. Only if the text ends with a line feed is there no line to look
  -- up: the last line is then empty, and the lines of a text leave it out.
  | ending fault reached =>
      rw [Nat.zero_add] at reached
      rcases List.eq_nil_or_concat source.toList with hnil | ⟨before, c, hlast⟩
      · -- A text without characters has tokens, namely none.
        rw [tokenize, hnil, Lexer.scan] at h
        cases h
      · rw [List.concat_eq_append] at hlast
        by_cases hc : c = '\n'
        · have hfeed : source.toList.getLast? = some '\n' := by simp [hlast, hc]
          have hpast : e.PastLastLine source := ⟨fault, hfeed⟩
          refine ⟨[], reached ▸ isLine_of_lineFeed _ hfeed, ?_⟩
          rw [if_pos hpast, reached, lineAt?_count hfeed]
        · have hnot : ¬ e.PastLastLine source := by
            rintro ⟨-, hfeed⟩
            simp [hlast, hc] at hfeed
          have hcount : e.line = before.count '\n' := by
            rw [reached, hlast, List.count_append, List.count_cons_of_ne hc]
            rfl
          obtain ⟨line, hisLine, hlookup⟩ := lineAt?_of_character hlast hc
          refine ⟨line, hcount ▸ hisLine, ?_⟩
          rw [if_neg hnot, hcount, hlookup]

namespace Program

/-- Lexical errors show the line they name. A text without tokens is refused on the line that the lexer has
reached. This is a line of the text, and the report shows its trimmed text. There is one exception: where a
string without end runs up to a line feed that ends the text, the line reached is the empty one behind it, and
the report shows no text. -/
theorem lexical_errors_show_line {source : String} {e : LexError} (h : tokenize source = .error e)
    (settings : Settings) :
    ∃ line, Text.IsLine source.toList e.line line ∧
      Program.ofSource source settings = .error
        { stage := .lex
          message := e.fault.message
          line := some e.line
          context :=
            if e.PastLastLine source then none else some (String.ofList (Text.trimChars line)) } := by
  obtain ⟨line, hisLine, hlookup⟩ := Text.lineAt?_of_refused h
  refine ⟨line, hisLine, ?_⟩
  rw [← hlookup]
  simp only [Program.ofSource, Block.ofSource, h]
  rfl

/-- A string that is opened on the second line and never closed, and a character that starts nothing behind a
string with a line feed in it. -/
theorem lexical_errors_show_second_line :
    (tokenize "1;\n  'a\n b" = .error ⟨.unterminatedString, 2⟩ ∧
      Program.ofSource "1;\n  'a\n b" {} =
        .error ⟨.lex, "Unterminated string literal", some 2, some "b"⟩) ∧
    (tokenize "'\n' ; @ \r\n" = .error ⟨.unexpectedCharacter '@', 1⟩ ∧
      Program.ofSource "'\n' ; @ \r\n" {} =
        .error ⟨.lex, "Unexpected character '@'", some 1, some "' ; @"⟩) := by
  have hstring : tokenize "1;\n  'a\n b" = .error ⟨.unterminatedString, 2⟩ := by cbv
  have hcharacter : tokenize "'\n' ; @ \r\n" = .error ⟨.unexpectedCharacter '@', 1⟩ := by cbv
  obtain ⟨line, hline, hreport⟩ := lexical_errors_show_line hstring {}
  obtain ⟨line', hline', hreport'⟩ := lexical_errors_show_line hcharacter {}
  -- A line is the piece with its number, so the two lines are known.
  have hpiece : line = [' ', 'b'] :=
    Option.some.inj ((Text.splitLines_of_isLine hline).symm.trans (by cbv))
  have hpiece' : line' = ['\'', ' ', ';', ' ', '@', ' ', '\r'] :=
    Option.some.inj ((Text.splitLines_of_isLine hline').symm.trans (by cbv))
  have hnot : ¬ LexError.PastLastLine ⟨.unterminatedString, 2⟩ "1;\n  'a\n b" := by decide
  have hnot' : ¬ LexError.PastLastLine ⟨.unexpectedCharacter '@', 1⟩ "'\n' ; @ \r\n" := by
    rintro ⟨⟨⟩, -⟩
  rw [hpiece, if_neg hnot] at hreport
  rw [hpiece', if_neg hnot'] at hreport'
  exact ⟨⟨hstring, hreport⟩, hcharacter, hreport'⟩

/-- A string without end in front of a line feed that ends the text: the report names the empty line behind it
and shows no text, not even that of an empty line. -/
theorem lexical_error_without_text :
    ¬ ∀ (source : String) (settings : Settings) (e : LexError), tokenize source = .error e →
      ∃ line, Text.IsLine source.toList e.line line ∧
        Program.ofSource source settings =
          .error ⟨.lex, e.fault.message, some e.line, some (String.ofList (Text.trimChars line))⟩ := by
  intro hclaim
  have hrefused : tokenize "'a\n" = .error ⟨.unterminatedString, 1⟩ := by cbv
  have hlookup : Text.lineAt? "'a\n" 1 = none := by cbv
  -- The lexer counts the line feed in the string, but a text that ends in a line feed has no line behind
  -- it.
  have hreport : Program.ofSource "'a\n" {} = .error ⟨.lex, "Unterminated string literal", some 1, none⟩ := by
    simp only [Program.ofSource, Block.ofSource, hrefused]
    show Except.error (Report.mk .lex _ (some 1) (Text.lineAt? "'a\n" 1)) = _
    rw [hlookup]
    rfl
  obtain ⟨line, -, hshown⟩ := hclaim "'a\n" {} _ hrefused
  rw [hreport] at hshown
  cases hshown

end Program

end Stepwise
