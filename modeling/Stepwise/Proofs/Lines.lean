import Stepwise.Proofs.Partition

/-!
# `Stepwise.Proofs.Lines`: the lines of a text and of its tokens

A stretch of a text is its line with the number `n` if `n` line feeds stand in front of it, it starts after a
line feed or with the text, and it ends in front of the next line feed or with the text (`Text.IsLine`). The
pieces into which a text is cut at its line feeds are these stretches, in order (`splitLines_of_isLine`), and
`Text.lines` only leaves an empty one out at the end, so a line that is not empty is found by its number.

The line of a token is never empty: the spelling of a token starts with a character that is no line feed, and
the number of line feeds in front of that character is the number of the line that the token is said to be on
(`Cut.exists_start`). So the text of the line of a token can always be looked up (`Text.lineAt?_of_token`),
although the tokens and the lines of a text are read in ways that have nothing in common.
-/

set_option autoImplicit false

namespace Stepwise

namespace Text

/-- A stretch of a text is its line with a number, counted from zero. -/
def IsLine (cs : List Char) (n : Nat) (line : List Char) : Prop :=
  ∃ before after, cs = before ++ line ++ after ∧ before.count '\n' = n ∧ '\n' ∉ line ∧
    (∀ c ∈ before.getLast?, c = '\n') ∧ ∀ c ∈ after.head?, c = '\n'

/-! ### Cutting at line feeds -/

theorem splitLines_ne_nil (cs : List Char) : splitLines cs ≠ [] := by
  cases cs with
  | nil => simp [splitLines]
  | cons c cs =>
      simp only [splitLines]
      split
      · simp
      · split <;> simp

/-- A line feed starts a new piece. -/
theorem getElem?_splitLines_lineFeed (cs : List Char) (n : Nat) :
    (splitLines ('\n' :: cs))[n + 1]? = (splitLines cs)[n]? := by
  simp [splitLines]

/-- Any other character becomes part of the first piece. -/
theorem splitLines_cons {c : Char} (hc : c ≠ '\n') (cs : List Char) :
    ∃ line rest, splitLines cs = line :: rest ∧ splitLines (c :: cs) = (c :: line) :: rest := by
  obtain ⟨line, rest, hsplit⟩ := List.exists_cons_of_ne_nil (splitLines_ne_nil cs)
  exact ⟨line, rest, hsplit, by simp [splitLines, hc, hsplit]⟩

/-- A text without a line feed, up to a line feed or to the end, is the first piece. -/
theorem head?_splitLines {line after : List Char} (hline : '\n' ∉ line)
    (hafter : ∀ c ∈ after.head?, c = '\n') : (splitLines (line ++ after))[0]? = some line := by
  induction line with
  | nil =>
      cases after with
      | nil => rfl
      | cons c after =>
          obtain rfl : c = '\n' := hafter c rfl
          simp [splitLines]
  | cons c line ih =>
      have hc : c ≠ '\n' := Ne.symm (List.ne_of_not_mem_cons hline)
      obtain ⟨first, rest, hsplit, hcons⟩ := splitLines_cons hc (line ++ after)
      have hfirst := ih (List.not_mem_of_not_mem_cons hline)
      rw [hsplit] at hfirst
      cases hfirst
      rw [List.cons_append, hcons]
      rfl

/-- The line with a number is the piece with that number. The induction is on what stands in front of the
line, so that it goes through the text as the cutting does. -/
theorem splitLines_of_isLine {cs : List Char} {n : Nat} {line : List Char} (h : IsLine cs n line) :
    (splitLines cs)[n]? = some line := by
  obtain ⟨before, after, rfl, rfl, hline, hbefore, hafter⟩ := h
  induction before with
  | nil => exact head?_splitLines hline hafter
  | cons c before ih =>
      -- A line feed in front ends a piece, and any other character lies in the first one.
      by_cases hc : c = '\n'
      · subst hc
        have hrest : ∀ d ∈ before.getLast?, d = '\n' := by
          intro d hd
          refine hbefore d ?_
          rw [List.getLast?_cons, Option.mem_def.mp hd]
          rfl
        rw [List.count_cons_self, List.cons_append, List.cons_append, getElem?_splitLines_lineFeed]
        exact ih hrest
      · -- What stands in front ends with a line feed, so there is one after this character.
        cases before with
        | nil => exact absurd (hbefore c rfl) hc
        | cons d before =>
            have hrest : ∀ e ∈ (d :: before).getLast?, e = '\n' := by
              intro e he
              exact hbefore e (by rw [List.getLast?_cons_cons]; exact he)
            have hpos : 0 < (d :: before).count '\n' := by
              refine List.count_pos_iff.mpr (List.mem_of_getLast? ?_)
              rw [List.getLast?_eq_some_getLast (List.cons_ne_nil d before)]
              exact congrArg some (hrest _ (List.getLast?_eq_some_getLast _))
            obtain ⟨k, hk⟩ : ∃ k, (d :: before).count '\n' = k + 1 := ⟨_, (Nat.succ_pred_eq_of_pos hpos).symm⟩
            have hpiece := ih hrest
            obtain ⟨first, rest, hsplit, hcons⟩ := splitLines_cons hc (d :: before ++ line ++ after)
            rw [hk, hsplit] at hpiece
            rw [List.count_cons_of_ne hc, hk, List.cons_append, List.cons_append, hcons]
            exact hpiece

/-- A line that is not empty is not left out at the end. -/
theorem lines_of_isLine {cs : List Char} {n : Nat} {line : List Char} (h : IsLine cs n line)
    (hne : line ≠ []) : (lines cs)[n]? = some line := by
  have hpiece : (splitLines cs)[n]? = some line := splitLines_of_isLine h
  simp only [lines]
  split
  · rename_i hlast
    have hlt : n < (splitLines cs).length := (List.getElem?_eq_some_iff.mp hpiece).1
    have hn : n ≠ (splitLines cs).length - 1 := by
      intro hn
      rw [List.getLast?_eq_getElem?, ← hn, hpiece] at hlast
      exact hne (Option.some.inj hlast)
    rw [List.getElem?_dropLast, if_pos (by omega)]
    exact hpiece
  · exact hpiece

/-- Every character but a line feed stands in a line, whose number is the number of line feeds in front of
the character. -/
theorem exists_isLine (before : List Char) {c : Char} (hc : c ≠ '\n') (after : List Char) :
    ∃ line, IsLine (before ++ c :: after) (before.count '\n') line ∧ c ∈ line := by
  induction before with
  | nil =>
      -- The line goes on to the next line feed or to the end of the text.
      obtain ⟨body, rest, rfl, -, hbody, hend⟩ := Lexer.exists_rest_of_line after
      have hline : '\n' ∉ c :: body := List.not_mem_cons_of_ne_of_not_mem (Ne.symm hc) hbody
      have hback : ∀ d ∈ rest.head?, d = '\n' := fun d hd => by simpa using hend d hd
      have hfront : ∀ d ∈ ([] : List Char).getLast?, d = '\n' := fun d hd => by cases hd
      exact ⟨c :: body, ⟨[], rest, rfl, rfl, hline, hfront, hback⟩, List.mem_cons_self⟩
  | cons d before ih =>
      obtain ⟨line, ⟨front, back, heq, hcount, hline, hfront, hback⟩, hmem⟩ := ih
      by_cases hstart : front = [] ∧ d ≠ '\n'
      · -- The character is on the line in whose front it stands.
        obtain ⟨rfl, hd⟩ := hstart
        refine ⟨d :: line, ⟨[], back, ?_, ?_, ?_, hfront, hback⟩, List.mem_cons_of_mem d hmem⟩
        · rw [List.cons_append, heq]
          rfl
        · rw [List.count_cons_of_ne hd, ← hcount]
        · exact List.not_mem_cons_of_ne_of_not_mem (Ne.symm hd) hline
      -- The character ends an earlier line or stands in one, so the line is the same as without it.
      · refine ⟨line, ⟨d :: front, back, ?_, ?_, hline, ?_, hback⟩, hmem⟩
        · rw [List.cons_append, heq]
          rfl
        · rw [List.count_cons, List.count_cons, hcount]
        · intro e he
          cases front with
          | nil =>
              cases he
              by_contra hne
              exact hstart ⟨rfl, hne⟩
          | cons f front =>
              rw [List.getLast?_cons_cons] at he
              exact hfront e he

end Text

/-! ### Tokens -/

namespace Lexer

/-- A token starts with a character that is no line feed, and its line is the number of line feeds in front of
that character. -/
theorem Cut.exists_start {line : Nat} {tokens : List Token} {cs : List Char} (h : Cut line tokens cs)
    {t : Token} (ht : t ∈ tokens) :
    ∃ before c after, cs = before ++ c :: after ∧ c ≠ '\n' ∧ t.line = line + before.count '\n' := by
  induction h with
  | done => cases ht
  | @token line l tokens g text rest hgap hspells _ ih =>
      rcases List.mem_cons.mp ht with rfl | ht
      · obtain ⟨c, cs, hcut, hblank, -⟩ := lexeme_of_spells hspells 0
        have hfeed : c ≠ '\n' := by
          rintro rfl
          cases hblank
        exact ⟨g, c, cs, by rw [hcut], hfeed, rfl⟩
      -- The line feeds in front of a later token are those of the gap, of this token and of what lies
      -- between.
      · obtain ⟨before, c, after, rfl, hfeed, hline⟩ := ih ht
        refine ⟨g ++ text ++ before, c, after, by simp, hfeed, ?_⟩
        rw [hline, List.count_append, List.count_append]
        omega

end Lexer

/-- The text of the line of a token can be looked up: the line is there and not empty. -/
theorem Text.lineAt?_of_token {source : String} {tokens : List Token}
    (htokens : tokenize source = .ok tokens) {n : Nat} (hn : n ∈ tokens.map Token.line) :
    ∃ line, IsLine source.toList n line ∧
      lineAt? source n = some (String.ofList (trimChars line)) := by
  obtain ⟨t, ht, rfl⟩ := List.mem_map.mp hn
  have hcut : Lexer.Cut 0 tokens source.toList := Lexer.scan_eq_ok_iff.mp htokens
  obtain ⟨before, c, after, hsource, hc, hline⟩ := hcut.exists_start ht
  obtain ⟨line, hisLine, hmem⟩ := exists_isLine before hc after
  rw [← hsource, ← Nat.zero_add (before.count '\n'), ← hline] at hisLine
  have hfound : (lines source.toList)[t.line]? = some line :=
    lines_of_isLine hisLine (List.ne_nil_of_mem hmem)
  refine ⟨line, hisLine, ?_⟩
  rw [lineAt?, hfound]
  rfl

end Stepwise
