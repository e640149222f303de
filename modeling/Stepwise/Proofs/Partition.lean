import Stepwise.Proofs.Spelling

/-!
# `Stepwise.Proofs.Partition`: the tokens partition a text

`Lexer.Cut line tokens text` cuts a text into gaps and spellings, one for each token. `Lexer.scan_eq_ok_iff`
says that the tokens of a text are those into which it can be cut; in particular there is no second way to
cut it. `tokenize_partition` is the cut as a whole, with the line of each token counted in the text before it.
-/

set_option autoImplicit false

namespace Stepwise

namespace Lexer

/-- A text that is cut into gaps and the spellings of tokens; it starts on a given line. -/
inductive Cut : Nat → List Token → List Char → Prop where
  | done {line : Nat} {g : List Char} (hgap : Gap [] g) : Cut line [] g
  | token {line : Nat} {l : Lexeme} {tokens : List Token} {g t rest : List Char}
      (hgap : Gap (t ++ rest) g) (hspells : Spells rest l t)
      (h : Cut (line + g.count '\n' + t.count '\n') tokens rest) :
      Cut line (⟨l, line + g.count '\n'⟩ :: tokens) (g ++ (t ++ rest))

/-! ### The loop -/

/-- A gap can be put in front of a gap. -/
theorem Gap.append {rest g g' : List Char} (h : Gap (g' ++ rest) g) (h' : Gap rest g') :
    Gap rest (g ++ g') := by
  induction h with
  | nil => exact h'
  | blank hc _ ih => exact .blank hc ih
  | @comment body g hbody hend _ ih =>
      rw [List.cons_append, List.append_assoc]
      rw [← List.append_assoc] at hend
      exact .comment hbody hend ih

/-- Gaps are passed over. -/
theorem scan_gap {rest g : List Char} (h : Gap rest g) (line : Nat) :
    scan line (g ++ rest) = scan (line + g.count '\n') rest := by
  induction h generalizing line with
  | nil => rfl
  | @blank c g hc _ ih =>
      rw [List.cons_append, scan.eq_def]
      -- A blank may be a line feed, which the scanner takes in a case of its own.
      by_cases hfeed : c = '\n'
      · subst hfeed
        rw [List.count_cons_self]
        simp only [if_true, ih]
        congr 1
        omega
      · simp only [if_neg hfeed, hc, if_true, ih, List.count_cons_of_ne hfeed]
  | @comment body g hbody hend _ ih =>
      -- A comment is a run up to the line feed that ends it, or up to the end of the text.
      have hrun : ∀ c ∈ body, decide (c ≠ '\n') = true := by
        intro c hc
        exact decide_eq_true fun heq => hbody (heq ▸ hc)
      have hdrop : (body ++ (g ++ rest)).dropWhile (fun d => decide (d ≠ '\n')) = g ++ rest :=
        dropWhile_run hrun hend
      have hblank : Text.isBlank '#' = false := by decide
      rw [List.cons_append, List.append_assoc, scan.eq_def]
      simp only [hblank, hdrop, ih, List.count_cons_of_ne (show '#' ≠ '\n' by decide), List.count_append,
        List.count_eq_zero_of_not_mem hbody, Nat.zero_add]
      rfl

/-- A gap in front of a text that is cut up. -/
theorem Cut.gap {line : Nat} {tokens : List Token} {g rest : List Char} (hgap : Gap rest g)
    (h : Cut (line + g.count '\n') tokens rest) : Cut line tokens (g ++ rest) := by
  cases h with
  | done hdone =>
      rw [← List.append_nil rest] at hgap
      exact .done (hgap.append hdone)
  | @token _ l tokens g' t rest hgap' hspells h =>
      have hlines : line + g.count '\n' + g'.count '\n' = line + (g ++ g').count '\n' := by
        rw [List.count_append]
        omega
      rw [hlines] at h ⊢
      rw [← List.append_assoc]
      exact .token (hgap.append hgap') hspells h

/-- What is left of a line, such as a comment, ends in front of the next line feed or with the text. -/
theorem exists_rest_of_line (cs : List Char) :
    ∃ body rest, cs = body ++ rest ∧ cs.dropWhile (fun d => d ≠ '\n') = rest ∧ '\n' ∉ body ∧
      Stops (fun d => d ≠ '\n') rest := by
  refine ⟨cs.takeWhile fun d => d ≠ '\n', cs.dropWhile fun d => d ≠ '\n', ?_, rfl, ?_,
    stops_dropWhile _ cs⟩
  · exact List.takeWhile_append_dropWhile.symm
  · intro hmem
    have hne := List.mem_takeWhile_imp hmem
    simp at hne

/-- The tokens that are read cut up the text. -/
theorem cut_of_scan {line : Nat} {cs : List Char} {tokens : List Token}
    (h : scan line cs = .ok tokens) : Cut line tokens cs := by
  fun_induction scan line cs generalizing tokens with
  | case1 line =>
      cases h
      exact .done .nil
  -- A line feed, another blank and a comment go into the gap in front of the next token.
  | case2 line cs ih =>
      have hgap : Gap cs ['\n'] := .blank (by decide) .nil
      exact Cut.gap hgap (ih h)
  | case3 line c cs hfeed hc ih =>
      have hgap : Gap cs [c] := .blank hc .nil
      refine Cut.gap hgap ?_
      rw [List.count_cons_of_ne hfeed]
      exact ih h
  | case4 line cs _ _ ih =>
      obtain ⟨body, rest, hcs, hdrop, hbody, hend⟩ := exists_rest_of_line cs
      rw [hdrop] at ih h
      have hgap : Gap rest ('#' :: (body ++ [])) := .comment hbody hend .nil
      rw [List.append_nil] at hgap
      rw [hcs, ← List.cons_append]
      refine Cut.gap hgap ?_
      rw [List.count_cons_of_ne (by decide), List.count_eq_zero_of_not_mem hbody]
      exact ih h
  | case5 => cases h
  -- A lexeme: what was read is a spelling of it, and the rest is cut up from the line that it ends on.
  | case6 line c cs hfeed hblank hhash r hread ih =>
      cases hrest : scan r.line r.rest with
      | error e => rw [hrest] at h; cases h
      | ok tokens =>
          rw [hrest] at h
          cases h
          obtain ⟨t, hcs, hspells, hline⟩ := lexeme_covers line c cs r hread
          have hcut := ih hrest
          rw [hline] at hcut
          rw [hcs]
          show Cut line (⟨r.lexeme, line + List.count '\n' []⟩ :: tokens) ([] ++ (t ++ r.rest))
          exact .token .nil hspells hcut

/-- A character that is neither blank nor the start of a comment starts a lexeme. -/
theorem scan_lexeme (line : Nat) {c : Char} (cs : List Char) (hblank : Text.isBlank c = false)
    (hhash : c ≠ '#') :
    scan line (c :: cs) =
      (lexeme line c cs).bind fun r =>
        (scan r.line r.rest).map fun tokens => ⟨r.lexeme, line⟩ :: tokens := by
  have hfeed : c ≠ '\n' := by
    rintro rfl
    cases hblank
  rw [scan, if_neg hfeed, if_neg (by simp [hblank]), if_neg hhash]
  cases lexeme line c cs with
  | error e => rfl
  | ok r => rfl

/-- The spelling of a lexeme is one token, and the scan goes on behind it. -/
theorem scan_spelling {rest t : List Char} {l : Lexeme} (h : Spells rest l t) (line : Nat) :
    scan line (t ++ rest) = (scan (line + t.count '\n') rest).map fun tokens => ⟨l, line⟩ :: tokens := by
  obtain ⟨c, cs, hcut, hblank, hhash, le, hread⟩ := lexeme_of_spells h line
  rw [hcut, scan_lexeme line cs hblank hhash, hread]
  rfl

/-- A text that is cut up has the tokens of the cut. -/
theorem scan_of_cut {line : Nat} {cs : List Char} {tokens : List Token} (h : Cut line tokens cs) :
    scan line cs = .ok tokens := by
  induction h with
  | @done line g hgap =>
      rw [← List.append_nil g, scan_gap hgap, scan]
  | @token line l tokens g t rest hgap hspells _ ih =>
      rw [scan_gap hgap, scan_spelling hspells, ih]
      rfl

/-- The tokens of a text are those into which it can be cut. -/
theorem scan_eq_ok_iff {line : Nat} {cs : List Char} {tokens : List Token} :
    scan line cs = .ok tokens ↔ Cut line tokens cs :=
  ⟨cut_of_scan, scan_of_cut⟩

/-! ### The partition -/

/-- A spelling has at least one character. -/
theorem spells_ne_nil {rest t : List Char} {l : Lexeme} (h : Spells rest l t) : t ≠ [] := by
  cases h with
  | int hne => exact hne
  | float => simp
  | str => simp
  | path hne =>
      obtain ⟨name, names, rfl⟩ := List.exists_cons_of_ne_nil hne
      simp
  | globalPath => simp
  | word hname => exact (isName_iff.mp hname).1
  | elseWord => simp
  | symbol s => exact s.text_ne_nil
  | _ => simp

/-- A token, its spelling in a text and the gap in front of it. -/
structure Piece where
  gap : List Char
  text : List Char
  token : Token

/-- The text of pieces that stand one after another. -/
def joined (pieces : List Piece) : List Char :=
  pieces.flatMap fun p => p.gap ++ p.text

@[simp] theorem joined_nil : joined [] = [] := rfl

@[simp] theorem joined_cons (p : Piece) (pieces : List Piece) :
    joined (p :: pieces) = p.gap ++ p.text ++ joined pieces := rfl

/-- A piece as it stands in a text after the characters `before` and in front of `rest`. -/
structure Piece.Stands (p : Piece) (before rest : List Char) : Prop where
  gap : Gap (p.text ++ rest) p.gap
  ne_nil : p.text ≠ []
  spells : Spells rest p.token.lexeme p.text
  line : p.token.line = (before ++ p.gap).count '\n'

/-- A cut as a list of pieces. -/
theorem Cut.exists_pieces {line : Nat} {tokens : List Token} {cs : List Char}
    (h : Cut line tokens cs) (start : List Char) (hline : line = start.count '\n') :
    ∃ pieces last, pieces.map Piece.token = tokens ∧ cs = joined pieces ++ last ∧ Gap [] last ∧
      ∀ before p after, pieces = before ++ p :: after →
        p.Stands (start ++ joined before) (joined after ++ last) := by
  induction h generalizing start with
  | @done line g hgap =>
      refine ⟨[], g, rfl, rfl, hgap, ?_⟩
      intro before p after heq
      simp at heq
  | @token line l tokens g t rest hgap hspells _ ih =>
      -- The text in front of the next token ends behind this one, so its line feeds are those counted so
      -- far.
      have hnext : line + g.count '\n' + t.count '\n' = (start ++ g ++ t).count '\n' := by
        rw [List.count_append, List.count_append, hline]
      obtain ⟨pieces, last, rfl, rfl, hlast, hstands⟩ := ih _ hnext
      refine ⟨⟨g, t, l, line + g.count '\n'⟩ :: pieces, last, rfl, by simp, hlast, ?_⟩
      intro before p after heq
      -- The piece in question is the new one, or it is one of the others with the new one in front.
      cases before with
      | nil =>
          cases heq
          refine ⟨hgap, spells_ne_nil hspells, hspells, ?_⟩
          show line + g.count '\n' = (start ++ [] ++ g).count '\n'
          rw [List.append_nil, List.count_append, hline]
      | cons q before =>
          cases heq
          have h := hstands before p after rfl
          simpa using h

/-- Tokens never go back a line. -/
theorem Cut.lines_sorted {line : Nat} {tokens : List Token} {cs : List Char} (h : Cut line tokens cs) :
    (∀ t ∈ tokens, line ≤ t.line) ∧ tokens.Pairwise fun t t' => t.line ≤ t'.line := by
  induction h with
  | done => simp
  | @token line l tokens g t rest _ _ _ ih =>
      obtain ⟨hle, hsorted⟩ := ih
      -- The token lies behind its gap, and all later ones behind both.
      constructor
      · intro t' ht'
        rcases List.mem_cons.mp ht' with rfl | ht'
        · exact Nat.le_add_right _ _
        · have := hle t' ht'
          omega
      · refine List.pairwise_cons.mpr ⟨?_, hsorted⟩
        intro t' ht'
        have := hle t' ht'
        show line + g.count '\n' ≤ t'.line
        omega

end Lexer

open Lexer in
/-- The tokens of a text partition it: it consists of gaps and, in the order of the tokens, one spelling of
each of them. The line of a token is the number of line feeds in front of its spelling. -/
theorem tokenize_partition {source : String} {tokens : List Token} (h : tokenize source = .ok tokens) :
    (∃ pieces last, pieces.map Piece.token = tokens ∧ source.toList = joined pieces ++ last ∧
      Gap [] last ∧
      ∀ before p after, pieces = before ++ p :: after →
        p.Stands (joined before) (joined after ++ last)) ∧
      tokens.Pairwise fun t t' => t.line ≤ t'.line := by
  have hcut : Cut 0 tokens source.toList := scan_eq_ok_iff.mp h
  refine ⟨?_, hcut.lines_sorted.2⟩
  exact hcut.exists_pieces [] rfl

open Lexer in
/-- A point that starts a path after a number, line feeds in a string and after a comment, and a comment that
ends with the text. -/
theorem tokenize_partition_multiline :
    let source := "1.x #c\n'a\nb'global.y+=2#"
    let tokens : List Token :=
      [⟨.int 1, 0⟩, ⟨.path false ["x"], 0⟩, ⟨.str "a\nb", 1⟩, ⟨.path true ["y"], 2⟩,
        ⟨.symbol (.update .add), 2⟩, ⟨.int 2, 2⟩]
    tokenize source = .ok tokens ∧
      (∃ pieces last, pieces.map Piece.token = tokens ∧ source.toList = joined pieces ++ last ∧
        Gap [] last ∧
        ∀ before p after, pieces = before ++ p :: after →
          p.Stands (joined before) (joined after ++ last)) ∧
      tokens.Pairwise fun t t' => t.line ≤ t'.line := by
  intro source tokens
  have htokens : tokenize source = .ok tokens := by cbv
  exact ⟨htokens, tokenize_partition htokens⟩

end Stepwise
