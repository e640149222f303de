import Stepwise.Proofs.Grammar

/-!
# `Stepwise.Proofs.Locality`: how far a reader looks

A reader decides by the tokens that it takes and by the one behind them. So what it has read once it reads
again with other tokens behind, as long as these do not start with a symbol that could go on
(`expression_replays`, `unary_replays`, `primary_replays`). One thing reaches further: a built-in without
arguments takes an empty pair of parentheses, so two tokens count behind it. What ends with a bracket of its
own is read again whatever stands behind (`commaList_replays`, `block_replays`).

* `Follows` says which tokens may stand behind in place of others.
* `Replays` says of a result that its reader comes to it again from the tokens it has taken.
* `Block.ofTokens_of_expression` reads an expression with a semicolon behind it as a script.

The proof goes through the readers once: each of them replays if those do that it calls, by the rules of
`Stepwise.Proofs.Grammar`.
-/

set_option autoImplicit false

namespace Stepwise

namespace Parser

/-! ### What stands behind -/

/-- Whether tokens start with an empty pair of parentheses. -/
def opensPair : List Token → Bool
  | t :: u :: _ => (opens .round t.lexeme).isSome && (closes .round u.lexeme).isSome
  | _ => false

/-- Other tokens may follow in place of `rest`: they start with a symbol, or with an empty pair of
parentheses, only if `rest` does so too. -/
structure Follows (rest other : List Token) : Prop where
  symbol : ∀ s, peek? other = some (.symbol s) → peek? rest = some (.symbol s)
  pair : opensPair other = true → opensPair rest = true

/-- What does not go on behind `rest` does not go on behind the other tokens. -/
theorem Follows.take {rest other : List Token} (h : Follows rest other) {α : Type} {f : Symbol → Option α}
    (hrest : take (symbol? f) rest = none) : take (symbol? f) other = none := by
  cases other with
  | nil => rfl
  | cons t other =>
      obtain ⟨l, line⟩ := t
      refine take_cons_of_none ?_ line other
      cases l with
      | symbol s =>
          -- The same symbol stands in front of `rest`.
          have hsymbol := h.symbol s rfl
          cases rest with
          | nil => cases hsymbol
          | cons u rest =>
              obtain ⟨l', line'⟩ := u
              cases hsymbol
              simpa [Parser.take] using hrest
      | _ => rfl

/-- Behind one and the same token anything may follow, unless a pair of parentheses opens with it. -/
theorem follows_cons {l : Lexeme} (h : l ≠ .opening .round) (line : Nat) (rest other : List Token) :
    Follows (⟨l, line⟩ :: rest) (⟨l, line⟩ :: other) where
  symbol := fun _ hs => hs
  pair := by
    have hl : opens .round l = none := by
      cases l with
      | opening b =>
          cases b with
          | round => exact absurd rfl h
          | _ => rfl
      | _ => rfl
    intro hpair
    cases other with
    | nil => cases hpair
    | cons u other => simp [opensPair, hl] at hpair

/-- Tokens that start with nothing that could go on may follow in place of all others. -/
theorem follows_of_ends {rest other : List Token} (h : Ends other) (hpair : opensPair other = false) :
    Follows rest other where
  symbol := fun s hs => absurd hs (h s)
  pair := fun hopens => absurd (hpair.symm.trans hopens) (by simp)

/-- Tokens do not end with an opening parenthesis. -/
def Whole (used : List Token) : Prop :=
  ∀ t, used.getLast? = some t → t.lexeme ≠ .opening .round

theorem whole_nil : Whole [] := by
  intro t ht
  cases ht

theorem Whole.append {used more : List Token} (h : Whole used) (hmore : Whole more) :
    Whole (used ++ more) := by
  intro t ht
  rw [List.getLast?_append, Option.or_eq_some_iff] at ht
  rcases ht with ht | ⟨-, ht⟩
  · exact hmore t ht
  · exact h t ht

theorem whole_append_of_ne_nil (used : List Token) {more : List Token} (hne : more ≠ []) (h : Whole more) :
    Whole (used ++ more) := by
  intro t ht
  rw [List.getLast?_append, Option.or_eq_some_iff] at ht
  rcases ht with ht | ⟨hnone, -⟩
  · exact h t ht
  · exact absurd (List.getLast?_eq_none_iff.mp hnone) hne

theorem whole_singleton {l : Lexeme} (h : l ≠ .opening .round) (line : Nat) : Whole [⟨l, line⟩] := by
  intro t ht
  cases ht
  exact h

theorem Whole.cons {l : Lexeme} {used : List Token} (hl : l ≠ .opening .round) (line : Nat)
    (h : Whole used) : Whole (⟨l, line⟩ :: used) :=
  (whole_singleton hl line).append h

/-- Behind the same tokens what follows may be exchanged as before: the only one of them behind which two
tokens of `rest` could count would be an opening parenthesis at their end. -/
theorem Follows.through {used mid rest other : List Token} (hmid : mid = used ++ rest) (hused : Whole used)
    (h : Follows rest other) : Follows mid (used ++ other) := by
  rw [hmid]
  match used with
  | [] => exact h
  | [⟨l, line⟩] => exact follows_cons (hused ⟨l, line⟩ rfl) line rest other
  | ⟨l, line⟩ :: ⟨l', line'⟩ :: used => exact ⟨fun _ hs => hs, fun hpair => hpair⟩

/-! ### Replaying -/

/-- A result that its reader comes to again from the tokens it has taken, if the tokens behind them are
exchanged as `may` allows. -/
def Replays {α : Type} (may : List Token → List Token → Prop)
    (read : Nat → (ts : List Token) → Except ParseError (Parsed α ts)) {ts : List Token}
    (r : Parsed α ts) : Prop :=
  ∃ used, ts = used ++ r.rest ∧ Whole used ∧
    ∀ eof other, may r.rest other → Gives (read eof (used ++ other)) r.value other

/-- A reader that hands on to another one replays as that one does. -/
theorem Replays.imp {α : Type} {may may' : List Token → List Token → Prop}
    {read read' : Nat → (ts : List Token) → Except ParseError (Parsed α ts)} {ts : List Token} {r : Parsed α ts}
    (h : Replays may read r) (hmay : ∀ other, may' r.rest other → may r.rest other)
    (hread : ∀ used eof other, ts = used ++ r.rest → Gives (read eof (used ++ other)) r.value other →
      Gives (read' eof (used ++ other)) r.value other) : Replays may' read' r := by
  obtain ⟨used, hts, hwhole, hagain⟩ := h
  refine ⟨used, hts, hwhole, ?_⟩
  intro eof other hother
  exact hread used eof other hts (hagain eof other (hmay other hother))

/-- The same for a reader that may take no token. -/
def Repasses {α : Type} (may : List Token → List Token → Prop)
    (read : Nat → (ts : List Token) → Except ParseError (Passed α ts)) {ts : List Token}
    (r : Passed α ts) : Prop :=
  ∃ used, ts = used ++ r.rest ∧ Whole used ∧
    ∀ eof other, may r.rest other → Leaves (read eof (used ++ other)) r.value other

/-- Any tokens may stand behind. -/
abbrev Whatever (_rest _other : List Token) : Prop :=
  True

theorem append_trans {ts used mid more rest : List Token} (hts : ts = used ++ mid) (hmid : mid = more ++ rest) :
    ts = used ++ more ++ rest := by
  rw [hts, hmid, List.append_assoc]

theorem cons_trans {ts tail used rest : List Token} {t : Token} (hts : ts = t :: tail)
    (htail : tail = used ++ rest) : ts = t :: used ++ rest := by
  rw [hts, htail, List.cons_append]

/-- Two readers one after the other. What may follow the second one may follow the first one behind the tokens
that the second one takes. -/
theorem Replays.andThen {α β : Type} {read : Nat → (ts : List Token) → Except ParseError (Parsed α ts)}
    {read' : Nat → (ts : List Token) → Except ParseError (Passed β ts)} {ts : List Token} {r : Parsed α ts}
    {r' : Passed β r.rest} (h : Replays Follows read r) (h' : Repasses Follows read' r') :
    ∃ used, ts = used ++ r'.rest ∧ Whole used ∧ ∀ eof other, Follows r'.rest other →
      ∃ mid, Gives (read eof (used ++ other)) r.value mid ∧ Leaves (read' eof mid) r'.value other := by
  obtain ⟨used, hts, hwhole, hread⟩ := h
  obtain ⟨used', hmid, hwhole', hread'⟩ := h'
  refine ⟨used ++ used', append_trans hts hmid, hwhole.append hwhole', ?_⟩
  intro eof other hother
  rw [List.append_assoc]
  exact ⟨used' ++ other, hread eof _ (hother.through hmid hwhole'), hread' eof other hother⟩

/-- Whether the first token is accepted does not depend on what stands behind the tokens that were taken. -/
theorem isSome_take_again {α : Type} (p : Lexeme → Option α) {ts used rest : List Token}
    (hts : ts = used ++ rest) (lt : rest.length < ts.length) (other : List Token) :
    (take p (used ++ other)).isSome = (take p ts).isSome := by
  subst hts
  cases used with
  | nil => exact absurd lt (Nat.lt_irrefl _)
  | cons t used => simp [take]

theorem take_again {α : Type} {p : Lexeme → Option α} {ts used rest : List Token} (hts : ts = used ++ rest)
    (lt : rest.length < ts.length) (h : take p ts = none) (other : List Token) :
    take p (used ++ other) = none := by
  have hsome := isSome_take_again p hts lt other
  rw [h] at hsome
  exact Option.not_isSome_iff_eq_none.mp (by simp [hsome])

theorem expect_returns {α : Type} (eof : Nat) (p : Lexeme → Option α) (fault : Option Lexeme → ParseFault)
    (ts : List Token) : Returns (fun r => take p ts = some r) (expect eof p fault ts) := by
  rw [expect]
  split
  · rename_i r htake
    exact .ok htake
  · exact .error _

theorem ne_opening_of_symbol {α : Type} {f : Symbol → Option α} {l : Lexeme} {a : α}
    (h : symbol? f l = some a) : l ≠ .opening .round := by
  rintro rfl
  cases h

theorem closing_of_closes {b : Bracket} {l : Lexeme} {a : Unit} (h : closes b l = some a) :
    l = .closing b := by
  cases l with
  | closing b' => simpa [closes] using h
  | _ => cases h

theorem opening_of_opens {b : Bracket} {l : Lexeme} {a : Unit} (h : opens b l = some a) :
    l = .opening b := by
  cases l with
  | opening b' => simpa [opens] using h
  | _ => cases h

/-- No parenthesis opens in front of tokens that do not start with one. -/
theorem take_opens_append {ts more : List Token} (h : ∀ line tail, ts ≠ ⟨.opening .round, line⟩ :: tail)
    (hmore : take (opens .round) more = none) : take (opens .round) (ts ++ more) = none := by
  match ts with
  | [] => exact hmore
  | ⟨l, line⟩ :: tail =>
      refine take_cons_of_none ?_ line _
      cases l with
      | opening b =>
          cases b with
          | round => exact absurd rfl (h line tail)
          | _ => rfl
      | _ => rfl

theorem comma_of_comma {l : Lexeme} {a : Unit} (h : comma? l = some a) : l = .comma := by
  cases l with
  | comma => rfl
  | _ => cases h

theorem semicolon_of_semicolon {l : Lexeme} {a : Unit} (h : semicolon? l = some a) : l = .semicolon := by
  cases l with
  | semicolon => rfl
  | _ => cases h

/-- A built-in without arguments takes nothing, unless an empty pair of parentheses follows. -/
theorem arguments_nil {eof : Nat} {name : String} {ts : List Token} (h : opensPair ts = false) :
    Leaves (arguments eof name [] ts) () ts := by
  cases htake : take (opens .round) ts with
  | none =>
      rw [arguments, htake]
      exact ⟨_, rfl⟩
  | some opened =>
      obtain ⟨⟨_, line⟩, tail, lt⟩ := opened
      obtain ⟨l, rfl, hl⟩ := eq_cons_of_take htake
      -- A parenthesis that is not closed at once belongs to what follows the built-in.
      have hclose : take (closes .round) tail = none := by
        cases tail with
        | nil => rfl
        | cons u tail => simpa [opensPair, hl, take] using h
      rw [arguments, htake]
      dsimp only
      rw [hclose]
      exact ⟨_, rfl⟩

theorem eq_of_opensPair {ts : List Token} (h : opensPair ts = true) :
    ∃ line line' rest, ts = ⟨.opening .round, line⟩ :: ⟨.closing .round, line'⟩ :: rest := by
  match ts with
  | [] => cases h
  | [t] => cases h
  | ⟨l, line⟩ :: ⟨l', line'⟩ :: rest =>
      simp only [opensPair, Bool.and_eq_true, Option.isSome_iff_exists] at h
      obtain ⟨⟨_, hl⟩, _, hl'⟩ := h
      rw [opening_of_opens hl, closing_of_closes hl']
      exact ⟨line, line', rest, rfl⟩

/-! ### The readers

One theorem for each reader, with the cases and the measure of the reader. What it takes is what the readers take
that it calls, with the tokens between them, and it comes to its result again by the rule for its case.
-/

mutual

theorem expression_replays (eof : Nat) (ts : List Token) :
    Returns (Replays Follows expression) (expression eof ts) := by
  rw [expression]
  refine (binary_replays eof 0 ts).bind ?_
  rintro ⟨target, mid, lt⟩ ⟨used, hts, hwhole, hread⟩
  dsimp only at hts hread ⊢
  split
  · rename_i htake
    refine .pure ⟨used, hts, hwhole, ?_⟩
    intro eof' other hother
    exact expression_of_end (hread eof' other hother) (hother.take htake)
  · rename_i op line tail lt' htake
    obtain ⟨l, hmid, hl⟩ := eq_cons_of_take htake
    have hne : l ≠ .opening .round := ne_opening_of_symbol hl
    -- The same symbol follows the target again, whatever stands behind the value.
    refine (expression_replays eof tail).bind ?_
    rintro ⟨value, rest, lt''⟩ ⟨used', htail, hwhole', hread'⟩
    refine .pure ⟨used ++ ⟨l, line⟩ :: used', append_trans hts (cons_trans hmid htail),
      hwhole.append (hwhole'.cons hne line), ?_⟩
    intro eof' other hother
    rw [List.append_assoc, List.cons_append]
    have hleft := hread eof' (⟨l, line⟩ :: (used' ++ other)) (hmid ▸ follows_cons hne line _ _)
    exact expression_of_assignment hleft hl (hread' eof' other hother)
termination_by 16 * ts.length + 10

theorem binary_replays (eof level : Nat) (ts : List Token) :
    Returns (Replays Follows fun eof => binary eof level) (binary eof level ts) := by
  rw [binary]
  split
  · rename_i hlevel
    refine (binary_replays eof (level + 1) ts).bind ?_
    rintro ⟨left, mid, lt⟩ hleft
    refine (binaryTail_replays eof level left mid).bind ?_
    rintro ⟨m, rest, le⟩ htail
    -- Both readers are tried again on the other tokens: the first one up to where the second one starts.
    obtain ⟨used, hts, hwhole, hread⟩ := hleft.andThen htail
    refine .pure ⟨used, hts, hwhole, ?_⟩
    intro eof' other hother
    obtain ⟨mid', hleft', htail'⟩ := hread eof' other hother
    exact binary_of_tail hlevel hleft' htail'
  · rename_i hlevel
    refine (unary_replays eof ts).imp fun r h => h.imp (fun _ hother => hother) ?_
    intro used eof' other _ hread
    rw [binary, if_neg hlevel]
    exact hread
termination_by 16 * ts.length + 3 + (6 - level)

theorem binaryTail_replays (eof level : Nat) (left : Node) (ts : List Token) :
    Returns (Repasses Follows fun eof => binaryTail eof level left) (binaryTail eof level left ts) := by
  rw [binaryTail]
  split
  · rename_i htake
    -- Nothing was taken; the token that stopped the loop may be another, but it must not be of this level.
    refine .pure ⟨[], rfl, whole_nil, ?_⟩
    intro eof' other hother
    exact binaryTail_of_end (hother.take htake)
  · rename_i c line tail lt htake
    obtain ⟨l, hts, hl⟩ := eq_cons_of_take htake
    refine (binary_replays eof (level + 1) tail).bind ?_
    rintro ⟨right, mid, lt'⟩ hright
    refine (binaryTail_replays eof level (.mk line (c.form left right)) mid).bind ?_
    rintro ⟨m, rest, le⟩ hmore
    obtain ⟨used, htail, hwhole, hread⟩ := hright.andThen hmore
    refine .pure ⟨⟨l, line⟩ :: used, cons_trans hts htail, hwhole.cons (ne_opening_of_symbol hl) line, ?_⟩
    intro eof' other hother
    obtain ⟨mid', hright', hmore'⟩ := hread eof' other hother
    exact binaryTail_of_connective hl hright' hmore'
termination_by 16 * ts.length

theorem unary_replays (eof : Nat) (ts : List Token) : Returns (Replays Follows unary) (unary eof ts) := by
  rw [unary]
  split
  · rename_i htake
    refine (suffixed_replays eof ts).imp fun r h => h.imp (fun _ hother => hother) ?_
    intro used eof' other hts hread
    exact unary_of_suffixed (take_again hts r.lt htake other) hread
  · rename_i op line tail lt htake
    obtain ⟨l, hts, hl⟩ := eq_cons_of_take htake
    refine (unary_replays eof tail).bind ?_
    rintro ⟨operand, rest, lt'⟩ ⟨used, htail, hwhole, hread⟩
    refine .pure ⟨⟨l, line⟩ :: used, cons_trans hts htail, hwhole.cons (ne_opening_of_symbol hl) line, ?_⟩
    intro eof' other hother
    exact unary_of_operator hl (hread eof' other hother)
termination_by 16 * ts.length + 2

theorem suffixed_replays (eof : Nat) (ts : List Token) :
    Returns (Replays Follows suffixed) (suffixed eof ts) := by
  rw [suffixed]
  refine (primary_replays eof ts).bind ?_
  rintro ⟨left, mid, lt⟩ hleft
  refine (suffixTail_replays eof left mid).bind ?_
  rintro ⟨m, rest, le⟩ htail
  obtain ⟨used, hts, hwhole, hread⟩ := hleft.andThen htail
  refine .pure ⟨used, hts, hwhole, ?_⟩
  intro eof' other hother
  obtain ⟨mid', hleft', htail'⟩ := hread eof' other hother
  exact suffixed_of_primary hleft' htail'
termination_by 16 * ts.length + 1

theorem suffixTail_replays (eof : Nat) (left : Node) (ts : List Token) :
    Returns (Repasses Follows fun eof => suffixTail eof left) (suffixTail eof left ts) := by
  rw [suffixTail]
  -- No suffix, an index, or a call; what stands behind the suffix goes on from the node that it makes.
  split
  · rename_i htake
    refine .pure ⟨[], rfl, whole_nil, ?_⟩
    intro eof' other hother
    exact suffixTail_of_end (hother.take htake)
  · rename_i line tail lt htake
    obtain ⟨l, hts, hl⟩ := eq_cons_of_take htake
    refine (indexKey_replays eof tail).bind ?_
    rintro ⟨key, mid, lt'⟩ hkey
    refine (suffixTail_replays eof (.mk line (.op .index [left, key])) mid).bind ?_
    rintro ⟨m, rest, le⟩ hmore
    obtain ⟨used, htail, hwhole, hread⟩ := hkey.andThen hmore
    refine .pure ⟨⟨l, line⟩ :: used, cons_trans hts htail, hwhole.cons (ne_opening_of_symbol hl) line, ?_⟩
    intro eof' other hother
    obtain ⟨mid', hkey', hmore'⟩ := hread eof' other hother
    exact suffixTail_of_index hl hkey' hmore'
  · rename_i line tail lt htake
    obtain ⟨l, hts, hl⟩ := eq_cons_of_take htake
    refine (primary_replays eof tail).bind ?_
    rintro ⟨args, mid, lt'⟩ hargs
    refine (suffixTail_replays eof (.mk line (.call left args)) mid).bind ?_
    rintro ⟨m, rest, le⟩ hmore
    obtain ⟨used, htail, hwhole, hread⟩ := hargs.andThen hmore
    refine .pure ⟨⟨l, line⟩ :: used, cons_trans hts htail, hwhole.cons (ne_opening_of_symbol hl) line, ?_⟩
    intro eof' other hother
    obtain ⟨mid', hargs', hmore'⟩ := hread eof' other hother
    exact suffixTail_of_call hl hargs' hmore'
termination_by 16 * ts.length

theorem indexKey_replays (eof : Nat) (ts : List Token) :
    Returns (Replays Follows indexKey) (indexKey eof ts) := by
  rw [indexKey]
  split
  · rename_i htake
    refine (primary_replays eof ts).imp fun r h => h.imp (fun _ hother => hother) ?_
    intro used eof' other hts hread
    exact indexKey_of_primary (take_again hts r.lt htake other) hread
  · rename_i front htake
    refine (unary_replays eof ts).imp fun r h => h.imp (fun _ hother => hother) ?_
    intro used eof' other hts hread
    -- Whether a sign stands in front is the same for all that starts with these tokens.
    have hsome := isSome_take_again (symbol? Symbol.unaryOp?) hts r.lt other
    rw [htake] at hsome
    obtain ⟨front', htake'⟩ := Option.isSome_iff_exists.mp hsome
    rw [indexKey, htake']
    exact hread
termination_by 16 * ts.length + 3

theorem primary_replays (eof : Nat) (ts : List Token) :
    Returns (Replays Follows primary) (primary eof ts) := by
  match ts with
  | [] =>
      rw [primary]
      exact .error _
  | ⟨l, line⟩ :: tail =>
      -- An operand by itself takes one token, whatever follows. Of the others the first token decides the
      -- reader.
      cases hatom : atom? l with
      | some form =>
          obtain ⟨lt, hread⟩ := primary_of_atom hatom eof line tail
          have hne : l ≠ .opening .round := by
            rintro rfl
            cases hatom
          rw [hread]
          refine .ok ⟨[⟨l, line⟩], rfl, whole_singleton hne line, ?_⟩
          intro eof' other _
          exact primary_of_atom hatom eof' line other
      | none =>
          rw [primary, take_cons (p := some) rfl]
          cases l with
          | word w =>
              refine (word_replays eof w tail).bind ?_
              rintro ⟨form, rest, le⟩ ⟨used, htail, hwhole, hread⟩
              refine .pure ⟨⟨.word w, line⟩ :: used, cons_trans rfl htail, hwhole.cons (by simp) line, ?_⟩
              intro eof' other hother
              exact primary_of_word (hread eof' other hother)
          | opening b =>
              cases b with
              | round =>
                  refine (expression_replays eof tail).bind ?_
                  -- The expression ends in front of its parenthesis, which no expression goes on from.
                  rintro ⟨m, mid, lt⟩ ⟨used, htail, hwhole, hread⟩
                  refine (expect_returns eof _ _ mid).bind ?_
                  rintro ⟨⟨_, close⟩, rest, lt'⟩ htake
                  obtain ⟨l, hmid, hl⟩ := eq_cons_of_take htake
                  obtain rfl := closing_of_closes hl
                  refine .pure ⟨⟨.opening .round, line⟩ :: (used ++ [⟨.closing .round, close⟩]),
                    cons_trans rfl (append_trans htail (cons_trans hmid rfl)), ?_, ?_⟩
                  · exact whole_append_of_ne_nil (⟨.opening .round, line⟩ :: used) (by simp)
                      (whole_singleton (by simp) close)
                  · intro eof' other _
                    rw [List.cons_append, List.append_assoc]
                    exact primary_of_round (hread eof' _ (hmid ▸ follows_cons (by simp) close _ _))
              | square =>
                  refine (commaList_replays eof .square tail).bind ?_
                  rintro ⟨items, rest, lt⟩ ⟨used, htail, hwhole, hread⟩
                  refine .pure ⟨⟨.opening .square, line⟩ :: used, cons_trans rfl htail,
                    hwhole.cons (by simp) line, ?_⟩
                  intro eof' other _
                  exact primary_of_square (hread eof' other trivial)
              | curly =>
                  refine (blockBody_replays eof line tail).bind ?_
                  rintro ⟨body, rest, lt⟩ ⟨used, htail, hwhole, hread⟩
                  refine .pure ⟨⟨.opening .curly, line⟩ :: used, cons_trans rfl htail,
                    hwhole.cons (by simp) line, ?_⟩
                  intro eof' other _
                  exact primary_of_curly (hread eof' other trivial)
          | symbol s => exact .error _
          | closing b => exact .error _
          | comma => exact .error _
          | semicolon => exact .error _
          | _ => cases hatom
termination_by 16 * ts.length

theorem word_replays (eof : Nat) (w : String) (ts : List Token) :
    Returns (Repasses Follows fun eof => word eof w) (word eof w ts) := by
  rw [word]
  -- In the order in which the reader asks: a literal, a keyword, a built-in, and else a variable.
  cases hliteral : Literal.ofWord? w with
  | some form =>
      refine .pure ⟨[], rfl, whole_nil, ?_⟩
      intro eof' other _
      exact word_of_literal hliteral
  | none =>
      cases hkeyword : Keyword.ofWord? w with
      | some k =>
          refine (arguments_replays eof w k.shapes ts).bind ?_
          rintro ⟨args, rest, le⟩ ⟨used, hts, hwhole, hread⟩
          refine .pure ⟨used, hts, hwhole, ?_⟩
          intro eof' other hother
          exact word_of_keyword hliteral hkeyword (hread eof' other hother)
      | none =>
          cases hop : Op.builtin? w with
          | some op =>
              refine (arguments_replays eof w (List.replicate op.arity .value) ts).bind ?_
              rintro ⟨args, rest, le⟩ ⟨used, hts, hwhole, hread⟩
              refine .pure ⟨used, hts, hwhole, ?_⟩
              intro eof' other hother
              exact word_of_builtin hliteral hkeyword hop (hread eof' other hother)
          | none =>
              refine .pure ⟨[], rfl, whole_nil, ?_⟩
              intro eof' other _
              exact word_of_name hliteral hkeyword hop
termination_by 16 * ts.length + 14

theorem arguments_replays (eof : Nat) (name : String) (shapes : List Shape) (ts : List Token) :
    Returns (Repasses Follows fun eof => arguments eof name shapes) (arguments eof name shapes ts) := by
  cases shapes with
  | nil =>
      -- The one place where two tokens count behind a result: what does not start with an empty pair is not
      -- exchanged for what does.
      cases hpair : opensPair ts with
      | false =>
          obtain ⟨le, hread⟩ := arguments_nil hpair
          rw [hread]
          refine .ok ⟨[], rfl, whole_nil, ?_⟩
          intro eof' other hother
          refine arguments_nil ?_
          exact Bool.eq_false_iff.mpr fun h => by simp [hother.pair h] at hpair
      | true =>
          obtain ⟨line, line', rest, rfl⟩ := eq_of_opensPair hpair
          obtain ⟨le, hread⟩ := arguments_of_pair
          rw [hread]
          refine .ok ⟨[⟨.opening .round, line⟩, ⟨.closing .round, line'⟩], rfl, ?_, ?_⟩
          · exact whole_append_of_ne_nil [⟨.opening .round, line⟩] (by simp) (whole_singleton (by simp) line')
          · intro eof' other _
            exact arguments_of_pair
  | cons s shapes =>
      cases htake : take (opens .round) ts with
      | none =>
          rw [arguments, htake]
          refine (juxtaposed_replays eof (s :: shapes) ts).imp ?_
          rintro ⟨args, rest, le⟩ ⟨⟨used, hts, hwhole, hread⟩, hlt⟩
          refine ⟨used, hts, hwhole, ?_⟩
          intro eof' other hother
          -- The first token is one of those that were taken, since there is an argument.
          have hnone := take_again hts (hlt nofun) htake other
          exact arguments_of_juxtaposed hnone (hread eof' other hother)
      | some opened =>
          obtain ⟨⟨_, line⟩, tail, lt⟩ := opened
          obtain ⟨l, hts, hl⟩ := eq_cons_of_take htake
          obtain rfl := opening_of_opens hl
          rw [arguments, htake]
          refine (commaList_replays eof .round tail).bind ?_
          rintro ⟨nodes, mid, lt'⟩ ⟨used, htail, hwhole, hread⟩
          -- The opening parenthesis is not the last token that was taken: the closing one is among them too.
          have hsome : used ≠ [] := by
            rintro rfl
            rw [htail] at lt'
            exact absurd lt' (Nat.lt_irrefl _)
          have hfirst : Whole (⟨.opening .round, line⟩ :: used) :=
            whole_append_of_ne_nil [⟨.opening .round, line⟩] hsome hwhole
          dsimp only at htail hread ⊢
          split
          · rename_i hlen
            refine Returns.bind (p := fun args => convertAll (s :: shapes) nodes hlen = .ok args)
              (fun _ h => h) ?_
            intro args hargs
            refine .pure ⟨⟨.opening .round, line⟩ :: used, cons_trans hts htail, hfirst, ?_⟩
            intro eof' other _
            exact arguments_of_commaList (hread eof' other trivial) hlen hargs
          · rename_i hlen
            split
            · rename_i m
              refine Returns.bind (p := fun arg => convert m s = .ok arg) (fun _ h => h) ?_
              intro arg harg
              refine (juxtaposed_replays eof shapes mid).bind ?_
              rintro ⟨args, rest, le⟩ ⟨⟨used', hmid, hwhole', hread'⟩, -⟩
              refine .pure ⟨⟨.opening .round, line⟩ :: used ++ used',
                append_trans (cons_trans hts htail) hmid, hfirst.append hwhole', ?_⟩
              intro eof' other hother
              rw [List.append_assoc]
              exact arguments_of_first (hread eof' _ trivial) hlen harg (hread' eof' other hother)
            · exact .error _
termination_by 16 * ts.length + 13

theorem juxtaposed_replays (eof : Nat) (shapes : List Shape) (ts : List Token) :
    Returns (fun r => Repasses Follows (fun eof => juxtaposed eof shapes) r ∧
      (shapes ≠ [] → r.rest.length < ts.length)) (juxtaposed eof shapes ts) := by
  cases shapes with
  | nil =>
      rw [juxtaposed]
      refine .ok ⟨⟨[], rfl, whole_nil, ?_⟩, fun h => absurd rfl h⟩
      intro eof' other _
      exact juxtaposed_nil
  | cons s shapes =>
      rw [juxtaposed]
      refine (argument_replays eof s (shapes.contains .value) ts).bind ?_
      rintro ⟨arg, mid, lt⟩ hfirst
      refine (juxtaposed_replays eof shapes mid).bind ?_
      rintro ⟨args, rest, le⟩ ⟨hothers, -⟩
      -- With a shape to be read, at least the tokens of one argument are taken.
      obtain ⟨used, hts, hwhole, hread⟩ := hfirst.andThen hothers
      refine .pure ⟨⟨used, hts, hwhole, ?_⟩, fun _ => Nat.lt_of_le_of_lt le lt⟩
      intro eof' other hother
      obtain ⟨mid', hfirst', hothers'⟩ := hread eof' other hother
      exact juxtaposed_of_argument hfirst' hothers'
termination_by 16 * ts.length + 12

theorem argument_replays (eof : Nat) (s : Shape) (more : Bool) (ts : List Token) :
    Returns (Replays Follows fun eof => argument eof s more) (argument eof s more ts) := by
  cases s with
  | value =>
      -- An argument that others follow is read without operators between operands.
      cases more with
      | true =>
          rw [argument]
          refine (unary_replays eof ts).imp fun r h => h.imp (fun _ hother => hother) ?_
          intro used eof' other _ hread
          rw [argument]
          exact hread
      | false =>
          rw [argument]
          refine (expression_replays eof ts).imp fun r h => h.imp (fun _ hother => hother) ?_
          intro used eof' other _ hread
          rw [argument]
          exact hread
  | block =>
      rw [argument]
      refine (block_replays eof ts).imp fun r h => h.imp (fun _ _ => trivial) ?_
      intro used eof' other _ hread
      rw [argument]
      exact hread
  -- A parameter is read as an operand and then converted, which does not depend on what follows.
  | param =>
      rw [argument]
      refine (primary_replays eof ts).bind ?_
      rintro ⟨m, rest, lt⟩ ⟨used, hts, hwhole, hread⟩
      refine Returns.bind (p := fun name => convert m .param = .ok name) (fun _ h => h) ?_
      intro name hname
      refine .pure ⟨used, hts, hwhole, ?_⟩
      intro eof' other hother
      obtain ⟨lt', hm⟩ := hread eof' other hother
      show Gives (argument eof' .param more (used ++ other)) name other
      rw [argument, hm, ok_bind]
      dsimp only
      rw [hname, ok_bind]
      exact ⟨_, rfl⟩
  | params =>
      rw [argument]
      refine (primary_replays eof ts).bind ?_
      rintro ⟨m, rest, lt⟩ ⟨used, hts, hwhole, hread⟩
      refine Returns.bind (p := fun names => convert m .params = .ok names) (fun _ h => h) ?_
      intro names hnames
      refine .pure ⟨used, hts, hwhole, ?_⟩
      intro eof' other hother
      obtain ⟨lt', hm⟩ := hread eof' other hother
      show Gives (argument eof' .params more (used ++ other)) names other
      rw [argument, hm, ok_bind]
      dsimp only
      rw [hnames, ok_bind]
      exact ⟨_, rfl⟩
termination_by 16 * ts.length + 11

theorem commaList_replays (eof : Nat) (b : Bracket) (ts : List Token) :
    Returns (Replays Whatever fun eof => commaList eof b) (commaList eof b ts) := by
  rw [commaList]
  split
  · rename_i v rest lt htake
    obtain ⟨_, line⟩ := v
    obtain ⟨l, hts, hl⟩ := eq_cons_of_take htake
    obtain rfl := closing_of_closes hl
    refine .ok ⟨[⟨.closing b, line⟩], hts, whole_singleton (by simp) line, ?_⟩
    intro eof' other _
    exact commaList_of_close
  · refine (commaItems_replays eof b ts).imp fun r h => h.imp (fun _ hother => hother) ?_
    intro used eof' other _ hread
    exact commaList_of_items hread
termination_by 16 * ts.length + 12

theorem commaItems_replays (eof : Nat) (b : Bracket) (ts : List Token) :
    Returns (Replays Whatever fun eof => commaItems eof b) (commaItems eof b ts) := by
  rw [commaItems]
  refine (expression_replays eof ts).bind ?_
  rintro ⟨item, mid, lt⟩ ⟨used, hts, hwhole, hread⟩
  dsimp only at hts hread ⊢
  -- A comma, and the items behind it; or the closing bracket.
  split
  · rename_i v tail lt' htake
    obtain ⟨_, line⟩ := v
    obtain ⟨l, hmid, hl⟩ := eq_cons_of_take htake
    obtain rfl := comma_of_comma hl
    refine (commaItems_replays eof b tail).bind ?_
    rintro ⟨items, rest, lt''⟩ ⟨used', htail, hwhole', hread'⟩
    refine .pure ⟨used ++ ⟨.comma, line⟩ :: used', append_trans hts (cons_trans hmid htail),
      hwhole.append (hwhole'.cons (by simp) line), ?_⟩
    intro eof' other _
    rw [List.append_assoc, List.cons_append]
    have hitem := hread eof' (⟨.comma, line⟩ :: (used' ++ other)) (hmid ▸ follows_cons (by simp) line _ _)
    exact commaItems_of_comma hitem (hread' eof' other trivial)
  · refine (expect_returns eof _ _ mid).bind ?_
    rintro ⟨⟨_, line⟩, rest, lt'⟩ htake
    obtain ⟨l, hmid, hl⟩ := eq_cons_of_take htake
    obtain rfl := closing_of_closes hl
    refine .pure ⟨used ++ [⟨.closing b, line⟩], append_trans hts (cons_trans hmid rfl),
      hwhole.append (whole_singleton (by simp) line), ?_⟩
    intro eof' other _
    rw [List.append_assoc]
    exact commaItems_of_close (hread eof' _ (hmid ▸ follows_cons (by simp) line _ _))
termination_by 16 * ts.length + 11

theorem block_replays (eof : Nat) (ts : List Token) :
    Returns (Replays Whatever Parser.block) (Parser.block eof ts) := by
  rw [Parser.block]
  refine (expect_returns eof _ _ ts).bind ?_
  rintro ⟨⟨_, line⟩, tail, lt⟩ htake
  obtain ⟨l, hts, hl⟩ := eq_cons_of_take htake
  obtain rfl := opening_of_opens hl
  refine (blockBody_replays eof line tail).bind ?_
  rintro ⟨body, rest, lt'⟩ ⟨used, htail, hwhole, hread⟩
  refine .pure ⟨⟨.opening .curly, line⟩ :: used, cons_trans hts htail, hwhole.cons (by simp) line, ?_⟩
  intro eof' other _
  exact block_of_curly (hread eof' other trivial)
termination_by 16 * ts.length

theorem blockBody_replays (eof line : Nat) (ts : List Token) :
    Returns (Replays Whatever fun eof => blockBody eof line) (blockBody eof line ts) := by
  rw [blockBody]
  refine (statements_replays eof ts).bind ?_
  rintro ⟨nodes, mid, le⟩ ⟨used, hts, hwhole, hread⟩
  refine (expect_returns eof _ _ mid).bind ?_
  rintro ⟨⟨_, close⟩, rest, lt'⟩ htake
  obtain ⟨l, hmid, hl⟩ := eq_cons_of_take htake
  obtain rfl := closing_of_closes hl
  refine .pure ⟨used ++ [⟨.closing .curly, close⟩], append_trans hts (cons_trans hmid rfl),
    hwhole.append (whole_singleton (by simp) close), ?_⟩
  intro eof' other _
  rw [List.append_assoc]
  exact blockBody_of_statements (hread eof' _ rfl)
termination_by 16 * ts.length + 12

theorem statements_replays (eof : Nat) (ts : List Token) :
    Returns (Repasses (fun _ other => closesBlock other = true) statements) (statements eof ts) := by
  rw [statements]
  -- The end of the block, or a statement with its semicolon and those behind it.
  split
  · refine .pure ⟨[], rfl, whole_nil, ?_⟩
    intro eof' other hother
    exact statements_of_end hother
  · split
    · exact .error _
    · refine (expression_replays eof ts).bind ?_
      rintro ⟨m, mid, lt⟩ ⟨used, hts, hwhole, hread⟩
      dsimp only at hts hread ⊢
      split
      · exact .error _
      · rename_i v tail lt' htake
        obtain ⟨_, line⟩ := v
        obtain ⟨l, hmid, hl⟩ := eq_cons_of_take htake
        obtain rfl := semicolon_of_semicolon hl
        refine (statements_replays eof tail).bind ?_
        rintro ⟨nodes, rest, le⟩ ⟨used', htail, hwhole', hread'⟩
        refine .pure ⟨used ++ ⟨.semicolon, line⟩ :: used', append_trans hts (cons_trans hmid htail),
          hwhole.append (hwhole'.cons (by simp) line), ?_⟩
        intro eof' other hother
        rw [List.append_assoc, List.cons_append]
        have hstatement := hread eof' (⟨.semicolon, line⟩ :: (used' ++ other))
          (hmid ▸ follows_cons (by simp) line _ _)
        exact statements_of_expression hstatement (hread' eof' other hother)
termination_by 16 * ts.length + 11

end

theorem blockBody_line (eof line : Nat) (ts : List Token) :
    Returns (fun r => r.value.line = line) (blockBody eof line ts) := by
  rw [blockBody]
  refine Returns.bind (p := fun _ => True) (fun _ _ => trivial) ?_
  intro nodes _
  refine Returns.bind (p := fun _ => True) (fun _ _ => trivial) ?_
  intro close _
  exact .pure rfl

/-- A block opens with a brace on its line. -/
theorem block_opens (eof : Nat) (ts : List Token) :
    Returns (fun r => ∃ tail, ts = ⟨.opening .curly, r.value.line⟩ :: tail ∧
      Gives (blockBody eof r.value.line tail) r.value r.rest) (Parser.block eof ts) := by
  rw [Parser.block]
  refine (expect_returns eof _ _ ts).bind ?_
  rintro ⟨⟨_, line⟩, tail, lt⟩ htake
  obtain ⟨l, hts, hl⟩ := eq_cons_of_take htake
  obtain rfl := opening_of_opens hl
  refine Returns.bind (p := fun r => blockBody eof line tail = .ok r) (fun _ h => h) ?_
  rintro ⟨body, rest, lt'⟩ hbody
  obtain rfl : body.line = line := blockBody_line eof line tail _ hbody
  exact .pure ⟨tail, hts, lt', hbody⟩

/-- A block stands as an operand as well. -/
theorem primary_of_block {eof : Nat} {ts rest : List Token} {body : Block}
    (h : Gives (Parser.block eof ts) body rest) :
    Gives (primary eof ts) (.mk body.line (.block body)) rest := by
  obtain ⟨lt, h⟩ := h
  obtain ⟨tail, hts, hbody⟩ := block_opens eof ts _ h
  dsimp only at hts hbody
  subst hts
  exact primary_of_curly hbody

theorem Gives.unique {α : Type} {ts : List Token} {r : Except ParseError (Parsed α ts)} {a b : α}
    {rest rest' : List Token} (h : Gives r a rest) (h' : Gives r b rest') : a = b := by
  obtain ⟨lt, h⟩ := h
  obtain ⟨lt', h'⟩ := h'
  rw [h] at h'
  cases h'
  rfl

/-- What a reader has taken once it takes again. -/
theorem Gives.again {α : Type} {may : List Token → List Token → Prop}
    {read : Nat → (ts : List Token) → Except ParseError (Parsed α ts)}
    (hreplays : ∀ eof ts, Returns (Replays may read) (read eof ts)) {eof : Nat} {used rest other : List Token}
    {a : α} (h : Gives (read eof (used ++ rest)) a rest) (hother : may rest other) (eof' : Nat) :
    Gives (read eof' (used ++ other)) a other := by
  obtain ⟨lt, h⟩ := h
  obtain ⟨used', hused, -, hread⟩ := hreplays eof (used ++ rest) _ h
  obtain rfl : used = used' := List.append_cancel_right hused
  exact hread eof' other hother

end Parser

/-- An expression with a semicolon behind it is a script of one statement. -/
theorem Block.ofTokens_of_expression {eof line : Nat} {ts : List Token} {m : Node}
    (h : Parser.Gives (Parser.expression eof (ts ++ [⟨.semicolon, line⟩])) m [⟨.semicolon, line⟩]) :
    Block.ofTokens (ts ++ [⟨.semicolon, line⟩]) = .ok (.mk 0 [m]) := by
  have hread : Parser.Gives (Parser.expression (lastLine (ts ++ [⟨.semicolon, line⟩]))
      (ts ++ [⟨.semicolon, line⟩])) m [⟨.semicolon, line⟩] :=
    h.again Parser.expression_replays (Parser.follows_cons (by simp) line [] []) _
  obtain ⟨le, hstatements⟩ := Parser.statements_of_expression hread (Parser.statements_of_end rfl)
  rw [Block.ofTokens, hstatements]
  rfl

end Stepwise
