import Stepwise.Proofs.Bisimilarity
import Stepwise.Proofs.Rendering

/-!
# `Stepwise.Proofs.Relabelling`: what identity numbers change

Comparing and writing values know a container by its identity number. Numbers come from generators, and
two generators give the same ones, so a heap that several of them have made may have one number on two
containers. `Heap.relabel` gives the same handles other numbers, and this module says what that changes.

The answer is the pattern in which numbers are shared, and nothing else about them:
`equal_and_display_up_to_sharing`. If nothing is shared among the containers of the one value, and nothing
among those of the other, they are compared by their contents, although the one may share numbers with
the other. If no container has the number of another one inside of it, a value is written with its text.
Where numbers are shared otherwise, both go wrong: `relabelled_differs`.

Both proofs run the loop before and after the change next to each other. `equalAll_relabel` does so for
the worklist of pairs. `textOf_relabel` goes by recursion on the text that is written for a value under
some open identities; `render_textOf` says that there is such a text, whatever the numbers are.
-/

set_option autoImplicit false

namespace Stepwise

/-! ### Other numbers on the same handles -/

/-- A value with other numbers: those of functions and references are part of the value, that of a
container is in memory. -/
def Value.relabel (label : Value → Nat) : Value → Value
  | .function f => .function { f with id := label (.function f) }
  | .reference r => .reference { r with id := label (.reference r) }
  | v => v

/-- Fields with other numbers. -/
def Fields.relabel (label : Value → Nat) (f : Fields) : Fields :=
  ⟨f.entries.map fun e => (e.1, e.2.relabel label)⟩

/-- Two texts that are the same but for what stands there for functions and references. -/
inductive Renamed (label : Value → Nat) : String → String → Prop
  | text (s : String) : Renamed label s s
  | atom (v : Value) : Renamed label (Heap.atomText v) (Heap.atomText (v.relabel label))
  | append {s s' t t' : String} :
      Renamed label s s' → Renamed label t t' → Renamed label (s ++ t) (s' ++ t')

/-- A text stays the same but for the numbers of functions and references if its parts do. -/
theorem Renamed.intercalate {label : Value → Nat} {α : Type} {text text' : α → String} (separator : String) :
    ∀ {parts : List α}, (∀ x ∈ parts, Renamed label (text x) (text' x)) →
      Renamed label (separator.intercalate (parts.map text)) (separator.intercalate (parts.map text'))
  | [], _ => .text ""
  | [x], hparts => by
    simpa using hparts x List.mem_cons_self
  | x :: y :: parts, hparts => by
    have hrest := Renamed.intercalate separator (fun z hz => hparts z (List.mem_cons_of_mem x hz))
    simp only [List.map_cons, String.intercalate_cons_cons] at hrest ⊢
    exact ((hparts x List.mem_cons_self).append (.text separator)).append hrest

namespace Heap

/-- Memory with other numbers on the same handles. -/
def relabel (h : Heap) (label : Value → Nat) : Heap where
  lists := h.lists.mapIdx fun i cell => ⟨label (.list ⟨i⟩), cell.items.map (Value.relabel label)⟩
  objects := h.objects.mapIdx fun i cell => ⟨label (.object ⟨i⟩), cell.fields.relabel label⟩

/-- What stands somewhere inside of a value, the value itself included. -/
inductive Reaches (h : Heap) (v : Value) : Value → Prop
  | self : Reaches h v v
  | item {r : ListRef} {a : Value} :
      Reaches h v (.list r) → a ∈ (h.items r).toList → Reaches h v a
  | field {r : ObjectRef} {e : String × Value} :
      Reaches h v (.object r) → e ∈ (h.fields r).entries → Reaches h v e.2

/-- No two containers of a value share a number. -/
def Apart (h : Heap) (v : Value) : Prop :=
  ∀ c d id, h.Reaches v c.value → h.Reaches v d.value →
    h.idOf? c = some id → h.idOf? d = some id → c = d

/-- No container of a value has the number of another one inside of it. -/
def Unnested (h : Heap) (v : Value) : Prop :=
  ∀ c d id, h.Reaches v c.value → h.Reaches c.value d.value →
    h.idOf? c = some id → h.idOf? d = some id → c = d

/-- New numbers are shared by a container of a value and those inside of it just as their old ones. -/
def SharesInside (h : Heap) (label : Value → Nat) (v : Value) : Prop :=
  ∀ c d i j, h.Reaches v c.value → h.Reaches c.value d.value →
    h.idOf? c = some i → h.idOf? d = some j → (label c.value = label d.value ↔ i = j)

/-- New numbers are shared by all containers of a value just as their old ones. -/
def SharesAmong (h : Heap) (label : Value → Nat) (v : Value) : Prop :=
  ∀ c d i j, h.Reaches v c.value → h.Reaches v d.value →
    h.idOf? c = some i → h.idOf? d = some j → (label c.value = label d.value ↔ i = j)

/-- New numbers are shared just as the old ones, as far as comparing two values goes: by two containers of
one value, by a function of the one and a function of the other, and by references in the same way. -/
structure SharesAs (h : Heap) (label : Value → Nat) (v w : Value) : Prop where
  left : h.SharesAmong label v
  right : h.SharesAmong label w
  functions : ∀ f g, h.Reaches v (.function f) → h.Reaches w (.function g) →
    (label (.function f) = label (.function g) ↔ f.id = g.id)
  references : ∀ r q, h.Reaches v (.reference r) → h.Reaches w (.reference q) →
    (label (.reference r) = label (.reference q) ↔ r.id = q.id)

variable {h : Heap} {label : Value → Nat} {v w a b : Value} {c : Contents} {opened : List Nat}

/-! ### Reading cells -/

/-- The cell of a list with its new number. -/
theorem list?_relabel (h : Heap) (label : Value → Nat) (r : ListRef) :
    (h.relabel label).list? r =
      (h.list? r).map fun cell => ⟨label (.list r), cell.items.map (Value.relabel label)⟩ := by
  simp [relabel, list?]

/-- The cell of an object with its new number. -/
theorem object?_relabel (h : Heap) (label : Value → Nat) (r : ObjectRef) :
    (h.relabel label).object? r =
      (h.object? r).map fun cell => ⟨label (.object r), cell.fields.relabel label⟩ := by
  simp [relabel, object?]

/-- New numbers on the values of entries leave the commas where they are. -/
theorem separate_relabel (label : Value → Nat) (entries : List (String × Value)) :
    separate (entries.map fun e => (e.1, e.2.relabel label)) =
      (separate entries).map fun e => (e.1, e.2.relabel label) := by
  cases entries <;> simp [separate]

/-- The contents of a container with its new number. -/
theorem contents?_relabel (h : Heap) (label : Value → Nat) (v : Value) :
    (h.relabel label).contents? (v.relabel label) =
      (h.contents? v).map fun c =>
        { c with id := label v, entries := c.entries.map fun e => (e.1, e.2.relabel label) } := by
  cases v with
  | list r =>
      show ((h.relabel label).list? r).map _ = ((h.list? r).map _).map _
      rw [list?_relabel, Option.map_map, Option.map_map]
      congr 1
      funext cell
      simp [← separate_relabel, Function.comp_def]
  | object r =>
      show ((h.relabel label).object? r).map _ = ((h.object? r).map _).map _
      rw [object?_relabel, Option.map_map, Option.map_map]
      congr 1
      funext cell
      simp [← separate_relabel, Function.comp_def, Fields.relabel]
  | _ => rfl

/-! ### What stands inside of a value -/

/-- What stands inside of a part stands inside of the whole. -/
theorem Reaches.trans (hva : h.Reaches v a) (hab : h.Reaches a b) : h.Reaches v b := by
  induction hab with
  | self => exact hva
  | item _ hitem ih => exact ih.item hitem
  | field _ hfield ih => exact ih.field hfield

/-- What is shared as before by all containers of a value is so inside of each of them. -/
theorem SharesAmong.inside (hshares : h.SharesAmong label v) : h.SharesInside label v := by
  intro c d i j hc hd
  exact hshares c d i j hc (hc.trans hd)

/-- Where no number is shared at all, none is shared with a container inside. -/
theorem Apart.unnested (hv : h.Apart v) : h.Unnested v := by
  intro c d id hc hd
  exact hv c d id hc (hc.trans hd)

/-- Commas change nothing about the values of entries. -/
theorem separate_values (entries : List (String × Value)) :
    (separate entries).map Prod.snd = entries.map Prod.snd := by
  cases entries <;> simp [separate]

/-- The values between the brackets of a container stand inside of it. -/
theorem reaches_entry (hc : h.contents? v = some c) {entries : List (String × Value)}
    (hentries : c.entries = separate entries) {e : String × Value} (he : e ∈ entries) :
    h.Reaches v e.2 := by
  have ha : e.2 ∈ c.entries.map Prod.snd := by
    rw [hentries, separate_values]
    exact List.mem_map_of_mem he
  cases v with
  | list r =>
      obtain ⟨cell, hcell, rfl⟩ := Option.map_eq_some_iff.mp hc
      refine Reaches.self.item (r := r) ?_
      rw [items, hcell]
      simpa [separate_values] using ha
  | object r =>
      obtain ⟨cell, hcell, rfl⟩ := Option.map_eq_some_iff.mp hc
      simp only [separate_values, List.map_map, List.mem_map, Function.comp_apply] at ha
      obtain ⟨field, hfield, hvalue⟩ := ha
      rw [← hvalue]
      refine Reaches.self.field (r := r) ?_
      rw [fields, hcell]
      exact hfield
  | _ => cases hc

/-! ### The text under open identities -/

/-- The text that is written for a value while some identities are open. -/
def textOf (h : Heap) (opened : List Nat) (v : Value) : String :=
  h.render opened [.value v] ""

/-- A value that is no container in memory is written with its own text. -/
theorem render_atom (hc : h.contents? v = none) (work : List Piece) (out : String) :
    h.render opened (.value v :: work) out = h.render opened work (out ++ atomText v) := by
  rw [render]
  split
  · rfl
  · simp_all

/-- A container whose identity is open is written with dots. -/
theorem render_again (hc : h.contents? v = some c) (hopen : c.id ∈ opened) (work : List Piece)
    (out : String) :
    h.render opened (.value v :: work) out =
      h.render opened work (out ++ (c.opening ++ "..." ++ c.closing)) := by
  rw [render]
  split
  · simp_all
  · rename_i c' hc'
    cases hc.symm.trans hc'
    rw [dif_pos hopen]
    simp only [String.append_assoc]

/-- Any other container is written with its entries, if each value inside of it is written with some
text. -/
theorem render_entered (hc : h.contents? v = some c) (hopen : c.id ∉ opened) {text : Value → String}
    (hvalue : ∀ a work out, h.render (c.id :: opened) (.value a :: work) out =
      h.render (c.id :: opened) work (out ++ text a))
    {entries : List (String × Value)} (hentries : c.entries = separate entries) (work : List Piece)
    (out : String) :
    h.render opened (.value v :: work) out = h.render opened work (out ++ (c.opening ++
      ", ".intercalate (entries.map fun e => e.1 ++ text e.2) ++ c.closing)) := by
  rw [render]
  split
  · simp_all
  · rename_i c' hc'
    cases hc.symm.trans hc'
    rw [dif_neg hopen, hentries, render_entries hvalue, render, List.erase_cons_head]
    simp only [String.append_assoc]

/-- Writing a value appends its text and leaves the same identities open, whatever the numbers are. -/
theorem render_textOf (h : Heap) (opened : List Nat) (v : Value) (work : List Piece) (out : String) :
    h.render opened (.value v :: work) out = h.render opened work (out ++ h.textOf opened v) := by
  -- The text is what is written in front of nothing, so each way to go on is taken on both sides.
  cases hc : h.contents? v with
  | none => rw [textOf, render_atom hc, render_atom hc, render, String.empty_append]
  | some c =>
      obtain ⟨container, entries, -, -, hentries, -⟩ := textInside_of_contents? hc
      by_cases hopen : c.id ∈ opened
      · rw [textOf, render_again hc hopen, render_again hc hopen, render, String.empty_append]
      · have hvalue := render_textOf h (c.id :: opened)
        rw [textOf, render_entered hc hopen hvalue hentries, render_entered hc hopen hvalue hentries,
          render, String.empty_append]
-- Inside of a container there are fewer identities left to open.
termination_by h.closedIds opened
decreasing_by exact closedIds_cons_lt (id_mem_ids (by assumption)) (by assumption)

/-- The text of a value that is no container in memory. -/
theorem textOf_of_no_contents (hc : h.contents? v = none) : h.textOf opened v = atomText v := by
  rw [textOf, render_atom hc, render, String.empty_append]

/-- The text of a container: its entries between its brackets, unless its identity is open. -/
theorem textOf_of_contents (hc : h.contents? v = some c) {entries : List (String × Value)}
    (hentries : c.entries = separate entries) :
    h.textOf opened v =
      if c.id ∈ opened then c.opening ++ "..." ++ c.closing
      else c.opening ++ ", ".intercalate (entries.map fun e => e.1 ++ h.textOf (c.id :: opened) e.2) ++
        c.closing := by
  by_cases hopen : c.id ∈ opened
  · rw [textOf, render_again hc hopen, render, String.empty_append, if_pos hopen]
  · rw [textOf, render_entered hc hopen (render_textOf h (c.id :: opened)) hentries, render,
      String.empty_append, if_neg hopen]

/-- New numbers that are shared like the old ones change nothing about a text but the numbers of functions
and references. What is open must be so under the old and under the new numbers alike. -/
theorem textOf_relabel {v : Value} (hshares : h.SharesInside label v) {opened opened' : List Nat}
    (hopened : ∀ d j, h.Reaches v d.value → h.idOf? d = some j → (j ∈ opened ↔ label d.value ∈ opened')) :
    Renamed label (h.textOf opened v) ((h.relabel label).textOf opened' (v.relabel label)) := by
  cases hc : h.contents? v with
  | none =>
      have hc' : (h.relabel label).contents? (v.relabel label) = none := by
        rw [contents?_relabel, hc]
        rfl
      rw [textOf_of_no_contents hc, textOf_of_no_contents hc']
      exact .atom v
  | some c =>
      obtain ⟨container, entries, hv, hid, hentries, -⟩ := textInside_of_contents? hc
      have hc' := contents?_relabel h label v
      rw [hc, Option.map_some, hentries, ← separate_relabel] at hc'
      have hmem : c.id ∈ opened ↔ label v ∈ opened' := by
        rw [hv]
        exact hopened container c.id (hv ▸ .self) hid
      rw [textOf_of_contents hc hentries, textOf_of_contents hc' rfl]
      by_cases hopen : c.id ∈ opened
      · rw [if_pos hopen, if_pos (hmem.mp hopen)]
        exact .text _
      · rw [if_neg hopen, if_neg (fun hopen' => hopen (hmem.mpr hopen')), List.map_map]
        refine ((Renamed.text c.opening).append (Renamed.intercalate ", " fun e he => ?_)).append
          (.text c.closing)
        have hreach := reaches_entry hc hentries he
        refine (Renamed.text e.1).append (textOf_relabel ?_ ?_)
        · intro d d' j j' hd hd'
          exact hshares d d' j j' (hreach.trans hd) hd'
        -- The number of this container is now open too, and what is inside shares it as before.
        · intro d j hd hj
          have hsame : label d.value = label v ↔ j = c.id := by
            have hinside := hshares container d c.id j (hv ▸ .self) (hv ▸ hreach.trans hd) hid hj
            rw [hv, eq_comm, hinside, eq_comm]
          rw [List.mem_cons, List.mem_cons, hsame, hopened d j (hreach.trans hd) hj]
termination_by h.closedIds opened
decreasing_by exact closedIds_cons_lt (id_mem_ids (by assumption)) (by assumption)

/-- If no container has the number of another one inside of it, the text is the recursive one. What is open
must be the number of a container around the value. -/
theorem textOf_eq_textInside {v : Value} (hunnested : h.Unnested v) {opened : List Nat}
    {enclosing : List Container} (hlive : ∀ d ∈ enclosing, (h.idOf? d).isSome)
    (hopened : ∀ d j, h.Reaches v d.value → h.idOf? d = some j → (j ∈ opened ↔ d ∈ enclosing)) :
    h.textOf opened v = h.textInside enclosing v := by
  cases hc : h.contents? v with
  | none => rw [textOf_of_no_contents hc, textInside_of_no_contents hlive hc]
  | some c =>
      obtain ⟨container, entries, hv, hid, hentries, htext⟩ := textInside_of_contents? hc
      have hmem := hopened container c.id (hv ▸ .self) hid
      rw [textOf_of_contents hc hentries, htext]
      by_cases hopen : c.id ∈ opened
      · rw [if_pos hopen, if_pos (hmem.mp hopen)]
      · rw [if_neg hopen, if_neg (fun hin => hopen (hmem.mpr hin))]
        congr 3
        refine List.map_congr_left fun e he => ?_
        have hreach := reaches_entry hc hentries he
        refine congrArg (e.1 ++ ·) (textOf_eq_textInside ?_ ?_ ?_)
        · intro d d' j hd hd'
          exact hunnested d d' j (hreach.trans hd) hd'
        · intro d hd
          rcases List.mem_cons.mp hd with rfl | hd
          · simp [hid]
          · exact hlive d hd
        -- What is inside of this container and has its number is this container.
        · intro d j hd hj
          have hsame : j = c.id ↔ d = container := by
            constructor
            · rintro rfl
              exact (hunnested container d c.id (hv ▸ .self) (hv ▸ hreach.trans hd) hid hj).symm
            · rintro rfl
              exact Option.some.inj (hj.symm.trans hid)
          rw [List.mem_cons, List.mem_cons, hsame, hopened d j (hreach.trans hd) hj]
termination_by h.closedIds opened
decreasing_by exact closedIds_cons_lt (id_mem_ids (by assumption)) (by assumption)

/-! ### The worklist of pairs -/

/-- Other values that are compared as they are keep their answer if functions and references share numbers
as before. -/
theorem scalarEqual_relabel
    (hfunctions : ∀ f g, v = .function f → w = .function g →
      (label (.function f) = label (.function g) ↔ f.id = g.id))
    (hreferences : ∀ r q, v = .reference r → w = .reference q →
      (label (.reference r) = label (.reference q) ↔ r.id = q.id)) :
    (v.relabel label).scalarEqual (w.relabel label) = v.scalarEqual w := by
  cases v with
  -- Functions and references are compared by their numbers, all other scalars by what they are.
  | function f =>
      cases w with
      | function g =>
          simp only [Value.relabel, Value.scalarEqual]
          rw [Bool.eq_iff_iff, beq_iff_eq, beq_iff_eq, hfunctions f g rfl rfl]
      | _ => rfl
  | reference r =>
      cases w with
      | reference q =>
          simp only [Value.relabel, Value.scalarEqual]
          rw [Bool.eq_iff_iff, beq_iff_eq, beq_iff_eq, hreferences r q rfl rfl]
      | _ => rfl
  | _ => cases w <;> rfl

/-- A pair of values with other numbers. -/
def relabelPair (label : Value → Nat) (p : Value × Value) : Value × Value :=
  (p.1.relabel label, p.2.relabel label)

/-- The pairs of the elements of two lists with other numbers. -/
theorem itemPairs_relabel (label : Value → Nat) (x y : Array Value) :
    itemPairs (x.map (Value.relabel label)) (y.map (Value.relabel label)) =
      (itemPairs x y).map (List.map (relabelPair label)) := by
  unfold itemPairs
  by_cases hsize : x.size = y.size
  · simp [hsize, List.zip_map, relabelPair, Prod.map]
  · simp [hsize]

/-- A key gives its value with its new number. -/
theorem get?_relabel (label : Value → Nat) (f : Fields) (key : String) :
    (f.relabel label).get? key = (f.get? key).map (Value.relabel label) := by
  obtain ⟨entries⟩ := f
  simp only [Fields.relabel, Fields.get?]
  induction entries with
  | nil => rfl
  | cons e rest ih =>
      rw [List.map_cons, List.lookup_cons, List.lookup_cons, ih]
      cases key == e.1 <;> rfl

/-- The pairs of the values of two objects with other numbers. -/
theorem fieldPairs_relabel (label : Value → Nat) (x y : Fields) :
    fieldPairs (x.relabel label) (y.relabel label) =
      (fieldPairs x y).map (List.map (relabelPair label)) := by
  unfold fieldPairs
  have hx : (x.relabel label).size = x.size := by simp [Fields.size, Fields.relabel]
  have hy : (y.relabel label).size = y.size := by simp [Fields.size, Fields.relabel]
  rw [hx, hy]
  by_cases hsize : x.size = y.size
  · rw [if_pos hsize, if_pos hsize]
    simp only [get?_relabel]
    show (x.entries.map fun e => (e.1, e.2.relabel label)).mapM _ = _
    rw [List.mapM_map]
    -- The sizes are compared once; the pairs are then made entry by entry.
    generalize x.entries = entries
    induction entries with
    | nil => rfl
    | cons e rest ih =>
        rw [List.mapM_cons, List.mapM_cons, ih, Function.comp_apply]
        cases y.get? e.1 with
        | none => rfl
        | some a => cases rest.mapM fun e => (y.get? e.1).map fun v => (e.2, v) <;> rfl
  · rw [if_neg hsize, if_neg hsize]
    rfl

/-- What is settled at once stays settled. -/
theorem confront_relabel_settled {equal : Bool} (hc : h.confront v w = .settled equal)
    (hscalar : (v.relabel label).scalarEqual (w.relabel label) = v.scalarEqual w) :
    (h.relabel label).confront (v.relabel label) (w.relabel label) = .settled equal := by
  cases v with
  | list r =>
      cases w with
      | list q =>
          simp only [Value.relabel, confront, list?_relabel] at hc ⊢
          -- Containers are compared by their handles, which stay, before their numbers count.
          by_cases hrq : r = q
          · rwa [if_pos hrq] at hc ⊢
          · rw [if_neg hrq] at hc ⊢
            cases hr : h.list? r <;> cases hq : h.list? q <;> simp_all
      | _ => exact hc
  | object r =>
      cases w with
      | object q =>
          simp only [Value.relabel, confront, object?_relabel] at hc ⊢
          by_cases hrq : r = q
          · rwa [if_pos hrq] at hc ⊢
          · rw [if_neg hrq] at hc ⊢
            cases hr : h.object? r <;> cases hq : h.object? q <;> simp_all
      | _ => exact hc
  | _ => cases w <;> simp_all [Value.relabel, confront]

/-- Two containers are set against each other with their new numbers. -/
theorem confront_relabel_containers {p : Nat × Nat} {parts : Option (List (Value × Value))}
    (hc : h.confront v w = .containers p parts) :
    (h.relabel label).confront (v.relabel label) (w.relabel label) =
      .containers (label v, label w) (parts.map (List.map (relabelPair label))) := by
  rcases confront_containers hc with ⟨r, q, x, y, rfl, rfl, hne, hx, hy, -, rfl⟩ |
    ⟨r, q, x, y, rfl, rfl, hne, hx, hy, -, rfl⟩
  · simp [Value.relabel, confront, hne, list?_relabel, hx, hy, itemPairs_relabel]
  · simp [Value.relabel, confront, hne, object?_relabel, hx, hy, fieldPairs_relabel]

/-- Two values that have parts are two containers in memory. -/
theorem exists_confronted {p : Nat × Nat} {parts : Option (List (Value × Value))}
    (hc : h.confront v w = .containers p parts) :
    ∃ c d, v = c.value ∧ w = d.value ∧ h.idOf? c = some p.1 ∧ h.idOf? d = some p.2 := by
  rcases confront_containers hc with ⟨r, q, x, y, rfl, rfl, -, hx, hy, rfl, -⟩ |
    ⟨r, q, x, y, rfl, rfl, -, hx, hy, rfl, -⟩
  · exact ⟨.list r, .list q, rfl, rfl, by simp [idOf?, hx], by simp [idOf?, hy]⟩
  · exact ⟨.object r, .object q, rfl, rfl, by simp [idOf?, hx], by simp [idOf?, hy]⟩

/-- The parts of two values stand inside of them. -/
theorem reaches_parts {p : Nat × Nat} {parts : List (Value × Value)}
    (hc : h.confront v w = .containers p (some parts)) :
    ∀ x ∈ parts, h.Reaches v x.1 ∧ h.Reaches w x.2 := by
  rcases confront_containers hc with ⟨r, q, x, y, rfl, rfl, -, hx, hy, -, hparts⟩ |
    ⟨r, q, x, y, rfl, rfl, -, hx, hy, -, hparts⟩
  · intro pair hpair
    unfold itemPairs at hparts
    split at hparts
    · cases hparts
      obtain ⟨hleft, hright⟩ := List.of_mem_zip hpair
      exact ⟨Reaches.self.item (by rw [items, hx]; exact hleft),
        Reaches.self.item (by rw [items, hy]; exact hright)⟩
    · cases hparts
  · unfold fieldPairs at hparts
    split at hparts
    · have hall := exists_mapM_iff.mp ⟨parts, hparts.symm, fun _ _ => trivial⟩
      -- Each pair comes from an entry of the first object and what its key gives in the second.
      have hreach : ∀ e ∈ x.fields.entries, ∃ z : Value × Value,
          (y.fields.get? e.1).map (fun b => (e.2, b)) = some z ∧
            h.Reaches (.object r) z.1 ∧ h.Reaches (.object q) z.2 := by
        intro e he
        obtain ⟨z, hz, -⟩ := hall e he
        obtain ⟨b, hb, rfl⟩ := Option.map_eq_some_iff.mp hz
        refine ⟨_, hz, Reaches.self.field (e := e) ?_, Reaches.self.field (e := (e.1, b)) ?_⟩
        · rw [fields, hx]
          exact he
        · rw [fields, hy]
          exact Fields.mem_of_get? hb
      obtain ⟨pairs, hpairs, hreach⟩ := exists_mapM_iff.mpr hreach
      cases hparts.trans hpairs
      exact hreach
    · cases hparts

section Loop

variable {assumed : List (Nat × Nat)} {work : List (Value × Value)} {p : Nat × Nat}

/-- A pair that is settled. -/
theorem equalAll_settled {equal : Bool} (hc : h.confront v w = .settled equal) :
    h.equalAll assumed ((v, w) :: work) = (equal && h.equalAll assumed work) := by
  rw [equalAll]
  split <;> simp_all

/-- A pair of containers whose identities are assumed. -/
theorem equalAll_assumed {parts : Option (List (Value × Value))}
    (hc : h.confront v w = .containers p parts) (hp : p ∈ assumed) :
    h.equalAll assumed ((v, w) :: work) = h.equalAll assumed work := by
  rw [equalAll]
  split <;> simp_all

/-- A pair of containers of different shapes. -/
theorem equalAll_unlike (hc : h.confront v w = .containers p none) (hp : p ∉ assumed) :
    h.equalAll assumed ((v, w) :: work) = false := by
  rw [equalAll]
  split
  · simp_all
  · rename_i hc'
    cases hc.symm.trans hc'
    rw [dif_neg hp]

/-- A pair of containers of one shape. -/
theorem equalAll_parts {parts : List (Value × Value)} (hc : h.confront v w = .containers p (some parts))
    (hp : p ∉ assumed) :
    h.equalAll assumed ((v, w) :: work) = h.equalAll (p :: assumed) (parts.reverse ++ work) := by
  rw [equalAll]
  split
  · simp_all
  · rename_i hc'
    cases hc.symm.trans hc'
    rw [dif_neg hp]

/-- New numbers that are shared like the old ones change nothing about the answer of a loop. What is
assumed must be so under the old and under the new numbers alike. -/
theorem equalAll_relabel (hshares : h.SharesAs label v w) {assumed' : List (Nat × Nat)}
    (hassumed : ∀ c d i j, h.Reaches v c.value → h.Reaches w d.value → h.idOf? c = some i →
      h.idOf? d = some j → ((i, j) ∈ assumed ↔ (label c.value, label d.value) ∈ assumed'))
    (hwork : ∀ x ∈ work, h.Reaches v x.1 ∧ h.Reaches w x.2) :
    (h.relabel label).equalAll assumed' (work.map (relabelPair label)) = h.equalAll assumed work := by
  -- The induction follows the loop on the old numbers. In each round the loop on the new ones takes the
  -- same way, and `hassumed` carries over to the next.
  fun_induction equalAll h assumed work generalizing assumed' with
  | case1 => simp [equalAll]
  | case2 assumed a b work equal hc ih =>
      rw [List.forall_mem_cons] at hwork
      obtain ⟨⟨ha, hb⟩, hwork⟩ := hwork
      have hscalar : (a.relabel label).scalarEqual (b.relabel label) = a.scalarEqual b := by
        refine scalarEqual_relabel ?_ ?_
        · rintro f g rfl rfl
          exact hshares.functions f g ha hb
        · rintro r q rfl rfl
          exact hshares.references r q ha hb
      rw [List.map_cons, relabelPair, equalAll_settled (confront_relabel_settled hc hscalar),
        ih hassumed hwork]
  | case3 assumed a b work p parts hc hp ih =>
      rw [List.forall_mem_cons] at hwork
      obtain ⟨⟨ha, hb⟩, hwork⟩ := hwork
      obtain ⟨c, d, rfl, rfl, hc', hd'⟩ := exists_confronted hc
      have hp' := (hassumed c d p.1 p.2 ha hb hc' hd').mp hp
      rw [List.map_cons, relabelPair, equalAll_assumed (confront_relabel_containers hc) hp',
        ih hassumed hwork]
  | case4 assumed a b work p hp hc =>
      rw [List.forall_mem_cons] at hwork
      obtain ⟨⟨ha, hb⟩, hwork⟩ := hwork
      obtain ⟨c, d, rfl, rfl, hc', hd'⟩ := exists_confronted hc
      have hp' := mt (hassumed c d p.1 p.2 ha hb hc' hd').mpr hp
      rw [List.map_cons, relabelPair, equalAll_unlike (confront_relabel_containers hc) hp']
  | case5 assumed a b work p hp parts hc _ ih =>
      rw [List.forall_mem_cons] at hwork
      obtain ⟨⟨ha, hb⟩, hwork⟩ := hwork
      obtain ⟨c, d, rfl, rfl, hc', hd'⟩ := exists_confronted hc
      have hp' := mt (hassumed c d p.1 p.2 ha hb hc' hd').mpr hp
      rw [List.map_cons, relabelPair, equalAll_parts (confront_relabel_containers hc) hp', ← List.map_reverse,
        ← List.map_append]
      refine ih ?_ ?_
      -- Another pair has the new numbers of this one exactly if it has its old ones.
      · intro c₂ d₂ i j hc₂ hd₂ hi hj
        have hleft := hshares.left c₂ c i p.1 hc₂ ha hi hc'
        have hright := hshares.right d₂ d j p.2 hd₂ hb hj hd'
        have hsame : (label c₂.value, label d₂.value) = (label c.value, label d.value) ↔ (i, j) = p := by
          rw [Prod.mk.injEq, hleft, hright, Prod.ext_iff]
        rw [List.mem_cons, List.mem_cons, hassumed c₂ d₂ i j hc₂ hd₂ hi hj, hsame]
      · intro x hx
        rcases List.mem_append.mp hx with hx | hx
        · obtain ⟨hleft, hright⟩ := reaches_parts hc x (List.mem_reverse.mp hx)
          exact ⟨ha.trans hleft, hb.trans hright⟩
        · exact hwork x hx

end Loop

/-- New numbers that are shared like the old ones do not make values equal or different. -/
theorem equal_relabel (hshares : h.SharesAs label v w) :
    (h.relabel label).equal (v.relabel label) (w.relabel label) = h.equal v w := by
  show (h.relabel label).equalAll [] ([(v, w)].map (relabelPair label)) = h.equalAll [] [(v, w)]
  refine equalAll_relabel hshares (by simp) ?_
  rw [List.forall_mem_singleton]
  exact ⟨.self, .self⟩

/-! ### Places for numbers -/

/-- The place of each container in memory for its number; functions and references keep theirs. -/
def placeLabel (h : Heap) : Value → Nat
  | .list r => h.place (.list r)
  | .object r => h.place (.object r)
  | .function f => f.id
  | .reference r => r.id
  | _ => 0

/-- Values stay as they are. -/
theorem relabel_placeLabel (h : Heap) (v : Value) : v.relabel h.placeLabel = v := by
  cases v <;> rfl

/-- A container has its place for its number. -/
theorem placeLabel_value (h : Heap) (c : Container) : h.placeLabel c.value = h.place c := by
  cases c <;> rfl

/-- Fields stay as they are. -/
theorem fields_relabel_placeLabel (h : Heap) (f : Fields) : f.relabel h.placeLabel = f := by
  simp [Fields.relabel, relabel_placeLabel]

/-- Places are all different. -/
theorem ids_relabel_placeLabel (h : Heap) :
    (h.relabel h.placeLabel).ids = List.range (h.lists.size + h.objects.size) := by
  rw [ids, List.range_add]
  congr 1
  · refine List.ext_getElem (by simp [relabel]) fun i _ _ => ?_
    simp [relabel, placeLabel, place]
  · refine List.ext_getElem (by simp [relabel]) fun i _ _ => ?_
    simp [relabel, placeLabel, place]

/-- Memory whose containers are numbered by their places is as it is made. -/
theorem distinct_relabel_placeLabel
    (hkeys : ∀ r cell, h.object? r = some cell → cell.fields.keys.Nodup) :
    (h.relabel h.placeLabel).Distinct := by
  refine ⟨?_, ?_⟩
  · rw [ids_relabel_placeLabel]
    exact List.nodup_range
  · intro r cell hcell
    rw [object?_relabel] at hcell
    obtain ⟨cell', hcell', rfl⟩ := Option.map_eq_some_iff.mp hcell
    rw [fields_relabel_placeLabel]
    exact hkeys r cell' hcell'

/-- Whether two values agree has nothing to do with the numbers of containers. -/
theorem agrees_relabel_placeLabel {R : Value → Value → Prop} :
    (h.relabel h.placeLabel).Agrees R v w ↔ h.Agrees R v w := by
  have hid : Value.relabel h.placeLabel = id := funext (relabel_placeLabel h)
  cases v with
  | list r =>
      cases w with
      | list q => simp [Agrees, list?_relabel, hid]
      | _ => exact Iff.rfl
  | object r =>
      cases w with
      | object q => simp [Agrees, object?_relabel, fields_relabel_placeLabel]
      | _ => exact Iff.rfl
  | _ => cases w <;> exact Iff.rfl

/-- Places are shared like numbers by containers that share none. -/
theorem Apart.sharesAmong (hv : h.Apart v) : h.SharesAmong h.placeLabel v := by
  intro c d i j hc hd hi hj
  rw [placeLabel_value, placeLabel_value]
  constructor
  · intro hplace
    cases place_inj (by simp [hi]) (by simp [hj]) hplace
    exact Option.some.inj (hi.symm.trans hj)
  · rintro rfl
    rw [hv c d i hc hd hi hj]

/-- So places may stand for the numbers when values are compared that share none among themselves. -/
theorem sharesAs_placeLabel (hv : h.Apart v) (hw : h.Apart w) : h.SharesAs h.placeLabel v w :=
  ⟨hv.sharesAmong, hw.sharesAmong, fun _ _ _ _ => Iff.rfl, fun _ _ _ _ => Iff.rfl⟩

/-- If no two containers of one value share a number, and none of the other, equality is bisimilarity. -/
theorem equal_iff_of_apart (hkeys : ∀ r cell, h.object? r = some cell → cell.fields.keys.Nodup)
    (hv : h.Apart v) (hw : h.Apart w) :
    h.equal v w = true ↔ ∃ R : Value → Value → Prop, R v w ∧ ∀ a b, R a b → h.Agrees R a b := by
  have hh := distinct_relabel_placeLabel hkeys
  have hequal := equal_relabel (sharesAs_placeLabel hv hw)
  rw [relabel_placeLabel, relabel_placeLabel] at hequal
  rw [← hequal]
  -- With places for numbers, memory is as the loop needs it, and agreement is the same.
  constructor
  · intro hequal
    obtain ⟨ids, -, hwork, hids⟩ := exists_vouched hequal
    refine ⟨(h.relabel h.placeLabel).Vouched ids, hwork (v, w) List.mem_cons_self, ?_⟩
    intro a b hab
    refine agrees_relabel_placeLabel.mp (agrees_of_vouched hh (fun p hp => ?_) hab)
    rcases hids p hp with hp | hp
    · cases hp
    · exact hp
  · rintro ⟨R, hvw, hR⟩
    refine equalAll_of_related hh (fun a b hab => agrees_relabel_placeLabel.mpr (hR a b hab)) ?_
    rw [List.forall_mem_singleton]
    exact hvw

/-! ### What numbers change -/

/-- Comparing and writing values depend on handles and on the pattern in which numbers are shared.

- Other numbers on the same handles leave the answer of a comparison as it is, if they are shared like the
  old ones by the containers of the one value, by those of the other, and by the functions and references
  of the two.
- They leave the text of a value as it is, but for the numbers of functions and references, if they are
  shared like the old ones by each container and those inside of it.
- If no number is shared among the containers of the one value, nor among those of the other, the values
  are equal exactly if they are bisimilar; the one may well have the numbers of the other.
- If no container has the number of another one inside of it, the text is the recursive one: dots stand
  only for a container that is inside itself. -/
theorem equal_and_display_up_to_sharing (h : Heap) (v w : Value) :
    (∀ label, h.SharesAs label v w →
      (h.relabel label).equal (v.relabel label) (w.relabel label) = h.equal v w) ∧
    (∀ label, h.SharesInside label v →
      Renamed label (h.display v) ((h.relabel label).display (v.relabel label))) ∧
    ((∀ r cell, h.object? r = some cell → cell.fields.keys.Nodup) → h.Apart v → h.Apart w →
      (h.equal v w = true ↔
        ∃ R : Value → Value → Prop, R v w ∧ ∀ a b, R a b → h.Agrees R a b)) ∧
    (h.Unnested v → h.display v = h.textInside [] v) := by
  refine ⟨fun label => equal_relabel, ?_, equal_iff_of_apart, ?_⟩
  · intro label hshares
    exact textOf_relabel hshares (by simp)
  · intro hunnested
    exact textOf_eq_textInside hunnested nofun (by simp)

/-- Two generators have made `[[1]]` and `[[2]]` with the same two numbers. Neither list shares a number
with the one inside of it, so the two differ, also with places for numbers, and the text has no dots. -/
theorem equal_and_display_of_two_generators :
    let h : Heap := ⟨#[⟨1, #[.int 1]⟩, ⟨2, #[.list ⟨0⟩]⟩, ⟨1, #[.int 2]⟩, ⟨2, #[.list ⟨2⟩]⟩], #[]⟩
    h.Apart (.list ⟨1⟩) ∧ h.Apart (.list ⟨3⟩) ∧
      (h.relabel h.placeLabel).equal (.list ⟨1⟩) (.list ⟨3⟩) = false ∧
      (¬ ∃ R : Value → Value → Prop, R (.list ⟨1⟩) (.list ⟨3⟩) ∧ ∀ a b, R a b → h.Agrees R a b) ∧
      Renamed h.placeLabel "[[1]]" ((h.relabel h.placeLabel).display (.list ⟨1⟩)) ∧
      h.textInside [] (.list ⟨1⟩) = "[[1]]" := by
  intro h
  -- A list that has but one list of an integer in it reaches no other container.
  have hapart (outer inner : ListRef) (n : Int64) (houter : h.items outer = #[.list inner])
      (hinner : h.items inner = #[.int n]) (hids : h.idOf? (.list outer) ≠ h.idOf? (.list inner)) :
      h.Apart (.list outer) := by
    have hreach (a : Value) (ha : h.Reaches (.list outer) a) :
        a = .list outer ∨ a = .list inner ∨ a = .int n := by
      induction ha with
      | self => exact Or.inl rfl
      | item _ hitem ih =>
          rcases ih with ih | ih | ih <;> cases ih
          · rw [houter] at hitem
            simp_all
          · rw [hinner] at hitem
            simp_all
      | field _ _ ih => rcases ih with ih | ih | ih <;> cases ih
    have hlist (c : Container) (hc : h.Reaches (.list outer) c.value) :
        c = .list outer ∨ c = .list inner := by
      cases c with
      | list r => simpa [Container.value] using hreach _ hc
      | object r => simpa [Container.value] using hreach _ hc
    intro c d id hc hd hcid hdid
    rcases hlist c hc with rfl | rfl <;> rcases hlist d hd with rfl | rfl
    · rfl
    · exact absurd (hcid.trans hdid.symm) hids
    · exact absurd (hdid.trans hcid.symm) hids
    · rfl
  have hv : h.Apart (.list ⟨1⟩) := hapart ⟨1⟩ ⟨0⟩ 1 rfl rfl (by decide)
  have hw : h.Apart (.list ⟨3⟩) := hapart ⟨3⟩ ⟨2⟩ 2 rfl rfl (by decide)
  have hkeys : ∀ r cell, h.object? r = some cell → cell.fields.keys.Nodup := by
    intro r cell hcell
    simp [h, object?] at hcell
  have hequal : h.equal (.list ⟨1⟩) (.list ⟨3⟩) = false := by
    have hwithin := equalWithin_of_bound h [] [(.list ⟨1⟩, .list ⟨3⟩)] 100 (by decide)
    exact Option.some.inj (hwithin.symm.trans (by decide +kernel))
  have hdisplay : h.display (.list ⟨1⟩) = "[[1]]" := by
    have hwithin := renderWithin_of_weight (h := h) [] [.value (.list ⟨1⟩)] "" 1000 (by decide)
    exact Option.some.inj (hwithin.symm.trans (by decide +kernel))
  obtain ⟨hsame, hrenamed, hbisimilar, htext⟩ :=
    equal_and_display_up_to_sharing h (.list ⟨1⟩) (.list ⟨3⟩)
  refine ⟨hv, hw, ?_, ?_, ?_, ?_⟩
  · exact (hsame _ (sharesAs_placeLabel hv hw)).trans hequal
  · rw [← hbisimilar hkeys hv hw, hequal]
    exact Bool.false_ne_true
  · rw [← hdisplay]
    exact hrenamed h.placeLabel hv.sharesAmong.inside
  · rw [← htext hv.unnested, hdisplay]

/-- One generator has made `[1]` and `[2]` and another one a list around each of them, with the same two
numbers. The two outer lists differ, and yet they are equal; the list inside of the first is not that
list, and yet dots stand for it. With places for numbers both are set right. -/
theorem relabelled_differs :
    let h : Heap := ⟨#[⟨1, #[.int 1]⟩, ⟨2, #[.int 2]⟩, ⟨1, #[.list ⟨0⟩]⟩, ⟨2, #[.list ⟨1⟩]⟩], #[]⟩
    (h.equal (.list ⟨2⟩) (.list ⟨3⟩) = true ∧ h.display (.list ⟨2⟩) = "[[...]]") ∧
      (h.relabel h.placeLabel).equal (.list ⟨2⟩) (.list ⟨3⟩) = false ∧
      (h.relabel h.placeLabel).display (.list ⟨2⟩) = "[[1]]" := by
  intro h
  -- The rounds are bounded, so that both answers can be computed.
  have hequal (h : Heap) (hn : 1 + h.openPairs [] * h.volume < 100) :
      h.equalWithin 100 [] [(.list ⟨2⟩, .list ⟨3⟩)] = some (h.equal (.list ⟨2⟩) (.list ⟨3⟩)) :=
    equalWithin_of_bound h [] _ 100 hn
  have hdisplay (h : Heap) (hn : h.weight [] [.value (.list ⟨2⟩)] < 1000) :
      h.renderWithin 1000 [] [.value (.list ⟨2⟩)] "" = some (h.display (.list ⟨2⟩)) :=
    renderWithin_of_weight [] _ "" 1000 hn
  refine ⟨⟨?_, ?_⟩, ?_, ?_⟩
  · refine Option.some.inj ((hequal h (by decide)).symm.trans ?_)
    decide +kernel
  · refine Option.some.inj ((hdisplay h (by decide)).symm.trans ?_)
    decide +kernel
  · refine Option.some.inj ((hequal _ (by decide +kernel)).symm.trans ?_)
    decide +kernel
  · refine Option.some.inj ((hdisplay _ (by decide +kernel)).symm.trans ?_)
    decide +kernel

end Heap

end Stepwise
