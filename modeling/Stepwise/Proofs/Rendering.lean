import Stepwise.Proofs.Identity

/-!
# `Stepwise.Proofs.Rendering`: the text of a value by recursion

`Heap.render` writes with a worklist and a list of open identities. `Heap.textInside` is the text that it
should write, by recursion on the value: it carries the containers that enclose the value, so a container
inside itself is cut short, and it ends because there are only so many containers to be inside of.
`display_eq_textInside` says that the two agree. So what was written before a value has no influence on
its text: a container that stands several times beside itself is written in full each time.

The proof follows the recursion. While the worklist writes one value, the open identities are those of
the containers around it (`Tracks`), and they are the same again when the value is written
(`render_value`); `render_entries` is the same for what stands between two brackets.
-/

set_option autoImplicit false

namespace Stepwise

namespace Heap

/-! ### The text by recursion -/

/-- The containers in memory. -/
def containers (h : Heap) : List Container :=
  (List.range h.lists.size).map (fun i => .list ⟨i⟩) ++
    (List.range h.objects.size).map fun i => .object ⟨i⟩

/-- The number of containers in memory that are not among some others. -/
def outside (h : Heap) (enclosing : List Container) : Nat :=
  (h.containers.filter fun c => !enclosing.contains c).length

/-- One more container around leaves fewer of them outside. -/
theorem outside_cons_lt {h : Heap} {c : Container} {enclosing : List Container}
    (hc : c ∈ h.containers) (hnew : c ∉ enclosing) :
    h.outside (c :: enclosing) < h.outside enclosing := by
  refine length_filter_lt (a := c) ?_ hc ?_ ?_
  · intro x hx
    simp only [List.contains_eq_mem, List.mem_cons, Bool.not_eq_true', decide_eq_false_iff_not,
      not_or] at hx ⊢
    exact hx.2
  · simpa using hnew
  · simp

/-- A list with an element is in memory. -/
theorem list_mem_containers {h : Heap} {r : ListRef} {v : Value} (hv : v ∈ (h.items r).toList) :
    Container.list r ∈ h.containers := by
  unfold items at hv
  split at hv
  · rename_i cell hcell
    have hlt : r.index < h.lists.size := (Array.getElem?_eq_some_iff.mp hcell).1
    exact List.mem_append_left _ (List.mem_map.mpr ⟨r.index, List.mem_range.mpr hlt, rfl⟩)
  · simp at hv

/-- An object with a field is in memory. -/
theorem object_mem_containers {h : Heap} {r : ObjectRef} {e : String × Value}
    (he : e ∈ (h.fields r).entries) : Container.object r ∈ h.containers := by
  unfold fields at he
  split at he
  · rename_i cell hcell
    have hlt : r.index < h.objects.size := (Array.getElem?_eq_some_iff.mp hcell).1
    exact List.mem_append_right _ (List.mem_map.mpr ⟨r.index, List.mem_range.mpr hlt, rfl⟩)
  · simp [Fields.empty] at he

/-- The text of a value inside some containers. A container inside itself is written with dots, any
other one with its elements or fields between brackets; a string is quoted. -/
def textInside (h : Heap) (enclosing : List Container) (v : Value) : String :=
  match v with
  | .list r =>
    if Container.list r ∈ enclosing then "[...]"
    else
      let texts := (h.items r).toList.attach.map fun ⟨v, _⟩ =>
        textInside h (.list r :: enclosing) v
      "[" ++ ", ".intercalate texts ++ "]"
  | .object r =>
    if Container.object r ∈ enclosing then "\x7b...\x7d"
    else
      let texts := (h.fields r).entries.attach.map fun ⟨e, _⟩ =>
        e.1 ++ ": " ++ textInside h (.object r :: enclosing) e.2
      "\x7b" ++ ", ".intercalate texts ++ "\x7d"
  | .str s => "\"" ++ s ++ "\""
  | v => atomText v
termination_by h.outside enclosing
decreasing_by
  · exact outside_cons_lt (list_mem_containers (by assumption)) (by assumption)
  · exact outside_cons_lt (object_mem_containers (by assumption)) (by assumption)

variable {h : Heap} {v : Value} {c : Contents} {opened : List Nat} {enclosing : List Container}

/-- The text of a list. -/
theorem textInside_list (h : Heap) (enclosing : List Container) (r : ListRef) :
    h.textInside enclosing (.list r) =
      if Container.list r ∈ enclosing then "[...]"
      else "[" ++ ", ".intercalate ((h.items r).toList.map (h.textInside (.list r :: enclosing))) ++
        "]" := by
  rw [textInside]
  simp only [List.map_subtype, List.unattach_attach]

/-- The text of an object. -/
theorem textInside_object (h : Heap) (enclosing : List Container) (r : ObjectRef) :
    h.textInside enclosing (.object r) =
      if Container.object r ∈ enclosing then "\x7b...\x7d"
      else "\x7b" ++ ", ".intercalate ((h.fields r).entries.map fun e =>
        e.1 ++ ": " ++ h.textInside (.object r :: enclosing) e.2) ++ "\x7d" := by
  rw [textInside]
  simp only [List.map_subtype, List.unattach_attach]

/-- The text of a container in memory: its entries between its brackets, unless it is inside itself. -/
theorem textInside_of_contents? (hc : h.contents? v = some c) :
    ∃ container entries, v = container.value ∧ h.idOf? container = some c.id ∧
      c.entries = separate entries ∧ ∀ enclosing, h.textInside enclosing v =
        if container ∈ enclosing then c.opening ++ "..." ++ c.closing
        else c.opening ++ ", ".intercalate (entries.map fun e =>
          e.1 ++ h.textInside (container :: enclosing) e.2) ++ c.closing := by
  cases v with
  | list r =>
      obtain ⟨cell, hcell, rfl⟩ := Option.map_eq_some_iff.mp hc
      refine ⟨.list r, _, rfl, by rw [idOf?, hcell]; rfl, rfl, fun enclosing => ?_⟩
      rw [textInside_list, items, hcell]
      simp [Function.comp_def]
  | object r =>
      obtain ⟨cell, hcell, rfl⟩ := Option.map_eq_some_iff.mp hc
      refine ⟨.object r, _, rfl, by rw [idOf?, hcell]; rfl, rfl, fun enclosing => ?_⟩
      rw [textInside_object, fields, hcell]
      simp [Function.comp_def]
  | _ => cases hc

/-! ### What is open -/

/-- The open identities are those of the enclosing containers, which are all in memory. -/
structure Tracks (h : Heap) (opened : List Nat) (enclosing : List Container) : Prop where
  live : ∀ container ∈ enclosing, (h.idOf? container).isSome
  mem_iff : ∀ container id, h.idOf? container = some id → (id ∈ opened ↔ container ∈ enclosing)

/-- At first nothing is open. -/
theorem tracks_nil (h : Heap) : h.Tracks [] [] :=
  ⟨nofun, by simp⟩

/-- Opening a container puts its identity in front. -/
theorem Tracks.cons (ht : h.Tracks opened enclosing) (hids : h.ids.Nodup) {container : Container}
    {id : Nat} (hid : h.idOf? container = some id) :
    h.Tracks (id :: opened) (container :: enclosing) := by
  constructor
  · intro other hother
    rcases List.mem_cons.mp hother with rfl | hother
    · simp [hid]
    · exact ht.live other hother
  · intro other otherId hother
    -- Containers have numbers of their own, so to look a number up is to look the container up.
    have hsame : otherId = id ↔ other = container := by
      constructor
      · rintro rfl
        exact idOf?_inj hids hother hid
      · rintro rfl
        exact Option.some.inj (hother.symm.trans hid)
    rw [List.mem_cons, List.mem_cons, hsame, ht.mem_iff other otherId hother]

/-- A value that is no container in memory has one text everywhere. -/
theorem textInside_of_no_contents (hlive : ∀ container ∈ enclosing, (h.idOf? container).isSome)
    (hc : h.contents? v = none) : h.textInside enclosing v = atomText v := by
  cases v with
  | list r =>
      have hnone : h.list? r = none := Option.map_eq_none_iff.mp hc
      -- What is around a value is in memory, and this list is not.
      have hout : Container.list r ∉ enclosing := by
        intro hmem
        simpa [idOf?, hnone] using hlive _ hmem
      rw [textInside_list, if_neg hout, items, hnone]
      rfl
  | object r =>
      have hnone : h.object? r = none := Option.map_eq_none_iff.mp hc
      have hout : Container.object r ∉ enclosing := by
        intro hmem
        simpa [idOf?, hnone] using hlive _ hmem
      rw [textInside_object, if_neg hout, fields, hnone]
      rfl
  | _ => simp [textInside, atomText]

/-! ### The worklist -/

/-- The entries of a container are written one by one, with commas between them, if each value is
written with its text. -/
theorem render_entries {text : Value → String}
    (hvalue : ∀ v work out, h.render opened (.value v :: work) out = h.render opened work (out ++ text v))
    (entries : List (String × Value)) (work : List Piece) (out : String) :
    h.render opened (entryPieces (separate entries) ++ work) out =
      h.render opened work (out ++ ", ".intercalate (entries.map fun e => e.1 ++ text e.2)) := by
  have hentry (e : String × Value) (entries : List (String × Value)) (out : String) :
      h.render opened (entryPieces (e :: entries) ++ work) out =
        h.render opened (entryPieces entries ++ work) (out ++ (e.1 ++ text e.2)) := by
    rw [entryPieces, List.flatMap_cons, List.append_assoc]
    show h.render opened (.text e.1 :: .value e.2 :: _) out = _
    rw [render, hvalue, String.append_assoc]
    rfl
  cases entries with
  | nil => simp [separate, entryPieces]
  | cons e rest =>
      rw [separate, hentry]
      -- The comma stands in front of the next entry, or behind the entry before it.
      induction rest generalizing out e with
      | nil => simp [entryPieces]
      | cons e' rest ih =>
          have ih := ih (out ++ (e.1 ++ text e.2) ++ ", ") e'
          rw [List.map_cons, hentry]
          simp only [List.map_cons, String.intercalate_cons_cons, String.append_assoc] at ih ⊢
          exact ih

/-- A value is written with its text, and then the same containers are open as before. -/
theorem render_value (hids : h.ids.Nodup) {opened : List Nat} {enclosing : List Container}
    (ht : h.Tracks opened enclosing) (v : Value) (work : List Piece) (out : String) :
    h.render opened (.value v :: work) out =
      h.render opened work (out ++ h.textInside enclosing v) := by
  rw [render]
  split
  · rename_i hc
    rw [textInside_of_no_contents ht.live hc]
  · rename_i c hc
    obtain ⟨container, entries, -, hid, hentries, htext⟩ := textInside_of_contents? hc
    have hmem := ht.mem_iff container c.id hid
    rw [htext]
    by_cases hopen : c.id ∈ opened
    · rw [dif_pos hopen, if_pos (hmem.mp hopen)]
      simp only [String.append_assoc]
    -- All that is written up to the bracket is inside of this container, and closing it again leaves
    -- the identities that were open before.
    · have hvalue := render_value hids (ht.cons hids hid)
      rw [dif_neg hopen, if_neg (fun hin => hopen (hmem.mpr hin)), hentries, render_entries hvalue, render,
        List.erase_cons_head]
      simp only [String.append_assoc]
-- Inside of a container there are fewer identities left to open.
termination_by h.closedIds opened
decreasing_by exact closedIds_cons_lt (id_mem_ids (by assumption)) (by assumption)

/-! ### The end of the loop -/

/-- The loop with a limit on its rounds; nothing comes back if there are not enough. -/
def renderWithin (h : Heap) : Nat → List Nat → List Piece → String → Option String
  | 0, _, _, _ => none
  | _ + 1, _, [], out => some out
  | n + 1, opened, .text s :: work, out => renderWithin h n opened work (out ++ s)
  | n + 1, opened, .close id s :: work, out => renderWithin h n (opened.erase id) work (out ++ s)
  | n + 1, opened, .value v :: work, out =>
    match h.contents? v with
    | none => renderWithin h n opened work (out ++ atomText v)
    | some c =>
      if c.id ∈ opened then
        renderWithin h n opened work (out ++ c.opening ++ "..." ++ c.closing)
      else
        renderWithin h n (c.id :: opened) (entryPieces c.entries ++ .close c.id c.closing :: work)
          (out ++ c.opening)

/-- With more rounds than the work weighs, the loop writes it all. -/
theorem renderWithin_of_weight (opened : List Nat) (work : List Piece) (out : String) (n : Nat)
    (hn : h.weight opened work < n) :
    h.renderWithin n opened work out = some (h.render opened work out) := by
  obtain ⟨n, rfl⟩ : ∃ k, n = k + 1 := ⟨n - 1, by omega⟩
  -- Each round writes a piece or opens a container, and the weight of the work goes down in both.
  fun_induction render h opened work out generalizing n with
  | case1 opened out => rfl
  | case2 opened out s work ih =>
      rw [weight] at hn
      obtain ⟨n, rfl⟩ : ∃ k, n = k + 1 := ⟨n - 1, by omega⟩
      exact ih n (by omega)
  | case3 opened out id s work ih =>
      rw [weight] at hn
      obtain ⟨n, rfl⟩ : ∃ k, n = k + 1 := ⟨n - 1, by omega⟩
      exact ih n (by omega)
  | case4 opened out v work hc ih =>
      have hpos := cost_pos h.volume (h.closedIds opened)
      rw [weight] at hn
      obtain ⟨n, rfl⟩ : ∃ k, n = k + 1 := ⟨n - 1, by omega⟩
      rw [renderWithin, hc]
      exact ih n (by omega)
  | case5 opened out v work c hc hopen ih =>
      have hpos := cost_pos h.volume (h.closedIds opened)
      rw [weight] at hn
      obtain ⟨n, rfl⟩ : ∃ k, n = k + 1 := ⟨n - 1, by omega⟩
      rw [renderWithin, hc]
      dsimp only
      rw [if_pos hopen]
      exact ih n (by omega)
  | case6 opened out v work c hc hopen ih =>
      have hlt : h.weight (c.id :: opened) (entryPieces c.entries ++ .close c.id c.closing :: work) <
          h.weight opened (.value v :: work) := weight_open_lt hc hopen c.closing
      obtain ⟨n, rfl⟩ : ∃ k, n = k + 1 := ⟨n - 1, by omega⟩
      rw [renderWithin, hc]
      dsimp only
      rw [if_neg hopen]
      exact ih n (by omega)

/-- At first all identities are closed. -/
theorem closedIds_nil (h : Heap) : h.closedIds [] = h.ids.length := by
  simp [closedIds]

/-- The text of a value agrees with its recursive definition, also on cyclic data. If no two containers
have one identity,

- writing a value ends, within rounds that the size of memory bounds;
- the text is the recursive one, except that a string on its own is not quoted;
- so each container is written in full wherever it is not inside itself, however often it stands there:
  with the texts of its elements, or of its fields in their order, and commas between them. -/
theorem display_eq_textInside (hids : h.ids.Nodup) (v : Value) (isolated : Bool) :
    h.renderWithin (cost h.volume h.ids.length + 1) [] [.value v] "" = some (h.display v) ∧
      (if isolated then h.displayAlone v else h.display v) =
        (match isolated, v with
          | true, .str s => s
          | _, v => h.textInside [] v) ∧
      ∀ enclosing,
        (∀ r, v = .list r → .list r ∉ enclosing → h.textInside enclosing v =
          "[" ++ ", ".intercalate ((h.items r).toList.map (h.textInside (.list r :: enclosing))) ++ "]") ∧
        (∀ r, v = .object r → .object r ∉ enclosing → h.textInside enclosing v =
          "\x7b" ++ ", ".intercalate ((h.fields r).entries.map fun e =>
            e.1 ++ ": " ++ h.textInside (.object r :: enclosing) e.2) ++ "\x7d") := by
  have hdisplay : h.display v = h.textInside [] v := by
    rw [display, render_value hids (tracks_nil h), render, String.empty_append]
  refine ⟨?_, ?_, fun enclosing => ⟨?_, ?_⟩⟩
  · have hweight : h.weight [] [.value v] < cost h.volume h.ids.length + 1 := by
      rw [weight, weight, closedIds_nil]
      omega
    rw [display, renderWithin_of_weight _ _ _ _ hweight]
  -- On its own a text is shown without quotes; inside of a container it is not.
  · cases isolated with
    | false => exact hdisplay
    | true =>
        cases v with
        | str s => rfl
        | _ => exact hdisplay
  · rintro r rfl hout
    rw [textInside_list, if_neg hout]
  · rintro r rfl hout
    rw [textInside_object, if_neg hout]

/-- A list that holds itself is cut short inside itself; a list that stands twice beside itself is
written twice. -/
theorem textInside_of_shared :
    let h : Heap := ⟨#[⟨1, #[.list ⟨1⟩, .list ⟨0⟩, .list ⟨1⟩]⟩, ⟨2, #[.null]⟩], #[]⟩
    h.ids.Nodup ∧ h.textInside [] (.list ⟨0⟩) = "[[null], [...], [null]]" := by
  intro h
  have hids : h.ids.Nodup := by decide
  obtain ⟨hends, htext, -⟩ := display_eq_textInside hids (.list ⟨0⟩) false
  have hwritten : h.renderWithin (cost h.volume h.ids.length + 1) [] [.value (.list ⟨0⟩)] "" =
      some "[[null], [...], [null]]" := by
    decide +kernel
  exact ⟨hids, htext.symm.trans (Option.some.inj (hends.symm.trans hwritten))⟩

end Heap

end Stepwise
