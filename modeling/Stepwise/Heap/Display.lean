import Stepwise.Heap
import Stepwise.Number.Layout

/-!
# `Stepwise.Heap.Display`: the text of a value

`Heap.display` writes a value. A container that is met again while it is being written, which is
told by its identity, is written as `[...]` or as dots in braces, so cyclic data has a text too. The
loop keeps what is still to be written in a worklist and never recurses on the depth of the data.

It ends because opening a container makes fewer identities available below it: `weight` bounds what
is left to do, and each step makes it smaller.
-/

set_option autoImplicit false

namespace Stepwise

namespace Heap

/-- What stands between the brackets of a container: its identity, its values with the text in front of
each, and its brackets. -/
structure Contents where
  id : Nat
  entries : List (String × Value)
  opening : String
  closing : String

/-- Puts a comma in front of every entry but the first. -/
def separate : List (String × Value) → List (String × Value)
  | [] => []
  | e :: rest => e :: rest.map fun e => (", " ++ e.1, e.2)

/-- The contents of a container in memory. -/
def contents? (h : Heap) : Value → Option Contents
  | .list r =>
    (h.list? r).map fun cell =>
      ⟨cell.id, separate (cell.items.toList.map fun v => ("", v)), "[", "]"⟩
  | .object r =>
    (h.object? r).map fun cell =>
      ⟨cell.id, separate (cell.fields.entries.map fun e => (e.1 ++ ": ", e.2)), "\x7b", "\x7d"⟩
  | _ => none

/-- The identity numbers of all cells. -/
def ids (h : Heap) : List Nat :=
  h.lists.toList.map ListCell.id ++ h.objects.toList.map ObjectCell.id

/-- The sum of a list of sizes. -/
def total : List Nat → Nat
  | [] => 0
  | n :: ns => n + total ns

/-- The number of elements or fields of all cells together. -/
def volume (h : Heap) : Nat :=
  total (h.lists.toList.map fun cell => cell.items.size) +
    total (h.objects.toList.map fun cell => cell.fields.size)

/-- A piece of text that is still to be written. -/
inductive Piece where
  | text (s : String)
  | value (v : Value)
  /-- The end of the container with an identity. -/
  | close (id : Nat) (s : String)

/-- The pieces of the entries of a container. -/
def entryPieces (entries : List (String × Value)) : List Piece :=
  entries.flatMap fun e => [.text e.1, .value e.2]

/-! ### The measure -/

/-- A bound on the steps to write a value when `k` identities are not open. -/
def cost (volume : Nat) : Nat → Nat
  | 0 => 1
  | k + 1 => volume * (cost volume k + 1) + 2

/-- The identities that are not open. -/
def closedIds (h : Heap) (opened : List Nat) : Nat :=
  (h.ids.filter fun id => !opened.contains id).length

/-- A bound on the steps to write the worklist. -/
def weight (h : Heap) : List Nat → List Piece → Nat
  | _, [] => 0
  | opened, .text _ :: work => 1 + weight h opened work
  | opened, .close id _ :: work => 1 + weight h (opened.erase id) work
  | opened, .value _ :: work => cost h.volume (h.closedIds opened) + weight h opened work

/-- Writing a value takes a step. -/
theorem cost_pos (volume k : Nat) : 0 < cost volume k := by
  cases k <;> simp [cost]

/-- More identities only raise the bound. -/
theorem cost_mono (volume : Nat) {j k : Nat} (h : j ≤ k) : cost volume j ≤ cost volume k := by
  have hstep : ∀ k, cost volume k ≤ cost volume (k + 1) := by
    intro k
    induction k with
    | zero => simp [cost]
    | succ k ih =>
        simp only [cost]
        have := Nat.mul_le_mul_left volume (Nat.succ_le_succ ih)
        simp only [cost, Nat.succ_eq_add_one] at this
        omega
  induction h with
  | refl => exact Nat.le_refl _
  | step _ ih => exact Nat.le_trans ih (hstep _)

/-- Separating entries keeps their number. -/
theorem length_separate (entries : List (String × Value)) :
    (separate entries).length = entries.length := by
  cases entries <;> simp [separate]

/-- A member of a list of sizes is at most their sum. -/
theorem le_total_of_mem {n : Nat} : ∀ {ns : List Nat}, n ∈ ns → n ≤ total ns
  | m :: ns, h => by
    rcases List.mem_cons.mp h with rfl | h
    · exact Nat.le_add_right _ _
    · exact Nat.le_trans (le_total_of_mem h) (Nat.le_add_left _ _)

/-- A container has no more entries than the heap has slots. -/
theorem length_entries_le {h : Heap} {v : Value} {c : Contents} (hc : h.contents? v = some c) :
    c.entries.length ≤ h.volume := by
  cases v with
  | list r =>
      obtain ⟨cell, hcell, rfl⟩ := Option.map_eq_some_iff.mp hc
      have hmem : cell ∈ h.lists.toList := by
        simpa using Array.mem_of_getElem? hcell
      have := le_total_of_mem (List.mem_map_of_mem (f := fun cell => cell.items.size) hmem)
      simp only [length_separate, List.length_map, Array.length_toList, volume]
      omega
  | object r =>
      obtain ⟨cell, hcell, rfl⟩ := Option.map_eq_some_iff.mp hc
      have hmem : cell ∈ h.objects.toList := by
        simpa using Array.mem_of_getElem? hcell
      have := le_total_of_mem (List.mem_map_of_mem (f := fun cell => cell.fields.size) hmem)
      simp only [length_separate, List.length_map, volume]
      simp only [Fields.size] at this ⊢
      omega
  | _ => cases hc

/-- The identity of a container is one of the heap's. -/
theorem id_mem_ids {h : Heap} {v : Value} {c : Contents} (hc : h.contents? v = some c) :
    c.id ∈ h.ids := by
  cases v with
  | list r =>
      obtain ⟨cell, hcell, rfl⟩ := Option.map_eq_some_iff.mp hc
      have hmem : cell ∈ h.lists.toList := by
        simpa using Array.mem_of_getElem? hcell
      exact List.mem_append_left _ (List.mem_map_of_mem hmem)
  | object r =>
      obtain ⟨cell, hcell, rfl⟩ := Option.map_eq_some_iff.mp hc
      have hmem : cell ∈ h.objects.toList := by
        simpa using Array.mem_of_getElem? hcell
      exact List.mem_append_right _ (List.mem_map_of_mem hmem)
  | _ => cases hc

/-- A filter that refuses more keeps less, and strictly less if it refuses a member that the other
keeps. -/
theorem length_filter_lt {α : Type} {p q : α → Bool} {a : α} :
    ∀ {xs : List α}, (∀ x, q x = true → p x = true) → a ∈ xs → p a = true → q a = false →
      (xs.filter q).length < (xs.filter p).length
  | x :: xs, hqp, ha, hp, hq => by
    have hle : ∀ ys : List α, (ys.filter q).length ≤ (ys.filter p).length := by
      intro ys
      induction ys with
      | nil => simp
      | cons y ys ih =>
          by_cases hqy : q y = true
          · simp [hqy, hqp y hqy, ih]
          · by_cases hpy : p y = true
            · simp [hqy, hpy]
              omega
            · simp [hqy, hpy, ih]
    by_cases hax : a = x
    · subst hax
      have := hle xs
      simp [hp, hq]
      omega
    · have ha' : a ∈ xs := by simpa [hax] using ha
      have := length_filter_lt hqp ha' hp hq
      by_cases hqx : q x = true
      · simp [hqx, hqp x hqx, this]
      · by_cases hpx : p x = true
        · simp [hqx, hpx]
          omega
        · simp [hqx, hpx, this]

/-- Opening a container leaves fewer identities closed. -/
theorem closedIds_cons_lt {h : Heap} {opened : List Nat} {id : Nat} (hid : id ∈ h.ids)
    (hopen : id ∉ opened) : h.closedIds (id :: opened) < h.closedIds opened := by
  refine length_filter_lt (a := id) ?_ hid ?_ ?_
  · intro x hx
    simp only [List.contains_eq_mem, List.mem_cons, Bool.not_eq_true', decide_eq_false_iff_not,
      not_or] at hx ⊢
    exact hx.2
  · simpa using hopen
  · simp

/-- The weight of the entries of a container in front of other work. -/
theorem weight_entryPieces (h : Heap) (opened : List Nat) (work : List Piece) :
    ∀ entries : List (String × Value),
      weight h opened (entryPieces entries ++ work) =
        entries.length * (cost h.volume (h.closedIds opened) + 1) + weight h opened work
  | [] => by simp [entryPieces]
  | e :: entries => by
    have ih := weight_entryPieces h opened work entries
    simp only [entryPieces] at ih
    simp only [entryPieces, List.flatMap_cons, List.cons_append, List.nil_append, weight, ih,
      List.length_cons]
    rw [Nat.succ_mul]
    omega

/-- Opening a container lowers the weight. -/
theorem weight_open_lt {h : Heap} {opened : List Nat} {work : List Piece} {v : Value}
    {c : Contents} (hc : h.contents? v = some c) (hopen : c.id ∉ opened) (s : String) :
    weight h (c.id :: opened) (entryPieces c.entries ++ .close c.id s :: work) <
      weight h opened (.value v :: work) := by
  have hlt := closedIds_cons_lt (id_mem_ids hc) hopen
  have hlen := length_entries_le hc
  have hcost := cost_mono h.volume (Nat.succ_le_of_lt hlt)
  rw [weight_entryPieces]
  simp only [weight, List.erase_cons_head]
  simp only [cost] at hcost
  have := Nat.mul_le_mul_right (cost h.volume (h.closedIds (c.id :: opened)) + 1) hlen
  omega

/-! ### Writing -/

/-- The text of a value that is no container in memory. -/
def atomText : Value → String
  | .null => "null"
  | .bool b => if b then "true" else "false"
  | .int n => Number.writeInt n
  | .float x => Number.writeFloat x
  | .str s => "\"" ++ s ++ "\""
  | .function f => "FUNC:0x" ++ String.ofList (Nat.toDigits 16 f.id)
  | .reference r => "VAR:0x" ++ String.ofList (Nat.toDigits 16 r.id)
  | .list _ => "[]"
  | .object _ => "\x7b\x7d"

/-- Writes the worklist behind `out`; `opened` holds the identities of the containers that are being
written. -/
def render (h : Heap) (opened : List Nat) (work : List Piece) (out : String) : String :=
  match work with
  | [] => out
  | .text s :: work => render h opened work (out ++ s)
  | .close id s :: work => render h (opened.erase id) work (out ++ s)
  | .value v :: work =>
    match _hc : h.contents? v with
    | none => render h opened work (out ++ atomText v)
    | some c =>
      -- Only a container inside of itself is cut short; one that was closed before is written in full.
      if _hopen : c.id ∈ opened then
        render h opened work (out ++ c.opening ++ "..." ++ c.closing)
      else
        render h (c.id :: opened) (entryPieces c.entries ++ .close c.id c.closing :: work)
          (out ++ c.opening)
termination_by weight h opened work
decreasing_by
  · simp [weight]
  · simp [weight]
  · have := cost_pos h.volume (h.closedIds opened)
    simp only [weight]
    omega
  · have := cost_pos h.volume (h.closedIds opened)
    simp only [weight]
    omega
  · exact weight_open_lt _hc _hopen c.closing

/-- The text of a value inside of another one: a string is quoted. -/
def display (h : Heap) (v : Value) : String :=
  h.render [] [.value v] ""

/-- The text of a value on its own: a string is written as it is. -/
def displayAlone (h : Heap) : Value → String
  | .str s => s
  | v => h.display v

/-- The text of a value for a diagnosis: a string is quoted and escaped. -/
def inspect (h : Heap) : Value → String
  | .str s => Text.doubleQuoted s
  | v => h.display v

/-- The fault of a value that is not as wanted. -/
def wantFault (h : Heap) (want : Want) (v : Value) : Fault :=
  .typeAssertion want (h.display v)

end Heap

end Stepwise
