import Stepwise.Proofs.Storage

/-!
# `Stepwise.Proofs.Slices`: slices of texts and lists

A slice is a segment of a text or a list: the elements at the positions between two bounds (`segment`). The
bounds are moved into the sequence over the unbounded integers (`normBound`), where nothing can overflow.

Texts are cut by dropping and taking characters, lists by copying a range. Both are the same segment
(`Heap.slice_text`, `Heap.slice_list`), because the bounds of a slice are the ones of the segment, put in
order (`sliceBounds_eq`).

* `State.slices_are_segments`: what the operations give for any bounds, and that a text or a list is the sum of
  what stands in front of a bound and what stands behind it.
-/

set_option autoImplicit false

namespace Stepwise

/-! ### Segments -/

/-- A bound moved into a sequence of `len` elements; a negative bound counts from the end. -/
def normBound (len : Nat) (i : Int) : Int :=
  max 0 (min len (if i < 0 then i + len else i))

/-- The elements at the positions from `first` on and before `last`, in order. -/
def segment {α : Type} (xs : List α) (first last : Int) : List α :=
  (xs.zipIdx.filter fun e => first ≤ e.2 ∧ e.2 < last).map Prod.fst

section

variable {α : Type}

/-- The elements at the positions between two bounds, if positions are counted from `k`. The first bound may
lie behind the elements or in front of them; in front of them nothing is dropped. -/
theorem map_filter_zipIdx (xs : List α) (first last k : Nat) :
    ((xs.zipIdx k).filter fun e => first ≤ e.2 ∧ e.2 < last).map Prod.fst =
      (xs.drop (first - k)).take (last - max first k) := by
  induction xs generalizing k with
  | nil => simp
  | cons x xs ih =>
      rw [List.zipIdx_cons, List.filter_cons]
      -- Either the first bound is reached and `x` may be kept, or `x` is one of those that are dropped.
      by_cases hfirst : first ≤ k
      · have hdrop : first - k = 0 := by omega
        have hdrop' : first - (k + 1) = 0 := by omega
        by_cases hlast : k < last
        · have htake : last - max first k = last - max first (k + 1) + 1 := by omega
          rw [if_pos (by simp [hfirst, hlast]), List.map_cons, ih, hdrop, hdrop', htake]
          rfl
        · have htake : last - max first k = 0 := by omega
          have htake' : last - max first (k + 1) = 0 := by omega
          rw [if_neg (by simp [hlast]), ih, htake, htake', List.take_zero, List.take_zero]
      · have hdrop : first - k = first - (k + 1) + 1 := by omega
        have htake : last - max first k = last - max first (k + 1) := by omega
        rw [if_neg (by simp [hfirst]), ih, hdrop, htake]
        rfl

/-- A segment is what is left when the elements in front of it are dropped, up to its length. -/
theorem segment_eq (xs : List α) (first last : Int) :
    segment xs first last = (xs.drop first.toNat).take (last.toNat - first.toNat) := by
  have hbounds : (fun e : α × Nat => decide (first ≤ e.2 ∧ e.2 < last)) =
      fun e => decide (first.toNat ≤ e.2 ∧ e.2 < last.toNat) := by
    funext e
    exact decide_eq_decide.mpr (by omega)
  unfold segment
  rw [hbounds, map_filter_zipIdx, Nat.max_zero, Nat.sub_zero]

/-- Bounds in the wrong order have nothing between them. -/
theorem segment_of_le (xs : List α) {first last : Int} (h : last ≤ first) : segment xs first last = [] := by
  have hlength : last.toNat - first.toNat = 0 := by omega
  rw [segment_eq, hlength, List.take_zero]

/-- A sequence is what stands in front of a bound and what stands behind it. -/
theorem segment_append_segment (xs : List α) (k : Int) :
    segment xs 0 k ++ segment xs k xs.length = xs := by
  have hrest : (xs.drop k.toNat).length ≤ xs.length - k.toNat := by simp
  rw [segment_eq, segment_eq, Int.toNat_natCast, List.take_of_length_le hrest]
  exact List.take_append_drop _ _

end

/-! ### Bounds -/

/-- The bound of a slice at its end: the end of the sequence if there is none. -/
def stopBound (len : Nat) : Option Int64 → Int
  | none => len
  | some i => normBound len i.toInt

theorem clampBound_eq (len : Nat) (i : Int64) : (clampBound len i : Int) = normBound len i.toInt := by
  unfold clampBound normBound
  split
  · omega
  · omega

/-- The bounds of a slice are those of a segment, put in order. -/
theorem sliceBounds_eq (len : Nat) (start : Int64) (stop : Option Int64) :
    sliceBounds len start stop =
      ((normBound len start.toInt).toNat,
        max (normBound len start.toInt).toNat (stopBound len stop).toNat) := by
  have hclamp (i : Int64) : clampBound len i = (normBound len i.toInt).toNat := by
    have hi := clampBound_eq len i
    omega
  cases stop with
  | none => rw [sliceBounds, hclamp, stopBound, Int.toNat_natCast]
  | some i => rw [sliceBounds, hclamp, hclamp, stopBound]

theorem normBound_zero (len : Nat) : normBound len 0 = 0 := by
  unfold normBound
  rw [if_neg (by omega)]
  omega

/-- A segment has nothing from outside the sequence, so bounds that are moved into it have the same segment. -/
theorem segment_normBound {α : Type} (xs : List α) {first last : Int} (hfirst : 0 ≤ first)
    (hlast : 0 ≤ last) :
    segment xs (normBound xs.length first) (normBound xs.length last) = segment xs first last := by
  unfold segment
  refine congrArg _ (List.filter_congr ?_)
  rintro ⟨x, p⟩ hmem
  have hp : p < xs.length := List.snd_lt_of_mem_zipIdx hmem
  unfold normBound
  rw [if_neg (by omega), if_neg (by omega)]
  exact decide_eq_decide.mpr (by omega)

namespace Heap

/-- A slice of a text is a segment of its characters. -/
theorem slice_text (h : Heap) (s : String) (start : Int64) (stop : Option Int64) :
    h.slice (.str s) start stop =
      .ok (.value (.str (String.ofList
        (segment s.toList (normBound s.length start.toInt) (stopBound s.length stop))))) := by
  -- The end is never in front of the start, so both take the same number of characters.
  have hcount (a b : Nat) : max a b - a = b - a := by omega
  rw [slice, sliceBounds_eq, segment_eq]
  simp only [hcount]

/-- A slice of a list is a segment of its elements. -/
theorem slice_list (h : Heap) (r : ListRef) (start : Int64) (stop : Option Int64) :
    h.slice (.list r) start stop =
      .ok (.list (segment (h.items r).toList (normBound (h.items r).size start.toInt)
        (stopBound (h.items r).size stop)).toArray) := by
  have hcount (a b : Nat) : max a b - a = b - a := by omega
  have hitems (a b : Nat) : (h.items r).extract a (max a b) =
      (((h.items r).toList.drop a).take (b - a)).toArray := by
    apply Array.ext'
    rw [Array.toList_extract, List.extract_eq_take_drop, hcount]
  rw [slice, sliceBounds_eq, segment_eq]
  simp only [hitems]

end Heap

/-! ### Operations -/

namespace State

/-- The outcome of an operation that yields a product. -/
def outcome (st : State) : Except Fault Product → Except Fault Value × State
  | .ok p => (.ok (st.realize p).1, (st.realize p).2)
  | .error f => (.error f, st)

/-- An operation that computes a product and yields it. -/
theorem apply_eq_outcome {st : State} {op : Op} {args : List Value} {r : Except Fault Product}
    (h : op.plan args st = r >>= fun p => .ok (.yield p)) : st.apply op args = st.outcome r := by
  rw [apply, h]
  cases r with
  | ok p => rfl
  | error f => rfl

theorem apply_slice (st : State) (v : Value) (a b : Int64) :
    st.apply .slice [v, .int a, .int b] = st.outcome (st.heap.slice v a (some b)) :=
  apply_eq_outcome rfl

theorem apply_sliceAfter (st : State) (v : Value) (a : Int64) :
    st.apply .sliceAfter [v, .int a] = st.outcome (st.heap.slice v a none) :=
  apply_eq_outcome rfl

/-! ### Sums -/

theorem items_makeList (st : State) (items : Array Value) (r : ListRef) :
    (st.makeList items).2.heap.items r = if r.index = st.heap.lists.size then items else st.heap.items r :=
  st.heap.items_newList st.nextId items r

/-- A list of elements of another one takes a place of its own. Only a list without elements could be in that
place, and then the new one has none either. -/
theorem items_makeList_of_segment (st : State) (r : ListRef) (first last : Int) :
    (st.makeList (segment (st.heap.items r).toList first last).toArray).2.heap.items r = st.heap.items r := by
  rw [items_makeList]
  split
  · rename_i hplace
    have hnone : st.heap.items r = #[] := by simp [Heap.items, Heap.list?, hplace]
    rw [hnone, segment_eq]
    simp
  · rfl

theorem apply_add_lists (st : State) (r q : ListRef) :
    st.apply (.arith .add) [.list r, .list q] =
      (.ok (st.makeList (st.heap.items r ++ st.heap.items q)).1,
        (st.makeList (st.heap.items r ++ st.heap.items q)).2) := by
  rfl

/-- Two lists that are made one after the other have the elements that they were made of. -/
theorem items_makeList_makeList (st : State) (front back : Array Value) :
    let st₁ := (st.makeList front).2
    let st₂ := (st₁.makeList back).2
    st₂.heap.items ⟨st.heap.lists.size⟩ = front ∧ st₂.heap.items ⟨st₁.heap.lists.size⟩ = back := by
  intro st₁ st₂
  have hsize : st₁.heap.lists.size = st.heap.lists.size + 1 := by
    simp [st₁, makeList, Heap.newList]
  refine ⟨?_, ?_⟩
  · show (st₁.makeList back).2.heap.items _ = front
    rw [items_makeList, if_neg (by simp [hsize]), items_makeList, if_pos rfl]
  · show (st₁.makeList back).2.heap.items _ = back
    rw [items_makeList, if_pos rfl]

/-- A text is the sum of what stands in front of a bound and what stands behind it. -/
theorem sum_of_text_slices (st : State) (s : String) (k : Int64) :
    ∃ front back, st.apply .slice [.str s, .int 0, .int k] = (.ok (.str front), st) ∧
      st.apply .sliceAfter [.str s, .int k] = (.ok (.str back), st) ∧
      st.apply (.arith .add) [.str front, .str back] = (.ok (.str s), st) := by
  have hzero : (0 : Int64).toInt = 0 := rfl
  generalize hbound : normBound s.length k.toInt = bound
  have hsum : String.ofList (segment s.toList 0 bound) ++ String.ofList (segment s.toList bound s.length) =
      s := by
    rw [← String.ofList_append, ← String.length_toList, segment_append_segment, String.ofList_toList]
  refine ⟨String.ofList (segment s.toList 0 bound),
    String.ofList (segment s.toList bound s.length), ?_, ?_, ?_⟩
  · rw [apply_slice, Heap.slice_text, stopBound, hzero, normBound_zero, hbound]
    rfl
  · rw [apply_sliceAfter, Heap.slice_text, stopBound, hbound]
    rfl
  · show (Except.ok (Value.str (_ ++ _)), st) = _
    rw [hsum]

/-- The elements in front of a bound and those behind it, as two new lists, have the list for their sum. -/
theorem sum_of_slices (st : State) (r : ListRef) (k : Int64) :
    ∃ front back whole st₁ st₂ st₃, st.apply .slice [.list r, .int 0, .int k] = (.ok (.list front), st₁) ∧
      st₁.apply .sliceAfter [.list r, .int k] = (.ok (.list back), st₂) ∧
      st₂.apply (.arith .add) [.list front, .list back] = (.ok (.list whole), st₃) ∧
      st₃.heap.items whole = st.heap.items r := by
  have hzero : (0 : Int64).toInt = 0 := rfl
  generalize hbound : normBound (st.heap.items r).size k.toInt = bound
  generalize hfront : (segment (st.heap.items r).toList 0 bound).toArray = front
  generalize hback : (segment (st.heap.items r).toList bound (st.heap.items r).size).toArray = back
  have hsum : front ++ back = st.heap.items r := by
    rw [← hfront, ← hback]
    apply Array.ext'
    simpa using segment_append_segment (st.heap.items r).toList bound
  -- The second slice is taken from the list as it was: the first one has not changed it.
  have hr : (st.makeList front).2.heap.items r = st.heap.items r := by
    rw [← hfront]
    exact st.items_makeList_of_segment r 0 bound
  have hslice : st.apply .slice [.list r, .int 0, .int k] =
      (.ok (st.makeList front).1, (st.makeList front).2) := by
    rw [apply_slice, Heap.slice_list, stopBound, hzero, normBound_zero, hbound, hfront]
    rfl
  generalize hst₁ : (st.makeList front).2 = st₁ at hr hslice
  have hsliceAfter : st₁.apply .sliceAfter [.list r, .int k] =
      (.ok (st₁.makeList back).1, (st₁.makeList back).2) := by
    rw [apply_sliceAfter, Heap.slice_list, stopBound, hr, hbound, hback]
    rfl
  obtain ⟨hitems₁, hitems₂⟩ := st.items_makeList_makeList front back
  rw [hst₁] at hitems₁ hitems₂
  refine ⟨_, _, _, st₁, _, _, hslice, hsliceAfter, apply_add_lists _ _ _, ?_⟩
  rw [hitems₁, hitems₂, hsum, items_makeList, if_pos rfl]

/-- Slices are segments, for any bounds. A slice of a text has the characters at the positions from its first
bound on and before its last one, and a slice of a list is a new list with the elements there; without a last
bound they go up to the end. There is nothing in a slice whose bounds are in the wrong order. The bounds that
are computed always lie inside the sequence and in order. And a text or a list is the sum of what stands in
front of any bound and what stands behind it. -/
theorem slices_are_segments (st : State) :
    (∀ (s : String) (a b : Int64),
      let first := normBound s.length a.toInt
      let last := normBound s.length b.toInt
      st.apply .slice [.str s, .int a, .int b] =
        (.ok (.str (String.ofList (segment s.toList first last))), st) ∧
      st.apply .sliceAfter [.str s, .int a] =
        (.ok (.str (String.ofList (segment s.toList first s.length))), st) ∧
      (last ≤ first → st.apply .slice [.str s, .int a, .int b] = (.ok (.str ""), st))) ∧
    (∀ (r : ListRef) (a b : Int64),
      let items := st.heap.items r
      let first := normBound items.size a.toInt
      let last := normBound items.size b.toInt
      let made := fun elements : List Value =>
        (Except.ok (st.makeList elements.toArray).1, (st.makeList elements.toArray).2)
      st.apply .slice [.list r, .int a, .int b] = made (segment items.toList first last) ∧
      st.apply .sliceAfter [.list r, .int a] = made (segment items.toList first items.size) ∧
      (last ≤ first → st.apply .slice [.list r, .int a, .int b] = made [])) ∧
    (∀ (len : Nat) (start : Int64) (stop : Option Int64),
      (sliceBounds len start stop).1 ≤ (sliceBounds len start stop).2 ∧
        (sliceBounds len start stop).2 ≤ len) ∧
    (∀ (s : String) (k : Int64), ∃ front back,
      st.apply .slice [.str s, .int 0, .int k] = (.ok (.str front), st) ∧
      st.apply .sliceAfter [.str s, .int k] = (.ok (.str back), st) ∧
      st.apply (.arith .add) [.str front, .str back] = (.ok (.str s), st)) ∧
    (∀ (r : ListRef) (k : Int64), ∃ front back whole st₁ st₂ st₃,
      st.apply .slice [.list r, .int 0, .int k] = (.ok (.list front), st₁) ∧
      st₁.apply .sliceAfter [.list r, .int k] = (.ok (.list back), st₂) ∧
      st₂.apply (.arith .add) [.list front, .list back] = (.ok (.list whole), st₃) ∧
      st₃.heap.items whole = st.heap.items r) := by
  refine ⟨?_, ?_, sliceBounds_le, st.sum_of_text_slices, st.sum_of_slices⟩
  · intro s a b first last
    -- The bounds may be any integers: what is computed from them lies inside the sequence.
    have hslice : st.apply .slice [.str s, .int a, .int b] =
        (.ok (.str (String.ofList (segment s.toList first last))), st) := by
      rw [apply_slice, Heap.slice_text]
      rfl
    refine ⟨hslice, ?_, ?_⟩
    · rw [apply_sliceAfter, Heap.slice_text]
      rfl
    · intro hle
      rw [hslice, segment_of_le _ hle]
  · intro r a b items first last made
    have hslice : st.apply .slice [.list r, .int a, .int b] = made (segment items.toList first last) := by
      rw [apply_slice, Heap.slice_list]
      rfl
    refine ⟨hslice, ?_, ?_⟩
    · rw [apply_sliceAfter, Heap.slice_list]
      rfl
    · intro hle
      rw [hslice, segment_of_le _ hle]

/-- A text with a character of two bytes, cut between negative bounds and between bounds in the wrong order. -/
theorem slices_are_segments_of_text :
    let st : State := default
    normBound 4 1 ≤ normBound 4 3 ∧
      st.apply .slice [.str "añbc", .int (-3), .int (-1)] = (.ok (.str "ñb"), st) ∧
      st.apply .slice [.str "añbc", .int 3, .int 1] = (.ok (.str ""), st) := by
  intro st
  have horder : normBound 4 1 ≤ normBound 4 3 := by decide
  have hinside : segment "añbc".toList (normBound 4 (-3)) (normBound 4 (-1)) = ['ñ', 'b'] := by decide
  have hslice := ((slices_are_segments st).1 "añbc" (-3) (-1)).1
  refine ⟨horder, hslice.trans ?_, ((slices_are_segments st).1 "añbc" 3 1).2.2 horder⟩
  show (Except.ok (Value.str (String.ofList (segment "añbc".toList (normBound 4 (-3)) (normBound 4 (-1))))),
    st) = _
  rw [hinside]

end State

end Stepwise
