import Mathlib.Order.Bounds.Basic
import Mathlib.Order.Nat
import Stepwise.Proofs.Slices

/-!
# `Stepwise.Proofs.Searching`: a search gives the first match

A text occurs at a position of another one if the segment there is the text (`Text.OccursAt`). The search goes
from position to position, so it ends at the least one (`Text.findFrom?_eq_some`).

The same search can be made on the encoded texts (`Text.BytesAt`), byte after byte, and the answer is then the
number of characters in front of the match. That it is the same answer rests on two facts. A match of bytes
never starts inside a character, since the bytes of a text are valid on their own
(`Text.exists_append_of_bytesAt`). And of two matches the one with fewer characters in front of it has fewer
bytes in front of it (`Text.utf8ByteSize_lt_of_length_lt`).

* `State.search_gives_first_match`: what a search in a text, a list or an object gives.
-/

set_option autoImplicit false

namespace Stepwise

/-! ### Occurrences in a text -/

namespace Text

/-- The characters of `s` from position `k` on, as many as `w` has, are `w`. -/
def OccursAt (w s : String) (k : Nat) : Prop :=
  String.ofList (segment s.toList k (k + w.length)) = w

instance (w s : String) (k : Nat) : Decidable (OccursAt w s k) :=
  inferInstanceAs (Decidable (_ = _))

/-- The bytes of `s` from offset `b` on, as many as `w` has, are those of `w`. -/
def BytesAt (w s : String) (b : Nat) : Prop :=
  b + w.utf8ByteSize ≤ s.utf8ByteSize ∧ s.toByteArray.extract b (b + w.utf8ByteSize) = w.toByteArray

variable {w s : String}

theorem occursAt_iff (k : Nat) : OccursAt w s k ↔ w.toList <+: s.toList.drop k := by
  have hcount : ((k : Int) + w.length).toNat - (k : Int).toNat = w.toList.length := by
    rw [String.length_toList]
    omega
  unfold OccursAt
  rw [segment_eq, hcount, Int.toNat_natCast, ← String.toList_inj, String.toList_ofList, List.prefix_iff_eq_take]
  exact eq_comm

/-- A text occurs behind the characters that are in front of it. -/
theorem occursAt_append (t u : String) : OccursAt w (t ++ w ++ u) t.length := by
  rw [occursAt_iff, String.toList_append, String.toList_append, ← String.length_toList, List.append_assoc,
    List.drop_left]
  exact List.prefix_append _ _

/-- In front of an occurrence stand as many characters as its position says, or all of them: a text without
characters occurs behind the end too. -/
theorem exists_append_of_occursAt {k : Nat} (h : OccursAt w s k) :
    ∃ t u, s = t ++ w ++ u ∧ t.length = min k s.length := by
  obtain ⟨rest, hrest⟩ := (occursAt_iff k).mp h
  refine ⟨String.ofList (s.toList.take k), String.ofList rest, ?_, ?_⟩
  · apply String.toList_inj.mp
    simp only [String.toList_append, String.toList_ofList]
    rw [List.append_assoc, hrest, List.take_append_drop]
  · rw [String.length_ofList, List.length_take, String.length_toList]

/-- The search ends at the least position. -/
theorem findFrom?_eq_some {needle cs : List Char} {i k : Nat} (h : findFrom? needle cs i = some k) :
    ∃ d, k = i + d ∧ IsLeast {d | needle <+: cs.drop d} d := by
  induction cs generalizing i with
  | nil =>
      rw [findFrom?] at h
      split at h
      · rename_i hneedle
        cases h
        rw [List.isEmpty_iff] at hneedle
        subst hneedle
        exact ⟨0, rfl, List.nil_prefix, fun d _ => Nat.zero_le d⟩
      · cases h
  | cons c cs ih =>
      rw [findFrom?] at h
      split at h
      · rename_i hhere
        cases h
        exact ⟨0, rfl, List.isPrefixOf_iff_prefix.mp hhere, fun d _ => Nat.zero_le d⟩
      · rename_i hhere
        rw [List.isPrefixOf_iff_prefix] at hhere
        -- A place in the rest is one further in the text, and the first place is none.
        obtain ⟨d, hk, hd, hleast⟩ := ih h
        refine ⟨d + 1, by omega, hd, ?_⟩
        intro e he
        cases e with
        | zero => exact absurd he hhere
        | succ e => exact Nat.succ_le_succ (hleast he)

/-- The search goes on to the end as long as the text does not occur. -/
theorem findFrom?_eq_none {needle cs : List Char} {i : Nat} (h : findFrom? needle cs i = none) (d : Nat) :
    ¬ needle <+: cs.drop d := by
  induction cs generalizing i d with
  | nil =>
      rw [findFrom?] at h
      split at h
      · cases h
      · rename_i hneedle
        rw [List.drop_nil, List.prefix_nil]
        rwa [List.isEmpty_iff] at hneedle
  | cons c cs ih =>
      rw [findFrom?] at h
      split at h
      · cases h
      · rename_i hhere
        cases d with
        | zero => rwa [List.isPrefixOf_iff_prefix] at hhere
        | succ d => exact ih h d

/-! ### Occurrences in the bytes of a text -/

/-- The bytes of a text are found behind the bytes that are in front of it. -/
theorem bytesAt_append (t u : String) : BytesAt w (t ++ w ++ u) t.utf8ByteSize := by
  refine ⟨?_, ?_⟩
  · rw [String.utf8ByteSize_append, String.utf8ByteSize_append]
    omega
  · rw [String.append_assoc, String.toByteArray_append, ← String.size_toByteArray, ← String.size_toByteArray,
      ← Nat.add_zero t.toByteArray.size, Nat.add_assoc, ByteArray.extract_append_size_add,
      String.toByteArray_append, Nat.zero_add, ByteArray.extract_append_eq_left rfl]

/-- A match of bytes starts and ends between two characters, since the bytes in between are valid. -/
theorem exists_append_of_bytesAt (hw : w ≠ "") {b : Nat} (h : BytesAt w s b) :
    ∃ t u, s = t ++ w ++ u ∧ t.utf8ByteSize = b := by
  obtain ⟨hend, hbytes⟩ := h
  have hvalid : (s.toByteArray.extract b (b + w.utf8ByteSize)).IsValidUTF8 := by
    rw [hbytes]
    exact w.isValidUTF8
  have hsize : w.utf8ByteSize ≠ 0 := mt String.utf8ByteSize_eq_zero_iff.mp hw
  obtain hsame | ⟨hstart, hstop⟩ := (String.Pos.Raw.isValidUTF8_extract_iff ⟨b⟩ ⟨b + w.utf8ByteSize⟩
    (String.Pos.Raw.le_iff.mpr (Nat.le_add_right _ _)) (String.Pos.Raw.le_iff.mpr hend)).mp hvalid
  · have hb := congrArg String.Pos.Raw.byteIdx hsame
    simp only at hb
    omega
  obtain ⟨t, v, hs, ht⟩ := String.Pos.Raw.isValid_iff_exists_append.mp hstart
  obtain ⟨t', u, hs', ht'⟩ := String.Pos.Raw.isValid_iff_exists_append.mp hstop
  have hsize_t : b = t.utf8ByteSize := congrArg String.Pos.Raw.byteIdx ht
  have hsize_t' : b + w.utf8ByteSize = t'.utf8ByteSize := congrArg String.Pos.Raw.byteIdx ht'
  -- What is in front of the end of the match is what is in front of its start, and the match.
  have hfront : t' = t ++ w := by
    apply String.toByteArray_inj.mp
    calc t'.toByteArray = s.toByteArray.extract 0 (b + w.utf8ByteSize) := by
          rw [hs', String.toByteArray_append, ByteArray.extract_append_eq_left hsize_t']
      _ = s.toByteArray.extract 0 b ++ s.toByteArray.extract b (b + w.utf8ByteSize) :=
          ByteArray.extract_eq_extract_append_extract b (Nat.zero_le _) (Nat.le_add_right _ _)
      _ = (t ++ w).toByteArray := by
          rw [hbytes, String.toByteArray_append]
          rw [hs, String.toByteArray_append, ByteArray.extract_append_eq_left hsize_t]
  exact ⟨t, u, by rw [← hfront, ← hs'], hsize_t.symm⟩

/-- Of two places in a text, the one with fewer characters in front of it has fewer bytes in front of it. -/
theorem utf8ByteSize_lt_of_length_lt {t t' v v' : String} (h : t ++ v = t' ++ v')
    (hlt : t.length < t'.length) : t.utf8ByteSize < t'.utf8ByteSize := by
  have hchars : t.toList ++ v.toList = t'.toList ++ v'.toList := by
    rw [← String.toList_append, h, String.toList_append]
  have hprefix : t.toList <+: t'.toList := by
    refine List.prefix_of_prefix_length_le (List.prefix_append _ v.toList) ?_ ?_
    · rw [hchars]
      exact List.prefix_append _ _
    · rw [String.length_toList, String.length_toList]
      omega
  obtain ⟨cs, hcs⟩ := hprefix
  have ht' : t' = t ++ String.ofList cs := by
    rw [← String.toList_inj, String.toList_append, String.toList_ofList, hcs]
  -- What lies between the two places is not empty, and every character takes at least one byte.
  have hmore : (String.ofList cs).utf8ByteSize ≠ 0 := by
    intro hzero
    rw [ht', String.utf8ByteSize_eq_zero_iff.mp hzero, String.append_empty] at hlt
    exact Nat.lt_irrefl _ hlt
  rw [ht', String.utf8ByteSize_append]
  omega

/-- The first match of bytes starts between two characters. The empty text matches everywhere, and the first
place is the start. -/
theorem exists_append_of_isLeast_bytesAt {b : Nat} (h : IsLeast {b | BytesAt w s b} b) :
    ∃ t u, s = t ++ w ++ u ∧ t.utf8ByteSize = b := by
  by_cases hw : w = ""
  · subst hw
    have hstart : BytesAt "" s 0 := by
      refine ⟨Nat.zero_le _, ?_⟩
      exact ByteArray.extract_same
    have hb : b = 0 := Nat.le_zero.mp (h.2 hstart)
    exact ⟨"", s, by rw [String.append_empty, String.empty_append], hb.symm⟩
  · exact exists_append_of_bytesAt hw h.1

/-- The first match of bytes is the first match of characters. -/
theorem isLeast_occursAt_of_isLeast_bytesAt {b : Nat} (h : IsLeast {b | BytesAt w s b} b) :
    ∃ t u, s = t ++ w ++ u ∧ t.utf8ByteSize = b ∧ IsLeast {k | OccursAt w s k} t.length := by
  obtain ⟨t, u, hs, ht⟩ := exists_append_of_isLeast_bytesAt h
  refine ⟨t, u, hs, ht, ?_, ?_⟩
  · show OccursAt w s t.length
    rw [hs]
    exact occursAt_append t u
  · intro k hk
    by_contra hlt
    -- An earlier match of characters would be an earlier match of bytes.
    obtain ⟨t', u', hs', ht'⟩ := exists_append_of_occursAt hk
    have hfewer : t'.utf8ByteSize < t.utf8ByteSize := by
      apply utf8ByteSize_lt_of_length_lt
      · rw [← String.append_assoc, ← hs', hs, String.append_assoc]
      · omega
    have hbytes : BytesAt w s t'.utf8ByteSize := by
      rw [hs']
      exact bytesAt_append t' u'
    have hle : b ≤ t'.utf8ByteSize := h.2 hbytes
    omega

/-- A text occurs exactly if its bytes are found. -/
theorem exists_bytesAt_iff : (∃ b, BytesAt w s b) ↔ ∃ k, OccursAt w s k := by
  constructor
  · intro hb
    classical
    obtain ⟨t, u, hs, ht, hk⟩ := isLeast_occursAt_of_isLeast_bytesAt (Nat.isLeast_find hb)
    exact ⟨t.length, hk.1⟩
  · rintro ⟨k, hk⟩
    obtain ⟨t, u, hs, ht⟩ := exists_append_of_occursAt hk
    refine ⟨t.utf8ByteSize, ?_⟩
    rw [hs]
    exact bytesAt_append t u

end Text

/-! ### Searches -/

namespace State

/-- A search yields the least position with a property, or -1 if no position has it. A position that is no
script integer is an overflow. -/
structure FindsLeast (st : State) (args : List Value) (P : Nat → Prop) : Prop where
  least {k : Nat} {i : Int64} : IsLeast {k | P k} k → i.toInt = k → st.apply .find args = (.ok (.int i), st)
  overflow {k : Nat} : IsLeast {k | P k} k → ¬ Number.Fits k →
    st.apply .find args = (.error (.overflow .find), st)
  absent : st.apply .find args = (.ok (.int (-1)), st) ↔ ∀ k, ¬ P k

/-- What a search yields for the position that it has found. -/
def found : Option Nat → Except Fault Value
  | none => .ok (.int (-1))
  | some k => (fitting .find k).map .int

/-- No position is -1. -/
theorem found_some_ne (k : Nat) : found (some k) ≠ .ok (.int (-1)) := by
  intro h
  rw [found, fitting] at h
  cases hi : Number.checked k with
  | none =>
      rw [hi] at h
      cases h
  | some i =>
      rw [hi] at h
      have hminus : i = -1 := Value.int.inj (Except.ok.inj h)
      have hk : i.toInt = k := Number.toInt_of_checked hi
      have hneg : (-1 : Int64).toInt = -1 := by decide
      rw [hminus] at hk
      omega

/-- A search that finds the least position by some means. -/
theorem FindsLeast.of_found {st : State} {args : List Value} {P : Nat → Prop} {k? : Option Nat}
    (h : st.apply .find args = (found k?, st)) (hsome : ∀ k, k? = some k → IsLeast {k | P k} k)
    (hnone : k? = none → ∀ k, ¬ P k) : st.FindsLeast args P := by
  -- The least position is unique, so the one that was found is any least position.
  have hfound {k : Nat} (hk : IsLeast {k | P k} k) : k? = some k := by
    cases k? with
    | none => exact absurd hk.1 (hnone rfl k)
    | some m => rw [(hsome m rfl).unique hk]
  refine ⟨?_, ?_, ?_⟩
  · intro k i hk hi
    rw [h, hfound hk, found, fitting, ← hi, Number.checked_toInt]
    rfl
  · intro k hk hlarge
    rw [h, hfound hk, found, fitting, Number.checked_eq_none_iff.mpr hlarge]
    rfl
  · rw [h]
    cases k? with
    | none => exact ⟨fun _ => hnone rfl, fun _ => rfl⟩
    | some m =>
        refine ⟨fun hm => ?_, fun hm => ?_⟩
        · exact absurd (Prod.mk.inj hm).1 (found_some_ne m)
        · exact absurd (hsome m rfl).1 (hm m)

theorem apply_find (st : State) (v w : Value) : st.apply .find [v, w] = (st.heap.find v w, st) :=
  apply_of_value rfl

/-- A search in a text yields the first position at which the other text occurs. -/
theorem findsLeast_text (st : State) (s w : String) :
    st.FindsLeast [.str s, .str w] (Text.OccursAt w s) := by
  have hsearch : st.apply .find [.str s, .str w] = (found (Text.findFrom? w.toList s.toList 0), st) := by
    rw [apply_find]
    rfl
  have hoccurs : Text.OccursAt w s = fun k => w.toList <+: s.toList.drop k :=
    funext fun k => propext (Text.occursAt_iff k)
  rw [hoccurs]
  refine .of_found hsearch ?_ ?_
  · intro k hk
    obtain ⟨d, hd, hleast⟩ := Text.findFrom?_eq_some hk
    rwa [hd, Nat.zero_add]
  · intro hnone k
    exact Text.findFrom?_eq_none hnone k

/-- A search in a list yields the first position with an equal element. -/
theorem findsLeast_list (st : State) (r : ListRef) (w : Value) :
    st.FindsLeast [.list r, w] fun k =>
      ∃ item, (st.heap.items r)[k]? = some item ∧ st.heap.equal item w = true := by
  have hsearch : st.apply .find [.list r, w] =
      (found ((st.heap.items r).toList.findIdx? fun item => st.heap.equal item w), st) := by
    rw [apply_find]
    rfl
  refine .of_found hsearch ?_ ?_
  · intro k hk
    obtain ⟨hlt, hmatch, hbefore⟩ := List.findIdx?_eq_some_iff_getElem.mp hk
    refine ⟨⟨_, ?_, hmatch⟩, ?_⟩
    · rw [← Array.getElem?_toList, List.getElem?_eq_getElem hlt]
    -- An equal element before the one that was found would have been found.
    · rintro j ⟨item, hitem, hequal⟩
      by_contra hj
      have hno := hbefore j (by omega)
      rw [← Array.getElem?_toList, List.getElem?_eq_some_iff] at hitem
      obtain ⟨hjlt, hitem⟩ := hitem
      rw [hitem] at hno
      exact hno hequal
  · rintro hnone k ⟨item, hitem, hequal⟩
    have hmem : item ∈ (st.heap.items r).toList := Array.mem_toList_iff.mpr (Array.mem_of_getElem? hitem)
    rw [List.findIdx?_eq_none_iff.mp hnone item hmem] at hequal
    cases hequal

/-- A search in an object yields the key of the first field that matches. -/
theorem apply_find_object (st : State) (o : ObjectRef) (w : Value) :
    st.apply .find [.object o, w] =
      (.ok (((st.heap.fields o).entries.find? fun e => st.heap.equal e.2 w).elim .null fun e => .str e.1),
        st) := by
  rw [apply_find, Heap.find]
  cases (st.heap.fields o).entries.find? fun e => st.heap.equal e.2 w with
  | none => rfl
  | some e => rfl

theorem apply_find_object_eq_key (st : State) (o : ObjectRef) (w : Value) (key : String) :
    st.apply .find [.object o, w] = (.ok (.str key), st) ↔
      ∃ before v after, (st.heap.fields o).entries = before ++ (key, v) :: after ∧
        st.heap.equal v w = true ∧ ∀ e ∈ before, st.heap.equal e.2 w = false := by
  rw [apply_find_object]
  constructor
  · intro h
    cases hfind : (st.heap.fields o).entries.find? fun e => st.heap.equal e.2 w with
    | none =>
        rw [hfind] at h
        cases h
    | some e =>
        rw [hfind] at h
        cases h
        -- The entries in front of the first match are all different from what is looked for.
        obtain ⟨hmatch, before, after, hentries, hbefore⟩ := List.find?_eq_some_iff_append.mp hfind
        exact ⟨before, e.2, after, hentries, hmatch, by simpa using hbefore⟩
  · rintro ⟨before, v, after, hentries, hmatch, hbefore⟩
    have hfind : (st.heap.fields o).entries.find? (fun e => st.heap.equal e.2 w) = some (key, v) := by
      refine List.find?_eq_some_iff_append.mpr ⟨hmatch, before, after, hentries, ?_⟩
      simpa using hbefore
    rw [hfind]
    rfl

theorem apply_find_object_eq_null (st : State) (o : ObjectRef) (w : Value) :
    st.apply .find [.object o, w] = (.ok .null, st) ↔
      ∀ e ∈ (st.heap.fields o).entries, st.heap.equal e.2 w = false := by
  rw [apply_find_object]
  cases hfind : (st.heap.fields o).entries.find? fun e => st.heap.equal e.2 w with
  | none => simpa using hfind
  | some e =>
      refine ⟨fun h => (by cases h), fun h => ?_⟩
      have hmatch := List.find?_some hfind
      rw [h e (List.mem_of_find?_eq_some hfind)] at hmatch
      cases hmatch

/-- The slice of a text at a position is another text exactly if that one occurs there. -/
theorem apply_slice_eq_iff (st : State) (s w : String) {k : Nat} {i j : Int64} (hi : i.toInt = k)
    (hj : j.toInt = k + w.length) :
    st.apply .slice [.str s, .int i, .int j] = (.ok (.str w), st) ↔ Text.OccursAt w s k := by
  have hslice : st.apply .slice [.str s, .int i, .int j] =
      (.ok (.str (String.ofList (segment s.toList k (k + w.length)))), st) := by
    rw [apply_slice, Heap.slice_text, stopBound, hi, hj, ← String.length_toList,
      segment_normBound s.toList (by omega) (by omega)]
    rfl
  rw [hslice]
  show _ ↔ String.ofList _ = w
  simp only [Prod.mk.injEq, Except.ok.injEq, Value.str.injEq, and_true]

/-- A search gives the first match. In a text it is the least position at which the text that is looked for is
the slice; there is no match exactly if the answer is -1. To look for the bytes of the text comes to the same:
the first bytes that match start between two characters, and there are as many characters in front of them as
the position says. In a list the match is an equal element, with the same answers. In an object it is an equal
value, and the answer is the first key in the order of the fields, or null. -/
theorem search_gives_first_match (st : State) :
    (∀ (s w : String), st.FindsLeast [.str s, .str w] (Text.OccursAt w s) ∧
      (∀ (k : Nat) (i j : Int64), i.toInt = k → j.toInt = k + w.length →
        (st.apply .slice [.str s, .int i, .int j] = (.ok (.str w), st) ↔ Text.OccursAt w s k)) ∧
      (∀ b, IsLeast {b | Text.BytesAt w s b} b → ∃ t u, s = t ++ w ++ u ∧ t.utf8ByteSize = b ∧
        IsLeast {k | Text.OccursAt w s k} t.length) ∧
      ((∃ b, Text.BytesAt w s b) ↔ ∃ k, Text.OccursAt w s k)) ∧
    (∀ (r : ListRef) (w : Value), st.FindsLeast [.list r, w] fun k =>
      ∃ item, (st.heap.items r)[k]? = some item ∧ st.heap.equal item w = true) ∧
    (∀ (o : ObjectRef) (w : Value),
      (∀ key, st.apply .find [.object o, w] = (.ok (.str key), st) ↔
        ∃ before v after, (st.heap.fields o).entries = before ++ (key, v) :: after ∧
          st.heap.equal v w = true ∧ ∀ e ∈ before, st.heap.equal e.2 w = false) ∧
      (st.apply .find [.object o, w] = (.ok .null, st) ↔
        ∀ e ∈ (st.heap.fields o).entries, st.heap.equal e.2 w = false)) := by
  refine ⟨?_, st.findsLeast_list, ?_⟩
  -- Positions count characters; the last two parts say that counting bytes would find the same place.
  · intro s w
    refine ⟨st.findsLeast_text s w, ?_, ?_, Text.exists_bytesAt_iff⟩
    · intro k i j hi hj
      exact st.apply_slice_eq_iff s w hi hj
    · intro b hb
      exact Text.isLeast_occursAt_of_isLeast_bytesAt hb
  · intro o w
    exact ⟨st.apply_find_object_eq_key o w, st.apply_find_object_eq_null o w⟩

/-- A match behind a character of two bytes, with another match behind it. -/
theorem search_gives_first_match_behind_wide_character :
    let st : State := default
    IsLeast {k | Text.OccursAt "b" "añbb" k} 2 ∧
      st.apply .find [.str "añbb", .str "b"] = (.ok (.int 2), st) := by
  intro st
  have hleast : IsLeast {k | Text.OccursAt "b" "añbb" k} 2 := by
    refine ⟨by decide, ?_⟩
    intro k hk
    have hno : ∀ k < 2, ¬ Text.OccursAt "b" "añbb" k := by decide
    by_contra hlt
    exact hno k (by omega) hk
  exact ⟨hleast, ((search_gives_first_match st).1 "añbb" "b").1.least hleast (by decide)⟩

end State

end Stepwise
