import Stepwise.Proofs.Bisimilarity
import Stepwise.Proofs.Footprint
import Stepwise.Proofs.Slices

/-!
# `Stepwise.Proofs.InsertionOrder`: objects keep the order of insertion

A script changes the fields of an object by assigning to them and by popping them. A history is the list of
these changes, the earliest first, since the object had no field. Two things are read off a history alone:

* `FieldChange.bound?`: what is bound under a key. The last change of the key decides, whatever was done to
  other keys since.
* `FieldChange.BoundSince`: the number of the change by which a bound key last went from absent to bound.

`Fields.Follows` says that the fields of an object are as its history has it: they give what is bound, and
their keys stand in the order in which they were last bound. One assignment keeps this (`Follows.set`) and so
does one removal (`Follows.remove`), so every history does (`Records.changed`).
`State.objects_keep_insertion_order` says what the operations on the object answer then.
-/

set_option autoImplicit false

namespace Stepwise

/-! ### Histories -/

/-- A change of one field of an object: an assignment through a reference to the field, which has an identity
of its own, or the operation `pop`. -/
inductive FieldChange where
  | set (id : Nat) (key : String) (v : Value)
  | remove (key : String)

namespace FieldChange

/-- The key of the field. -/
def key : FieldChange → String
  | set _ key _ => key
  | remove key => key

/-- What the change leaves under its key. -/
def left? : FieldChange → Option Value
  | set _ _ v => some v
  | remove _ => none

/-- What is bound under a key after a history: what the last change of the key has left there. -/
def bound? (history : List FieldChange) (key : String) : Option Value :=
  (history.reverse.find? fun c => c.key == key).bind left?

/-- A key that is bound after a history was last bound by the change with number `n`, counted from zero: it
was absent before that change and is bound ever since. -/
structure BoundSince (history : List FieldChange) (key : String) (n : Nat) : Prop where
  lt : n < history.length
  absent : bound? (history.take n) key = none
  bound : ∀ m, n < m → m ≤ history.length → (bound? (history.take m) key).isSome

variable {history : List FieldChange} {c : FieldChange} {key : String} {n : Nat}

/-- One more change decides about its own key and about no other one. -/
theorem bound?_concat (history : List FieldChange) (c : FieldChange) (key : String) :
    bound? (history ++ [c]) key = if c.key = key then c.left? else bound? history key := by
  unfold bound?
  rw [List.reverse_append, List.reverse_singleton, List.singleton_append]
  by_cases hkey : c.key = key
  · rw [if_pos hkey, List.find?_cons_of_pos (by simpa using hkey)]
    rfl
  · rw [if_neg hkey, List.find?_cons_of_neg (by simpa using hkey)]

/-- One more change does not bind a bound key anew. -/
theorem BoundSince.of_concat (h : BoundSince (history ++ [c]) key n) (hbound : (bound? history key).isSome) :
    BoundSince history key n := by
  have htake {m : Nat} (hm : m ≤ history.length) : (history ++ [c]).take m = history.take m :=
    List.take_append_of_le_length hm
  have hle : n ≤ history.length := by
    have hlt := h.lt
    rw [List.length_append, List.length_singleton] at hlt
    omega
  have habsent : bound? (history.take n) key = none := htake hle ▸ h.absent
  refine ⟨?_, habsent, ?_⟩
  · -- The key is absent after `n` changes and bound after all of them.
    refine Nat.lt_of_le_of_ne hle ?_
    rintro rfl
    rw [List.take_length] at habsent
    simp [habsent] at hbound
  · intro m hnm hm
    rw [← htake hm]
    exact h.bound m hnm (by simp; omega)

/-- A bound key that stays bound keeps its number. -/
theorem BoundSince.concat (h : BoundSince history key n) (hbound : (bound? (history ++ [c]) key).isSome) :
    BoundSince (history ++ [c]) key n := by
  have hlt := h.lt
  refine ⟨by simp; omega, ?_, ?_⟩
  · rw [List.take_append_of_le_length (by omega)]
    exact h.absent
  · intro m hnm hm
    rcases Nat.lt_or_ge history.length m with hlast | hm
    · rw [List.take_of_length_le (by simp; omega)]
      exact hbound
    · rw [List.take_append_of_le_length hm]
      exact h.bound m hnm hm

/-- A key that was absent and is bound by the last change has the number of that change. -/
theorem boundSince_last (habsent : bound? history key = none)
    (hbound : (bound? (history ++ [c]) key).isSome) : BoundSince (history ++ [c]) key history.length := by
  refine ⟨by simp, ?_, ?_⟩
  · rw [List.take_left]
    exact habsent
  · intro m hm _
    rw [List.take_of_length_le (by simp; omega)]
    exact hbound

theorem BoundSince.eq_length (h : BoundSince (history ++ [c]) key n) (habsent : bound? history key = none) :
    n = history.length := by
  have hlt := h.lt
  rw [List.length_append, List.length_singleton] at hlt
  by_contra hne
  have hbound := h.bound history.length (by omega) (by simp)
  rw [List.take_left, habsent] at hbound
  cases hbound

end FieldChange

open FieldChange (bound? BoundSince)

/-! ### Fields -/

namespace Fields

variable {f : Fields} {history : List FieldChange}

/-- An erased key is absent, and the others give what they gave. -/
theorem get?_erase (hf : f.keys.Nodup) (key k : String) :
    (f.erase key).get? k = if k = key then none else f.get? k := by
  obtain ⟨entries⟩ := f
  simp only [erase, get?, keys] at hf ⊢
  induction entries with
  | nil => simp
  | cons e rest ih =>
      obtain ⟨name, v⟩ := e
      rw [List.map_cons, List.nodup_cons] at hf
      by_cases hname : name = key
      · -- No other entry has the key, so it is gone with this one.
        subst hname
        rw [List.eraseP_cons_of_pos (by simp)]
        by_cases hk : k = name
        · subst hk
          rw [if_pos rfl]
          refine List.lookup_eq_none_iff.mpr ?_
          intro e he
          have hne : k ≠ e.1 := fun heq => hf.1 (List.mem_map.mpr ⟨e, he, heq.symm⟩)
          simpa using hne
        · rw [if_neg hk, List.lookup_cons, beq_false_of_ne hk]
      -- The entry is another one and stays in front of what is erased behind it.
      · rw [List.eraseP_cons_of_neg (by simpa using hname), List.lookup_cons, List.lookup_cons, ih hf.2]
        by_cases hk : k = name
        · subst hk
          simp [hname]
        · rw [beq_false_of_ne hk]

theorem erase_of_absent {key : String} (h : f.get? key = none) : f.erase key = f := by
  have hnot : ∀ e ∈ f.entries, ¬ (e.1 == key) = true := by
    intro e he
    have hne := List.lookup_eq_none_iff.mp h e he
    simp only [bne_iff_ne] at hne
    simpa using Ne.symm hne
  show Fields.mk (f.entries.eraseP _) = f
  rw [List.eraseP_of_forall_not hnot]

/-- If no key is bound twice, the values are what the keys give, place by place. -/
theorem values_eq_get? (hf : f.keys.Nodup) : f.values.map some = f.keys.map f.get? := by
  rw [values, keys, List.map_map, List.map_map]
  refine List.map_congr_left ?_
  intro e he
  exact (get?_of_mem hf he).symm

/-- Fields are as a history has it: a key gives what is bound under it, no key stands twice, and the keys
stand in the order in which they were last bound. -/
structure Follows (f : Fields) (history : List FieldChange) : Prop where
  get : ∀ key, f.get? key = bound? history key
  nodup : f.keys.Nodup
  since : ∀ key ∈ f.keys, ∃ n, BoundSince history key n
  ordered : f.keys.Pairwise fun a b => ∀ m n, BoundSince history a m → BoundSince history b n → m < n

theorem follows_empty : Fields.empty.Follows [] where
  get := fun _ => rfl
  nodup := List.nodup_nil
  since := by simp [keys, empty]
  ordered := List.Pairwise.nil

/-- The keys are those that are bound. -/
theorem Follows.mem_keys_iff (h : f.Follows history) (key : String) :
    key ∈ f.keys ↔ (bound? history key).isSome := by
  rw [← isSome_get?_iff, h.get]

/-- An assignment binds its key. A key that is there keeps its place, and a new one comes last: it is the
only one that the last change has bound. -/
theorem Follows.set (h : f.Follows history) (id : Nat) (key : String) (v : Value) :
    (f.insert key v).Follows (history ++ [.set id key v]) := by
  -- What is read after the change is what the history with the change has bound.
  have hget (k : String) : (f.insert key v).get? k = bound? (history ++ [.set id key v]) k := by
    rw [get?_insert, FieldChange.bound?_concat, h.get]
    show (if k = key then some v else _) = if key = k then some v else _
    simp [eq_comm]
  have hkey : (bound? (history ++ [.set id key v]) key).isSome := by
    rw [← hget, get?_insert, if_pos rfl]
    rfl
  have hstays (k : String) (hk : k ∈ f.keys) : (bound? (history ++ [.set id key v]) k).isSome := by
    rw [← hget, get?_insert]
    split
    · rfl
    · exact isSome_get?_iff.mpr hk
  have hsince (k : String) (hk : k ∈ f.keys) : ∃ n, BoundSince (history ++ [.set id key v]) k n := by
    obtain ⟨n, hn⟩ := h.since k hk
    exact ⟨n, hn.concat (hstays k hk)⟩
  -- The order of the keys that were there is the order in which they were bound, before as after.
  have hordered : f.keys.Pairwise fun a b => ∀ m n, BoundSince (history ++ [.set id key v]) a m →
      BoundSince (history ++ [.set id key v]) b n → m < n := by
    refine h.ordered.imp_of_mem ?_
    intro a b ha hb hab m n hm hn
    exact hab m n (hm.of_concat ((h.mem_keys_iff a).mp ha)) (hn.of_concat ((h.mem_keys_iff b).mp hb))
  -- A key that is there stays where it is, and a new one goes to the end.
  by_cases hmem : key ∈ f.keys
  · have hkeys : (f.insert key v).keys = f.keys := by rw [keys_insert, if_pos hmem]
    exact ⟨hget, hkeys ▸ h.nodup, hkeys ▸ hsince, hkeys ▸ hordered⟩
  · have hkeys : (f.insert key v).keys = f.keys ++ [key] := by rw [keys_insert, if_neg hmem]
    have habsent : bound? history key = none := by
      rw [← Option.not_isSome_iff_eq_none, ← h.mem_keys_iff]
      exact hmem
    refine ⟨hget, ?_, ?_, ?_⟩
    · rw [hkeys, List.nodup_append]
      refine ⟨h.nodup, by simp, ?_⟩
      intro a ha b hb hab
      rw [List.mem_singleton] at hb
      subst hab hb
      exact hmem ha
    · intro k hk
      rw [hkeys, List.mem_append, List.mem_singleton] at hk
      rcases hk with hk | rfl
      · exact hsince k hk
      · exact ⟨_, FieldChange.boundSince_last habsent hkey⟩
    · rw [hkeys, List.pairwise_append]
      refine ⟨hordered, List.pairwise_singleton _ _, ?_⟩
      intro a ha b hb m n hm hn
      rw [List.mem_singleton] at hb
      subst hb
      -- The new key is bound since the last change, and every other one since an earlier one.
      have hlast : n = history.length := hn.eq_length habsent
      have hearlier := (hm.of_concat ((h.mem_keys_iff a).mp ha)).lt
      omega

/-- A removal unbinds its key, and the others keep their order. -/
theorem Follows.remove (h : f.Follows history) (key : String) :
    (f.erase key).Follows (history ++ [.remove key]) := by
  have hget (k : String) : (f.erase key).get? k = bound? (history ++ [.remove key]) k := by
    rw [get?_erase h.nodup, FieldChange.bound?_concat, h.get]
    show (if k = key then none else _) = if key = k then none else _
    simp [eq_comm]
  have hkeys : (f.erase key).keys = f.keys.erase key := keys_erase f key
  have hsub : (f.erase key).keys.Sublist f.keys := hkeys ▸ List.erase_sublist
  refine ⟨hget, h.nodup.sublist hsub, ?_, ?_⟩
  · intro k hk
    obtain ⟨n, hn⟩ := h.since k (hsub.subset hk)
    refine ⟨n, hn.concat ?_⟩
    rw [← hget]
    exact isSome_get?_iff.mpr hk
  · refine (h.ordered.sublist hsub).imp_of_mem ?_
    intro a b ha hb hab m n hm hn
    -- A key that is still there was bound before the removal, so it is the same binding that is compared.
    have hbound (k : String) (hk : k ∈ (f.erase key).keys) : (bound? history k).isSome :=
      (h.mem_keys_iff k).mp (hsub.subset hk)
    exact hab m n (hm.of_concat (hbound a ha)) (hn.of_concat (hbound b hb))

end Fields

/-! ### Operations -/

/-- An object in memory stays there, whatever becomes of its fields. -/
theorem Heap.isSome_object?_modifyFields {h : Heap} {r : ObjectRef} (hr : (h.object? r).isSome)
    (g : Fields → Fields) : ((h.modifyFields r g).object? r).isSome := by
  have hid := h.idOf?_modifyFields r g (.object r)
  have hsome : ((h.modifyFields r g).idOf? (.object r)).isSome := by
    rw [hid]
    simpa [idOf?] using hr
  simpa [idOf?] using hsome

namespace State

/-- Makes a change to an object. -/
def change (st : State) (r : ObjectRef) : FieldChange → Except Fault Value × State
  | .set id key v => st.apply .assign [.reference ⟨id, .object r, .name key⟩, v]
  | .remove key => st.apply .pop [.object r, .str key]

/-- The state after a history of changes to an object; one that fails has no part in what comes later. -/
def changed (st : State) (r : ObjectRef) (history : List FieldChange) : State :=
  history.foldl (fun st c => (st.change r c).2) st

variable {st : State} {r : ObjectRef} {history : List FieldChange}

theorem change_set (st : State) (r : ObjectRef) (id : Nat) (key : String) (v : Value) :
    st.change r (.set id key v) =
      (.ok (.reference ⟨id, .object r, .name key⟩), { st with heap := st.heap.objectSet r key v }) :=
  rfl

theorem change_remove (st : State) (r : ObjectRef) (key : String) :
    st.change r (.remove key) =
      match st.heap.objectGet r key with
      | .error f => (.error f, st)
      | .ok v => (.ok v, { st with heap := st.heap.objectErase r key }) :=
  rfl

/-- The fields of an object in memory follow its history. -/
structure Records (st : State) (r : ObjectRef) (history : List FieldChange) : Prop where
  object : (st.heap.object? r).isSome
  fields : (st.heap.fields r).Follows history

theorem Records.objectGet (h : st.Records r history) (key : String) :
    st.heap.objectGet r key =
      match bound? history key with
      | some v => .ok v
      | none => .error (.missingKey key) := by
  have hget := h.fields.get key
  cases hbound : bound? history key with
  | some v => simp only [Heap.objectGet, hget, hbound]
  | none => simp only [Heap.objectGet, hget, hbound]

/-- A removal takes a key away that is bound and yields what was bound; without such a key it fails and changes
nothing. -/
theorem Records.change_remove (h : st.Records r history) (key : String) :
    st.change r (.remove key) =
      match bound? history key with
      | some v => (.ok v, { st with heap := st.heap.objectErase r key })
      | none => (.error (.missingKey key), st) := by
  rw [State.change_remove, h.objectGet]
  cases bound? history key with
  | some v => rfl
  | none => rfl

/-- One change is one more entry of the history. -/
theorem Records.change (h : st.Records r history) (c : FieldChange) :
    (st.change r c).2.Records r (history ++ [c]) := by
  cases c with
  | set id key v =>
      rw [change_set]
      refine ⟨Heap.isSome_object?_modifyFields h.object _, ?_⟩
      show ((st.heap.objectSet r key v).fields r).Follows _
      rw [Heap.objectSet, Heap.fields_modifyFields_self h.object]
      exact h.fields.set id key v
  | remove key =>
      have herased := h.fields.remove key
      rw [h.change_remove]
      cases hbound : bound? history key with
      | some v =>
          refine ⟨Heap.isSome_object?_modifyFields h.object _, ?_⟩
          show ((st.heap.objectErase r key).fields r).Follows _
          rw [Heap.objectErase, Heap.fields_modifyFields_self h.object]
          exact herased
      | none =>
          -- Nothing is under the key, so erasing it and leaving the fields alone are the same.
          rw [Fields.erase_of_absent ((h.fields.get key).trans hbound)] at herased
          exact ⟨h.object, herased⟩

/-- What is recorded so far goes on with every further change. -/
theorem Records.changed (h : st.Records r history) (more : List FieldChange) :
    (st.changed r more).Records r (history ++ more) := by
  induction more generalizing st history with
  | nil =>
      rw [List.append_nil]
      exact h
  | cons c more ih =>
      show ((st.change r c).2.changed r more).Records r (history ++ c :: more)
      rw [List.append_cons]
      exact ih (h.change c)

theorem records_of_empty {id : Nat} (hempty : st.heap.object? r = some ⟨id, .empty⟩) : st.Records r [] := by
  have hfields : st.heap.fields r = .empty := by simp [Heap.fields, hempty]
  refine ⟨by simp [hempty], ?_⟩
  rw [hfields]
  exact Fields.follows_empty

/-- Objects are maps that keep the order of insertion. Take an object without fields and any history of
assignments to its fields and removals of them. After it

* no key stands twice, the keys are those that are bound, and of two keys the one that stands first went from
  absent to bound before the other one last did;
* the values are those that are bound, at the places of their keys;
* a key gives what its last assignment has bound if it was not removed since, and is missing otherwise;
* the operations `keys` and `values` yield new lists of the keys and of the values;
* a removal yields what is bound under its key, and without that it fails and changes nothing. -/
theorem objects_keep_insertion_order {st : State} {r : ObjectRef} {id : Nat}
    (hempty : st.heap.object? r = some ⟨id, .empty⟩) (history : List FieldChange) :
    let later := st.changed r history
    let fields := later.heap.fields r
    fields.keys.Nodup ∧
    (∀ key, key ∈ fields.keys ↔ (bound? history key).isSome) ∧
    (∀ key ∈ fields.keys, ∃ n, BoundSince history key n) ∧
    (fields.keys.Pairwise fun a b => ∀ m n, BoundSince history a m → BoundSince history b n → m < n) ∧
    fields.values.map some = fields.keys.map (bound? history) ∧
    (∀ key, later.heap.objectGet r key =
      match bound? history key with
      | some v => .ok v
      | none => .error (.missingKey key)) ∧
    (∃ l more, later.apply .keys [.object r] = (.ok (.list l), more) ∧
      more.heap.items l = (fields.keys.map Value.str).toArray) ∧
    (∃ l more, later.apply .values [.object r] = (.ok (.list l), more) ∧
      more.heap.items l = fields.values.toArray) ∧
    ∀ key, later.change r (.remove key) =
      match bound? history key with
      | some v => (.ok v, { later with heap := later.heap.objectErase r key })
      | none => (.error (.missingKey key), later) := by
  intro later fields
  have hrecords : later.Records r history := (records_of_empty hempty).changed history
  have hfollows : fields.Follows history := hrecords.fields
  have hvalues : fields.values.map some = fields.keys.map (bound? history) := by
    rw [Fields.values_eq_get? hfollows.nodup]
    exact List.map_congr_left fun key _ => hfollows.get key
  -- Both operations make a list, and its handle gives the elements it was made of.
  have hlist (items : Array Value) :
      (later.makeList items).2.heap.items ⟨later.heap.lists.size⟩ = items := by
    rw [items_makeList, if_pos rfl]
  exact ⟨hfollows.nodup, hfollows.mem_keys_iff, hfollows.since, hfollows.ordered, hvalues,
    hrecords.objectGet, ⟨_, _, rfl, hlist _⟩, ⟨_, _, rfl, hlist _⟩, hrecords.change_remove⟩

/-- Three keys are bound; the second one is removed and bound again, so it comes last, and the first one is
bound again, which leaves it in its place. A key that was never bound cannot be removed. -/
theorem objects_keep_order_of_rebound_key :
    let st : State := { (default : State) with heap := ⟨#[], #[⟨1, .empty⟩]⟩ }
    let history : List FieldChange :=
      [.set 2 "a" (.int 1), .set 3 "b" (.int 2), .set 4 "c" (.int 3), .remove "b", .set 5 "b" (.int 4),
        .remove "x", .set 6 "a" (.int 5)]
    let later := st.changed ⟨0⟩ history
    (later.heap.fields ⟨0⟩).keys = ["a", "c", "b"] ∧
      (later.heap.fields ⟨0⟩).values.map some = [some (.int 5), some (.int 3), some (.int 4)] ∧
      later.heap.objectGet ⟨0⟩ "b" = .ok (.int 4) ∧
      later.change ⟨0⟩ (.remove "x") = (.error (.missingKey "x"), later) := by
  intro st history later
  have hempty : st.heap.object? ⟨0⟩ = some ⟨1, .empty⟩ := rfl
  obtain ⟨-, -, -, -, hvalues, hget, -, -, hremove⟩ := objects_keep_insertion_order hempty history
  have hkeys : (later.heap.fields ⟨0⟩).keys = ["a", "c", "b"] := by decide +kernel
  -- Of each key only the last change counts.
  have hfirst : bound? history "a" = some (.int 5) := rfl
  have hsecond : bound? history "c" = some (.int 3) := rfl
  have hbound : bound? history "b" = some (.int 4) := rfl
  have habsent : bound? history "x" = none := rfl
  refine ⟨hkeys, ?_, ?_, ?_⟩
  · rw [hvalues, hkeys, List.map_cons, List.map_cons, List.map_cons, hfirst, hsecond, hbound, List.map_nil]
  · rw [hget, hbound]
  · rw [hremove, habsent]

end State

end Stepwise
