import Mathlib.Data.List.Forall2
import Mathlib.Data.List.Perm.Subperm
import Stepwise.Proofs.Identity

/-!
# `Stepwise.Proofs.Bisimilarity`: equality of values is bisimilarity

Two values are equal by their contents if nothing tells them apart, however deep one looks. On cyclic
data this is no recursion: it is the greatest relation whose pairs agree on the surface and whose parts are
related again. `Agrees` is the surface, with the relation of the parts as a parameter, and two values are
bisimilar if some relation has their pair and agrees on all of its pairs.

The loop of `Heap.equalAll` takes a pair of containers that it meets again for equal.
`equal_iff_bisimilar` says that this never hides a difference and never finds one that is not there. The
proof rests on three facts about setting two values against each other: what is settled at once is
settled rightly (`agrees_of_settled`), what has parts agrees if its parts do (`agrees_of_containers`), and
a pair of identities stands for one pair of containers (`confront_inj`). A loop that ends well vouches for
the pairs that it has assumed (`exists_vouched`).

That the loop ends at all is counted: each pair of identities is assumed at most once, and brings no more
pairs than memory has slots (`equalWithin_of_bound`).
-/

set_option autoImplicit false

namespace Stepwise

/-! ### Keys -/

namespace Fields

variable {f : Fields} {key : String}

/-- A key is bound if it is among the keys. -/
theorem isSome_get?_iff : (f.get? key).isSome ↔ key ∈ f.keys := by
  simp [get?, keys]

/-- If no key is bound twice, each entry is what its key gives. -/
theorem get?_of_mem (hf : f.keys.Nodup) {v : Value} (hmem : (key, v) ∈ f.entries) :
    f.get? key = some v := by
  obtain ⟨entries⟩ := f
  simp only [get?, keys] at hf hmem ⊢
  induction entries with
  | nil => cases hmem
  | cons e rest ih =>
      rw [List.map_cons, List.nodup_cons] at hf
      rcases List.mem_cons.mp hmem with rfl | hmem
      · simp
      · have hne : key ≠ e.1 := by
          rintro rfl
          exact hf.1 (List.mem_map.mpr ⟨(e.1, v), hmem, rfl⟩)
        rw [List.lookup_cons, beq_false_of_ne hne]
        exact ih hf.2 hmem

/-- What a key gives is an entry. -/
theorem mem_of_get? {v : Value} (h : f.get? key = some v) : (key, v) ∈ f.entries := by
  obtain ⟨before, after, hentries, -⟩ := List.lookup_eq_some_iff.mp h
  simp [hentries]

end Fields

namespace Heap

/-! ### Pairs of parts -/

/-- A list is mapped to results with a property if each of its elements is. -/
theorem exists_mapM_iff {α β : Type} {f : α → Option β} {P : β → Prop} {xs : List α} :
    (∃ ys, xs.mapM f = some ys ∧ ∀ y ∈ ys, P y) ↔ ∀ x ∈ xs, ∃ y, f x = some y ∧ P y := by
  induction xs with
  | nil => simp
  | cons x xs ih =>
      rw [List.forall_mem_cons, ← ih, List.mapM_cons]
      constructor
      · rintro ⟨ys, hys, hall⟩
        obtain ⟨y, hy, hrest⟩ := Option.bind_eq_some_iff.mp hys
        obtain ⟨zs, hzs, hcons⟩ := Option.bind_eq_some_iff.mp hrest
        cases hcons
        rw [List.forall_mem_cons] at hall
        exact ⟨⟨y, hy, hall.1⟩, zs, hzs, hall.2⟩
      · rintro ⟨⟨y, hy, hP⟩, zs, hzs, hall⟩
        refine ⟨y :: zs, by simp [hy, hzs], ?_⟩
        rw [List.forall_mem_cons]
        exact ⟨hP, hall⟩

/-- A list is mapped to a list of the same length. -/
theorem length_of_mapM {α β : Type} {f : α → Option β} {xs : List α} {ys : List β}
    (h : xs.mapM f = some ys) : ys.length = xs.length := by
  induction xs generalizing ys with
  | nil =>
      cases h
      rfl
  | cons x xs ih =>
      rw [List.mapM_cons] at h
      obtain ⟨y, -, hrest⟩ := Option.bind_eq_some_iff.mp h
      obtain ⟨zs, hzs, hcons⟩ := Option.bind_eq_some_iff.mp hrest
      cases hcons
      rw [List.length_cons, List.length_cons, ih hzs]

variable {R : Value → Value → Prop}

/-- The pairs of the elements of two lists are all related if the lists have one length and are
related place by place. -/
theorem itemPairs_related {x y : Array Value} :
    (∃ parts, itemPairs x y = some parts ∧ ∀ p ∈ parts, R p.1 p.2) ↔
      List.Forall₂ R x.toList y.toList := by
  rw [List.forall₂_iff_zip]
  unfold itemPairs
  by_cases hsize : x.size = y.size
  · simp [hsize]
  · simp [hsize]

/-- The pairs of the values of two objects are all related if the objects have the same keys and are
related under each of them. -/
theorem fieldPairs_related {x y : Fields} (hx : x.keys.Nodup) (hy : y.keys.Nodup) :
    (∃ parts, fieldPairs x y = some parts ∧ ∀ p ∈ parts, R p.1 p.2) ↔
      (∀ key, key ∈ x.keys ↔ key ∈ y.keys) ∧
        ∀ key v w, x.get? key = some v → y.get? key = some w → R v w := by
  -- Each entry of the first object must have a partner in the second.
  have hpartners : (∃ parts, x.entries.mapM (fun e => (y.get? e.1).map fun w => (e.2, w)) = some parts ∧
      ∀ p ∈ parts, R p.1 p.2) ↔ ∀ e ∈ x.entries, ∃ w, y.get? e.1 = some w ∧ R e.2 w := by
    rw [exists_mapM_iff]
    simp
  unfold fieldPairs
  constructor
  · rintro ⟨parts, hparts, hrelated⟩
    split at hparts
    case isFalse => cases hparts
    rename_i hsize
    replace hpartners := hpartners.mp ⟨parts, hparts, hrelated⟩
    -- So the keys of the first object are among those of the second, and there are as many of both.
    have hsub : x.keys ⊆ y.keys := by
      intro key hkey
      obtain ⟨e, he, rfl⟩ := List.mem_map.mp hkey
      obtain ⟨w, hw, -⟩ := hpartners e he
      exact Fields.isSome_get?_iff.mp (by simp [hw])
    have hperm : x.keys.Perm y.keys := by
      refine (hx.subperm hsub).perm_of_length_le ?_
      simpa [Fields.keys, Fields.size] using Nat.le_of_eq hsize.symm
    refine ⟨fun key => hperm.mem_iff, ?_⟩
    intro key v w hv hw
    obtain ⟨w', hw', hR⟩ := hpartners (key, v) (Fields.mem_of_get? hv)
    rw [hw] at hw'
    cases hw'
    exact hR
  · rintro ⟨hkeys, hrelated⟩
    have hsize : x.size = y.size := by
      have hperm : x.keys.Perm y.keys := (List.perm_ext_iff_of_nodup hx hy).mpr hkeys
      simpa [Fields.keys, Fields.size] using hperm.length_eq
    rw [if_pos hsize]
    refine hpartners.mpr fun e he => ?_
    have hkey : e.1 ∈ y.keys := (hkeys e.1).mp (List.mem_map_of_mem he)
    obtain ⟨w, hw⟩ := Option.isSome_iff_exists.mp (Fields.isSome_get?_iff.mpr hkey)
    exact ⟨w, hw, hrelated e.1 e.2 w (Fields.get?_of_mem hx he) hw⟩

/-! ### Agreement of two values -/

/-- Two values agree on the surface, and their parts are related: they are the same container, or two
lists of one length that are related place by place, or two objects with the same keys that are related
under each key, or no two containers of one kind and equal as they are. -/
def Agrees (h : Heap) (R : Value → Value → Prop) : Value → Value → Prop
  | .list r, .list q =>
    r = q ∨ ∃ x y, h.list? r = some x ∧ h.list? q = some y ∧
      List.Forall₂ R x.items.toList y.items.toList
  | .object r, .object q =>
    r = q ∨ ∃ x y, h.object? r = some x ∧ h.object? q = some y ∧
      (∀ key, key ∈ x.fields.keys ↔ key ∈ y.fields.keys) ∧
      ∀ key v w, x.fields.get? key = some v → y.fields.get? key = some w → R v w
  | v, w => v.scalarEqual w = true

/-- Memory as it is made: no two containers have one identity, and no object binds a key twice. -/
structure Distinct (h : Heap) : Prop where
  ids : h.ids.Nodup
  keys : ∀ r cell, h.object? r = some cell → cell.fields.keys.Nodup

variable {h : Heap} {v w : Value}

/-- What two values come down to if it is not settled at once: two lists or two objects in memory. -/
theorem confront_containers {p : Nat × Nat} {parts : Option (List (Value × Value))}
    (hc : h.confront v w = .containers p parts) :
    (∃ r q x y, v = .list r ∧ w = .list q ∧ r ≠ q ∧ h.list? r = some x ∧ h.list? q = some y ∧
      p = (x.id, y.id) ∧ parts = itemPairs x.items y.items) ∨
    (∃ r q x y, v = .object r ∧ w = .object q ∧ r ≠ q ∧ h.object? r = some x ∧ h.object? q = some y ∧
      p = (x.id, y.id) ∧ parts = fieldPairs x.fields y.fields) := by
  unfold confront at hc
  -- Two lists or two objects that are not the same one: both cells have to be there, and the pair and the
  -- parts are read off them.
  split at hc
  · rename_i r q
    split at hc
    · cases hc
    · rename_i hne
      split at hc
      · rename_i x y hx hy
        cases hc
        exact Or.inl ⟨r, q, x, y, rfl, rfl, hne, hx, hy, rfl, rfl⟩
      · cases hc
  · rename_i r q
    split at hc
    · cases hc
    · rename_i hne
      split at hc
      · rename_i x y hx hy
        cases hc
        exact Or.inr ⟨r, q, x, y, rfl, rfl, hne, hx, hy, rfl, rfl⟩
      · cases hc
  · cases hc

/-- What is settled at once is settled rightly, whatever relates the parts. -/
theorem agrees_of_settled {equal : Bool} (hc : h.confront v w = .settled equal) :
    h.Agrees R v w ↔ equal = true := by
  unfold confront at hc
  split at hc
  · rename_i r q
    split at hc
    · rename_i heq
      -- One handle agrees with itself.
      cases hc
      simp [Agrees, heq]
    · rename_i hne
      split at hc
      · cases hc
      · rename_i hmissing
        cases hc
        simp only [Agrees, hne, false_or, Bool.false_eq_true, iff_false]
        -- A container that is not in memory has no cell to agree in.
        rintro ⟨x, y, hx, hy, -⟩
        exact hmissing x y hx hy
  · rename_i r q
    split at hc
    · rename_i heq
      cases hc
      simp [Agrees, heq]
    · rename_i hne
      split at hc
      · cases hc
      · rename_i hmissing
        cases hc
        simp only [Agrees, hne, false_or, Bool.false_eq_true, iff_false]
        rintro ⟨x, y, hx, hy, -⟩
        exact hmissing x y hx hy
  -- What is left has a scalar on one side, where agreement is the comparison of scalars itself.
  · rename_i hlists hobjects
    cases hc
    rw [Agrees.eq_def]
    split
    · exact absurd rfl (hlists _ _ rfl)
    · exact absurd rfl (hobjects _ _ rfl)
    · exact Iff.rfl

/-- Containers agree if they have the same shape and their parts are related. -/
theorem agrees_of_containers (hh : h.Distinct) {p : Nat × Nat} {parts : Option (List (Value × Value))}
    (hc : h.confront v w = .containers p parts) :
    h.Agrees R v w ↔ ∃ pairs, parts = some pairs ∧ ∀ x ∈ pairs, R x.1 x.2 := by
  rcases confront_containers hc with ⟨r, q, x, y, rfl, rfl, hne, hx, hy, -, rfl⟩ |
    ⟨r, q, x, y, rfl, rfl, hne, hx, hy, -, rfl⟩
  · rw [itemPairs_related]
    simp [Agrees, hne, hx, hy]
  · rw [fieldPairs_related (hh.keys r x hx) (hh.keys q y hy)]
    simp [Agrees, hne, hx, hy]

/-- A pair of identities stands for one pair of containers. -/
theorem confront_inj (hh : h.Distinct) {v' w' : Value} {p : Nat × Nat}
    {parts parts' : Option (List (Value × Value))} (hc : h.confront v w = .containers p parts)
    (hc' : h.confront v' w' = .containers p parts') : v = v' ∧ w = w' := by
  have hlist {r : ListRef} {x : ListCell} (hx : h.list? r = some x) :
      h.idOf? (.list r) = some x.id := by simp [idOf?, hx]
  have hobject {r : ObjectRef} {x : ObjectCell} (hx : h.object? r = some x) :
      h.idOf? (.object r) = some x.id := by simp [idOf?, hx]
  rcases confront_containers hc with ⟨r, q, x, y, rfl, rfl, -, hx, hy, rfl, -⟩ |
    ⟨r, q, x, y, rfl, rfl, -, hx, hy, rfl, -⟩
  · rcases confront_containers hc' with ⟨r', q', x', y', rfl, rfl, -, hx', hy', hp, -⟩ |
      ⟨r', q', x', y', rfl, rfl, -, hx', hy', hp, -⟩
    · obtain ⟨hp1, hp2⟩ := Prod.mk.inj hp
      cases idOf?_inj hh.ids (hlist hx) (hp1 ▸ hlist hx')
      cases idOf?_inj hh.ids (hlist hy) (hp2 ▸ hlist hy')
      exact ⟨rfl, rfl⟩
    -- A list and an object never have one identity.
    · obtain ⟨hp1, -⟩ := Prod.mk.inj hp
      cases idOf?_inj hh.ids (hlist hx) (hp1 ▸ hobject hx')
  · rcases confront_containers hc' with ⟨r', q', x', y', rfl, rfl, -, hx', hy', hp, -⟩ |
      ⟨r', q', x', y', rfl, rfl, -, hx', hy', hp, -⟩
    · obtain ⟨hp1, -⟩ := Prod.mk.inj hp
      cases idOf?_inj hh.ids (hobject hx) (hp1 ▸ hlist hx')
    · obtain ⟨hp1, hp2⟩ := Prod.mk.inj hp
      cases idOf?_inj hh.ids (hobject hx) (hp1 ▸ hobject hx')
      cases idOf?_inj hh.ids (hobject hy) (hp2 ▸ hobject hy')
      exact ⟨rfl, rfl⟩

/-! ### The loop -/

/-- A loop over related pairs finds no difference, whatever is assumed. -/
theorem equalAll_of_related (hh : h.Distinct) (hR : ∀ v w, R v w → h.Agrees R v w)
    {assumed : List (Nat × Nat)} {work : List (Value × Value)} (hwork : ∀ p ∈ work, R p.1 p.2) :
    h.equalAll assumed work = true := by
  fun_induction equalAll h assumed work with
  | case1 => rfl
  | case2 assumed v w work equal hc ih =>
      rw [List.forall_mem_cons] at hwork
      have hequal : equal = true := (agrees_of_settled hc).mp (hR v w hwork.1)
      simp [hequal, ih hwork.2]
  -- The pair is assumed already, so it is passed over.
  | case3 assumed v w work p parts hc hp ih =>
      rw [List.forall_mem_cons] at hwork
      exact ih hwork.2
  | case4 assumed v w work p hp hc =>
      rw [List.forall_mem_cons] at hwork
      obtain ⟨pairs, hpairs, -⟩ := (agrees_of_containers hh hc).mp (hR v w hwork.1)
      cases hpairs
  -- The parts are related since their containers are, and go on top of the work.
  | case5 assumed v w work p hp parts hc _ ih =>
      rw [List.forall_mem_cons] at hwork
      obtain ⟨pairs, hpairs, hrelated⟩ := (agrees_of_containers hh hc).mp (hR v w hwork.1)
      cases hpairs
      refine ih fun x hx => ?_
      rcases List.mem_append.mp hx with hx | hx
      · exact hrelated x (List.mem_reverse.mp hx)
      · exact hwork.2 x hx

/-- A pair is vouched for by pairs of identities: it is settled, or its identities are among them. -/
def Vouched (h : Heap) (ids : List (Nat × Nat)) (v w : Value) : Prop :=
  h.confront v w = .settled true ∨ ∃ p ∈ ids, ∃ parts, h.confront v w = .containers p parts

/-- A loop that finds no difference has assumed some pairs of identities in the end. They vouch for all of
its work, and for the parts of every pair that was not assumed from the start. -/
theorem exists_vouched {assumed : List (Nat × Nat)} {work : List (Value × Value)}
    (hequal : h.equalAll assumed work = true) :
    ∃ ids, assumed ⊆ ids ∧ (∀ x ∈ work, h.Vouched ids x.1 x.2) ∧
      ∀ p ∈ ids, p ∈ assumed ∨ ∃ v w parts, h.confront v w = .containers p (some parts) ∧
        ∀ x ∈ parts, h.Vouched ids x.1 x.2 := by
  fun_induction equalAll h assumed work with
  | case1 assumed => exact ⟨assumed, fun p hp => hp, nofun, fun p hp => Or.inl hp⟩
  | case2 assumed v w work equal hc ih =>
      obtain ⟨rfl, hrest⟩ := Bool.and_eq_true_iff.mp hequal
      obtain ⟨ids, hsub, hwork, hids⟩ := ih hrest
      refine ⟨ids, hsub, ?_, hids⟩
      rw [List.forall_mem_cons]
      exact ⟨Or.inl hc, hwork⟩
  | case3 assumed v w work p parts hc hp ih =>
      obtain ⟨ids, hsub, hwork, hids⟩ := ih hequal
      refine ⟨ids, hsub, ?_, hids⟩
      rw [List.forall_mem_cons]
      exact ⟨Or.inr ⟨p, hsub hp, parts, hc⟩, hwork⟩
  | case4 assumed v w work p hp hc => cases hequal
  | case5 assumed v w work p hp parts hc _ ih =>
      obtain ⟨ids, hsub, hwork, hids⟩ := ih hequal
      have hparts : ∀ x ∈ parts, h.Vouched ids x.1 x.2 :=
        fun x hx => hwork x (List.mem_append_left _ (List.mem_reverse.mpr hx))
      refine ⟨ids, fun q hq => hsub (List.mem_cons_of_mem p hq), ?_, ?_⟩
      · rw [List.forall_mem_cons]
        exact ⟨Or.inr ⟨p, hsub List.mem_cons_self, some parts, hc⟩,
          fun x hx => hwork x (List.mem_append_right _ hx)⟩
      · intro q hq
        -- The new pair is the one whose parts the loop went on with.
        rcases hids q hq with hq | hq
        · rcases List.mem_cons.mp hq with rfl | hq
          · exact Or.inr ⟨v, w, parts, hc, hparts⟩
          · exact Or.inl hq
        · exact Or.inr hq

/-- What the assumed pairs vouch for agrees, if they vouch for their own parts. -/
theorem agrees_of_vouched (hh : h.Distinct) {ids : List (Nat × Nat)}
    (hids : ∀ p ∈ ids, ∃ v w parts, h.confront v w = .containers p (some parts) ∧
      ∀ x ∈ parts, h.Vouched ids x.1 x.2) (hvouched : h.Vouched ids v w) :
    h.Agrees (h.Vouched ids) v w := by
  rcases hvouched with hc | ⟨p, hp, parts, hc⟩
  · exact (agrees_of_settled hc).mpr rfl
  · obtain ⟨v', w', pairs, hc', hpairs⟩ := hids p hp
    -- The identities were assumed for these very containers, and for no others.
    obtain ⟨rfl, rfl⟩ := confront_inj hh hc hc'
    exact (agrees_of_containers hh hc').mpr ⟨pairs, rfl, hpairs⟩

/-! ### The end of the loop -/

/-- Pairs of identities are told apart by their parts. -/
local instance lawfulBEqIds : LawfulBEq (Nat × Nat) := inferInstance

/-- The loop with a limit on its rounds; nothing comes back if there are not enough. -/
def equalWithin (h : Heap) : Nat → List (Nat × Nat) → List (Value × Value) → Option Bool
  | 0, _, _ => none
  | _ + 1, _, [] => some true
  | n + 1, assumed, (v, w) :: work =>
    match h.confront v w with
    | .settled equal => if equal then equalWithin h n assumed work else some false
    | .containers p parts =>
      if p ∈ assumed then equalWithin h n assumed work
      else
        match parts with
        | none => some false
        | some parts => equalWithin h n (p :: assumed) (parts.reverse ++ work)

/-- Two containers bring no more pairs than memory has slots. -/
theorem length_parts_le {p : Nat × Nat} {parts : List (Value × Value)}
    (hc : h.confront v w = .containers p (some parts)) : parts.length ≤ h.volume := by
  rcases confront_containers hc with ⟨r, q, x, y, rfl, rfl, -, hx, -, -, hparts⟩ |
    ⟨r, q, x, y, rfl, rfl, -, hx, -, -, hparts⟩
  -- Pairs of items are no more than the items of the first list, which are slots of their own in memory.
  · have hle : x.items.size ≤ h.volume := by
      have hentries := length_entries_le (h := h) (v := .list r) (by rw [contents?, hx]; rfl)
      simpa [length_separate] using hentries
    unfold itemPairs at hparts
    split at hparts
    · cases hparts
      rw [List.length_zip]
      exact Nat.le_trans (Nat.min_le_left _ _) (by simpa using hle)
    · cases hparts
  · have hle : x.fields.size ≤ h.volume := by
      have hentries := length_entries_le (h := h) (v := .object r) (by rw [contents?, hx]; rfl)
      simpa [length_separate, Fields.size] using hentries
    unfold fieldPairs at hparts
    split at hparts
    · rw [length_of_mapM hparts.symm]
      exact hle
    · cases hparts

/-- With enough rounds the loop answers: one for each pair of the work, and as many as memory has slots
for each pair of identities that is not assumed yet. -/
theorem equalWithin_of_bound (h : Heap) (assumed : List (Nat × Nat)) (work : List (Value × Value))
    (n : Nat) (hn : work.length + h.openPairs assumed * h.volume < n) :
    h.equalWithin n assumed work = some (h.equalAll assumed work) := by
  obtain ⟨n, rfl⟩ : ∃ k, n = k + 1 := ⟨n - 1, by omega⟩
  fun_induction equalAll h assumed work generalizing n with
  | case1 assumed => rfl
  | case2 assumed v w work equal hc ih =>
      rw [List.length_cons] at hn
      obtain ⟨n, rfl⟩ : ∃ k, n = k + 1 := ⟨n - 1, by omega⟩
      rw [equalWithin, hc]
      cases equal with
      | false => rfl
      | true => exact ih n (by omega)
  | case3 assumed v w work p parts hc hp ih =>
      rw [List.length_cons] at hn
      obtain ⟨n, rfl⟩ : ∃ k, n = k + 1 := ⟨n - 1, by omega⟩
      rw [equalWithin, hc]
      dsimp only
      rw [if_pos hp]
      exact ih n (by omega)
  | case4 assumed v w work p hp hc =>
      rw [equalWithin, hc]
      dsimp only
      rw [if_neg hp]
  | case5 assumed v w work p hp parts hc _ ih =>
      have hopen := openPairs_cons_lt (mem_idPairs hc) hp
      have hparts := length_parts_le hc
      -- The new pair is paid for by what its parts may cost.
      have hpaid : h.openPairs (p :: assumed) * h.volume + h.volume ≤ h.openPairs assumed * h.volume := by
        rw [← Nat.succ_mul]
        exact Nat.mul_le_mul_right _ hopen
      rw [List.length_cons] at hn
      obtain ⟨n, rfl⟩ : ∃ k, n = k + 1 := ⟨n - 1, by omega⟩
      rw [equalWithin, hc]
      dsimp only
      rw [if_neg hp]
      refine ih n ?_
      rw [List.length_append, List.length_reverse]
      omega

/-- The pairs of identities of a heap. -/
theorem openPairs_nil (h : Heap) : h.openPairs [] = h.ids.length * h.ids.length := by
  simp [openPairs, idPairs, List.length_flatMap]

/-- Equality of values is bisimilarity, also on cyclic data. In memory as it is made,

- the comparison of two values ends: it takes no more rounds than one for each pair of containers and
  each slot of memory, and two more;
- the two values are equal if and only if there is a relation that has their pair and whose pairs all
  agree: each is one container twice, or two lists of one length with related elements, or two objects
  with the same keys and related values, or a pair of other values that are equal as they are. -/
theorem equal_iff_bisimilar (hh : h.Distinct) (v w : Value) :
    h.equalWithin (h.ids.length * h.ids.length * h.volume + 2) [] [(v, w)] = some (h.equal v w) ∧
      (h.equal v w = true ↔
        ∃ R : Value → Value → Prop, R v w ∧ ∀ a b, R a b → h.Agrees R a b) := by
  refine ⟨?_, ?_, ?_⟩
  · refine equalWithin_of_bound h [] [(v, w)] _ ?_
    rw [openPairs_nil]
    simp
    omega
  · intro hequal
    obtain ⟨ids, -, hwork, hids⟩ := exists_vouched hequal
    refine ⟨h.Vouched ids, hwork (v, w) List.mem_cons_self, fun a b hab => ?_⟩
    refine agrees_of_vouched hh (fun p hp => ?_) hab
    -- Nothing was assumed from the start.
    rcases hids p hp with hp | hp
    · cases hp
    · exact hp
  · rintro ⟨R, hvw, hR⟩
    refine equalAll_of_related hh hR ?_
    rw [List.forall_mem_singleton]
    exact hvw

/-- A list that holds itself is bisimilar to a loop of two lists with the same numbers, and not to a
list that holds another number and itself. -/
theorem equal_of_loops :
    let h : Heap := ⟨#[⟨1, #[.int 1, .list ⟨0⟩]⟩, ⟨2, #[.int 1, .list ⟨2⟩]⟩, ⟨3, #[.int 1, .list ⟨1⟩]⟩,
      ⟨4, #[.int 2, .list ⟨3⟩]⟩], #[]⟩
    h.Distinct ∧
      (∃ R : Value → Value → Prop, R (.list ⟨0⟩) (.list ⟨1⟩) ∧ ∀ a b, R a b → h.Agrees R a b) ∧
      ¬ ∃ R : Value → Value → Prop, R (.list ⟨0⟩) (.list ⟨3⟩) ∧ ∀ a b, R a b → h.Agrees R a b := by
  intro h
  have hh : h.Distinct := ⟨by decide, fun r cell hcell => by simp [h, object?] at hcell⟩
  obtain ⟨hsame, hbisimilar⟩ := equal_iff_bisimilar hh (.list ⟨0⟩) (.list ⟨1⟩)
  obtain ⟨hother, hnot⟩ := equal_iff_bisimilar hh (.list ⟨0⟩) (.list ⟨3⟩)
  have hequal : h.equal (.list ⟨0⟩) (.list ⟨1⟩) = true := (Option.some.inj hsame).symm
  have hdiffer : h.equal (.list ⟨0⟩) (.list ⟨3⟩) = false := (Option.some.inj hother).symm
  refine ⟨hh, hbisimilar.mp hequal, fun hR => ?_⟩
  rw [hnot.mpr hR] at hdiffer
  cases hdiffer

end Heap

end Stepwise
