/-
Maps that give the same, and maps laid on one another.

The order of the entries is part of the type, so a map is nothing but what it gives
for its keys: two maps that give the same are equal (`ext`).  An equation between
maps is therefore proved key by key.

An overlay inserts the entries of the upper map one after another.  What comes of it
is the map of these entries where that has the key, and the lower map elsewhere: the
last entry of a key is the one that counts, in the list as in the map of the list.
So what an overlay gives is an `Option.or` of what the two maps give
(`get?_overlay`), and its laws are the laws of that.
-/
import Mathlib.Data.Finset.Card
import VariantSelection.Proofs.Ordered.Map

namespace VariantSelection

namespace SortedMap

section Lookup
variable {K : Type} {V : Type} [Ord K]

@[simp] theorem get?_empty (k : K) : (empty : SortedMap K V).get? k = none := rfl

variable [Std.LawfulEqOrd K]

theorem get?_erase [DecidableEq K] (m : SortedMap K V) (k j : K) :
    (m.erase k).get? j = if j = k then none else m.get? j := by
  refine Option.ext fun w => ?_
  rw [get?_eq_some_iff, erase, List.mem_filter]
  by_cases hj : j = k
  · simp [hj]
  · simp [hj, Ne.symm hj, get?_eq_some_iff]

theorem size_eq_card_keys [DecidableEq K] (m : SortedMap K V) : m.size = m.keys.toFinset.card := by
  rw [List.toFinset_card_of_nodup m.nodup_keys, keys, List.length_map, size]

/-- **Maps that give the same values are equal.** -/
theorem ext [Std.TransOrd K] {m n : SortedMap K V} (h : ∀ k, m.get? k = n.get? k) : m = n := by
  have hmem : ∀ e, e ∈ m.entries ↔ e ∈ n.entries := by
    intro e
    obtain ⟨k, v⟩ := e
    rw [← get?_eq_some_iff, ← get?_eq_some_iff, h]
  have heq : m.entries = n.entries := eq_of_ascending Prod.fst m.ascending n.ascending hmem
  cases m
  cases n
  simpa using heq

end Lookup

section Overlay
variable {K : Type} {V : Type} [Ord K] [Std.TransOrd K] [Std.LawfulEqOrd K]

/-- In which order entries of distinct keys are inserted makes no difference. -/
theorem ofList_perm {l l' : List (K × V)} (hperm : l.Perm l') (h : (l.map Prod.fst).Nodup) :
    ofList l = ofList l' := by
  have h' : (l'.map Prod.fst).Nodup := (hperm.map Prod.fst).nodup_iff.mp h
  refine ext fun k => Option.ext fun v => ?_
  rw [get?_ofList_eq_some_iff h, get?_ofList_eq_some_iff h', hperm.mem_iff]

/-- Insertions of `l` leave what was there wherever `ofList l` has nothing. -/
theorem get?_foldl_insert (l : List (K × V)) (m : SortedMap K V) (k : K) :
    (l.foldl (fun m e => m.insert e.1 e.2) m).get? k = ((ofList l).get? k).or (m.get? k) := by
  classical
  induction l using List.reverseRecOn with
  | nil => rfl
  | append_singleton rest e ih =>
      rw [ofList, List.foldl_append, List.foldl_append, ← ofList]
      simp only [List.foldl_cons, List.foldl_nil, get?_insert, ih]
      by_cases hk : k = e.1
      · simp [hk]
      · simp [hk]

/-- A later entry counts before an earlier one. -/
theorem get?_ofList_cons [DecidableEq K] (e : K × V) (rest : List (K × V)) (k : K) :
    (ofList (e :: rest)).get? k
      = ((ofList rest).get? k).or (if k = e.1 then some e.2 else none) := by
  rw [ofList, List.foldl_cons, get?_foldl_insert, get?_insert, get?_empty]

variable (m n top : SortedMap K V)

/-- **An overlay gives what the upper map gives, and where that has nothing what the
lower one gives.** -/
theorem get?_overlay (k : K) : (m.overlay top).get? k = (top.get? k).or (m.get? k) := by
  rw [overlay, get?_foldl_insert, ofList_entries]

theorem mem_keys_overlay {k : K} : k ∈ (m.overlay top).keys ↔ k ∈ m.keys ∨ k ∈ top.keys := by
  simp only [mem_keys_iff_contains, contains, get?_overlay, Option.isSome_or, Bool.or_eq_true]
  exact or_comm

theorem size_overlay [DecidableEq K] :
    (m.overlay top).size = (m.keys.toFinset ∪ top.keys.toFinset).card := by
  rw [size_eq_card_keys]
  congr 1
  ext k
  simp only [List.mem_toFinset, Finset.mem_union, mem_keys_overlay]

theorem overlay_assoc : (m.overlay n).overlay top = m.overlay (n.overlay top) := by
  refine ext fun k => ?_
  simp only [get?_overlay, Option.or_assoc]

theorem empty_overlay : empty.overlay m = m := by
  refine ext fun k => ?_
  rw [get?_overlay, get?_empty, Option.or_none]

theorem overlay_empty : m.overlay empty = m := rfl

theorem overlay_self : m.overlay m = m := by
  refine ext fun k => ?_
  rw [get?_overlay, Option.or_self]

/-- Laying the same map on once more changes nothing. -/
theorem overlay_overlay_self : (m.overlay top).overlay top = m.overlay top := by
  rw [overlay_assoc, overlay_self]

end Overlay

end SortedMap

end VariantSelection
