/-
What a sorted map gives for a key.

The entries are ascending, so a key has one entry at most, and looking a key up is
finding its entry (`get?_eq_some_iff`).  The maps that `traverse` builds hold
nothing but the images of what the map held (`get?_traverse_iff`).
-/
import Mathlib.Data.List.Induction
import VariantSelection.Proofs.Except
import VariantSelection.Proofs.Ordered.Set
import VariantSelection.Ordered.Map

namespace VariantSelection

section Entries
variable {K : Type} {V : Type} [Ord K]

/-- The entry that a search for `k` stops at, in ascending entries. -/
theorem find?_entry_iff [Std.LawfulEqOrd K] {entries : List (K × V)} (h : Ascending entries) {k : K}
    {v : V} :
    (entries.find? fun e => compare k e.1 == .eq).map Prod.snd = some v ↔ (k, v) ∈ entries := by
  induction entries with
  | nil => simp
  | cons e rest ih =>
      obtain ⟨first, tail⟩ := List.pairwise_cons.mp h
      rw [List.find?_cons, List.mem_cons]
      by_cases hk : k = e.1
      · -- The entries behind this one have greater keys, so none of them is for `k`.
        have hself : compare k e.1 = .eq := Std.LawfulEqCmp.compare_eq_iff_eq.mpr hk
        have hrest : (k, v) ∉ rest := by
          intro hmem
          exact ne_of_compare_lt (first (k, v) hmem) hk.symm
        simp only [hself, beq_self_eq_true, Option.map_some, Option.some.injEq]
        constructor
        · rintro rfl
          exact Or.inl (by rw [hk])
        · rintro (heq | hmem)
          · rw [← heq]
          · exact absurd hmem hrest
      · have hne : (compare k e.1 == .eq) = false := by
          simpa [Std.LawfulEqCmp.compare_eq_iff_eq] using hk
        rw [hne]
        constructor
        · intro hfind
          exact Or.inr ((ih tail).mp hfind)
        · rintro (heq | hmem)
          · exact absurd (congrArg Prod.fst heq) hk
          · exact (ih tail).mpr hmem

/-- An insertion replaces the entry of its key and leaves the others. -/
theorem mem_insertEntry_iff [Std.TransOrd K] [Std.LawfulEqOrd K] {k : K} {v : V} {a : K × V}
    {entries : List (K × V)} (h : Ascending entries) :
    a ∈ insertEntry k v entries ↔ a = (k, v) ∨ (a ∈ entries ∧ a.1 ≠ k) := by
  induction entries with
  | nil => simp [insertEntry]
  | cons e rest ih =>
      obtain ⟨first, tail⟩ := List.pairwise_cons.mp h
      unfold insertEntry
      split
      case _ hlt =>
        -- The new key is less than all others.
        have hne : ∀ b ∈ e :: rest, b.1 ≠ k := by
          intro b hb
          rcases List.mem_cons.mp hb with rfl | hb
          · exact (ne_of_compare_lt hlt).symm
          · exact (ne_of_compare_lt (Std.TransCmp.lt_trans hlt (first b hb))).symm
        rw [List.mem_cons]
        exact or_congr_right ⟨fun ha => ⟨ha, hne a ha⟩, And.left⟩
      case _ heq =>
        have hk : k = e.1 := Std.LawfulEqCmp.eq_of_compare heq
        have hne : ∀ b ∈ rest, b.1 ≠ k := by
          intro b hb
          rw [hk]
          exact (ne_of_compare_lt (first b hb)).symm
        rw [List.mem_cons, List.mem_cons]
        refine or_congr_right ⟨fun ha => ⟨Or.inr ha, hne a ha⟩, ?_⟩
        rintro ⟨rfl | ha, hak⟩
        · exact absurd hk.symm hak
        · exact ha
      case _ hgt =>
        have hne : e.1 ≠ k := ne_of_compare_lt (Std.OrientedCmp.lt_of_gt hgt)
        rw [List.mem_cons, List.mem_cons, ih tail]
        constructor
        · rintro (rfl | hnew | ⟨ha, hak⟩)
          · exact Or.inr ⟨Or.inl rfl, hne⟩
          · exact Or.inl hnew
          · exact Or.inr ⟨Or.inr ha, hak⟩
        · rintro (hnew | ⟨rfl | ha, hak⟩)
          · exact Or.inr (Or.inl hnew)
          · exact Or.inl rfl
          · exact Or.inr (Or.inr ⟨ha, hak⟩)

theorem mem_of_mem_foldl_insert [Std.TransOrd K] [Std.LawfulEqOrd K] (l : List (K × V)) :
    ∀ (m : SortedMap K V) (a : K × V),
      a ∈ (l.foldl (fun m e => m.insert e.1 e.2) m).entries → a ∈ m.entries ∨ a ∈ l := by
  induction l with
  | nil => intro m a h; exact Or.inl h
  | cons e rest ih =>
      intro m a h
      rcases ih _ a h with hin | hrest
      · rcases mem_insertEntry hin with rfl | hm
        · exact Or.inr List.mem_cons_self
        · exact Or.inl hm
      · exact Or.inr (List.mem_cons_of_mem _ hrest)

end Entries

namespace SortedMap

section Lookup
variable {K : Type} {V : Type} [Ord K] [Std.LawfulEqOrd K]

theorem get?_eq_some_iff {m : SortedMap K V} {k : K} {v : V} :
    m.get? k = some v ↔ (k, v) ∈ m.entries :=
  find?_entry_iff m.ascending

omit [Std.LawfulEqOrd K] in
theorem contains_iff {m : SortedMap K V} {k : K} :
    m.contains k = true ↔ ∃ v, m.get? k = some v := by
  rw [contains, Option.isSome_iff_exists]

omit [Std.LawfulEqOrd K] in
theorem ne_of_contains {m : SortedMap K V} {j k : K} (hj : m.contains j = true)
    (hk : m.contains k = false) : j ≠ k := by
  rintro rfl
  rw [hj] at hk
  cases hk

omit [Std.LawfulEqOrd K] in
theorem eq_empty {m : SortedMap K V} (h : m.isEmpty = true) : m = empty := by
  cases m with
  | mk entries ascending =>
      cases List.isEmpty_iff.mp h
      rfl

theorem mem_keys {m : SortedMap K V} {k : K} : k ∈ m.keys ↔ ∃ v, m.get? k = some v := by
  simp only [keys, List.mem_map, Prod.exists, exists_and_right, exists_eq_right, get?_eq_some_iff]

theorem mem_keys_iff_contains {m : SortedMap K V} {k : K} : k ∈ m.keys ↔ m.contains k = true :=
  mem_keys.trans contains_iff.symm

omit [Std.LawfulEqOrd K] in
theorem ascending_keys (m : SortedMap K V) : m.keys.Pairwise fun a b => compare a b = .lt :=
  List.pairwise_map.mpr m.ascending

theorem nodup_keys (m : SortedMap K V) : m.keys.Nodup :=
  m.ascending_keys.imp ne_of_compare_lt

theorem count_keys [DecidableEq K] (m : SortedMap K V) (k : K) :
    m.keys.count k = if m.contains k then 1 else 0 := by
  rw [m.nodup_keys.count]
  exact if_congr mem_keys_iff_contains rfl rfl

theorem get?_of_sublist {m n : SortedMap K V} (h : m.entries.Sublist n.entries) {k : K} {v : V}
    (hv : m.get? k = some v) : n.get? k = some v :=
  get?_eq_some_iff.mpr (h.subset (get?_eq_some_iff.mp hv))

theorem contains_of_sublist {m n : SortedMap K V} (h : m.entries.Sublist n.entries) {k : K}
    (hk : m.contains k = true) : n.contains k = true := by
  obtain ⟨v, hv⟩ := contains_iff.mp hk
  exact contains_iff.mpr ⟨v, get?_of_sublist h hv⟩

/-- Some of the entries of `n` are those of its entries that have their keys. -/
theorem entries_of_sublist {m n : SortedMap K V} (h : m.entries.Sublist n.entries) :
    m.entries = n.entries.filter fun e => m.contains e.1 := by
  have hself : (m.entries.filter fun e => m.contains e.1) = m.entries := by
    refine List.filter_eq_self.mpr fun e he => ?_
    exact contains_iff.mpr ⟨e.2, get?_eq_some_iff.mpr he⟩
  have hsub : m.entries.Sublist (n.entries.filter fun e => m.contains e.1) := by
    have hfilter := h.filter fun e => m.contains e.1
    rwa [hself] at hfilter
  refine hsub.eq_of_length_le ?_
  have hentries : n.entries.Nodup :=
    n.ascending.imp fun hlt hsame => ne_of_compare_lt hlt (congrArg Prod.fst hsame)
  have hnodup : (n.entries.filter fun e => m.contains e.1).Nodup :=
    hentries.sublist List.filter_sublist
  refine hnodup.length_le_of_subset fun e he => ?_
  -- The entry that the smaller map has for the key is one of the larger map, which
  -- has one entry for it.
  obtain ⟨hmem, hcontains⟩ := List.mem_filter.mp he
  obtain ⟨v, hv⟩ := contains_iff.mp hcontains
  have hsame := get?_of_sublist h hv
  rw [get?_eq_some_iff.mpr hmem, Option.some.injEq] at hsame
  rw [← hsame] at hv
  exact get?_eq_some_iff.mp hv

end Lookup

section Insert
variable {K : Type} {V : Type} [Ord K] [Std.TransOrd K] [Std.LawfulEqOrd K]

theorem get?_insert [DecidableEq K] (m : SortedMap K V) (k : K) (v : V) (j : K) :
    (m.insert k v).get? j = if j = k then some v else m.get? j := by
  refine Option.ext fun w => ?_
  rw [get?_eq_some_iff, insert, mem_insertEntry_iff m.ascending, Prod.mk.injEq]
  by_cases hj : j = k
  · simp [hj, eq_comm]
  · simp [hj, get?_eq_some_iff]

end Insert

section Traverse
variable {K : Type} {V W ε : Type} [Ord K] [Std.TransOrd K] [Std.LawfulEqOrd K]

theorem mem_of_mem_ofList {l : List (K × V)} {a : K × V} (h : a ∈ (ofList l).entries) : a ∈ l := by
  rcases mem_of_mem_foldl_insert l empty a h with hempty | hl
  · simp [empty] at hempty
  · exact hl

theorem get?_ofList_eq_none_iff {l : List (K × V)} {k : K} :
    (ofList l).get? k = none ↔ ∀ e ∈ l, e.1 ≠ k := by
  classical
  induction l using List.reverseRecOn with
  | nil => simp [ofList, get?, empty]
  | append_singleton rest e ih =>
      rw [ofList, List.foldl_append, ← ofList, List.foldl_cons, List.foldl_nil, get?_insert]
      simp only [List.forall_mem_append, List.forall_mem_singleton, ← ih]
      by_cases hk : k = e.1
      · simp [hk]
      · simp [hk, Ne.symm hk]

/-- Entries of distinct keys are all found again. -/
theorem get?_ofList_eq_some_iff {l : List (K × V)} (h : (l.map Prod.fst).Nodup) {k : K} {v : V} :
    (ofList l).get? k = some v ↔ (k, v) ∈ l := by
  classical
  induction l using List.reverseRecOn with
  | nil => simp [ofList, get?, empty]
  | append_singleton rest e ih =>
      rw [List.map_append, List.nodup_append] at h
      have hlast : ∀ w, (e.1, w) ∉ rest := by
        intro w hw
        exact h.2.2 e.1 (List.mem_map.mpr ⟨(e.1, w), hw, rfl⟩) e.1 (by simp) rfl
      rw [ofList, List.foldl_append, ← ofList, List.foldl_cons, List.foldl_nil, get?_insert,
        List.mem_append, List.mem_singleton]
      by_cases hk : k = e.1
      · rw [if_pos hk, Option.some.injEq, hk]
        constructor
        · rintro rfl
          exact Or.inr rfl
        · rintro (hrest | heq)
          · exact absurd hrest (hlast v)
          · rw [← heq]
      · rw [if_neg hk, ih h.1]
        constructor
        · exact Or.inl
        · rintro (hrest | rfl)
          · exact hrest
          · exact absurd rfl hk

omit [Std.TransOrd K] [Std.LawfulEqOrd K] in
theorem insertEntry_of_last [Std.OrientedOrd K] {k : K} {v : V} {entries : List (K × V)}
    (h : ∀ e ∈ entries, compare e.1 k = .lt) : insertEntry k v entries = entries ++ [(k, v)] := by
  induction entries with
  | nil => rfl
  | cons e rest ih =>
      have hgt : compare k e.1 = .gt := Std.OrientedCmp.gt_of_lt (h e List.mem_cons_self)
      rw [insertEntry, hgt]
      simp only [ih fun d hd => h d (List.mem_cons_of_mem _ hd), List.cons_append]

/-- Entries in the order of their keys are a map as they stand. -/
theorem entries_ofList {l : List (K × V)} (h : Ascending l) : (ofList l).entries = l := by
  induction l using List.reverseRecOn with
  | nil => rfl
  | append_singleton rest e ih =>
      obtain ⟨hrest, -, hlast⟩ := List.pairwise_append.mp h
      have hstep : (ofList (rest ++ [e])).entries = insertEntry e.1 e.2 (ofList rest).entries := by
        rw [ofList, List.foldl_append]
        rfl
      rw [hstep, ih hrest]
      exact insertEntry_of_last fun d hd => hlast d hd e List.mem_cons_self

/-- A map is the map of its entries. -/
theorem ofList_entries (m : SortedMap K V) : ofList m.entries = m := by
  have hentries := entries_ofList m.ascending
  generalize ofList m.entries = n at hentries
  cases n
  cases m
  cases hentries
  rfl

/-- Every value of a traversed map comes from a value of the same key. -/
theorem get?_of_traverse {f : K → V → Except ε W} {m : SortedMap K V} {n : SortedMap K W}
    (h : m.traverse f = .ok n) {k : K} {w : W} (hw : n.get? k = some w) :
    ∃ v, m.get? k = some v ∧ f k v = .ok w := by
  simp only [traverse, bind_eq_ok, pure_eq_ok] at h
  obtain ⟨entries, hentries, rfl⟩ := h
  have hmem := mem_of_mem_ofList (get?_eq_some_iff.mp hw)
  obtain ⟨e, he, hfe⟩ := mem_of_mapM_eq_ok hentries _ hmem
  simp only [bind_eq_ok, pure_eq_ok, Prod.mk.injEq] at hfe
  obtain ⟨image, himage, rfl, rfl⟩ := hfe
  exact ⟨e.2, get?_eq_some_iff.mpr he, himage⟩

/-- **A traversed map has the images of the values**, each under its key. -/
theorem get?_traverse_iff {f : K → V → Except ε W} {m : SortedMap K V} {n : SortedMap K W}
    (h : m.traverse f = .ok n) {k : K} {w : W} :
    n.get? k = some w ↔ ∃ v, m.get? k = some v ∧ f k v = .ok w := by
  refine ⟨get?_of_traverse h, fun ⟨v, hv, hw⟩ => ?_⟩
  simp only [traverse, bind_eq_ok, pure_eq_ok] at h
  obtain ⟨entries, hentries, rfl⟩ := h
  have hkeys : entries.map Prod.fst = m.keys := by
    refine map_eq_of_mapM_eq_ok (fun e image himage => ?_) hentries
    simp only [bind_eq_ok, pure_eq_ok] at himage
    obtain ⟨_, -, rfl⟩ := himage
    rfl
  rw [get?_ofList_eq_some_iff (hkeys ▸ m.nodup_keys), mem_iff_of_mapM_eq_ok hentries]
  refine ⟨(k, v), get?_eq_some_iff.mp hv, ?_⟩
  simp only [bind_eq_ok, pure_eq_ok]
  exact ⟨w, hw, rfl⟩

theorem reports_traverse {f : K → V → Except ε W} {faultsOf : K → V → List ε}
    (hf : ∀ k v, Reports (faultsOf k v) (f k v)) (m : SortedMap K V) :
    Reports (m.entries.flatMap fun e => faultsOf e.1 e.2) (m.traverse f) :=
  (Reports.mapM (fun e => (hf e.1 e.2).bind_pure fun w => (e.1, w)) m.entries).bind_pure ofList

/-- A traversal fails where one of the values does. -/
theorem traverse_fails_iff {f : K → V → Except ε W} {m : SortedMap K V} :
    (∃ e, m.traverse f = .error e) ↔ ∃ k v, m.get? k = some v ∧ ∃ e, f k v = .error e := by
  simp only [traverse, bind_fails_iff, mapM_fails_iff, pure_not_fails, and_false, exists_false,
    or_false, get?_eq_some_iff, Prod.exists]

/-- Changing the values first makes no difference where `f` does not tell them apart. -/
theorem traverse_mapValues_of_eq {U : Type} {f : K → V → Except ε W} {f' : K → U → Except ε W}
    {g : K → V → U} {m : SortedMap K V} (h : ∀ k v, f' k (g k v) = f k v) :
    (m.mapValues g).traverse f' = m.traverse f := by
  simp only [traverse, mapValues, List.mapM_map, Function.comp_def, h]

end Traverse

end SortedMap

end VariantSelection
