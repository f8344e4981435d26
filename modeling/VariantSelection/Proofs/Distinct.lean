/-
Lists in which nothing occurs twice.

Where no two elements have one key, a search for the key finds an element
exactly where there is one, and it does not matter where in the list
(`find?_key_eq_some_iff`, `find?_key_perm`).
-/
import Mathlib.Data.List.Induction
import Mathlib.Data.List.Nodup

namespace VariantSelection

/-! ### Duplicates that are dropped

`List.eraseDups` keeps the first of several equal elements.  What it keeps is
described from either end of the list: `eraseDups_concat` adds an element behind,
and `pairwise_idxOf_eraseDups` says in which order the elements stand.
-/

section
variable {α : Type} [DecidableEq α]

/-- What is kept once an element is kept differs from it. -/
theorem nodup_eraseDups : ∀ l : List α, l.eraseDups.Nodup
  | [] => List.nodup_nil
  | a :: rest => by
      have hnot : a ∉ (rest.filter fun b => !b == a).eraseDups := by
        intro hmem
        have hdiffers := List.of_mem_filter (List.mem_eraseDups.mp hmem)
        simp at hdiffers
      rw [List.eraseDups_cons]
      exact List.nodup_cons.mpr ⟨hnot, nodup_eraseDups _⟩
termination_by l => l.length
decreasing_by exact Nat.lt_succ_of_le (List.length_filter_le _ rest)

theorem eraseDups_concat (l : List α) (a : α) :
    (l ++ [a]).eraseDups = if a ∈ l then l.eraseDups else l.eraseDups ++ [a] := by
  rw [List.eraseDups_append]
  by_cases ha : a ∈ l
  · simp [List.removeAll, ha]
  · simp [List.removeAll, ha, List.eraseDups_cons]

/-- What is kept stands in the order in which it first occurred. -/
theorem pairwise_idxOf_eraseDups (l : List α) :
    l.eraseDups.Pairwise fun a b => l.idxOf a < l.idxOf b := by
  induction l using List.reverseRecOn with
  | nil => exact List.Pairwise.nil
  | append_singleton rest c ih =>
      have hrest : rest.eraseDups.Pairwise fun a b =>
          (rest ++ [c]).idxOf a < (rest ++ [c]).idxOf b := by
        refine ih.imp_of_mem fun {a b} ha hb hlt => ?_
        rw [List.idxOf_append_of_mem (List.mem_eraseDups.mp ha),
          List.idxOf_append_of_mem (List.mem_eraseDups.mp hb)]
        exact hlt
      rw [eraseDups_concat]
      by_cases hc : c ∈ rest
      · rw [if_pos hc]
        exact hrest
      · rw [if_neg hc]
        refine List.pairwise_append.mpr ⟨hrest, List.pairwise_singleton _ _, fun a ha b hb => ?_⟩
        have hmem := List.mem_eraseDups.mp ha
        rw [List.mem_singleton.mp hb, List.idxOf_append_of_mem hmem, List.idxOf_append_of_notMem hc]
        exact Nat.lt_add_right _ (List.idxOf_lt_length_of_mem hmem)

theorem idxOf_le_of_getElem {l : List α} {i : Nat} (hi : i < l.length) {a : α} (ha : l[i] = a) :
    l.idxOf a ≤ i := by
  by_contra hlt
  have hnot := List.not_of_lt_findIdx (Nat.lt_of_not_le hlt)
  simp [ha] at hnot

theorem eraseDups_perm {l m : List α} (h : ∀ a, a ∈ l ↔ a ∈ m) : l.eraseDups.Perm m.eraseDups := by
  refine (List.perm_ext_iff_of_nodup (nodup_eraseDups l) (nodup_eraseDups m)).mpr fun a => ?_
  rw [List.mem_eraseDups, List.mem_eraseDups, h a]

omit [DecidableEq α] in
/-- A list without duplicates has several elements where it has another one
beside a given one. -/
theorem one_lt_length_iff_of_nodup {l : List α} (hl : l.Nodup) {a : α} (ha : a ∈ l) :
    1 < l.length ↔ ∃ b ∈ l, b ≠ a := by
  constructor
  · intro hlength
    by_contra hnone
    have hsub : l ⊆ [a] := by
      intro b hb
      by_contra hne
      exact hnone ⟨b, hb, by simpa using hne⟩
    have hle := hl.length_le_of_subset hsub
    simp at hle
    omega
  · intro hother
    obtain ⟨b, hb, hne⟩ := hother
    have hpair : [b, a].Nodup := by simp [hne]
    exact hpair.length_le_of_subset (by simp [hb, ha])

omit [DecidableEq α] in
theorem foldl_append_filter (p : α → Bool) (l : List α) :
    ∀ listed : List α,
      l.foldl (fun listed a => if p a then listed ++ [a] else listed) listed
        = listed ++ l.filter p := by
  induction l with
  | nil =>
      intro listed
      exact (List.append_nil listed).symm
  | cons a rest ih =>
      intro listed
      rw [List.foldl_cons, List.filter_cons, ih]
      by_cases ha : p a = true
      · rw [if_pos ha, if_pos ha, List.append_assoc, List.singleton_append]
      · rw [if_neg ha, if_neg ha]

/-- Adding the chosen elements of a list that are not there yet is adding those that
were not there at the start. -/
theorem foldl_append_new {l : List α} (hl : l.Nodup) (p : α → Bool) :
    ∀ listed : List α,
      l.foldl (fun listed a => if p a && !listed.contains a then listed ++ [a] else listed) listed
        = listed ++ l.filter fun a => p a && !listed.contains a := by
  induction l with
  | nil =>
      intro listed
      exact (List.append_nil listed).symm
  | cons a rest ih =>
      intro listed
      obtain ⟨ha, hrest⟩ := List.nodup_cons.mp hl
      rw [List.foldl_cons, List.filter_cons, ih hrest]
      by_cases hnew : (p a && !listed.contains a) = true
      · rw [if_pos hnew, if_pos hnew, List.append_assoc, List.singleton_append]
        congr 2
        refine List.filter_congr fun b hb => ?_
        have hne : b ≠ a := fun heq => ha (heq ▸ hb)
        simp [hne]
      · rw [if_neg hnew, if_neg hnew]

end

/-! ### Distinct keys -/

section
variable {α κ : Type} [DecidableEq κ] {key : α → κ} {l m : List α}

theorem find?_key_eq_some_iff (hkeys : (l.map key).Nodup) {k : κ} {a : α} :
    l.find? (fun b => key b = k) = some a ↔ a ∈ l ∧ key a = k := by
  constructor
  · intro h
    exact ⟨List.mem_of_find?_eq_some h, by simpa using List.find?_some h⟩
  · rintro ⟨ha, hkey⟩
    cases hfound : l.find? fun b => key b = k with
    | none =>
        have hnot := List.find?_eq_none.mp hfound a ha
        simp [hkey] at hnot
    | some b =>
        have hb : key b = k := by simpa using List.find?_some hfound
        rw [List.inj_on_of_nodup_map hkeys (List.mem_of_find?_eq_some hfound) ha
          (hb.trans hkey.symm)]

theorem find?_key_perm (h : l.Perm m) (hkeys : (l.map key).Nodup) (k : κ) :
    l.find? (fun b => key b = k) = m.find? fun b => key b = k := by
  have hkeys' : (m.map key).Nodup := (h.map key).nodup_iff.mp hkeys
  refine Option.ext fun a => ?_
  rw [find?_key_eq_some_iff hkeys, find?_key_eq_some_iff hkeys', h.mem_iff]

/-- Where keys are distinct, changing what lies at one place is changing what has
the key there. -/
theorem set_eq_map_of_nodup (hkeys : (l.map key).Nodup) {place : Nat} {a : α}
    (ha : l[place]? = some a) (f : α → α) :
    l.set place (f a) = l.map fun b => if key b = key a then f b else b := by
  refine List.ext_getElem? fun i => ?_
  rw [List.getElem?_set, List.getElem?_map]
  by_cases hi : place = i
  · rw [if_pos hi, ← hi, ha, if_pos (List.getElem?_eq_some_iff.mp ha).1]
    simp
  · rw [if_neg hi]
    cases hb : l[i]? with
    | none => rfl
    | some b =>
        -- Two places of one key would be one place.
        have hne : key b ≠ key a := by
          intro hkey
          have hplace : place < (l.map key).length := by
            rw [List.length_map]
            exact (List.getElem?_eq_some_iff.mp ha).1
          refine hi ((List.getElem?_inj hplace hkeys).mp ?_)
          rw [List.getElem?_map, List.getElem?_map, ha, hb, Option.map_some, Option.map_some, hkey]
        rw [Option.map_some, if_neg hne]

end

end VariantSelection
