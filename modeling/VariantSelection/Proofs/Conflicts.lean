/-
The groups of variants with the same capabilities.

The groups are listed in the order of the variants, and so are the members of each.
What the groups are does not depend on that order: a reordering of the variants
reorders the groups and their members (`conflictingGroups_perm`).  Since two
variants may have one name, the classes are told by the positions of their members,
`ConflictClasses`, and the names are read off these.
-/
import VariantSelection.Proofs.Distinct
import VariantSelection.Variant

namespace VariantSelection

/-- The same groups, whatever their order and the order of their members. -/
def SameGroups (groups others : List (List String)) : Prop :=
  ∃ reordered, List.Forall₂ List.Perm groups reordered ∧ reordered.Perm others

/-- The names of the variants with exactly this set of capabilities. -/
def groupOf (variants : List Variant) (set : SortedSet Capability) : List String :=
  (variants.filter fun v => v.capabilities = set).map Variant.name

theorem conflictingGroups_eq (variants : List Variant) :
    conflictingGroups variants
      = ((variants.map Variant.capabilities).eraseDups.filter
          fun set => 1 < (groupOf variants set).length).map (groupOf variants) := by
  rw [← Function.comp_def (fun group : List String => decide (1 < group.length)),
    ← List.filter_map]
  rfl

theorem groupOf_perm {variants others : List Variant} (h : variants.Perm others)
    (set : SortedSet Capability) : (groupOf variants set).Perm (groupOf others set) :=
  (h.filter _).map _

/-- **The conflicts do not depend on the order of the variants.** -/
theorem conflictingGroups_perm {variants others : List Variant} (h : variants.Perm others) :
    SameGroups (conflictingGroups variants) (conflictingGroups others) := by
  have hlength : ∀ set, (groupOf variants set).length = (groupOf others set).length :=
    fun set => (groupOf_perm h set).length_eq
  have hsets : (variants.map Variant.capabilities).eraseDups.Perm
      (others.map Variant.capabilities).eraseDups :=
    eraseDups_perm fun a => (h.map Variant.capabilities).mem_iff
  rw [conflictingGroups_eq, conflictingGroups_eq]
  simp only [hlength]
  -- The sets of the one list, each with its members in the other list, are half way
  -- between the two.
  refine ⟨_, ?_, (hsets.filter _).map (groupOf others)⟩
  rw [List.forall₂_map_left_iff, List.forall₂_map_right_iff, List.forall₂_same]
  intro set _
  exact groupOf_perm h set

/-! ### Positions

A group is listed where its first member stands, and a position belongs to one group
at most.  `mem_conflictPositions` says which groups there are: the class of each
position that is not alone in it.
-/

section
variable {variants : List Variant}

/-- The positions of the variants with exactly this set of capabilities. -/
def positionsOf (variants : List Variant) (set : SortedSet Capability) :
    List (Fin variants.length) :=
  (List.finRange variants.length).filter fun i => variants[i].capabilities = set

/-- The positions of the groups, as the groups list them. -/
def conflictPositions (variants : List Variant) : List (List (Fin variants.length)) :=
  ((variants.map Variant.capabilities).eraseDups.filter
    fun set => 1 < (positionsOf variants set).length).map (positionsOf variants)

/-- The groups of positions are the classes of variants with the same capabilities
that have several members. -/
structure ConflictClasses (variants : List Variant) (groups : List (List (Fin variants.length))) :
    Prop where
  together_iff : ∀ i j, i ≠ j → ((∃ group ∈ groups, i ∈ group ∧ j ∈ group) ↔
    variants[i].capabilities = variants[j].capabilities)
  /-- A variant whose capabilities no other one has is in no group. -/
  grouped_iff : ∀ i, (∃ group ∈ groups, i ∈ group) ↔
    ∃ j, j ≠ i ∧ variants[j].capabilities = variants[i].capabilities
  several : ∀ group ∈ groups, 2 ≤ group.length
  /-- No position occurs twice, be it in one group or in two. -/
  once : groups.flatten.Nodup
  membersAscend : ∀ group ∈ groups, group.Pairwise (· < ·)
  groupsAscend : (groups.filterMap List.head?).Pairwise (· < ·)

theorem mem_positionsOf {set : SortedSet Capability} {i : Fin variants.length} :
    i ∈ positionsOf variants set ↔ variants[i].capabilities = set := by
  simp [positionsOf]

theorem ascending_positionsOf (variants : List Variant) (set : SortedSet Capability) :
    (positionsOf variants set).Pairwise (· < ·) :=
  (List.pairwise_lt_finRange variants.length).sublist List.filter_sublist

theorem nodup_positionsOf (variants : List Variant) (set : SortedSet Capability) :
    (positionsOf variants set).Nodup :=
  (List.nodup_finRange variants.length).sublist List.filter_sublist

theorem groupOf_eq (variants : List Variant) (set : SortedSet Capability) :
    groupOf variants set = (positionsOf variants set).map fun i => variants[i].name := by
  have hvariants : ((List.finRange variants.length).map fun i => variants[i]) = variants :=
    List.map_getElem_finRange variants
  have hgroup := congrArg (fun l => groupOf l set) hvariants
  simp only [groupOf, List.filter_map, List.map_map] at hgroup
  exact hgroup.symm

theorem conflictingGroups_eq_map_positions (variants : List Variant) :
    conflictingGroups variants
      = (conflictPositions variants).map fun group => group.map fun i => variants[i].name := by
  have hgroups : groupOf variants
      = fun set => (positionsOf variants set).map fun i => variants[i].name :=
    funext (groupOf_eq variants)
  rw [conflictingGroups_eq, conflictPositions, List.map_map, hgroups]
  simp only [List.length_map]
  rfl

/-- A group is the class of each of its members, and has another member. -/
theorem mem_conflictPositions {group : List (Fin variants.length)} :
    group ∈ conflictPositions variants ↔
      ∃ i : Fin variants.length, group = positionsOf variants variants[i].capabilities ∧
        ∃ j : Fin variants.length, j ≠ i ∧ variants[j].capabilities = variants[i].capabilities := by
  have hseveral : ∀ i : Fin variants.length,
      1 < (positionsOf variants variants[i].capabilities).length ↔
        ∃ j : Fin variants.length, j ≠ i ∧ variants[j].capabilities = variants[i].capabilities := by
    intro i
    rw [one_lt_length_iff_of_nodup (nodup_positionsOf _ _) (mem_positionsOf.mpr rfl)]
    simp only [mem_positionsOf, and_comm]
  simp only [conflictPositions, List.mem_map, List.mem_filter, List.mem_eraseDups,
    decide_eq_true_eq]
  constructor
  · intro h
    obtain ⟨set, ⟨⟨v, hv, rfl⟩, hlength⟩, rfl⟩ := h
    obtain ⟨i, hi, rfl⟩ := List.getElem_of_mem hv
    exact ⟨⟨i, hi⟩, rfl, (hseveral ⟨i, hi⟩).mp hlength⟩
  · intro h
    obtain ⟨i, rfl, hother⟩ := h
    exact ⟨_, ⟨⟨variants[i], List.getElem_mem i.isLt, rfl⟩, (hseveral i).mpr hother⟩, rfl⟩

/-- A class starts where its capabilities occur first. -/
theorem head_positionsOf {set : SortedSet Capability} {i : Fin variants.length}
    (h : (positionsOf variants set).head? = some i) :
    (i : Nat) = (variants.map Variant.capabilities).idxOf set := by
  have hi : variants[i].capabilities = set := mem_positionsOf.mp (List.mem_of_head? h)
  have hle : (variants.map Variant.capabilities).idxOf set ≤ i :=
    idxOf_le_of_getElem (by simp) (by simpa using hi)
  refine Nat.le_antisymm ?_ hle
  -- The place of the first occurrence is one of the positions, and the head comes
  -- before all others.
  have hplace : (variants.map Variant.capabilities).idxOf set < variants.length :=
    Nat.lt_of_le_of_lt hle i.isLt
  have hmem : ⟨_, hplace⟩ ∈ positionsOf variants set := by
    have hget := List.getElem_idxOf (by rwa [List.length_map])
    rw [List.getElem_map] at hget
    exact mem_positionsOf.mpr hget
  have hascending := ascending_positionsOf variants set
  obtain ⟨rest, hrest⟩ := List.head?_eq_some_iff.mp h
  rw [hrest] at hmem hascending
  rcases List.mem_cons.mp hmem with heq | hmem
  · exact Nat.le_of_eq (congrArg Fin.val heq).symm
  · exact Nat.le_of_lt ((List.pairwise_cons.mp hascending).1 _ hmem)

theorem groupsAscend_conflictPositions (variants : List Variant) :
    ((conflictPositions variants).filterMap List.head?).Pairwise (· < ·) := by
  rw [conflictPositions, List.filterMap_map, List.pairwise_filterMap]
  refine ((pairwise_idxOf_eraseDups (variants.map Variant.capabilities)).sublist
    List.filter_sublist).imp ?_
  intro first second hlt i hi j hj
  rw [Fin.lt_def, head_positionsOf hi, head_positionsOf hj]
  exact hlt

theorem once_conflictPositions (variants : List Variant) :
    (conflictPositions variants).flatten.Nodup := by
  rw [List.nodup_flatten, conflictPositions, List.pairwise_map]
  constructor
  · intro group hgroup
    obtain ⟨set, -, rfl⟩ := List.mem_map.mp hgroup
    exact nodup_positionsOf variants set
  · refine ((nodup_eraseDups _).sublist List.filter_sublist).imp ?_
    intro first second hne i hfirst hsecond
    rw [mem_positionsOf] at hfirst hsecond
    exact hne (hfirst.symm.trans hsecond)

theorem conflictClasses_conflictPositions (variants : List Variant) :
    ConflictClasses variants (conflictPositions variants) where
  together_iff i j hij := by
    constructor
    · intro h
      obtain ⟨group, hgroup, hi, hj⟩ := h
      obtain ⟨k, rfl, -⟩ := mem_conflictPositions.mp hgroup
      rw [mem_positionsOf] at hi hj
      exact hi.trans hj.symm
    · intro hsame
      refine ⟨_, mem_conflictPositions.mpr ⟨i, rfl, j, hij.symm, hsame.symm⟩, ?_, ?_⟩
      · exact mem_positionsOf.mpr rfl
      · exact mem_positionsOf.mpr hsame.symm
  grouped_iff i := by
    constructor
    · intro h
      obtain ⟨group, hgroup, hi⟩ := h
      obtain ⟨k, rfl, j, hjk, hj⟩ := mem_conflictPositions.mp hgroup
      rw [mem_positionsOf] at hi
      -- The class has two members at least, and one of them is not `i`.
      by_cases hik : i = k
      · exact ⟨j, hik ▸ hjk, hj.trans hi.symm⟩
      · exact ⟨k, Ne.symm hik, hi.symm⟩
    · intro h
      exact ⟨_, mem_conflictPositions.mpr ⟨i, rfl, h⟩, mem_positionsOf.mpr rfl⟩
  several group hgroup := by
    obtain ⟨set, hset, rfl⟩ := List.mem_map.mp hgroup
    have hlength := (List.mem_filter.mp hset).2
    exact of_decide_eq_true hlength
  once := once_conflictPositions variants
  membersAscend group hgroup := by
    obtain ⟨set, -, rfl⟩ := List.mem_map.mp hgroup
    exact ascending_positionsOf variants set
  groupsAscend := groupsAscend_conflictPositions variants

end

/-- **The conflicts are the classes of variants with the same capabilities, where
these have several members.**  Their order and that of their members is the order of
the variants, so another order of the variants changes nothing else. -/
theorem conflictingGroups_classes (variants : List Variant) :
    (∃ groups, ConflictClasses variants groups ∧
      conflictingGroups variants
        = groups.map fun group => group.map fun i => variants[i].name) ∧
    ∀ others, variants.Perm others →
      SameGroups (conflictingGroups variants) (conflictingGroups others) :=
  ⟨⟨conflictPositions variants, conflictClasses_conflictPositions variants,
      conflictingGroups_eq_map_positions variants⟩,
    fun _ => conflictingGroups_perm⟩

namespace Sample

/-- A variant that can stand in for one thing. -/
def standIn (name capability : String) : Variant where
  name
  attributes := .empty
  capabilities := .singleton ⟨"org.example", capability, "1.0"⟩
  artifacts := []
  dependencies := []
  secondary := []

/-- Two classes whose members alternate, two variants of one name, and a variant
that is alone. -/
def alternating : List Variant :=
  [standIn "jar" "library", standIn "mock" "fixtures", standIn "shaded" "library",
   standIn "docs" "manual", standIn "mock" "fixtures"]

end Sample

/-- Turning the variants round turns the groups round, and each of them. -/
theorem conflictingGroups_classes_alternating :
    conflictingGroups Sample.alternating = [["jar", "shaded"], ["mock", "mock"]] ∧
    conflictingGroups Sample.alternating.reverse = [["mock", "mock"], ["shaded", "jar"]] ∧
    SameGroups (conflictingGroups Sample.alternating)
      (conflictingGroups Sample.alternating.reverse) := by
  have hperm : Sample.alternating.Perm Sample.alternating.reverse :=
    (List.reverse_perm Sample.alternating).symm
  exact ⟨by decide, by decide, (conflictingGroups_classes Sample.alternating).2 _ hperm⟩

end VariantSelection
