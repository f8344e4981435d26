/-
A report puts every attribute into one place.

The requested attributes are read off the request and the others off the candidate,
so two passes over two maps have to come out as one partition,
`MatchReport.IsPartition`.  What makes them do so is that neither map has a name
twice: a requested name stands in one of the two lists of matches
(`perm_evaluate_matches`), a name that is provided unasked stands among the
unmatched, and a name that is both counts as a match.  Each list is a part of one of
the maps and keeps its order.

Counted together, what is compatible, what is unmatched and what is there without
being accepted is all that the candidate has (`evaluate_size`).  Only a
requested attribute that the candidate lacks stands in a report without being counted.
-/
import VariantSelection.Proofs.Match
import VariantSelection.Proofs.Registry

namespace VariantSelection

/-- The attribute's rule lets `v` pass where `wanted` is asked for.  An attribute
that is not registered has no rule, and only the same value passes. -/
def Registry.Accepts (r : Registry) (name : String) (wanted v : Value) : Prop :=
  (∃ d ∈ r.definitions, d.name = name ∧ d.compatibility.isCompatible wanted v = true) ∨
    (name ∉ r.names ∧ v = wanted)

theorem Registry.accepts_iff {r : Registry} {name : String} {wanted v : Value} :
    r.Accepts name wanted v ↔ (r.compatibilityRule name).isCompatible wanted v = true := by
  unfold Registry.Accepts Registry.compatibilityRule
  cases hfound : r.find? name with
  | none =>
      have hunknown : name ∉ r.names := Registry.find?_eq_none_iff.mp hfound
      have hnone : ∀ d ∈ r.definitions, d.name ≠ name := by
        intro d hd hname
        exact hunknown (List.mem_map.mpr ⟨d, hd, hname⟩)
      simp only [CompatibilityRule.isCompatible, Bool.or_false, decide_eq_true_eq]
      constructor
      · rintro (⟨d, hd, hname, -⟩ | ⟨-, hsame⟩)
        · exact absurd hname (hnone d hd)
        · exact hsame.symm
      · intro hsame
        exact Or.inr ⟨hunknown, hsame.symm⟩
  | some d =>
      obtain ⟨hd, hname⟩ := Registry.find?_eq_some_iff.mp hfound
      constructor
      · rintro (⟨other, hother, hsame, hok⟩ | ⟨hunknown, -⟩)
        · have heq := Registry.find?_eq_some_iff.mpr ⟨hother, hsame⟩
          rw [hfound, Option.some.injEq] at heq
          rwa [heq]
        · exact absurd (List.mem_map.mpr ⟨d, hd, hname⟩) hunknown
      · intro hok
        exact Or.inl ⟨d, hd, hname, hok⟩

/-- Each list of the report is ascending by name, with no name twice. -/
structure MatchReport.Ascending (m : MatchReport) : Prop where
  compatible : m.compatible.Pairwise fun a b => compare a.name b.name = .lt
  incompatible : m.incompatible.Pairwise fun a b => compare a.name b.name = .lt
  unmatched : m.unmatched.Pairwise fun a b => compare a.name b.name = .lt

/-- A report on a candidate that has every attribute of the request and of the
candidate in its one place. -/
structure MatchReport.IsPartition (m : MatchReport) (r : Registry) (requested : AttributeSet)
    (candidate : String) (provided : AttributeSet) : Prop where
  candidate : m.candidate = candidate
  /-- Each requested name stands once in the lists of matches, and no other name does. -/
  requestedOnce : ∀ name, ((m.compatible ++ m.incompatible).map AttributeMatch.name).count name
    = if requested.contains name then 1 else 0
  /-- Each name that is provided unasked stands once among the unmatched, and no
  other name does. -/
  unaskedOnce : ∀ name, (m.unmatched.map ProvidedAttribute.name).count name
    = if provided.contains name && !requested.contains name then 1 else 0
  ascending : m.Ascending
  /-- A match has the value that is requested, and what the candidate has for it. -/
  matched : ∀ a ∈ m.compatible ++ m.incompatible,
    requested.get? a.name = some a.requested ∧ a.provided = provided.get? a.name
  unmatched : ∀ a ∈ m.unmatched, provided.get? a.name = some a.value
  compatible_iff : ∀ a ∈ m.compatible ++ m.incompatible,
    a ∈ m.compatible ↔ ∃ v, a.provided = some v ∧ r.Accepts a.name a.requested v
  isCompatible_iff : m.isCompatible = true ↔
    ∀ name wanted, requested.get? name = some wanted →
      ∃ v, provided.get? name = some v ∧ r.Accepts name wanted v
  /-- What the candidate has is compatible, unmatched, or there without being accepted. -/
  size : m.compatible.length + m.unmatched.length
    + (m.incompatible.filter fun a => a.provided.isSome).length = provided.size

section
variable {r : Registry} {requested provided : AttributeSet} {candidate : String}

/-! ### The matches

The matches are the entries of the request, each with what the candidate has under
the same name.
-/

theorem map_name_attributeMatches :
    (attributeMatches requested provided).map AttributeMatch.name = requested.keys := by
  rw [attributeMatches, List.map_map]
  rfl

theorem ascending_attributeMatches :
    (attributeMatches requested provided).Pairwise fun a b => compare a.name b.name = .lt := by
  rw [attributeMatches, List.pairwise_map]
  exact requested.ascending

theorem mem_attributeMatches {a : AttributeMatch} :
    a ∈ attributeMatches requested provided ↔
      requested.get? a.name = some a.requested ∧ a.provided = provided.get? a.name := by
  rw [attributeMatches, List.mem_map]
  constructor
  · rintro ⟨e, he, rfl⟩
    exact ⟨SortedMap.get?_eq_some_iff.mpr he, rfl⟩
  · rintro ⟨hrequested, hprovided⟩
    refine ⟨(a.name, a.requested), SortedMap.get?_eq_some_iff.mp hrequested, ?_⟩
    rw [← hprovided]

/-- Nothing is lost between the two lists of matches, and nothing stands in both. -/
theorem perm_evaluate_matches (r : Registry) (requested provided : AttributeSet)
    (candidate : String) :
    ((evaluate r requested candidate provided).compatible
      ++ (evaluate r requested candidate provided).incompatible).Perm
      (attributeMatches requested provided) :=
  List.filter_append_perm _ _

theorem AttributeMatch.isSatisfied_iff_accepts {a : AttributeMatch} :
    a.isSatisfied r = true ↔ ∃ v, a.provided = some v ∧ r.Accepts a.name a.requested v := by
  simp only [AttributeMatch.isSatisfied_iff, Registry.accepts_iff]

/-! ### What is provided unasked -/

theorem map_name_evaluate_unmatched (r : Registry) (requested provided : AttributeSet)
    (candidate : String) :
    (evaluate r requested candidate provided).unmatched.map ProvidedAttribute.name
      = provided.keys.filter fun name => !requested.contains name := by
  simp only [evaluate, SortedMap.keys, List.map_map, List.filter_map]
  rfl

theorem mem_evaluate_unmatched {a : ProvidedAttribute} :
    a ∈ (evaluate r requested candidate provided).unmatched ↔
      provided.get? a.name = some a.value ∧ requested.contains a.name = false := by
  simp only [evaluate, List.mem_map, List.mem_filter, Bool.not_eq_true']
  constructor
  · rintro ⟨e, ⟨he, hunasked⟩, rfl⟩
    exact ⟨SortedMap.get?_eq_some_iff.mpr he, hunasked⟩
  · rintro ⟨hprovided, hunasked⟩
    exact ⟨(a.name, a.value), ⟨SortedMap.get?_eq_some_iff.mp hprovided, hunasked⟩, rfl⟩

theorem ascending_evaluate (r : Registry) (requested : AttributeSet) (candidate : String)
    (provided : AttributeSet) : (evaluate r requested candidate provided).Ascending where
  compatible := ascending_attributeMatches.sublist List.filter_sublist
  incompatible := ascending_attributeMatches.sublist List.filter_sublist
  unmatched := by
    simp only [evaluate, List.pairwise_map]
    exact provided.ascending.sublist List.filter_sublist

/-! ### Counting

Only here both maps are looked at together: a name that is in both is counted as a
match and not among the unmatched.
-/

/-- The matches of attributes that the candidate has are the compatible ones and
some that are not. -/
theorem perm_evaluate_present (r : Registry) (requested provided : AttributeSet)
    (candidate : String) :
    ((evaluate r requested candidate provided).compatible
      ++ (evaluate r requested candidate provided).incompatible.filter
        fun a => a.provided.isSome).Perm
      ((attributeMatches requested provided).filter fun a => a.provided.isSome) := by
  have hpresent : (evaluate r requested candidate provided).compatible.filter
      (fun a => a.provided.isSome) = (evaluate r requested candidate provided).compatible := by
    refine List.filter_eq_self.mpr fun a ha => ?_
    obtain ⟨v, hv, -⟩ := AttributeMatch.isSatisfied_iff.mp (List.mem_filter.mp ha).2
    rw [hv]
    rfl
  have hperm := (perm_evaluate_matches r requested provided candidate).filter
    fun a => a.provided.isSome
  rwa [List.filter_append, hpresent] at hperm

/-- What is requested and there has the same names as what is there and requested. -/
theorem length_present_attributeMatches :
    ((attributeMatches requested provided).filter fun a => a.provided.isSome).length
      = (provided.keys.filter requested.contains).length := by
  have hnames : ((attributeMatches requested provided).filter
      fun a => a.provided.isSome).map AttributeMatch.name
      = requested.keys.filter provided.contains := by
    simp only [attributeMatches, SortedMap.keys, List.filter_map, List.map_map]
    rfl
  have hperm : (requested.keys.filter provided.contains).Perm
      (provided.keys.filter requested.contains) := by
    refine (List.perm_ext_iff_of_nodup (requested.nodup_keys.sublist List.filter_sublist)
      (provided.nodup_keys.sublist List.filter_sublist)).mpr fun name => ?_
    rw [List.mem_filter, List.mem_filter, SortedMap.mem_keys_iff_contains,
      SortedMap.mem_keys_iff_contains]
    exact And.comm
  rw [← List.length_map AttributeMatch.name, hnames, hperm.length_eq]

theorem evaluate_size :
    (evaluate r requested candidate provided).compatible.length
      + (evaluate r requested candidate provided).unmatched.length
      + ((evaluate r requested candidate provided).incompatible.filter
          fun a => a.provided.isSome).length = provided.size := by
  have hpresent := (perm_evaluate_present r requested provided candidate).length_eq
  rw [List.length_append, length_present_attributeMatches] at hpresent
  have hunmatched := congrArg List.length
    (map_name_evaluate_unmatched r requested provided candidate)
  rw [List.length_map] at hunmatched
  have hkeys : provided.keys.length = provided.size := List.length_map _
  have hall := List.length_eq_length_filter_add (l := provided.keys) requested.contains
  omega

/-- **A report is an exact partition**: every attribute of the request and of the
candidate has its one place, and is there by the attribute's rule. -/
theorem evaluate_isPartition (r : Registry) (requested : AttributeSet) (candidate : String)
    (provided : AttributeSet) :
    (evaluate r requested candidate provided).IsPartition r requested candidate provided where
  candidate := rfl
  requestedOnce := by
    intro name
    rw [((perm_evaluate_matches r requested provided candidate).map _).count_eq,
      map_name_attributeMatches, SortedMap.count_keys]
  unaskedOnce := by
    intro name
    have hnodup : (provided.keys.filter fun name => !requested.contains name).Nodup :=
      provided.nodup_keys.sublist List.filter_sublist
    rw [map_name_evaluate_unmatched, hnodup.count]
    simp only [List.mem_filter, SortedMap.mem_keys_iff_contains, Bool.and_eq_true]
  ascending := ascending_evaluate r requested candidate provided
  matched := by
    intro a ha
    exact mem_attributeMatches.mp
      ((perm_evaluate_matches r requested provided candidate).mem_iff.mp ha)
  unmatched := by
    intro a ha
    exact (mem_evaluate_unmatched.mp ha).1
  compatible_iff := by
    intro a ha
    have hmem := (perm_evaluate_matches r requested provided candidate).mem_iff.mp ha
    rw [← AttributeMatch.isSatisfied_iff_accepts]
    exact ⟨fun hok => (List.mem_filter.mp hok).2, fun hok => List.mem_filter.mpr ⟨hmem, hok⟩⟩
  isCompatible_iff := by
    simp only [evaluate_isCompatible_iff, Registry.accepts_iff]
  size := evaluate_size

end

end VariantSelection
