/-
Asking for less never makes a compatible candidate incompatible.

Take entries out of a request.  What is still asked for is judged as before, because
a match depends on its own entry and on what the candidate has for it: so the
matches of the smaller request are those of the larger one whose names are left.
What the candidate has for the other names goes over to the unmatched.  No rule is
consulted for any of this, hence it holds under any rules.

So a candidate against which nothing stood is one against which nothing stands.
Selectors that are taken away only let more variants in, and whatever disambiguation
then makes of them, the answer is not that nothing matches.
-/
import VariantSelection.Proofs.Match.Partition
import VariantSelection.Proofs.Selection.Justified

namespace VariantSelection

/-- What a candidate has for the names that `requested` asks for and `fewer` no
longer does. -/
def released (requested fewer provided : AttributeSet) : List ProvidedAttribute :=
  (requested.keys.filter fun name => !fewer.contains name).filterMap fun name =>
    (provided.get? name).map (ProvidedAttribute.mk name)

/-- The report `less` on a candidate that is asked for `fewer` attributes, beside
the report `all` from when the `requested` ones were asked for. -/
structure MatchReport.Relaxes (less all : MatchReport)
    (requested fewer provided : AttributeSet) : Prop where
  candidate : less.candidate = all.candidate
  compatible : less.compatible = all.compatible.filter fun a => fewer.contains a.name
  incompatible : less.incompatible = all.incompatible.filter fun a => fewer.contains a.name
  unmatched : less.unmatched.Perm (all.unmatched ++ released requested fewer provided)
  ascending : less.Ascending

section
variable {r : Registry} {requested fewer provided : AttributeSet} {candidate : String}

/-! ### Reports

A report is compared part by part.  The matches are a filter of those from before,
and what was released is collected from the names that are gone.
-/

theorem attributeMatches_of_sublist (h : fewer.entries.Sublist requested.entries) :
    attributeMatches fewer provided
      = (attributeMatches requested provided).filter fun a => fewer.contains a.name := by
  rw [attributeMatches, attributeMatches, List.filter_map]
  exact congrArg _ (SortedMap.entries_of_sublist h)

theorem mem_released {a : ProvidedAttribute} :
    a ∈ released requested fewer provided ↔
      (requested.contains a.name = true ∧ fewer.contains a.name = false) ∧
        provided.get? a.name = some a.value := by
  simp only [released, List.mem_filterMap, List.mem_filter, SortedMap.mem_keys_iff_contains,
    Bool.not_eq_true', Option.map_eq_some_iff]
  constructor
  · rintro ⟨name, hname, v, hv, rfl⟩
    exact ⟨hname, hv⟩
  · rintro ⟨hname, hv⟩
    exact ⟨a.name, hname, a.value, hv, rfl⟩

theorem nodup_released : (released requested fewer provided).Nodup := by
  refine List.Pairwise.filterMap _ ?_
    (requested.nodup_keys.sublist (List.filter_sublist (p := fun name => !fewer.contains name)))
  intro name other hne a ha b hb hab
  obtain ⟨v, -, rfl⟩ := Option.map_eq_some_iff.mp ha
  obtain ⟨w, -, rfl⟩ := Option.map_eq_some_iff.mp hb
  exact hne (congrArg ProvidedAttribute.name hab)

/-- What is unmatched when less is asked for was so before or is among the `released`. -/
theorem mem_evaluate_unmatched_iff_of_sublist (h : fewer.entries.Sublist requested.entries)
    {a : ProvidedAttribute} :
    a ∈ (evaluate r fewer candidate provided).unmatched ↔
      a ∈ (evaluate r requested candidate provided).unmatched ∨
        a ∈ released requested fewer provided := by
  rw [mem_evaluate_unmatched, mem_evaluate_unmatched, mem_released]
  have hless : requested.contains a.name = false → fewer.contains a.name = false := by
    intro hnot
    refine Bool.eq_false_iff.mpr fun hfewer => ?_
    rw [SortedMap.contains_of_sublist h hfewer] at hnot
    cases hnot
  constructor
  · rintro ⟨hv, hunasked⟩
    cases hrequested : requested.contains a.name with
    | false => exact Or.inl ⟨hv, rfl⟩
    | true => exact Or.inr ⟨⟨rfl, hunasked⟩, hv⟩
  · rintro (⟨hv, hnot⟩ | ⟨⟨-, hunasked⟩, hv⟩)
    · exact ⟨hv, hless hnot⟩
    · exact ⟨hv, hunasked⟩

theorem perm_evaluate_unmatched (h : fewer.entries.Sublist requested.entries) :
    (evaluate r fewer candidate provided).unmatched.Perm
      ((evaluate r requested candidate provided).unmatched
        ++ released requested fewer provided) := by
  have hnodup : ∀ asked : AttributeSet, (evaluate r asked candidate provided).unmatched.Nodup := by
    intro asked
    refine (ascending_evaluate r asked candidate provided).unmatched.imp fun hlt hsame => ?_
    exact ne_of_compare_lt hlt (congrArg ProvidedAttribute.name hsame)
  have hdisjoint : ∀ a ∈ (evaluate r requested candidate provided).unmatched,
      ∀ b ∈ released requested fewer provided, a ≠ b := by
    rintro a ha b hb rfl
    have hrequested := (mem_released.mp hb).1.1
    rw [(mem_evaluate_unmatched.mp ha).2] at hrequested
    cases hrequested
  refine (List.perm_ext_iff_of_nodup (hnodup fewer)
    (List.nodup_append.mpr ⟨hnodup requested, nodup_released, hdisjoint⟩)).mpr fun a => ?_
  rw [List.mem_append]
  exact mem_evaluate_unmatched_iff_of_sublist h

theorem evaluate_relaxes (r : Registry) (candidate : String) (provided : AttributeSet)
    (h : fewer.entries.Sublist requested.entries) :
    (evaluate r fewer candidate provided).Relaxes (evaluate r requested candidate provided)
      requested fewer provided where
  candidate := rfl
  compatible := by
    simp only [evaluate, attributeMatches_of_sublist h, List.filter_filter, Bool.and_comm]
  incompatible := by
    simp only [evaluate, attributeMatches_of_sublist h, List.filter_filter, Bool.and_comm]
  unmatched := perm_evaluate_unmatched h
  ascending := ascending_evaluate r fewer candidate provided

end

/-! ### Answers

That nothing matches is the one kind of answer that is told by `Qualifies` alone.
-/

section
variable {r : Registry} {q : Request} {fewer : AttributeSet}
  {selectors : List CapabilitySelector}

/-- The request for some of the attributes and some of the capabilities. -/
def Request.asking (q : Request) (fewer : AttributeSet) (selectors : List CapabilitySelector) :
    Request :=
  { q with attributes := fewer, capabilities := selectors }

theorem Variant.Qualifies.asking {v : Variant} (h : v.Qualifies r q)
    (hfewer : fewer.entries.Sublist q.attributes.entries)
    (hselectors : selectors.Sublist q.capabilities) : v.Qualifies r (q.asking fewer selectors) := by
  obtain ⟨hprovides, hnone⟩ := h
  refine ⟨fun s hs => hprovides s (hselectors.subset hs), ?_⟩
  have hrelaxes := evaluate_relaxes r v.name v.attributes hfewer
  have hreport : (v.report r fewer).incompatible
      = (v.report r q.attributes).incompatible.filter fun a => fewer.contains a.name :=
    hrelaxes.incompatible
  rw [hnone] at hreport
  exact hreport

/-- **Asking for less never makes a compatible candidate incompatible**, under any
rules.  A report loses the matches of the names that are gone and has the
candidate's values for them among the unmatched; and an answer that is not that
nothing matches is not turned into one. -/
theorem selectVariant_asking (r : Registry) :
    (∀ (requested fewer : AttributeSet) (candidate : String) (provided : AttributeSet),
      fewer.entries.Sublist requested.entries →
        (evaluate r fewer candidate provided).Relaxes (evaluate r requested candidate provided)
          requested fewer provided) ∧
    ∀ (c : Component) (q : Request) (fewer : AttributeSet) (selectors : List CapabilitySelector),
      q.variant = none → fewer.entries.Sublist q.attributes.entries →
        selectors.Sublist q.capabilities → ¬IsIncompatible (selectVariant r c q) →
          ¬IsIncompatible (selectVariant r c (q.asking fewer selectors)) := by
  refine ⟨fun requested fewer candidate provided => evaluate_relaxes r candidate provided, ?_⟩
  intro c q fewer selectors hunnamed hfewer hselectors hsome hnone
  have hunnamed' : (q.asking fewer selectors).variant = none := hunnamed
  rw [isIncompatible_selectVariant_iff hunnamed] at hsome
  obtain ⟨hvariants, hnone⟩ := (isIncompatible_selectVariant_iff hunnamed').mp hnone
  obtain ⟨v, hv⟩ := List.exists_mem_of_ne_nil _ fun hnil => hsome ⟨hvariants, hnil⟩
  obtain ⟨hmem, hqualifies⟩ := Component.mem_qualified.mp hv
  have hleft : v ∈ c.qualified r (q.asking fewer selectors) :=
    Component.mem_qualified.mpr ⟨hmem, hqualifies.asking hfewer hselectors⟩
  rw [hnone] at hleft
  exact List.not_mem_nil hleft

end

namespace Sample

/-- A request of the API that asks for the library's own capability too. -/
def strictRequest : Request :=
  { request with capabilities := [⟨"org.example", "library", none⟩] }

/-- What is requested but for the usage. -/
def withoutUsage : AttributeSet := request.attributes.erase Standard.usage

end Sample

/-- Without the usage, what the runtime variant has for it is unmatched, and the
variant qualifies beside the newer one. -/
theorem selectVariant_asking_withoutUsage : ∃ r, Registry.standard = .ok r ∧
    (evaluate r Sample.withoutUsage "runtime" Sample.runtime.attributes).Relaxes
      (evaluate r Sample.request.attributes "runtime" Sample.runtime.attributes)
      Sample.request.attributes Sample.withoutUsage Sample.runtime.attributes ∧
    ¬IsIncompatible (selectVariant r (Sample.library [Sample.newer, Sample.runtime])
      Sample.strictRequest) ∧
    ¬IsIncompatible (selectVariant r (Sample.library [Sample.newer, Sample.runtime])
      (Sample.strictRequest.asking Sample.withoutUsage [])) := by
  have hstandard : ∃ r, Registry.standard = .ok r ∧
      selectVariant r (Sample.library [Sample.newer, Sample.runtime]) Sample.strictRequest
        = .ok (.matched Sample.newer) := ⟨_, rfl, rfl⟩
  obtain ⟨r, hr, hanswer⟩ := hstandard
  have hfewer : Sample.withoutUsage.entries.Sublist Sample.request.attributes.entries :=
    List.filter_sublist
  have hsome : ¬IsIncompatible (selectVariant r (Sample.library [Sample.newer, Sample.runtime])
      Sample.strictRequest) := by
    rw [hanswer]
    rintro ⟨_, _, _, _, _, ⟨⟩⟩
  refine ⟨r, hr, (selectVariant_asking r).1 _ _ _ _ hfewer, hsome, ?_⟩
  exact (selectVariant_asking r).2 _ Sample.strictRequest _ _ rfl hfewer (List.nil_sublist _) hsome

end VariantSelection
