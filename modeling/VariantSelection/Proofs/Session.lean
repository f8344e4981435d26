/-
Every resolution is justified by the catalog and the request.

Resolving reads a component off the catalog, selects one of its variants and then
chooses files.  Selection answers with a variant of the component, and the files are
the variant's own unless one of its secondary variants is preferred to it.  Then the
request has a reason to (`SecondaryVariant.Replaces`): laid over the variant, the
secondary variant has another value for something requested.  Were it otherwise the
two would be alike, and the variant would have been left beside it
(`mem_preferredForms_of_agreesOn`).
-/
import VariantSelection.Proofs.Disambiguation.Alike
import VariantSelection.Proofs.Selection.Files
import VariantSelection.Proofs.Selection.Justified
import VariantSelection.Session.Loading

namespace VariantSelection

/-! ### The variant

Where the answer is an error there is no resolution, so the three kinds of outcome
are all that has to be justified.
-/

/-- What selection answers with: the default artifact where there is no variant, and
otherwise a variant that the request names or that qualifies for it. -/
theorem selectVariant_eq_ok {r : Registry} {c : Component} {q : Request} {o : Outcome}
    (h : selectVariant r c q = .ok o) :
    (c.variants = [] ∧ o = .legacyDefault c.defaultArtifact) ∨
    (c.variants ≠ [] ∧ ∃ v ∈ c.variants, o = .explicit v ∧ q.variant = some v.name) ∨
    (c.variants ≠ [] ∧ ∃ v ∈ c.variants, o = .matched v ∧ v.Qualifies r q) := by
  by_cases hvariants : c.variants = []
  · rw [selectVariant, if_pos (by simpa using hvariants), Except.ok.injEq] at h
    exact Or.inl ⟨hvariants, h.symm⟩
  · refine Or.inr ?_
    cases hname : q.variant with
    | some name =>
        have hanswer := namedAnswer_selectVariant r hvariants hname
        rw [h] at hanswer
        cases hanswer with
        | found before v after hsplit hnamed hfirst =>
            have hv : v ∈ c.variants := by simp [hsplit]
            exact Or.inl ⟨hvariants, v, hv, rfl, by rw [hnamed]⟩
    | none =>
        rw [selectVariant_of_unnamed hvariants hname] at h
        have hjustified := matchJustified_matchVariant r c q
        rcases hjustified.kinds with ⟨v, hv⟩ | ⟨_, herror⟩ | ⟨_, _, _, herror⟩
        · obtain ⟨hmem, hqualifies⟩ := Component.mem_qualified.mp (hjustified.matched v hv)
          rw [hv, Except.ok.injEq] at h
          exact Or.inr ⟨hvariants, v, hmem, h.symm, hqualifies⟩
        · rw [h] at herror
          cases herror
        · rw [h] at herror
          cases herror

/-! ### The files

A secondary variant is looked at as it is laid over the variant that it belongs to.
-/

/-- The secondary variant has a claim to be chosen in the place of the variant: laid
over it, it matches the request and has another value for something requested. -/
structure SecondaryVariant.Replaces (s : SecondaryVariant) (v : Variant) (r : Registry)
    (requested : AttributeSet) : Prop where
  mem : s ∈ v.secondary
  compatible :
    (evaluate r requested s.name (v.attributes.overlay s.attributes)).isCompatible = true
  differs : ∃ name, requested.contains name = true ∧
    (v.attributes.overlay s.attributes).get? name ≠ v.attributes.get? name

section
variable {r : Registry} {v w u : Variant} {requested : AttributeSet}

theorem isCompatible_of_mem_preferredForms (h : w ∈ v.preferredForms r requested) :
    (w.report r requested).isCompatible = true := by
  have hmatching := (preferredForms_sublist_matchingForms r v requested).subset h
  exact (List.mem_filter.mp hmatching).2

/-- Of two candidates for the files that agree on the request, `preferredForms` has
both or neither. -/
theorem mem_preferredForms_of_agreesOn (hagree : w.AgreesOn u requested)
    (hu : u ∈ v.artifactCandidates) (hw : w ∈ v.preferredForms r requested) :
    u ∈ v.preferredForms r requested := by
  have hmatching : u ∈ v.matchingForms r requested :=
    List.mem_filter.mpr ⟨hu, hagree.isCompatible (isCompatible_of_mem_preferredForms hw)⟩
  unfold Variant.preferredForms at hw ⊢
  by_cases hlen : (v.matchingForms r requested).length ≤ 1
  · rw [if_pos hlen]
    exact hmatching
  · rw [if_neg hlen] at hw ⊢
    exact mem_disambiguate_of_agreesOn hagree hmatching hw

/-- **A secondary variant wins only because of something requested for which it has
another value.** -/
theorem SecondaryVariant.replaces_of_winner {s : SecondaryVariant} (hs : s ∈ v.secondary)
    (hwinner : v.preferredForms r requested = [s.asCandidate v]) (hname : s.name ≠ v.name) :
    s.Replaces v r requested := by
  have hpreferred : s.asCandidate v ∈ v.preferredForms r requested := by
    rw [hwinner]
    exact List.mem_singleton_self _
  refine ⟨hs, isCompatible_of_mem_preferredForms hpreferred, ?_⟩
  -- Were all requested values the same, the variant would be left beside the winner.
  by_contra hsame
  have hagree : (s.asCandidate v).AgreesOn { v with secondary := [] } requested := by
    intro name hrequested
    by_contra hdiffers
    exact hsame ⟨name, hrequested, hdiffers⟩
  have hown : { v with secondary := [] } ∈ v.preferredForms r requested :=
    mem_preferredForms_of_agreesOn hagree List.mem_cons_self hpreferred
  rw [hwinner, List.mem_singleton] at hown
  exact hname (congrArg Variant.name hown).symm

theorem selectArtifacts_eq_or (r : Registry) (v : Variant) (requested : AttributeSet) :
    selectArtifacts r v requested = ⟨v.name, v.artifacts⟩ ∨
      ∃ s : SecondaryVariant, s.Replaces v r requested ∧
        selectArtifacts r v requested = ⟨s.name, s.artifacts⟩ := by
  by_cases hwinner : ∃ w, v.preferredForms r requested = [w]
  · obtain ⟨w, hw⟩ := hwinner
    rw [selectArtifacts_of_winner hw]
    by_cases hname : w.name = v.name
    · exact Or.inl (if_pos hname)
    · rw [if_neg hname]
      rcases eq_or_exists_of_winner hw with rfl | ⟨s, hs, rfl⟩
      · exact absurd rfl hname
      · exact Or.inr ⟨s, SecondaryVariant.replaces_of_winner hs hw hname, rfl⟩
  · exact Or.inl (selectArtifacts_of_none fun w hw => hwinner ⟨w, hw⟩)

end

/-! ### The resolution

`Justified` has a clause for each field of a result; the one on the files is `IsOf`.
-/

/-- The result is about the variant, and its files are the variant's own or those of
a secondary variant with a claim to be chosen. -/
structure Resolved.IsOf (x : Resolved) (v : Variant) (r : Registry) (q : Request) : Prop where
  variant : x.outcome.variant? = some v.name
  dependencies : x.dependencies = v.dependencies
  capabilities : x.capabilities = v.capabilityIds
  files : (x.source = v.name ∧ x.artifacts = v.artifacts) ∨
    ∃ s : SecondaryVariant, s.Replaces v r q.attributes ∧
      x.source = s.name ∧ x.artifacts = s.artifacts
  matched : ∀ name, x.outcome = .matched name → v.Qualifies r q
  explicit : ∀ name, x.outcome = .explicit name → q.variant = some name

/-- What the result of resolving a component says of it and of the request. -/
structure Resolved.Justified (x : Resolved) (c : Component) (r : Registry) (q : Request) :
    Prop where
  legacyDefault_iff : x.outcome = .legacyDefault ↔ c.variants = []
  legacyDefault : x.outcome = .legacyDefault →
    x.source = c.defaultArtifact.name ∧ x.artifacts = [c.defaultArtifact] ∧
      x.dependencies = [] ∧ x.capabilities = [c.implicitCapability.text]
  ofVariant : x.outcome ≠ .legacyDefault → ∃ v ∈ c.variants, x.IsOf v r q

section
variable {s : Session} {q : Request} {c : Component} {v : Variant}

theorem files_resolvedVariant (outcome : ResolvedOutcome) :
    ((s.resolvedVariant q outcome v).source = v.name ∧
      (s.resolvedVariant q outcome v).artifacts = v.artifacts) ∨
    ∃ t : SecondaryVariant, t.Replaces v s.registry q.attributes ∧
      (s.resolvedVariant q outcome v).source = t.name ∧
      (s.resolvedVariant q outcome v).artifacts = t.artifacts := by
  unfold Session.resolvedVariant
  rcases selectArtifacts_eq_or s.registry v q.attributes with hown | ⟨t, ht, hfiles⟩
  · exact Or.inl ⟨by rw [hown], by rw [hown]⟩
  · exact Or.inr ⟨t, ht, by rw [hfiles], by rw [hfiles]⟩

/-- A resolution that ends in a variant of the component is justified as soon as
`outcome` is. -/
theorem justified_resolvedVariant {outcome : ResolvedOutcome} (hv : v ∈ c.variants)
    (hvariant : outcome.variant? = some v.name)
    (hmatched : ∀ name, outcome = .matched name → v.Qualifies s.registry q)
    (hexplicit : ∀ name, outcome = .explicit name → q.variant = some name) :
    (s.resolvedVariant q outcome v).Justified c s.registry q := by
  have hlegacy : outcome ≠ .legacyDefault := by
    rintro rfl
    cases hvariant
  refine ⟨⟨fun h => absurd h hlegacy, fun h => ?_⟩, fun h => absurd h hlegacy, fun _ => ?_⟩
  · rw [h] at hv
    exact absurd hv List.not_mem_nil
  · exact ⟨v, hv, hvariant, rfl, rfl, files_resolvedVariant outcome, hmatched, hexplicit⟩

/-- **Whatever a component is resolved to follows from the catalog and the request.** -/
theorem resolve_justified {module : Coordinate} {x : Resolved} (h : s.resolve module q = .ok x) :
    ∃ c, s.catalog.get? module = some c ∧ x.Justified c s.registry q := by
  unfold Session.resolve Session.component at h
  cases hfound : s.catalog.get? module with
  | none => simp [hfound, bind, Except.bind] at h
  | some c =>
      refine ⟨c, rfl, ?_⟩
      rw [hfound] at h
      obtain ⟨o, ho, hx⟩ := bind_eq_ok.mp (ok_bind c _ ▸ h)
      rcases selectVariant_eq_ok ho with ⟨hnone, rfl⟩ | ⟨-, v, hv, rfl, hname⟩ |
        ⟨-, v, hv, rfl, hqualifies⟩
      · cases hx
        exact ⟨iff_of_true rfl hnone, fun _ => ⟨rfl, rfl, rfl, rfl⟩, fun hne => absurd rfl hne⟩
      · cases hx
        exact justified_resolvedVariant hv rfl (by rintro _ ⟨⟩) (by rintro _ ⟨⟩; exact hname)
      · cases hx
        exact justified_resolvedVariant hv rfl (by rintro _ ⟨⟩; exact hqualifies) (by rintro _ ⟨⟩)

end

namespace Sample

/-- A session whose library has its classes under a name of their own. -/
def packaging (r : Registry) : Session :=
  let classes : SecondaryVariant :=
    ⟨"classes", .ofList [(Standard.libraryElements, .string "classes")],
      [⟨"classes", "build/classes"⟩]⟩
  ⟨r, ⟨.ofList [(⟨"org.example", "library", "1.0"⟩,
    library [{ archive with secondary := [classes] }])]⟩⟩

end Sample

/-- The classes are chosen where classes are requested. -/
theorem resolve_justified_classes : ∃ r x c, Registry.standard = .ok r ∧
    (Sample.packaging r).resolve ⟨"org.example", "library", "1.0"⟩
      { consumer := "app", attributes := Sample.classes } = .ok x ∧
    x.outcome = .matched "api" ∧ x.source = "classes" ∧
    (Sample.packaging r).catalog.get? ⟨"org.example", "library", "1.0"⟩ = some c ∧
    x.Justified c r { consumer := "app", attributes := Sample.classes } := by
  have hresolved : ∃ r x, Registry.standard = .ok r ∧
      (Sample.packaging r).resolve ⟨"org.example", "library", "1.0"⟩
        { consumer := "app", attributes := Sample.classes } = .ok x ∧
      x.outcome = .matched "api" ∧ x.source = "classes" :=
    ⟨_, _, rfl, rfl, by decide, by decide⟩
  obtain ⟨r, x, hr, hx, houtcome, hsource⟩ := hresolved
  obtain ⟨c, hc, hjustified⟩ := resolve_justified hx
  exact ⟨r, x, c, hr, hx, houtcome, hsource, hc, hjustified⟩

end VariantSelection
