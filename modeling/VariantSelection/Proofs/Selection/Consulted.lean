/-
What of a registry decides an answer.

A selection consults a registry twice.  It asks for the compatibility rules of the
requested attributes, and it runs the rounds of disambiguation for them.  Registries
with the same rules and the same rounds, which are `ConsultedAlike`, answer a
request alike, to the last word of an error, whatever else is registered in them
(`selectVariant_congr`).
-/
import VariantSelection.Proofs.Disambiguation
import VariantSelection.Proofs.Registry
import VariantSelection.Selection

namespace VariantSelection

/-- For a request of these attributes `r` and `s` have the same rules of
compatibility, and their rounds leave the same candidates. -/
structure Registry.ConsultedAlike (r s : Registry) (requested : AttributeSet) : Prop where
  compatibility : ∀ name, requested.contains name = true →
    r.compatibilityRule name = s.compatibilityRule name
  rounds : ∀ candidates,
    disambiguationRounds r requested (r.disambiguationOrder requested) candidates
      = disambiguationRounds s requested (s.disambiguationOrder requested) candidates

section
variable {r s : Registry} {requested : AttributeSet}

/-! ### Rounds -/

theorem disambiguationRounds_congr {names : List String}
    (h : ∀ name ∈ names, r.disambiguationRule name = s.disambiguationRule name) :
    ∀ candidates, disambiguationRounds r requested names candidates
      = disambiguationRounds s requested names candidates := by
  induction names with
  | nil => intro candidates; rfl
  | cons name rest ih =>
      intro candidates
      obtain ⟨hname, hrest⟩ := List.forall_mem_cons.mp h
      have hround : disambiguationRound r requested candidates name
          = disambiguationRound s requested candidates name := by
        unfold disambiguationRound
        rw [hname]
      rw [disambiguationRounds_cons, disambiguationRounds_cons, hround, ih hrest]

/-- The same order and the same rules for what is requested are enough. -/
theorem Registry.consultedAlike_of_rules
    (horder : r.disambiguationOrder requested = s.disambiguationOrder requested)
    (hcompatibility : ∀ name, requested.contains name = true →
      r.compatibilityRule name = s.compatibilityRule name)
    (hdisambiguation : ∀ name, requested.contains name = true →
      r.disambiguationRule name = s.disambiguationRule name) :
    r.ConsultedAlike s requested := by
  refine ⟨hcompatibility, fun candidates => ?_⟩
  rw [← horder]
  exact disambiguationRounds_congr
    (fun name hname => hdisambiguation name (Registry.mem_disambiguationOrder.mp hname)) candidates

/-! ### Answers

Each stage of the selection is moved from the one registry to the other, from the
reports on the variants up to the files.
-/

theorem disambiguate_congr (h : r.ConsultedAlike s requested) (candidates : List Variant)
    (capabilities : List CapabilitySelector) :
    disambiguate r requested candidates capabilities
      = disambiguate s requested candidates capabilities := by
  simp only [disambiguate, h.rounds]

theorem Variant.report_congr (h : r.ConsultedAlike s requested) (v : Variant) :
    v.report r requested = v.report s requested := by
  have hsatisfied : ∀ m ∈ attributeMatches requested v.attributes,
      m.isSatisfied r = m.isSatisfied s := by
    intro m hm
    obtain ⟨e, he, rfl⟩ := List.mem_map.mp hm
    have hrequested : requested.contains e.1 = true :=
      SortedMap.contains_iff.mpr ⟨e.2, SortedMap.get?_eq_some_iff.mpr he⟩
    unfold AttributeMatch.isSatisfied
    rw [h.compatibility e.1 hrequested]
  unfold Variant.report evaluate
  congr 1
  · exact List.filter_congr hsatisfied
  · exact List.filter_congr fun m hm => by rw [hsatisfied m hm]

theorem selectVariant_congr {q : Request} (h : r.ConsultedAlike s q.attributes) (c : Component) :
    selectVariant r c q = selectVariant s c q := by
  have hmatch : matchVariant r c q = matchVariant s c q := by
    simp only [matchVariant, ambiguity, Component.compatibleCandidates, Variant.report_congr h,
      disambiguate_congr h]
  simp only [selectVariant, hmatch]

theorem selectArtifacts_congr (h : r.ConsultedAlike s requested) (v : Variant) :
    selectArtifacts r v requested = selectArtifacts s v requested := by
  have hwinner : artifactWinner? r v requested = artifactWinner? s v requested := by
    simp only [artifactWinner?, Variant.report_congr h, disambiguate_congr h]
  rw [selectArtifacts, selectArtifacts, hwinner]

end

end VariantSelection
