/-
Candidates that are alike stay together.

Only requested attributes are consulted, and what a rule is shown are values and no
candidates.  So of two candidates with the same values for all that is requested,
`Variant.AgreesOn`, no round keeps one and drops the other, whatever the rules are.
When disambiguation has chosen one of them, both are chosen
(`mem_disambiguate_of_agreesOn`).
-/
import VariantSelection.Proofs.Disambiguation
import VariantSelection.Proofs.Match
import VariantSelection.Proofs.Registry
import VariantSelection.Selection

namespace VariantSelection

/-- The two have the same values for all that is requested. -/
def Variant.AgreesOn (v w : Variant) (requested : AttributeSet) : Prop :=
  ∀ name, requested.contains name = true → v.attributes.get? name = w.attributes.get? name

section
variable {r : Registry} {requested : AttributeSet} {v w : Variant}

/-- What stands against the one stands against the other. -/
theorem Variant.AgreesOn.isCompatible (hagree : v.AgreesOn w requested)
    (h : (v.report r requested).isCompatible = true) :
    (w.report r requested).isCompatible = true := by
  unfold Variant.report at h ⊢
  rw [evaluate_isCompatible_iff] at h ⊢
  intro name wanted hwanted
  rw [← hagree name (SortedMap.contains_iff.mpr ⟨wanted, hwanted⟩)]
  exact h name wanted hwanted

theorem mem_disambiguationRound_of_agreesOn {remaining : List Variant} {name : String}
    (hagree : v.AgreesOn w requested) (hname : requested.contains name = true)
    (hw : w ∈ remaining) (hv : v ∈ disambiguationRound r requested remaining name) :
    w ∈ disambiguationRound r requested remaining name := by
  unfold disambiguationRound at hv ⊢
  by_cases hsize : (valuesOf name remaining).size ≤ 1
  · rw [if_pos hsize]
    exact hw
  · rw [if_neg hsize] at hv ⊢
    have hstays := Variant.staysFor_iff.mp (List.mem_filter.mp hv).2
    refine List.mem_filter.mpr ⟨hw, Variant.staysFor_iff.mpr fun a ha => ?_⟩
    rw [← hagree name hname] at ha
    exact hstays a ha

/-- A candidate that is left was left after each of the rounds, and by
`mem_disambiguationRound_of_agreesOn` the other one with it. -/
theorem mem_disambiguationRounds_of_agreesOn (hagree : v.AgreesOn w requested)
    (names : List String) :
    ∀ {remaining : List Variant}, (∀ name ∈ names, requested.contains name = true) →
      w ∈ remaining → v ∈ disambiguationRounds r requested names remaining →
        w ∈ disambiguationRounds r requested names remaining := by
  induction names with
  | nil =>
      intro remaining _ hw _
      exact hw
  | cons name rest ih =>
      intro remaining hnames hw hv
      rw [disambiguationRounds_cons] at hv ⊢
      have hround : v ∈ disambiguationRound r requested remaining name :=
        (disambiguationRounds_sublist r requested rest _).subset hv
      have hname : requested.contains name = true := hnames name List.mem_cons_self
      exact ih (fun other hother => hnames other (List.mem_cons_of_mem name hother))
        (mem_disambiguationRound_of_agreesOn hagree hname hw hround) hv

/-- **Whatever the rules are, disambiguation cannot tell candidates apart that agree
on the request.** -/
theorem mem_disambiguate_of_agreesOn {candidates : List Variant} (hagree : v.AgreesOn w requested)
    (hw : w ∈ candidates) (hv : v ∈ disambiguate r requested candidates []) :
    w ∈ disambiguate r requested candidates [] := by
  have hprovides : ∀ u ∈ candidates, u.provides [] = true := fun _ _ => rfl
  rw [disambiguate_of_provides r requested hprovides] at hv ⊢
  exact mem_disambiguationRounds_of_agreesOn hagree _
    (fun _ hname => Registry.mem_disambiguationOrder.mp hname) hw hv

end

end VariantSelection
