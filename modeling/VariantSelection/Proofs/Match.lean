/-
When nothing stands against a candidate.

A report lists the requested attributes one by one.  Read through the look-up of the
two attribute sets, a candidate is compatible when it has every requested attribute
with a value that the attribute's rule accepts (`evaluate_isCompatible_iff`), and
when it has exactly what is requested every rule accepts it
(`evaluate_isCompatible_of_exact`).
-/
import VariantSelection.Proofs.Ordered.Map
import VariantSelection.Match

namespace VariantSelection

theorem MatchReport.isCompatible_iff {m : MatchReport} :
    m.isCompatible = true ↔ m.incompatible = [] := by
  rw [isCompatible, List.isEmpty_iff]

theorem AttributeMatch.isSatisfied_iff {m : AttributeMatch} {r : Registry} :
    m.isSatisfied r = true ↔
      ∃ v, m.provided = some v ∧
        (r.compatibilityRule m.name).isCompatible m.requested v = true := by
  unfold isSatisfied
  cases m.provided with
  | none => simp
  | some v => simp

/-- **A candidate is compatible when it meets every requested attribute.** -/
theorem evaluate_isCompatible_iff {r : Registry} {requested provided : AttributeSet}
    {candidate : String} :
    (evaluate r requested candidate provided).isCompatible = true ↔
      ∀ name wanted, requested.get? name = some wanted →
        ∃ v, provided.get? name = some v ∧
          (r.compatibilityRule name).isCompatible wanted v = true := by
  rw [MatchReport.isCompatible_iff]
  simp only [evaluate, attributeMatches, List.filter_eq_nil_iff, List.mem_map, Bool.not_eq_true',
    Bool.not_eq_false]
  constructor
  · intro h name wanted hwanted
    have hentry := SortedMap.get?_eq_some_iff.mp hwanted
    exact AttributeMatch.isSatisfied_iff.mp (h _ ⟨(name, wanted), hentry, rfl⟩)
  · rintro h m ⟨e, he, rfl⟩
    exact AttributeMatch.isSatisfied_iff.mpr (h e.1 e.2 (SortedMap.get?_eq_some_iff.mpr he))

theorem CompatibilityRule.isCompatible_self (rule : CompatibilityRule) (v : Value) :
    rule.isCompatible v v = true := by
  simp [isCompatible]

/-- A candidate with exactly what is `requested` is compatible under any rules. -/
theorem evaluate_isCompatible_of_exact {r : Registry} {requested provided : AttributeSet}
    {candidate : String}
    (h : ∀ name wanted, requested.get? name = some wanted → provided.get? name = some wanted) :
    (evaluate r requested candidate provided).isCompatible = true := by
  rw [evaluate_isCompatible_iff]
  intro name wanted hwanted
  exact ⟨wanted, h name wanted hwanted, CompatibilityRule.isCompatible_self _ _⟩

end VariantSelection
