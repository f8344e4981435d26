/-
The rules for an extreme find it.

The pass reads the values in their order and holds each against the best one so far,
and no two others against each other.  It misses nothing by that: what compares with
a value compares with all that compares with it, so a pass that ends has met
comparable values only (`comparable_of_extremeFrom?`), and any two that do not
compare stop it wherever they stand (`extreme_of_not_comparable`).
-/
import VariantSelection.Proofs.Value.Comparison

namespace VariantSelection

section
variable {wins : Ordering} {values : SortedSet Value} {best m : Value} {rest : List Value}

/-! ### What stops the pass -/

/-- A pass that ends has compared all of `rest` with the value it started from. -/
theorem compare?_of_extremeFrom? (h : extremeFrom? wins best rest = some m) :
    ∀ a ∈ rest, ∃ o, a.compare? best = some o := by
  induction rest generalizing best with
  | nil => simp
  | cons v rest ih =>
      intro a ha
      rw [extremeFrom?] at h
      cases hv : v.compare? best with
      | none => simp [hv] at h
      | some o =>
          simp only [hv] at h
          rcases List.mem_cons.mp ha with rfl | ha
          · exact ⟨o, hv⟩
          by_cases hwon : o = wins
          · -- The best value has changed: what compares with the new one does with the old one.
            rw [if_pos hwon] at h
            obtain ⟨p, hp⟩ := ih h a ha
            exact Value.exists_compare?_trans hp hv
          · rw [if_neg hwon] at h
            exact ih h a ha

theorem comparable_of_extremeFrom? (helements : values.elements = best :: rest)
    (h : extremeFrom? wins best rest = some m) : Comparable values := by
  have hmem : ∀ a ∈ values, a = best ∨ a ∈ rest := by
    intro a ha
    rw [← SortedSet.mem_elements, helements] at ha
    exact List.mem_cons.mp ha
  have hbest := compare?_of_extremeFrom? h
  intro a ha b hb hne
  rcases hmem a ha with rfl | ha
  · rcases hmem b hb with rfl | hb
    · exact absurd rfl hne
    · obtain ⟨o, ho⟩ := hbest b hb
      exact ⟨_, Value.compare?_swap_of_eq_some ho⟩
  · obtain ⟨o, ho⟩ := hbest a ha
    rcases hmem b hb with rfl | hb
    · exact ⟨o, ho⟩
    · obtain ⟨p, hp⟩ := hbest b hb
      exact Value.compare?_of_compare? ho hp

/-- **Two values that do not compare stop the pass.** -/
theorem extreme_of_not_comparable (h : ¬ Comparable values) : extreme wins values = values := by
  unfold extreme
  cases helements : values.elements with
  | nil => rfl
  | cons first rest =>
      dsimp only
      cases hfound : extremeFrom? wins first rest with
      | none => rfl
      | some m => exact absurd (comparable_of_extremeFrom? helements hfound) h

/-! ### What the pass ends with

Being extreme is said along the pass, of what is read before a value and after it.
`IsExtreme.unbeaten` turns that into what `KeepsExtreme` says of the comparison
alone; only of values that compare equal the first one is kept.
-/

/-- Nothing beats the extreme value, and of its equals it is read first. -/
theorem IsExtreme.unbeaten (hwins : wins ≠ .eq) {read : List Value} (h : IsExtreme wins read m)
    {a : Value} (ha : a ∈ read) :
    a.compare? m ≠ some wins ∧ (a.compare? m = some .eq → a = m ∨ compare m a = .lt) := by
  cases horder : compare a m with
  | lt =>
      have hbeats := h.before a ha horder
      refine ⟨Value.compare?_not_wins_of_wins hwins hbeats, fun hequal => ?_⟩
      rw [Value.compare?_swap_of_eq_some hequal, Option.some.injEq] at hbeats
      exact absurd hbeats.symm hwins
  | eq =>
      obtain rfl : a = m := Std.LawfulEqCmp.eq_of_compare horder
      refine ⟨fun hself => ?_, fun _ => Or.inl rfl⟩
      exact Value.compare?_not_wins_of_wins hwins hself hself
  | gt =>
      have hafter : compare m a = .lt := Std.OrientedCmp.lt_of_gt horder
      exact ⟨h.after a ha hafter, fun _ => Or.inr hafter⟩

/-- What is kept of some values by a rule that looks for one that nothing wins against. -/
structure KeepsExtreme (wins : Ordering) (values kept : SortedSet Value) : Prop where
  comparable : (∀ a ∈ values, ∀ b ∈ values, a ≠ b → (a.compare? b).isSome) →
    ∃ m ∈ values, kept = .singleton m ∧ (∀ a ∈ values, a.compare? m ≠ some wins) ∧
      ∀ a ∈ values, a.compare? m = some .eq → a = m ∨ compare m a = .lt
  incomparable : (∃ a ∈ values, ∃ b ∈ values, a ≠ b ∧ a.compare? b = none) → kept = values

theorem keepsExtreme_extreme (hwins : wins ≠ .eq) (hsome : values.elements ≠ []) :
    KeepsExtreme wins values (extreme wins values) where
  comparable hall := by
    have hcomp : Comparable values := fun a ha b hb hne =>
      Option.isSome_iff_exists.mp (hall a ha b hb hne)
    obtain ⟨m, hkept, hextreme⟩ := extreme_eq_singleton hwins hcomp hsome
    exact ⟨m, hextreme.mem, hkept, fun a ha => (hextreme.unbeaten hwins ha).1,
      fun a ha => (hextreme.unbeaten hwins ha).2⟩
  incomparable := by
    rintro ⟨a, ha, b, hb, hne, hnone⟩
    refine extreme_of_not_comparable fun hcomp => ?_
    obtain ⟨o, ho⟩ := hcomp a ha b hb hne
    rw [hnone] at ho
    cases ho

end

/-- **The rules for an extreme keep it, and it alone.**  Of values that compare, the
rule for the lowest keeps the one that none compares less than, and the rule for the
highest the one that none compares greater than; of several such values both keep
the one that is read first.  Where two values do not compare, both keep them all. -/
theorem preferred_extreme (requested : Option Value) {values : SortedSet Value}
    (hsome : values.elements ≠ []) :
    KeepsExtreme .lt values (DisambiguationRule.preferLowest.preferred requested values) ∧
      KeepsExtreme .gt values (DisambiguationRule.preferHighest.preferred requested values) :=
  ⟨keepsExtreme_extreme (by decide) hsome, keepsExtreme_extreme (by decide) hsome⟩

namespace Sample

/-- Four versions, two of which are equal; the greatest one is read first. -/
def versions : SortedSet Value := .ofList [.string "9", .string "2.0", .string "10", .string "2"]

end Sample

theorem preferred_extreme_versions : Sample.versions.elements ≠ [] ∧
    KeepsExtreme .lt Sample.versions
      (DisambiguationRule.preferLowest.preferred none Sample.versions) ∧
    KeepsExtreme .gt Sample.versions
      (DisambiguationRule.preferHighest.preferred none Sample.versions) := by
  have hsome : Sample.versions.elements ≠ [] := by decide
  exact ⟨hsome, preferred_extreme none hsome⟩

example : (DisambiguationRule.preferLowest.preferred none
    (.ofList [.string "10", .string "2.0", .string "2"])).elements = [.string "2"] := by
  cbv

end VariantSelection
