/-
What the built-in rules prefer.

A built-in rule keeps all the values it is shown or exactly one of them, so it never
keeps nothing (`DisambiguationRule.preferred_cases`).  A custom rule may do
anything, and nothing is said of it here.

The value that a pass over comparable values ends with is the extreme one
(`IsExtreme`): it beats what is read before it and is not beaten by what is read
after it.  There is one such value, and it stays the extreme of every smaller set
that still has it.  That is why a built-in rule, shown fewer values among which one
it preferred is left, prefers what is left of its preference.
-/
import VariantSelection.Proofs.Ordered.Set
import VariantSelection.Proofs.Value
import VariantSelection.Attribute.Rule

namespace VariantSelection

/-- The rule is one of the closed list. -/
def DisambiguationRule.BuiltIn : DisambiguationRule → Prop
  | .custom _ _ => False
  | _ => True

/-- Every two of the values compare. -/
def Comparable (values : SortedSet Value) : Prop :=
  ∀ a ∈ values, ∀ b ∈ values, a ≠ b → ∃ o, a.compare? b = some o

theorem Comparable.mono {values fewer : SortedSet Value} (h : Comparable values)
    (hsub : ∀ a ∈ fewer, a ∈ values) : Comparable fewer :=
  fun a ha b hb => h a (hsub a ha) b (hsub b hb)

theorem comparable_of_integers {values : SortedSet Value}
    (h : ∀ a ∈ values, ∃ m, a = .integer m) : Comparable values := by
  intro a ha b hb _
  obtain ⟨m, rfl⟩ := h a ha
  obtain ⟨k, rfl⟩ := h b hb
  exact ⟨_, rfl⟩

/-- Accepted by one of the rules that compare, a value is `wanted` itself or
compares with it. -/
theorem CompatibilityRule.eq_or_compare? {rule : CompatibilityRule}
    (h : rule = .exact ∨ rule = .atLeast ∨ rule = .atMost) {wanted a : Value}
    (ha : rule.isCompatible wanted a = true) : wanted = a ∨ ∃ o, a.compare? wanted = some o := by
  by_cases heq : wanted = a
  · exact Or.inl heq
  · refine Or.inr ?_
    cases hcompare : a.compare? wanted with
    | some o => exact ⟨o, rfl⟩
    | none => rcases h with rfl | rfl | rfl <;> simp [isCompatible, heq, hcompare] at ha

/-- **What the rules that compare accept compares.** -/
theorem comparable_of_compatible {rule : CompatibilityRule}
    (h : rule = .exact ∨ rule = .atLeast ∨ rule = .atMost) {wanted : Value}
    {values : SortedSet Value} (hall : ∀ a ∈ values, rule.isCompatible wanted a = true) :
    Comparable values := by
  intro a ha b hb hne
  rcases CompatibilityRule.eq_or_compare? h (hall a ha) with rfl | ⟨o, hao⟩
  · rcases CompatibilityRule.eq_or_compare? h (hall b hb) with rfl | ⟨p, hbp⟩
    · exact absurd rfl hne
    · exact ⟨_, by rw [Value.compare?_swap, hbp]; rfl⟩
  · rcases CompatibilityRule.eq_or_compare? h (hall b hb) with rfl | ⟨p, hbp⟩
    · exact ⟨o, hao⟩
    · exact Value.compare?_of_compare? hao hbp

/-- At least an integer are the integers that are not less, and nothing else. -/
theorem CompatibilityRule.isCompatible_atLeast_integer_iff {wanted : Int64} {a : Value} :
    atLeast.isCompatible (.integer wanted) a = true ↔ ∃ m, a = .integer m ∧ wanted ≤ m := by
  cases a with
  | boolean b => simp [isCompatible, Value.compare?]
  | string s => simp [isCompatible, Value.compare?]
  | integer m =>
      simp only [isCompatible, Value.compare?, Bool.or_eq_true, decide_eq_true_eq,
        Value.integer.injEq, Std.isGE_compare, exists_eq_left']
      refine or_iff_right_of_imp fun heq => ?_
      rw [heq]
      exact Int64.le_refl m

/-! ### The extreme value

The pass carries the extreme of the values that it has seen.  `snoc_of_wins` and
`snoc_of_not_wins` are its two steps, and `extremeFrom?_isExtreme` is the pass.
-/

/-- `best` beats the values that are read before it and is not beaten by
those after it. -/
structure IsExtreme (wins : Ordering) (values : List Value) (best : Value) : Prop where
  mem : best ∈ values
  before : ∀ a ∈ values, compare a best = .lt → best.compare? a = some wins
  after : ∀ a ∈ values, compare best a = .lt → a.compare? best ≠ some wins

section Extreme
variable {wins : Ordering}

theorem IsExtreme.unique {values : List Value} {a b : Value} (ha : IsExtreme wins values a)
    (hb : IsExtreme wins values b) : a = b := by
  cases hab : compare a b with
  | eq => exact Std.LawfulEqCmp.eq_of_compare hab
  | lt => exact absurd (hb.before a ha.mem hab) (ha.after b hb.mem hab)
  | gt =>
      have hba : compare b a = .lt := Std.OrientedCmp.lt_of_gt hab
      exact absurd (ha.before b hb.mem hba) (hb.after a ha.mem hba)

theorem IsExtreme.mono {values fewer : List Value} {best : Value} (h : IsExtreme wins values best)
    (hsub : ∀ a ∈ fewer, a ∈ values) (hmem : best ∈ fewer) : IsExtreme wins fewer best :=
  ⟨hmem, fun a ha => h.before a (hsub a ha), fun a ha => h.after a (hsub a ha)⟩

theorem isExtreme_singleton (a : Value) : IsExtreme wins [a] a := by
  refine ⟨List.mem_singleton_self a, fun b hb hlt => ?_, fun b hb hlt => ?_⟩
  · exact absurd (List.mem_singleton.mp hb) (ne_of_compare_lt hlt)
  · exact absurd (List.mem_singleton.mp hb).symm (ne_of_compare_lt hlt)

/-- The next value of the pass replaces the best one so far. -/
private theorem IsExtreme.snoc_of_wins (hwins : wins ≠ .eq) {seen : List Value} {best v : Value}
    (h : IsExtreme wins seen best) (hasc : ∀ a ∈ seen, compare a v = .lt)
    (hcomp : ∀ a ∈ seen, a ≠ best → ∃ o, a.compare? best = some o)
    (hv : v.compare? best = some wins) : IsExtreme wins (seen ++ [v]) v := by
  refine ⟨by simp, fun a ha hlt => ?_, fun a ha hlt => ?_⟩
  · rcases List.mem_append.mp ha with ha | ha
    · cases hab : compare a best with
      | eq => rwa [Std.LawfulEqCmp.eq_of_compare hab]
      | lt =>
          have hnot := Value.compare?_not_wins_of_wins hwins (h.before a ha hab)
          obtain ⟨o, ho⟩ := hcomp a ha (ne_of_compare_lt hab)
          exact Value.compare?_wins_of_not_wins hwins hv ho (fun heq => hnot (heq ▸ ho))
      | gt =>
          have hba : compare best a = .lt := Std.OrientedCmp.lt_of_gt hab
          obtain ⟨o, ho⟩ := hcomp a ha (ne_of_compare_lt hba).symm
          exact Value.compare?_wins_of_not_wins hwins hv ho
            (fun heq => h.after a ha hba (heq ▸ ho))
    · exact (isExtreme_singleton v).before a ha hlt
  · rcases List.mem_append.mp ha with ha | ha
    · exact absurd (hasc a ha) (Std.OrientedCmp.not_lt_of_lt hlt)
    · exact (isExtreme_singleton v).after a ha hlt

/-- The next value of the pass leaves the best one so far in place. -/
private theorem IsExtreme.snoc_of_not_wins {seen : List Value} {best v : Value}
    (h : IsExtreme wins seen best) (hasc : ∀ a ∈ seen, compare a v = .lt)
    (hv : v.compare? best ≠ some wins) : IsExtreme wins (seen ++ [v]) best := by
  refine ⟨by simp [h.mem], fun a ha hlt => ?_, fun a ha hlt => ?_⟩
  · rcases List.mem_append.mp ha with ha | ha
    · exact h.before a ha hlt
    · rw [List.mem_singleton.mp ha] at hlt
      exact absurd (hasc best h.mem) (Std.OrientedCmp.not_lt_of_lt hlt)
  · rcases List.mem_append.mp ha with ha | ha
    · exact h.after a ha hlt
    · rw [List.mem_singleton.mp ha]
      exact hv

theorem extremeFrom?_mem {best b : Value} {rest : List Value}
    (h : extremeFrom? wins best rest = some b) : b ∈ best :: rest := by
  induction rest generalizing best with
  | nil =>
      rw [extremeFrom?, Option.some.injEq] at h
      simp [h]
  | cons v rest ih =>
      simp only [extremeFrom?] at h
      cases hv : v.compare? best with
      | none => simp [hv] at h
      | some o =>
          simp only [hv] at h
          split at h
          · exact List.mem_cons_of_mem _ (ih h)
          · rcases List.mem_cons.mp (ih h) with rfl | hmem
            · exact List.mem_cons_self
            · exact List.mem_cons_of_mem _ (List.mem_cons_of_mem _ hmem)

/-- The pass over `rest` carries the extreme of what it has seen. -/
theorem extremeFrom?_isExtreme (hwins : wins ≠ .eq) {rest : List Value} :
    ∀ {seen : List Value} {best : Value}, IsExtreme wins seen best →
      (seen ++ rest).Pairwise (fun a b => compare a b = .lt) →
      (∀ a ∈ seen ++ rest, ∀ b ∈ seen ++ rest, a ≠ b → ∃ o, a.compare? b = some o) →
      ∃ b, extremeFrom? wins best rest = some b ∧ IsExtreme wins (seen ++ rest) b := by
  induction rest with
  | nil =>
      intro seen best h _ _
      exact ⟨best, rfl, by rwa [List.append_nil]⟩
  | cons v rest ih =>
      intro seen best h hasc hcomp
      have hseen : ∀ a ∈ seen, compare a v = .lt := fun a ha =>
        (List.pairwise_append.mp hasc).2.2 a ha v List.mem_cons_self
      have hbest : best ∈ seen ++ v :: rest := List.mem_append_left _ h.mem
      obtain ⟨o, ho⟩ := hcomp v (by simp) best hbest (ne_of_compare_lt (hseen best h.mem)).symm
      rw [List.append_cons] at hasc hcomp ⊢
      simp only [extremeFrom?, ho]
      by_cases hwon : o = wins
      · rw [if_pos hwon]
        refine ih (h.snoc_of_wins hwins hseen (fun a ha => ?_) (hwon ▸ ho)) hasc hcomp
        exact hcomp a (by simp [ha]) best (by simp [h.mem])
      · rw [if_neg hwon]
        refine ih (h.snoc_of_not_wins hseen ?_) hasc hcomp
        rw [ho]
        exact fun heq => hwon (Option.some.inj heq)

/-- **Of comparable values the extreme one is kept, and it alone.** -/
theorem extreme_eq_singleton (hwins : wins ≠ .eq) {values : SortedSet Value}
    (hcomp : Comparable values) (hsome : values.elements ≠ []) :
    ∃ best, extreme wins values = .singleton best ∧ IsExtreme wins values.elements best := by
  unfold extreme
  cases hvalues : values.elements with
  | nil => exact absurd hvalues hsome
  | cons first rest =>
      have hasc := hvalues ▸ values.ascending
      obtain ⟨best, hbest, hextreme⟩ := extremeFrom?_isExtreme hwins (isExtreme_singleton first)
        hasc fun a ha b hb =>
          hcomp a (SortedSet.mem_elements.mp (hvalues ▸ ha)) b
            (SortedSet.mem_elements.mp (hvalues ▸ hb))
      exact ⟨best, by simp only [hbest], hextreme⟩

theorem extreme_eq_of_isExtreme (hwins : wins ≠ .eq) {values : SortedSet Value}
    (hcomp : Comparable values) {a : Value} (h : IsExtreme wins values.elements a) :
    extreme wins values = .singleton a := by
  obtain ⟨best, heq, hbest⟩ := extreme_eq_singleton hwins hcomp (List.ne_nil_of_mem h.mem)
  rw [heq, hbest.unique h]

/-- **Of integers the least one is kept.** -/
theorem exists_extreme_lt_integer {values : SortedSet Value}
    (hall : ∀ a ∈ values, ∃ m, a = .integer m) (hsome : values.elements ≠ []) :
    ∃ m, extreme .lt values = .singleton (.integer m) ∧ .integer m ∈ values ∧
      ∀ k, .integer k ∈ values → m ≤ k := by
  have hwins : Ordering.lt ≠ .eq := by decide
  obtain ⟨best, hbest, hextreme⟩ := extreme_eq_singleton hwins (comparable_of_integers hall) hsome
  obtain ⟨m, rfl⟩ := hall best hextreme.mem
  refine ⟨m, hbest, hextreme.mem, fun k hk => ?_⟩
  cases hmk : compare m k with
  | lt => exact Std.isLE_compare.mp (by rw [hmk]; rfl)
  | eq => exact Std.isLE_compare.mp (by rw [hmk]; rfl)
  | gt =>
      -- A lesser value is read earlier, and the extreme beats what is read before it.
      have hwon := hextreme.before (.integer k) hk (Std.OrientedCmp.lt_of_gt hmk)
      rw [Value.compare?, hmk] at hwon
      cases hwon

theorem extreme_cases (wins : Ordering) (values : SortedSet Value) :
    extreme wins values = values ∨ ∃ a ∈ values, extreme wins values = .singleton a := by
  unfold extreme
  cases hvalues : values.elements with
  | nil => exact Or.inl rfl
  | cons first rest =>
      dsimp only
      cases hbest : extremeFrom? wins first rest with
      | none => exact Or.inl rfl
      | some best =>
          refine Or.inr ⟨best, ?_, rfl⟩
          rw [← SortedSet.mem_elements, hvalues]
          exact extremeFrom?_mem hbest

end Extreme

/-! ### The preferred values

Three of the rules keep a value that they look for, or all, and the two for an
extreme are covered by `extreme_cases`.
-/

namespace DisambiguationRule

variable {rule : DisambiguationRule} {requested : Option Value} {values : SortedSet Value}

/-- **A built-in rule keeps all the values or one of them.** -/
theorem preferred_cases (h : rule.BuiltIn) (requested : Option Value) (values : SortedSet Value) :
    rule.preferred requested values = values ∨
      ∃ a ∈ values, rule.preferred requested values = .singleton a := by
  cases rule with
  | noPreference => exact Or.inl rfl
  | preferLowest => exact extreme_cases .lt values
  | preferHighest => exact extreme_cases .gt values
  | preferRequested =>
      cases requested with
      | none => exact Or.inl rfl
      | some wanted =>
          by_cases hw : values.contains wanted = true
          · exact Or.inr ⟨wanted, SortedSet.contains_iff.mp hw, by simp only [preferred, if_pos hw]⟩
          · exact Or.inl (by simp only [preferred, if_neg hw])
  | ordered listed =>
      simp only [preferred]
      cases hfound : listed.find? values.contains with
      | none => exact Or.inl rfl
      | some a => exact Or.inr ⟨a, SortedSet.contains_iff.mp (List.find?_some hfound), rfl⟩
  | custom label choose => exact absurd h id

/-- A built-in rule prefers nothing that is not on offer. -/
theorem mem_of_mem_preferred (h : rule.BuiltIn) {a : Value}
    (ha : a ∈ rule.preferred requested values) : a ∈ values := by
  rcases preferred_cases h requested values with heq | ⟨b, hb, heq⟩
  · rwa [heq] at ha
  · rw [heq, SortedSet.mem_singleton] at ha
    rwa [ha]

theorem exists_mem_preferred (h : rule.BuiltIn) (requested : Option Value) {b : Value}
    (hb : b ∈ values) : ∃ a ∈ values, a ∈ rule.preferred requested values := by
  rcases preferred_cases h requested values with heq | ⟨a, ha, heq⟩
  · exact ⟨b, hb, by rwa [heq]⟩
  · exact ⟨a, ha, by rw [heq, SortedSet.mem_singleton]⟩

theorem mem_preferred_of_size_le (h : rule.BuiltIn) (requested : Option Value)
    (hsize : values.size ≤ 1) {a : Value} (ha : a ∈ values) :
    a ∈ rule.preferred requested values := by
  obtain ⟨b, hb, hpref⟩ := exists_mem_preferred h requested ha
  rwa [SortedSet.eq_of_size_le hsize ha hb]

end DisambiguationRule

/-! ### Fewer values

Each rule is shown a part of the values that still has a preferred one.  What was
found by name is found again, and an extreme stays one.
-/

section Fewer
variable {values fewer : SortedSet Value} {a : Value}

theorem mem_extreme_iff_of_subset {wins : Ordering} (hwins : wins ≠ .eq)
    (hcomp : Comparable values) (hsub : ∀ a ∈ fewer, a ∈ values)
    (hleft : ∃ a ∈ fewer, a ∈ extreme wins values) :
    a ∈ extreme wins fewer ↔ a ∈ extreme wins values := by
  obtain ⟨b, hb, hbest⟩ := hleft
  have hsome : values.elements ≠ [] := List.ne_nil_of_mem (hsub b hb)
  obtain ⟨best, heq, hextreme⟩ := extreme_eq_singleton hwins hcomp hsome
  rw [heq, SortedSet.mem_singleton] at hbest
  rw [heq, extreme_eq_of_isExtreme hwins (hcomp.mono hsub) (hextreme.mono hsub (hbest ▸ hb))]

theorem find?_contains_of_subset (hsub : ∀ a ∈ fewer, a ∈ values) {listed : List Value}
    (hfound : listed.find? values.contains = some a) (ha : a ∈ fewer) :
    listed.find? fewer.contains = some a := by
  obtain ⟨-, before, after, hsplit, hbefore⟩ := List.find?_eq_some_iff_append.mp hfound
  refine List.find?_eq_some_iff_append.mpr
    ⟨SortedSet.contains_iff.mpr ha, before, after, hsplit, fun b hb => ?_⟩
  have hnot := hbefore b hb
  rw [Bool.not_eq_true', Bool.eq_false_iff, Ne, SortedSet.contains_iff] at hnot ⊢
  exact fun hfewer => hnot (hsub b hfewer)

/-- **Shown fewer values, a built-in rule prefers what is left of its preference**,
if anything is left of it.  Without the comparison the two rules for an extreme
could not be asked for it: values that do not compare are all kept, and fewer of
them may compare. -/
theorem DisambiguationRule.mem_preferred_iff_of_subset {rule : DisambiguationRule}
    {requested : Option Value} (h : rule.BuiltIn)
    (hcomp : rule = .preferLowest ∨ rule = .preferHighest → Comparable values)
    (hsub : ∀ a ∈ fewer, a ∈ values)
    (hleft : ∃ a ∈ fewer, a ∈ rule.preferred requested values) (ha : a ∈ fewer) :
    a ∈ rule.preferred requested fewer ↔ a ∈ rule.preferred requested values := by
  have hall : a ∈ fewer ↔ a ∈ values := iff_of_true ha (hsub a ha)
  cases rule with
  | noPreference => exact hall
  | preferLowest =>
      exact mem_extreme_iff_of_subset (by decide) (hcomp (Or.inl rfl)) hsub hleft
  | preferHighest =>
      exact mem_extreme_iff_of_subset (by decide) (hcomp (Or.inr rfl)) hsub hleft
  | preferRequested =>
      cases requested with
      | none => exact hall
      | some wanted =>
          simp only [preferred] at hleft ⊢
          by_cases hw : values.contains wanted = true
          · obtain ⟨b, hb, hbest⟩ := hleft
            rw [if_pos hw, SortedSet.mem_singleton] at hbest
            rw [if_pos hw, if_pos (SortedSet.contains_iff.mpr (hbest ▸ hb))]
          · have hw' : ¬(fewer.contains wanted = true) := by
              rw [SortedSet.contains_iff] at hw ⊢
              exact fun hfewer => hw (hsub wanted hfewer)
            rw [if_neg hw, if_neg hw']
            exact hall
  | ordered listed =>
      simp only [preferred] at hleft ⊢
      cases hfound : listed.find? values.contains with
      | some first =>
          obtain ⟨b, hb, hbest⟩ := hleft
          rw [hfound, SortedSet.mem_singleton] at hbest
          rw [find?_contains_of_subset hsub hfound (hbest ▸ hb)]
      | none =>
          have hnone : listed.find? fewer.contains = none := by
            rw [List.find?_eq_none] at hfound ⊢
            intro b hb hfewer
            exact hfound b hb
              (SortedSet.contains_iff.mpr (hsub b (SortedSet.contains_iff.mp hfewer)))
          rw [hnone]
          exact hall
  | custom label choose => exact absurd h id

end Fewer

end VariantSelection
