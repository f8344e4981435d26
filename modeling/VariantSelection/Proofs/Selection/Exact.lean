/-
Under the standard rules an exact match wins.

Some variants may provide what is requested and hold exactly the requested values.
Each round is shown the requested value then, and the rules keep it alone, so the
round leaves those that hold it.  After all rounds those are left that hold all
requested values, and no merely compatible variant stands beside them.
-/
import VariantSelection.Proofs.Disambiguation.BuiltIn
import VariantSelection.Proofs.Selection
import VariantSelection.Proofs.Standard

namespace VariantSelection

/-- The variant has the requested value of every requested attribute. -/
def Variant.HoldsExactly (v : Variant) (requested : AttributeSet) : Prop :=
  ∀ e ∈ requested.entries, v.attributes.get? e.1 = some e.2

instance (v : Variant) (requested : AttributeSet) : Decidable (v.HoldsExactly requested) :=
  inferInstanceAs (Decidable (∀ e ∈ requested.entries, v.attributes.get? e.1 = some e.2))

/-- The variants that provide the capabilities and match exactly, in the
component's order. -/
def Component.exactVariants (c : Component) (q : Request) : List Variant :=
  c.variants.filter fun v => v.provides q.capabilities && v.HoldsExactly q.attributes

/-- For each requested attribute the rules keep the requested value. -/
structure Registry.FavoursExact (r : Registry) (requested : AttributeSet) : Prop where
  builtIn : r.ChoosesBuiltIn
  keepsExact : ∀ name wanted, requested.get? name = some wanted →
    KeepsExact (r.compatibilityRule name) (r.disambiguationRule name) wanted

theorem Registry.Standardized.favoursExact {r : Registry} (h : r.Standardized)
    {raw requested : AttributeSet} (hrequested : r.coerceSet raw = .ok requested) :
    r.FavoursExact requested :=
  ⟨h.choosesBuiltIn, fun _ _ hwanted => h.keepsExact (type_of_coerceSet hrequested hwanted)⟩

section
variable {r : Registry} {c : Component} {q : Request}

theorem Variant.holdsExactly_iff {v : Variant} {requested : AttributeSet} :
    v.HoldsExactly requested ↔
      ∀ name wanted, requested.get? name = some wanted → v.attributes.get? name = some wanted := by
  constructor
  · intro h name wanted hwanted
    exact h (name, wanted) (SortedMap.get?_eq_some_iff.mp hwanted)
  · intro h e he
    exact h e.1 e.2 (SortedMap.get?_eq_some_iff.mpr he)

/-! ### The rounds

The induction over the rounds starts anywhere, with candidates among which somebody
holds all that is requested; that somebody is what each round is shown to keep.
-/

/-- Where somebody has the `wanted` value and the rules keep it, the round leaves
those that have it. -/
theorem disambiguationRound_of_held {remaining : List Variant} {name : String} {wanted : Value}
    (hbuiltIn : (r.disambiguationRule name).BuiltIn)
    (hkeeps : KeepsExact (r.compatibilityRule name) (r.disambiguationRule name) wanted)
    (hwanted : q.attributes.get? name = some wanted) (hqualify : ∀ v ∈ remaining, v.Qualifies r q)
    (hheld : ∃ v ∈ remaining, v.attributes.get? name = some wanted) :
    disambiguationRound r q.attributes remaining name
      = remaining.filter fun v => v.attributes.get? name = some wanted := by
  have hpreferred : preferredValues r q.attributes remaining name = .singleton wanted := by
    rw [preferredValues, hwanted]
    exact hkeeps _ (mem_valuesOf.mpr hheld) (isCompatible_of_mem_valuesOf hqualify hwanted)
  rw [disambiguationRound_eq_filter hbuiltIn, hpreferred]
  refine List.filter_congr fun v hv => ?_
  obtain ⟨a, ha, -⟩ := (hqualify v hv).get? hwanted
  rw [Bool.eq_iff_iff, Variant.staysFor_iff, decide_eq_true_eq, ha]
  simp

/-- The round for an attribute leaves those that have its requested value. -/
theorem disambiguationRound_of_exact (h : r.FavoursExact q.attributes) {remaining : List Variant}
    (hqualify : ∀ v ∈ remaining, v.Qualifies r q)
    (hexact : ∃ e ∈ remaining, e.HoldsExactly q.attributes) {name : String}
    (hname : q.attributes.contains name = true) :
    disambiguationRound r q.attributes remaining name
      = remaining.filter fun v => v.attributes.get? name = q.attributes.get? name := by
  obtain ⟨wanted, hwanted⟩ := SortedMap.contains_iff.mp hname
  obtain ⟨e, he, hholds⟩ := hexact
  rw [hwanted]
  exact disambiguationRound_of_held (h.builtIn.disambiguationRule name)
    (h.keepsExact name wanted hwanted) hwanted hqualify
    ⟨e, he, Variant.holdsExactly_iff.mp hholds name wanted hwanted⟩

/-- The rounds leave those that have the requested values of all attributes that
are consulted. -/
theorem disambiguationRounds_of_exact (h : r.FavoursExact q.attributes) (names : List String) :
    ∀ {remaining : List Variant}, (∀ v ∈ remaining, v.Qualifies r q) →
      (∃ e ∈ remaining, e.HoldsExactly q.attributes) →
      (∀ name ∈ names, q.attributes.contains name = true) →
      disambiguationRounds r q.attributes names remaining
        = remaining.filter fun v =>
            names.all fun name => v.attributes.get? name = q.attributes.get? name := by
  induction names with
  | nil =>
      intro remaining _ _ _
      exact (List.filter_eq_self.mpr fun _ _ => rfl).symm
  | cons name rest ih =>
      intro remaining hqualify hexact hnames
      have hname := hnames name List.mem_cons_self
      rw [disambiguationRounds_cons, disambiguationRound_of_exact h hqualify hexact hname, ih,
        List.filter_filter]
      · refine List.filter_congr fun v _ => ?_
        rw [List.all_cons, Bool.and_comm]
      · intro v hv
        exact hqualify v (List.mem_filter.mp hv).1
      · obtain ⟨e, he, hholds⟩ := hexact
        obtain ⟨wanted, hwanted⟩ := SortedMap.contains_iff.mp hname
        have hhas := Variant.holdsExactly_iff.mp hholds name wanted hwanted
        exact ⟨e, List.mem_filter.mpr ⟨he, by simp [hhas, hwanted]⟩, hholds⟩
      · intro other hother
        exact hnames other (List.mem_cons_of_mem _ hother)

/-! ### The answer

What is left after the rounds is compared with `exactVariants`, which knows
nothing of rounds.
-/

theorem mem_exactVariants {v : Variant} :
    v ∈ c.exactVariants q ↔
      v ∈ c.variants ∧ v.provides q.capabilities = true ∧ v.HoldsExactly q.attributes := by
  simp [Component.exactVariants]

/-- Nothing stands against an exact match. -/
theorem Variant.qualifies_of_exact {v : Variant} (hprovides : v.provides q.capabilities = true)
    (hholds : v.HoldsExactly q.attributes) : v.Qualifies r q :=
  Variant.qualifies_iff.mpr
    ⟨hprovides, evaluate_isCompatible_of_exact (Variant.holdsExactly_iff.mp hholds)⟩

/-- To have what is requested wherever something is requested is to match exactly. -/
theorem holdsExactly_iff_consulted {v : Variant} :
    ((r.disambiguationOrder q.attributes).all fun name =>
        decide (v.attributes.get? name = q.attributes.get? name)) = true ↔
      v.HoldsExactly q.attributes := by
  simp only [List.all_eq_true, decide_eq_true_eq, Registry.mem_disambiguationOrder,
    Variant.holdsExactly_iff]
  constructor
  · intro h name wanted hwanted
    rw [h name (SortedMap.contains_iff.mpr ⟨wanted, hwanted⟩), hwanted]
  · intro h name hname
    obtain ⟨wanted, hwanted⟩ := SortedMap.contains_iff.mp hname
    rw [h name wanted hwanted, hwanted]

/-- **Where there are exact matches, they are what is left.** -/
theorem survivors_of_exact (h : r.FavoursExact q.attributes) (hsome : c.exactVariants q ≠ []) :
    c.survivors r q = c.exactVariants q := by
  have hexact : ∃ e ∈ c.qualified r q, e.HoldsExactly q.attributes := by
    obtain ⟨e, he⟩ := List.exists_mem_of_ne_nil _ hsome
    obtain ⟨hmem, hprovides, hholds⟩ := mem_exactVariants.mp he
    exact ⟨e, Component.mem_qualified.mpr ⟨hmem, Variant.qualifies_of_exact hprovides hholds⟩,
      hholds⟩
  rw [Component.survivors_eq_rounds,
    disambiguationRounds_of_exact h _ Component.qualifies_of_mem_qualified hexact
      (fun name hname => Registry.mem_disambiguationOrder.mp hname),
    Component.qualified, List.filter_filter, Component.exactVariants]
  refine List.filter_congr fun v _ => ?_
  rw [Bool.eq_iff_iff, Bool.and_eq_true, Bool.and_eq_true, holdsExactly_iff_consulted,
    decide_eq_true_eq, decide_eq_true_eq]
  constructor
  · rintro ⟨hholds, hqualifies⟩
    exact ⟨(Variant.qualifies_iff.mp hqualifies).1, hholds⟩
  · rintro ⟨hprovides, hholds⟩
    exact ⟨hholds, Variant.qualifies_of_exact hprovides hholds⟩

/-- **Under the standard rules an exact match wins.**  One exact match is selected
and several are tied with each other; a variant that is only compatible is neither
selected nor listed. -/
theorem selectVariant_exact (hr : r.Standardized) {raw : AttributeSet}
    (hrequested : r.coerceSet raw = .ok q.attributes) (hunnamed : q.variant = none)
    (hsome : c.exactVariants q ≠ []) :
    (∀ e, c.exactVariants q = [e] → selectVariant r c q = .ok (.matched e)) ∧
    (2 ≤ (c.exactVariants q).length →
      selectVariant r c q = .error (ambiguity r c q (c.exactVariants q) false)) := by
  obtain ⟨e, he⟩ := List.exists_mem_of_ne_nil _ hsome
  obtain ⟨hmem, hprovides, hholds⟩ := mem_exactVariants.mp he
  have hqualified : c.qualified r q ≠ [] :=
    List.ne_nil_of_mem
      (Component.mem_qualified.mpr ⟨hmem, Variant.qualifies_of_exact hprovides hholds⟩)
  rw [selectVariant_of_unnamed (List.ne_nil_of_mem hmem) hunnamed, matchVariant_eq hqualified,
    survivors_of_exact (hr.favoursExact hrequested) hsome]
  refine ⟨fun only honly => ?_, verdict_of_two_le⟩
  rw [honly]
  rfl

end

/-- The request is written as texts here, and the runtime and the newer variant are
compatible with it. -/
theorem selectVariant_exact_library : ∃ r written,
    Registry.standard = .ok r ∧ r.coerceSet written = .ok Sample.request.attributes ∧
      selectVariant r (Sample.library [Sample.runtime, Sample.api, Sample.newer]) Sample.request
        = .ok (.matched Sample.api) := by
  have hread : ∃ r written, Registry.standard = .ok r ∧
      r.coerceSet written = .ok Sample.request.attributes :=
    ⟨_, .ofList [(Standard.usage, .string "java-api"), (Standard.jvmVersion, .string " 8")],
      rfl, rfl⟩
  have hexact : (Sample.library [Sample.runtime, Sample.api, Sample.newer]).exactVariants
      Sample.request = [Sample.api] := by decide
  obtain ⟨r, written, hr, hrequested⟩ := hread
  have hsome : (Sample.library [Sample.runtime, Sample.api, Sample.newer]).exactVariants
      Sample.request ≠ [] := by
    rw [hexact]
    exact List.cons_ne_nil _ _
  have hanswer := selectVariant_exact (q := Sample.request) (.standard hr) hrequested rfl hsome
  exact ⟨r, written, hr, hrequested, hanswer.1 _ hexact⟩

end VariantSelection
