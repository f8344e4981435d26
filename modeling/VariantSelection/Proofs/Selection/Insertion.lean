/-
Variants that do not qualify cannot influence the answer.

Behind the filters a selection sees the variants that qualify and nothing else: the
rules are shown their values, their number ends the rounds, and conflicts are looked
for among them.  So two components of one coordinate with the same qualifying
variants are answered alike, as soon as anything qualifies.  When nothing does, the
answer has a report for each variant that provides the capabilities, and a report of
its own is all that a variant can add that is put in among the others.
-/
import VariantSelection.Proofs.Selection.Justified
import VariantSelection.Proofs.Standard

namespace VariantSelection

section
variable {r : Registry} {c d : Component} {q : Request}

/-! ### The same variants qualify

What `verdict` looks at is the same for both components.
-/

theorem verdict_congr (hid : c.id = d.id) (hqualified : c.qualified r q = d.qualified r q)
    (left : List Variant) : verdict r c q left = verdict r d q left := by
  match left with
  | [] => rw [verdict, verdict, ambiguity, ambiguity, hid, hqualified]
  | [winner] => rfl
  | first :: second :: rest =>
      have htwo : 2 ≤ (first :: second :: rest).length := by simp
      rw [verdict_of_two_le htwo, verdict_of_two_le htwo, ambiguity, ambiguity, hid]

/-- **Where anything qualifies, what qualifies decides the answer.** -/
theorem matchVariant_congr (hid : c.id = d.id) (hqualified : c.qualified r q = d.qualified r q)
    (hsome : c.qualified r q ≠ []) : matchVariant r c q = matchVariant r d q := by
  have hsome' : d.qualified r q ≠ [] := hqualified ▸ hsome
  have hsurvivors : c.survivors r q = d.survivors r q := by
    rw [Component.survivors, Component.survivors, hqualified]
  rw [matchVariant_eq hsome, matchVariant_eq hsome', hsurvivors, verdict_congr hid hqualified]

/-! ### One variant more

Filtering drops the new variant again, wherever it was put in; only the reports of
an answer that nothing matches are about variants that do not qualify.
-/

/-- The component with `extra` put in behind its first `n` variants. -/
def Component.inserting (c : Component) (n : Nat) (extra : Variant) : Component :=
  { c with variants := c.variants.take n ++ extra :: c.variants.drop n }

theorem qualified_inserting (n : Nat) {extra : Variant} (hextra : ¬extra.Qualifies r q) :
    (c.inserting n extra).qualified r q = c.qualified r q := by
  have hskip : ∀ rest : List Variant,
      ((extra :: rest).filter fun v => v.Qualifies r q) = rest.filter fun v => v.Qualifies r q :=
    fun rest => List.filter_cons_of_neg (by simpa using hextra)
  rw [Component.qualified, Component.inserting, List.filter_append, hskip, ← List.filter_append,
    List.take_append_drop, Component.qualified]

/-- The reports on those of the variants that provide the capabilities. -/
def reportsOn (r : Registry) (q : Request) (variants : List Variant) : List MatchReport :=
  (variants.filter fun v => v.provides q.capabilities).map fun v => v.report r q.attributes

theorem reportsOn_append (variants others : List Variant) :
    reportsOn r q (variants ++ others) = reportsOn r q variants ++ reportsOn r q others := by
  simp only [reportsOn, List.filter_append, List.map_append]

theorem reportsOn_cons (v : Variant) (rest : List Variant) :
    reportsOn r q (v :: rest)
      = (if v.provides q.capabilities then [v.report r q.attributes] else [])
        ++ reportsOn r q rest := by
  rw [reportsOn, reportsOn, List.filter_cons]
  by_cases h : v.provides q.capabilities = true
  · rw [if_pos h, if_pos h]
    rfl
  · rw [if_neg h, if_neg h]
    rfl

theorem incompatibility_eq (c : Component) :
    incompatibility r c q = .incompatible c.id.text q.consumer q.attributes
      (q.capabilities.map CapabilitySelector.text) (reportsOn r q c.variants) := rfl

/-- **A variant that does not qualify cannot influence the answer**, wherever it is
put in and whatever its values are.  A selection and a tie stay as they are; where
nothing qualified, nothing does, and the one report that can be new is the report on
that variant. -/
theorem selectVariant_inserting (hvariants : c.variants ≠ []) (hunnamed : q.variant = none)
    {extra : Variant} (hextra : ¬extra.Qualifies r q) (n : Nat) :
    (∀ v, selectVariant r c q = .ok (.matched v) →
      selectVariant r (c.inserting n extra) q = .ok (.matched v)) ∧
    (∀ component consumer requested candidates unreduced conflicts,
      selectVariant r c q
          = .error (.ambiguous component consumer requested candidates unreduced conflicts) →
        selectVariant r (c.inserting n extra) q
          = .error (.ambiguous component consumer requested candidates unreduced conflicts)) ∧
    (∀ component consumer requested capabilities reports,
      selectVariant r c q
          = .error (.incompatible component consumer requested capabilities reports) →
        reports = reportsOn r q (c.variants.take n) ++ reportsOn r q (c.variants.drop n) ∧
        selectVariant r (c.inserting n extra) q
          = .error (.incompatible component consumer requested capabilities
              (reportsOn r q (c.variants.take n)
                ++ (if extra.provides q.capabilities then [extra.report r q.attributes] else [])
                ++ reportsOn r q (c.variants.drop n)))) := by
  have hinserted : (c.inserting n extra).variants ≠ [] :=
    List.append_ne_nil_of_right_ne_nil _ (List.cons_ne_nil _ _)
  have hqualified : (c.inserting n extra).qualified r q = c.qualified r q :=
    qualified_inserting n hextra
  rw [selectVariant_of_unnamed hvariants hunnamed, selectVariant_of_unnamed hinserted hunnamed]
  by_cases hnone : c.qualified r q = []
  · rw [matchVariant_of_none hnone, matchVariant_of_none (hqualified.trans hnone),
      incompatibility_eq, incompatibility_eq]
    refine ⟨?_, ?_, ?_⟩
    · rintro _ ⟨⟩
    · rintro _ _ _ _ _ _ ⟨⟩
    · rintro _ _ _ _ _ ⟨⟩
      have hsplit := reportsOn_append (r := r) (q := q) (c.variants.take n) (c.variants.drop n)
      rw [List.take_append_drop] at hsplit
      refine ⟨hsplit, ?_⟩
      rw [Component.inserting, reportsOn_append, reportsOn_cons, List.append_assoc]
  · have hsame : matchVariant r c q = matchVariant r (c.inserting n extra) q :=
      matchVariant_congr rfl hqualified.symm hnone
    rw [← hsame]
    refine ⟨fun _ => id, fun _ _ _ _ _ _ => id, fun _ _ _ _ _ hanswer => ?_⟩
    -- The other answers are given for variants that qualify.
    exact absurd
      ((matchJustified_matchVariant r c q).incompatible_iff.mp ⟨_, _, _, _, _, hanswer⟩) hnone

end

/-- The rule for versions would prefer the version of the variant that is put in. -/
theorem selectVariant_inserting_older : ∃ r, Registry.standard = .ok r ∧
    ¬(Sample.variant "older" "java-api" 6).Qualifies r Sample.request ∧
      selectVariant r (Sample.library [Sample.newer, Sample.runtime]) Sample.request
        = .ok (.matched Sample.newer) ∧
      selectVariant r ((Sample.library [Sample.newer, Sample.runtime]).inserting 1
        (Sample.variant "older" "java-api" 6)) Sample.request = .ok (.matched Sample.newer) := by
  have hstandard : ∃ r, Registry.standard = .ok r ∧
      ¬(Sample.variant "older" "java-api" 6).Qualifies r Sample.request ∧
      selectVariant r (Sample.library [Sample.newer, Sample.runtime]) Sample.request
        = .ok (.matched Sample.newer) := ⟨_, rfl, by decide, rfl⟩
  obtain ⟨r, hr, hextra, hanswer⟩ := hstandard
  have hinserting := selectVariant_inserting (c := Sample.library [Sample.newer, Sample.runtime])
    (List.cons_ne_nil _ _) rfl hextra 1
  exact ⟨r, hr, hextra, hanswer, hinserting.1 _ hanswer⟩

end VariantSelection
