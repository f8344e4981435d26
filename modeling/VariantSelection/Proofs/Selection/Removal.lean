/-
Taking variants away never turns a winner into a loser.

A selection leaves some variants: the one it gives, or those that it lists as tied.
Take any variants out of the component, but not all of these.  What qualifies and
what each round keeps shrinks to what is still there, so the second selection leaves
exactly those of the first that were not taken away.  This asks for built-in rules,
and for values that compare wherever a rule looks for the least or the greatest of
them; the latter is secured by the compatibility rules that compare.
-/
import VariantSelection.Proofs.Component
import VariantSelection.Proofs.Selection.Reduced

namespace VariantSelection

/-- The names of the variants that an answer leaves: the one selected by attributes,
or those tied. -/
def leftNames : Except SelectionError Outcome → List String
  | .ok (.matched v) => [v.name]
  | .error (.ambiguous _ _ _ candidates _ _) => candidates.map fun t => t.report.candidate
  | _ => []

/-- Those of `kept` that an answer leaves. -/
def leftOf (kept : List Variant) (answer : Except SelectionError Outcome) : List Variant :=
  kept.filter fun v => v.name ∈ leftNames answer

section
variable {r : Registry} {c : Component} {q : Request}

/-! ### What is left of the variants that qualify

`leftNames` reads the names off an answer, and they are those of the survivors.
-/

theorem leftNames_verdict {left : List Variant} (hsome : left ≠ []) :
    leftNames (verdict r c q left) = left.map Variant.name := by
  match left, hsome with
  | [winner], _ => rfl
  | first :: second :: rest, _ =>
      rw [verdict_of_two_le (by simp), ambiguity, leftNames, List.map_map]
      rfl

theorem settled_qualified (hrules : r.ChoosesBuiltIn)
    (hextremes : r.ComparesExtremes q.attributes) {name : String}
    (hname : name ∈ r.disambiguationOrder q.attributes) : Settled r (c.qualified r q) name := by
  obtain ⟨wanted, hwanted⟩ := SortedMap.contains_iff.mp (Registry.mem_disambiguationOrder.mp hname)
  refine ⟨hrules.disambiguationRule name, fun v hv => ?_, fun hrule => ?_⟩
  · obtain ⟨a, ha, -⟩ := (Component.qualifies_of_mem_qualified v hv).get? hwanted
    exact ⟨a, ha⟩
  · exact comparable_of_compatible
      (hextremes name (Registry.mem_disambiguationOrder.mp hname) hrule)
      (isCompatible_of_mem_valuesOf Component.qualifies_of_mem_qualified hwanted)

/-- **Built-in rules leave no tie unreduced**, so the answer lists what
disambiguation left. -/
theorem leftNames_matchVariant (hrules : r.ChoosesBuiltIn) :
    leftNames (matchVariant r c q) = (c.survivors r q).map Variant.name := by
  by_cases hnone : c.qualified r q = []
  · rw [matchVariant_of_none hnone, Component.survivors, hnone,
      disambiguate_of_length_le r q.attributes (by simp)]
    rfl
  · rw [matchVariant_eq hnone, leftNames_verdict (survivors_ne_nil hrules hnone)]

/-! ### The smaller component

Both components run through the same rounds.  What carries over from the one to
the other is that the candidates of the smaller one are those of the larger one
that were kept.
-/

/-- The component with none but the variants in `kept`. -/
def Component.keeping (c : Component) (kept : List Variant) : Component :=
  { c with variants := kept }

theorem filter_mem_of_sublist {α : Type} [DecidableEq α] {l m : List α} (hnodup : m.Nodup)
    (h : l.Sublist m) : (m.filter fun a => a ∈ l) = l := by
  have hself : (l.filter fun a => a ∈ l) = l := List.filter_eq_self.mpr (by simp)
  have hsub : l.Sublist (m.filter fun a => a ∈ l) := by
    have hfilter := h.filter fun a => decide (a ∈ l)
    rwa [hself] at hfilter
  have hperm : l.Perm (m.filter fun a => a ∈ l) := by
    refine (List.perm_ext_iff_of_nodup (hnodup.sublist h) (hnodup.filter _)).mpr fun a => ?_
    rw [List.mem_filter, decide_eq_true_eq]
    exact ⟨fun ha => ⟨h.subset ha, ha⟩, fun ha => ha.2⟩
  exact (hsub.eq_of_length hperm.length_eq).symm

/-- Two sublists of a list without repetitions have their common part in one order. -/
theorem filter_mem_comm {α : Type} [DecidableEq α] {k l m : List α} (hnodup : m.Nodup)
    (hk : k.Sublist m) (hl : l.Sublist m) :
    (k.filter fun a => a ∈ l) = l.filter fun a => a ∈ k := by
  calc (k.filter fun a => a ∈ l)
      = (m.filter fun a => a ∈ k).filter fun a => a ∈ l := by rw [filter_mem_of_sublist hnodup hk]
    _ = (m.filter fun a => a ∈ l).filter fun a => a ∈ k := by
        rw [List.filter_filter, List.filter_filter]
        exact List.filter_congr fun a _ => Bool.and_comm _ _
    _ = l.filter fun a => a ∈ k := by rw [filter_mem_of_sublist hnodup hl]

theorem nodup_variants (hnames : c.variantNames.Nodup) : c.variants.Nodup :=
  List.Nodup.of_map Variant.name hnames

theorem qualified_keeping (hnames : c.variantNames.Nodup) {kept : List Variant}
    (hkept : kept.Sublist c.variants) :
    (c.keeping kept).qualified r q = (c.qualified r q).filter fun v => v ∈ kept := by
  have hself := filter_mem_of_sublist (nodup_variants hnames) hkept
  calc (c.keeping kept).qualified r q
      = kept.filter fun v => v.Qualifies r q := rfl
    _ = (c.variants.filter fun v => v ∈ kept).filter fun v => v.Qualifies r q := by rw [hself]
    _ = (c.variants.filter fun v => v.Qualifies r q).filter fun v => v ∈ kept := by
        rw [List.filter_filter, List.filter_filter]
        exact List.filter_congr fun v _ => Bool.and_comm _ _

theorem survivors_keeping (hrules : r.ChoosesBuiltIn)
    (hextremes : r.ComparesExtremes q.attributes) (hnames : c.variantNames.Nodup)
    {kept : List Variant} (hkept : kept.Sublist c.variants)
    (hleft : ∃ v ∈ c.survivors r q, v ∈ kept) :
    (c.keeping kept).survivors r q = (c.survivors r q).filter fun v => v ∈ kept := by
  rw [Component.survivors_eq_rounds, qualified_keeping hnames hkept, Component.survivors_eq_rounds]
  rw [Component.survivors_eq_rounds] at hleft
  refine disambiguationRounds_filter _ (fun name hname => ?_) (by simpa using hleft)
  exact settled_qualified hrules hextremes hname

/-- The variants of `kept` whose names are left are the survivors that are kept. -/
theorem leftOf_matchVariant (hrules : r.ChoosesBuiltIn) (hnames : c.variantNames.Nodup)
    {kept : List Variant} (hkept : kept.Sublist c.variants) :
    leftOf kept (matchVariant r c q) = (c.survivors r q).filter fun v => v ∈ kept := by
  have hsurvivors : (c.survivors r q).Sublist c.variants :=
    (c.survivors_sublist r q).trans List.filter_sublist
  have hname : ∀ v ∈ kept,
      (v.name ∈ leftNames (matchVariant r c q) ↔ v ∈ c.survivors r q) := by
    intro v hv
    rw [leftNames_matchVariant hrules]
    refine ⟨fun hmem => ?_, fun hmem => List.mem_map_of_mem hmem⟩
    obtain ⟨w, hw, hwname⟩ := List.mem_map.mp hmem
    rwa [← Component.eq_of_name_eq hnames (hsurvivors.subset hw) (hkept.subset hv) hwname]
  rw [← filter_mem_comm (nodup_variants hnames) hkept hsurvivors]
  exact List.filter_congr fun v hv => decide_eq_decide.mpr (hname v hv)

/-- **Taking variants away never turns a winner into a loser**: of those that
the selection left, the ones that are still there are selected, or tied if they
are several. -/
theorem selectVariant_keeping (hrules : r.ChoosesBuiltIn)
    (hextremes : r.ComparesExtremes q.attributes) (hnames : c.variantNames.Nodup)
    (hunnamed : q.variant = none) {kept : List Variant} (hkept : kept.Sublist c.variants)
    (hleft : leftOf kept (selectVariant r c q) ≠ []) :
    (∀ w, leftOf kept (selectVariant r c q) = [w] →
      selectVariant r (c.keeping kept) q = .ok (.matched w)) ∧
    (2 ≤ (leftOf kept (selectVariant r c q)).length →
      selectVariant r (c.keeping kept) q
        = .error (ambiguity r c q (leftOf kept (selectVariant r c q)) false)) := by
  have hkeptSome : kept ≠ [] := by
    rintro rfl
    exact hleft rfl
  have hvariants : c.variants ≠ [] := by
    intro hnil
    rw [hnil] at hkept
    exact hkeptSome (List.sublist_nil.mp hkept)
  rw [selectVariant_of_unnamed hvariants hunnamed, leftOf_matchVariant hrules hnames hkept] at *
  have hshared : ∃ v ∈ c.survivors r q, v ∈ kept := by
    obtain ⟨v, hv⟩ := List.exists_mem_of_ne_nil _ hleft
    exact ⟨v, by simpa using hv⟩
  have hsurvivors := survivors_keeping hrules hextremes hnames hkept hshared
  have hqualified : (c.keeping kept).qualified r q ≠ [] := by
    intro hnil
    have hsub := (c.keeping kept).survivors_sublist r q
    rw [hnil, hsurvivors] at hsub
    exact hleft (List.sublist_nil.mp hsub)
  rw [selectVariant_of_unnamed (c := c.keeping kept) hkeptSome hunnamed, matchVariant_eq hqualified,
    hsurvivors]
  refine ⟨fun w hw => ?_, fun htwo => ?_⟩
  · rw [hw]
    rfl
  · rw [verdict_of_two_le htwo]
    rfl

end

/-- Of the two variants that are tied, the one that is still there is selected. -/
theorem selectVariant_keeping_shaded : ∃ r, Registry.standard = .ok r ∧
    leftOf [Sample.runtime, Sample.shaded, Sample.newer]
        (selectVariant r (Sample.library [Sample.runtime, Sample.api, Sample.shaded, Sample.newer])
          Sample.request) = [Sample.shaded] ∧
      selectVariant r ((Sample.library [Sample.runtime, Sample.api, Sample.shaded,
          Sample.newer]).keeping [Sample.runtime, Sample.shaded, Sample.newer])
        Sample.request = .ok (.matched Sample.shaded) := by
  have hstandard : ∃ r, Registry.standard = .ok r ∧
      leftOf [Sample.runtime, Sample.shaded, Sample.newer]
        (selectVariant r (Sample.library [Sample.runtime, Sample.api, Sample.shaded, Sample.newer])
          Sample.request) = [Sample.shaded] := ⟨_, rfl, rfl⟩
  obtain ⟨r, hr, hleft⟩ := hstandard
  have hrules : r.Standardized := .standard hr
  have hanswer := selectVariant_keeping (q := Sample.request) hrules.choosesBuiltIn
    (hrules.comparesExtremes _) (by decide) rfl (by decide) (hleft ▸ List.cons_ne_nil _ _)
  exact ⟨r, hr, hleft, hanswer.1 _ hleft⟩

end VariantSelection
