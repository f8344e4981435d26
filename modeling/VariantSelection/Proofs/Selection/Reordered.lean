/-
The order of the variants does not matter.

Two components with the same variants in different orders run in step: at every
stage the candidates of the one are a reordering of those of the other, because a
stage either filters them (`qualified_perm`) or shows them to a rule as a set
(`survivors_perm`).  So the answers are of one kind, and what they list differs in
its order only.  Names are asked to be distinct for one reason: a variant that is
named has to be the same in both.
-/
import VariantSelection.Proofs.Component
import VariantSelection.Proofs.Conflicts
import VariantSelection.Proofs.Selection

namespace VariantSelection

/-- Two answers that differ at most in the order of what they list. -/
inductive SameUpToOrder :
    Except SelectionError Outcome → Except SelectionError Outcome → Prop
  | legacyDefault (a : Artifact) : SameUpToOrder (.ok (.legacyDefault a)) (.ok (.legacyDefault a))
  | explicit (v : Variant) : SameUpToOrder (.ok (.explicit v)) (.ok (.explicit v))
  | matched (v : Variant) : SameUpToOrder (.ok (.matched v)) (.ok (.matched v))
  | variantNotFound (component variant : String) {names others : List String}
      (available : names.Perm others) :
      SameUpToOrder (.error (.variantNotFound component variant (joinWith ", " names)))
        (.error (.variantNotFound component variant (joinWith ", " others)))
  | incompatible (component consumer : String) (requested : AttributeSet)
      (capabilities : List String) {reports others : List MatchReport}
      (same : reports.Perm others) :
      SameUpToOrder (.error (.incompatible component consumer requested capabilities reports))
        (.error (.incompatible component consumer requested capabilities others))
  | ambiguous (component consumer : String) (requested : AttributeSet) (unreduced : Bool)
      {candidates others : List TiedCandidate} {conflicts otherConflicts : List (List String)}
      (same : candidates.Perm others) (groups : SameGroups conflicts otherConflicts) :
      SameUpToOrder
        (.error (.ambiguous component consumer requested candidates unreduced conflicts))
        (.error (.ambiguous component consumer requested others unreduced otherConflicts))

section
variable {c d : Component} (r : Registry) (q : Request)

theorem qualified_perm (h : c.variants.Perm d.variants) :
    (c.qualified r q).Perm (d.qualified r q) :=
  h.filter _

theorem survivors_perm (h : c.variants.Perm d.variants) :
    (c.survivors r q).Perm (d.survivors r q) :=
  disambiguate_perm r q.attributes (qualified_perm r q h) q.capabilities

theorem ambiguity_perm (hid : c.id = d.id) {tied others : List Variant} (h : tied.Perm others)
    (unreduced : Bool) :
    SameUpToOrder (.error (ambiguity r c q tied unreduced))
      (.error (ambiguity r d q others unreduced)) := by
  rw [ambiguity, ambiguity, hid]
  exact .ambiguous _ _ _ _ (h.map _) (conflictingGroups_perm h)

theorem verdict_perm (hid : c.id = d.id) (hvariants : c.variants.Perm d.variants)
    {left others : List Variant} (h : left.Perm others) :
    SameUpToOrder (verdict r c q left) (verdict r d q others) := by
  match left, others, h with
  | [], others, h =>
      cases h.nil_eq
      exact ambiguity_perm r q hid (qualified_perm r q hvariants) true
  | [winner], others, h =>
      cases h.singleton_eq
      exact .matched winner
  | first :: second :: rest, others, h =>
      have htwo : 2 ≤ others.length := by rw [← h.length_eq]; simp
      rw [verdict_of_two_le htwo]
      exact ambiguity_perm r q hid h false

theorem matchVariant_perm (hid : c.id = d.id) (h : c.variants.Perm d.variants) :
    SameUpToOrder (matchVariant r c q) (matchVariant r d q) := by
  by_cases hnone : c.qualified r q = []
  · have hnone' : d.qualified r q = [] := by
      have hperm := qualified_perm r q h
      rw [hnone] at hperm
      exact hperm.nil_eq.symm
    rw [matchVariant_of_none hnone, matchVariant_of_none hnone', incompatibility, incompatibility,
      hid]
    exact .incompatible _ _ _ _ ((h.filter _).map _)
  · have hnone' : d.qualified r q ≠ [] := by
      intro hd
      have hperm := qualified_perm r q h
      rw [hd] at hperm
      exact hnone hperm.eq_nil
    rw [matchVariant_eq hnone, matchVariant_eq hnone']
    exact verdict_perm r q hid h (survivors_perm r q h)

/-- **The order in which a component lists its variants does not matter.** -/
theorem selectVariant_perm (hid : c.id = d.id) (h : c.variants.Perm d.variants)
    (hnames : c.variantNames.Nodup) :
    SameUpToOrder (selectVariant r c q) (selectVariant r d q) := by
  by_cases hvariants : c.variants = []
  · have hvariants' : d.variants = [] := by
      rw [hvariants] at h
      exact h.nil_eq.symm
    rw [selectVariant, selectVariant, hvariants, hvariants', Component.defaultArtifact,
      Component.defaultArtifact, hid]
    exact .legacyDefault _
  · have hvariants' : d.variants ≠ [] := by
      intro hd
      rw [hd] at h
      exact hvariants h.eq_nil
    cases hname : q.variant with
    | none =>
        rw [selectVariant_of_unnamed hvariants hname, selectVariant_of_unnamed hvariants' hname]
        exact matchVariant_perm r q hid h
    | some name =>
        rw [selectVariant, selectVariant, if_neg (by simpa using hvariants),
          if_neg (by simpa using hvariants'), hname]
        dsimp only
        rw [Component.variant?_perm h hnames name, hid]
        cases d.variant? name with
        | some v => exact .explicit v
        | none => exact .variantNotFound _ _ (h.map Variant.name)

end

/-- Two variants that are tied and one that is not in the request's reach, in
two orders. -/
theorem selectVariant_perm_library :
    [Sample.api, Sample.newer, Sample.shaded].Perm [Sample.newer, Sample.shaded, Sample.api] ∧
      SameUpToOrder
        (selectVariant .empty (Sample.library [Sample.api, Sample.newer, Sample.shaded])
          Sample.request)
        (selectVariant .empty (Sample.library [Sample.newer, Sample.shaded, Sample.api])
          Sample.request) := by
  have hperm : [Sample.api, Sample.newer, Sample.shaded].Perm
      [Sample.newer, Sample.shaded, Sample.api] := by decide
  exact ⟨hperm, selectVariant_perm .empty Sample.request rfl hperm (by decide)⟩

end VariantSelection
