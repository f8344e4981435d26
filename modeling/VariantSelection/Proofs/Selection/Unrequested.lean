/-
Attributes that nobody asked for cannot influence an answer.

Two components run in step when their variants agree, one by one, on the name, the
capabilities and what is requested.  At every stage the candidates of the one are
the same for the request as those of the other: a filter asks for capabilities or
for requested attributes, and a rule is shown the values of a requested attribute.
So the answers are of one kind and name the same variants.  All that other
attributes can do is to appear in a report, among those that are unmatched.
Registries have no more influence than the components: what they hold of other
attributes is never consulted.
-/
import VariantSelection.Proofs.Conflicts
import VariantSelection.Proofs.Disambiguation.Alike
import VariantSelection.Proofs.Registry.Registration
import VariantSelection.Proofs.Selection
import VariantSelection.Proofs.Selection.Consulted

namespace VariantSelection

/-! ### The same for a request

`SameVariants` pairs the variants one by one, and a filter that cannot tell two of a
pair apart keeps it or drops it.
-/

/-- One variant as far as a request for these attributes can tell. -/
structure Variant.SameFor (v w : Variant) (requested : AttributeSet) : Prop where
  name : v.name = w.name
  capabilities : v.capabilities = w.capabilities
  agreesOn : v.AgreesOn w requested

/-- Variants that are the same for the request, one by one. -/
def SameVariants (requested : AttributeSet) (variants others : List Variant) : Prop :=
  List.Forall₂ (fun v w => v.SameFor w requested) variants others

/-- Reports on one candidate that differ in its unmatched attributes at most. -/
structure MatchReport.SameMatches (m n : MatchReport) : Prop where
  candidate : m.candidate = n.candidate
  compatible : m.compatible = n.compatible
  incompatible : m.incompatible = n.incompatible

structure TiedCandidate.SameMatches (t u : TiedCandidate) : Prop where
  report : t.report.SameMatches u.report
  capabilities : t.capabilities = u.capabilities

/-- Two answers to a request for these attributes that differ at most in what
nobody asked for. -/
inductive SameAnswer (requested : AttributeSet) :
    Except SelectionError Outcome → Except SelectionError Outcome → Prop
  | legacyDefault (a : Artifact) :
      SameAnswer requested (.ok (.legacyDefault a)) (.ok (.legacyDefault a))
  | explicit {v w : Variant} (same : v.SameFor w requested) :
      SameAnswer requested (.ok (.explicit v)) (.ok (.explicit w))
  | matched {v w : Variant} (same : v.SameFor w requested) :
      SameAnswer requested (.ok (.matched v)) (.ok (.matched w))
  | variantNotFound (component variant available : String) :
      SameAnswer requested (.error (.variantNotFound component variant available))
        (.error (.variantNotFound component variant available))
  | incompatible (component consumer : String) (capabilities : List String)
      {reports others : List MatchReport}
      (same : List.Forall₂ MatchReport.SameMatches reports others) :
      SameAnswer requested
        (.error (.incompatible component consumer requested capabilities reports))
        (.error (.incompatible component consumer requested capabilities others))
  | ambiguous (component consumer : String) (unreduced : Bool) (conflicts : List (List String))
      {candidates others : List TiedCandidate}
      (same : List.Forall₂ TiedCandidate.SameMatches candidates others) :
      SameAnswer requested
        (.error (.ambiguous component consumer requested candidates unreduced conflicts))
        (.error (.ambiguous component consumer requested others unreduced conflicts))

section
variable {r : Registry} {requested : AttributeSet} {v w : Variant} {variants others : List Variant}

theorem Variant.SameFor.report (h : v.SameFor w requested) :
    (v.report r requested).SameMatches (w.report r requested) := by
  have hmatches : attributeMatches requested v.attributes
      = attributeMatches requested w.attributes := by
    refine List.map_congr_left fun e he => ?_
    have hrequested : requested.contains e.1 = true :=
      SortedMap.contains_iff.mpr ⟨e.2, SortedMap.get?_eq_some_iff.mpr he⟩
    rw [h.agreesOn e.1 hrequested]
  unfold Variant.report evaluate
  rw [hmatches]
  exact ⟨h.name, rfl, rfl⟩

/-- A variant with one attribute more that nobody asked for is the same for
the request. -/
theorem Variant.sameFor_insert {name : String} (hname : requested.contains name = false)
    (a : Value) (v : Variant) :
    v.SameFor { v with attributes := v.attributes.insert name a } requested := by
  refine ⟨rfl, rfl, fun other hrequested => ?_⟩
  rw [SortedMap.get?_insert, if_neg (SortedMap.ne_of_contains hrequested hname)]

theorem Variant.SameFor.provides (h : v.SameFor w requested)
    (selectors : List CapabilitySelector) : v.provides selectors = w.provides selectors := by
  unfold Variant.provides
  rw [h.capabilities]

namespace SameVariants

theorem filter {p : Variant → Bool} (h : SameVariants requested variants others)
    (hp : ∀ v w : Variant, v.SameFor w requested → p v = p w) :
    SameVariants requested (variants.filter p) (others.filter p) :=
  List.rel_filter (fun v w hvw => Bool.eq_iff_iff.mp (hp v w hvw)) h

theorem map_eq {α : Type} {f : Variant → α} (h : SameVariants requested variants others)
    (hf : ∀ v w : Variant, v.SameFor w requested → f v = f w) : variants.map f = others.map f := by
  induction h with
  | nil => rfl
  | cons hfirst _ ih => rw [List.map_cons, List.map_cons, hf _ _ hfirst, ih]

theorem map {α : Type} {R : α → α → Prop} {f : Variant → α}
    (h : SameVariants requested variants others)
    (hf : ∀ v w : Variant, v.SameFor w requested → R (f v) (f w)) :
    List.Forall₂ R (variants.map f) (others.map f) := by
  rw [List.forall₂_map_left_iff, List.forall₂_map_right_iff]
  exact h.imp hf

theorem find? {p : Variant → Bool} (h : SameVariants requested variants others)
    (hp : ∀ v w : Variant, v.SameFor w requested → p v = p w) :
    Option.Rel (fun v w => v.SameFor w requested) (variants.find? p) (others.find? p) := by
  induction h with
  | nil => exact .none
  | @cons v w _ _ hfirst _ ih =>
      rw [List.find?_cons, List.find?_cons, hp v w hfirst]
      cases p w with
      | true => exact .some hfirst
      | false => exact ih

/-! ### Disambiguation

A round is shown the same values on both sides, so it keeps the same pairs.
-/

theorem valuesOf_eq (h : SameVariants requested variants others) {name : String}
    (hname : requested.contains name = true) : valuesOf name variants = valuesOf name others := by
  have hvalues := congrArg (List.filterMap id) (h.map_eq fun _ _ hvw => hvw.agreesOn name hname)
  rw [List.filterMap_map, List.filterMap_map] at hvalues
  exact congrArg SortedSet.ofList hvalues

theorem disambiguationRound (h : SameVariants requested variants others) {name : String}
    (hname : requested.contains name = true) :
    SameVariants requested (disambiguationRound r requested variants name)
      (disambiguationRound r requested others name) := by
  unfold VariantSelection.disambiguationRound
  rw [h.valuesOf_eq hname]
  by_cases hsize : (valuesOf name others).size ≤ 1
  · rw [if_pos hsize, if_pos hsize]
    exact h
  · rw [if_neg hsize, if_neg hsize]
    refine h.filter fun v w hvw => ?_
    unfold Variant.staysFor
    rw [hvw.agreesOn name hname]

theorem disambiguationRounds (names : List String) :
    ∀ {variants others : List Variant}, (∀ name ∈ names, requested.contains name = true) →
      SameVariants requested variants others →
        SameVariants requested (disambiguationRounds r requested names variants)
          (disambiguationRounds r requested names others) := by
  induction names with
  | nil =>
      intro variants others _ h
      exact h
  | cons name rest ih =>
      intro variants others hnames h
      obtain ⟨hname, hrest⟩ := List.forall_mem_cons.mp hnames
      rw [disambiguationRounds_cons, disambiguationRounds_cons]
      exact ih hrest (h.disambiguationRound hname)

/-- **Disambiguation consults what is requested and nothing else.** -/
theorem disambiguate (h : SameVariants requested variants others)
    (capabilities : List CapabilitySelector) :
    SameVariants requested (disambiguate r requested variants capabilities)
      (disambiguate r requested others capabilities) := by
  have hrounds := h.disambiguationRounds (r := r) (r.disambiguationOrder requested)
    fun _ hname => Registry.mem_disambiguationOrder.mp hname
  simp only [VariantSelection.disambiguate, hrounds.length_eq]
  split
  · exact hrounds.filter fun v w hvw => hvw.provides capabilities
  · exact hrounds

/-! ### Conflicts -/

theorem conflictingGroups_eq (h : SameVariants requested variants others) :
    conflictingGroups variants = conflictingGroups others := by
  have hsets := h.map_eq (f := Variant.capabilities) fun _ _ hvw => hvw.capabilities
  have hgroup : groupOf variants = groupOf others := by
    funext set
    have hmembers := h.filter (p := fun v => v.capabilities = set) fun v w hvw => by
      rw [hvw.capabilities]
    exact hmembers.map_eq fun _ _ hvw => hvw.name
  rw [VariantSelection.conflictingGroups_eq, VariantSelection.conflictingGroups_eq, hsets, hgroup]

end SameVariants

end

/-! ### Answers

The answers are built from the pairs that are left; what differs in them is in the
unmatched attributes of reports, `SameMatches`.
-/

section
variable {r : Registry} {c d : Component} {q : Request}

theorem sameVariants_qualified (h : SameVariants q.attributes c.variants d.variants) :
    SameVariants q.attributes (c.qualified r q) (d.qualified r q) := by
  refine h.filter fun v w hvw => ?_
  simp only [Variant.qualifies_iff, hvw.provides q.capabilities, MatchReport.isCompatible_iff,
    (hvw.report (r := r)).incompatible]

theorem sameVariants_survivors (h : SameVariants q.attributes c.variants d.variants) :
    SameVariants q.attributes (c.survivors r q) (d.survivors r q) :=
  (sameVariants_qualified h).disambiguate q.capabilities

theorem sameAnswer_ambiguity (hid : c.id = d.id) {tied others : List Variant}
    (h : SameVariants q.attributes tied others) (unreduced : Bool) :
    SameAnswer q.attributes (.error (ambiguity r c q tied unreduced))
      (.error (ambiguity r d q others unreduced)) := by
  rw [ambiguity, ambiguity, hid, h.conflictingGroups_eq]
  refine .ambiguous _ _ _ _ (h.map fun v w hvw => ⟨hvw.report, ?_⟩)
  rw [Variant.capabilityIds, hvw.capabilities, Variant.capabilityIds]

theorem sameAnswer_verdict (hid : c.id = d.id)
    (hvariants : SameVariants q.attributes c.variants d.variants) {left others : List Variant}
    (h : SameVariants q.attributes left others) :
    SameAnswer q.attributes (verdict r c q left) (verdict r d q others) := by
  match left, others, h with
  | [], [], .nil => exact sameAnswer_ambiguity hid (sameVariants_qualified hvariants) true
  | [_], [_], .cons hwinner .nil => exact .matched hwinner
  | _ :: _ :: _, _ :: _ :: _, h@(.cons _ (.cons _ _)) => exact sameAnswer_ambiguity hid h false

theorem sameAnswer_matchVariant (hid : c.id = d.id)
    (h : SameVariants q.attributes c.variants d.variants) :
    SameAnswer q.attributes (matchVariant r c q) (matchVariant r d q) := by
  have hqualified := sameVariants_qualified (r := r) h
  by_cases hnone : c.qualified r q = []
  · have hnone' : d.qualified r q = [] := by
      rw [hnone] at hqualified
      exact List.forall₂_nil_left_iff.mp hqualified
    rw [matchVariant_of_none hnone, matchVariant_of_none hnone', incompatibility, incompatibility,
      hid]
    have hcandidates := h.filter (p := fun v => v.provides q.capabilities) fun v w hvw =>
      hvw.provides q.capabilities
    exact .incompatible _ _ _ (hcandidates.map fun _ _ hvw => hvw.report)
  · have hnone' : d.qualified r q ≠ [] := by
      intro hd
      rw [hd] at hqualified
      exact hnone (List.forall₂_nil_right_iff.mp hqualified)
    rw [matchVariant_eq hnone, matchVariant_eq hnone']
    exact sameAnswer_verdict hid h (sameVariants_survivors h)

theorem sameAnswer_selectVariant (hid : c.id = d.id)
    (h : SameVariants q.attributes c.variants d.variants) :
    SameAnswer q.attributes (selectVariant r c q) (selectVariant r d q) := by
  by_cases hvariants : c.variants = []
  · have hvariants' : d.variants = [] := by
      rw [hvariants] at h
      exact List.forall₂_nil_left_iff.mp h
    rw [selectVariant, selectVariant, hvariants, hvariants', Component.defaultArtifact,
      Component.defaultArtifact, hid]
    exact .legacyDefault _
  · have hvariants' : d.variants ≠ [] := by
      intro hd
      rw [hd] at h
      exact hvariants (List.forall₂_nil_right_iff.mp h)
    cases hname : q.variant with
    | none =>
        rw [selectVariant_of_unnamed hvariants hname, selectVariant_of_unnamed hvariants' hname]
        exact sameAnswer_matchVariant hid h
    | some name =>
        have hfound : Option.Rel (fun v w => v.SameFor w q.attributes) (c.variant? name)
            (d.variant? name) := h.find? fun v w hvw => by rw [hvw.name]
        have hnames : c.variantNames = d.variantNames := h.map_eq fun _ _ hvw => hvw.name
        rw [selectVariant, selectVariant, if_neg (by simpa using hvariants),
          if_neg (by simpa using hvariants'), hname, hid, hnames]
        dsimp only
        generalize c.variant? name = found, d.variant? name = other at hfound ⊢
        cases hfound with
        | none => exact .variantNotFound _ _ _
        | some hsame => exact .explicit hsame

/-- **Attributes that nobody asked for cannot influence an answer**, neither those
that variants carry nor those that registries know. -/
theorem selectVariant_unrequested {s : Registry} (hid : c.id = d.id)
    (hvariants : SameVariants q.attributes c.variants d.variants)
    (horder : r.disambiguationOrder q.attributes = s.disambiguationOrder q.attributes)
    (hcompatibility : ∀ name, q.attributes.contains name = true →
      r.compatibilityRule name = s.compatibilityRule name)
    (hdisambiguation : ∀ name, q.attributes.contains name = true →
      r.disambiguationRule name = s.disambiguationRule name) :
    SameAnswer q.attributes (selectVariant r c q) (selectVariant s d q) := by
  have halike : r.ConsultedAlike s q.attributes :=
    Registry.consultedAlike_of_rules horder hcompatibility hdisambiguation
  rw [← selectVariant_congr halike d]
  exact sameAnswer_selectVariant hid hvariants

end

namespace Sample

/-- The variant in a colour. -/
def inColour (colour : String) (v : Variant) : Variant :=
  { v with attributes := v.attributes.insert "colour" (.string colour) }

end Sample

/-- Two variants that are tied stay tied in two colours, of which the one registry
would prefer the second. -/
theorem selectVariant_unrequested_colour : ∃ r s, Registry.standard = .ok r ∧
    r.register "colour" .string none (some (.ordered [.string "red"])) = .ok s ∧
    SameAnswer Sample.request.attributes
      (selectVariant r (Sample.library [Sample.api, Sample.shaded]) Sample.request)
      (selectVariant s (Sample.library [Sample.inColour "blue" Sample.api,
        Sample.inColour "red" Sample.shaded]) Sample.request) := by
  have hstandard : ∃ r s, Registry.standard = .ok r ∧
      r.register "colour" .string none (some (.ordered [.string "red"])) = .ok s ∧
      r.disambiguationOrder Sample.request.attributes
        = s.disambiguationOrder Sample.request.attributes := ⟨_, _, rfl, rfl, by decide⟩
  obtain ⟨r, s, hr, hs, horder⟩ := hstandard
  have hcolour : Sample.request.attributes.contains "colour" = false := by decide
  have hother : ∀ name, Sample.request.attributes.contains name = true → name ≠ "colour" :=
    fun _ hrequested => SortedMap.ne_of_contains hrequested hcolour
  have hvariants : SameVariants Sample.request.attributes [Sample.api, Sample.shaded]
      [Sample.inColour "blue" Sample.api, Sample.inColour "red" Sample.shaded] :=
    .cons (Variant.sameFor_insert hcolour _ _) (.cons (Variant.sameFor_insert hcolour _ _) .nil)
  refine ⟨r, s, hr, hs, selectVariant_unrequested rfl hvariants horder (fun name hname => ?_)
    fun name hname => ?_⟩
  · rw [Registry.compatibilityRule_register hs, if_neg (hother name hname)]
  · rw [Registry.disambiguationRule_register hs, if_neg (hother name hname)]

end VariantSelection
