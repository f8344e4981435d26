/-
One pass of disambiguation is all there is to do.

A round of a built-in rule keeps one of the values on offer, or all of them because
the rule prefers none to the others.  One value leaves nothing to choose the next
time.  Where none of the values was preferred, none is preferred among fewer of them
either; a rule for an extreme value may come to prefer one, but only where some of
the values did not compare.  So the same round keeps everybody in any part of what
it left: it is `AtRest` there.  The later rounds and the capabilities leave such a
part, and a second pass finds every round at rest.
-/
import VariantSelection.Proofs.Disambiguation.BuiltIn
import VariantSelection.Proofs.Selection
import VariantSelection.Proofs.Standard

namespace VariantSelection

/-- Wherever a requested attribute prefers the least or the greatest value, the
values that the candidates have for it compare. -/
def ExtremesCompare (r : Registry) (requested : AttributeSet) (candidates : List Variant) : Prop :=
  ∀ name, requested.contains name = true →
    r.disambiguationRule name = .preferLowest ∨ r.disambiguationRule name = .preferHighest →
    Comparable (valuesOf name candidates)

/-- The rule of `name` prefers no value that the candidates have for it to the others. -/
def AtRest (r : Registry) (requested : AttributeSet) (candidates : List Variant) (name : String) :
    Prop :=
  (r.disambiguationRule name).preferred (requested.get? name) (valuesOf name candidates)
    = valuesOf name candidates

section
variable {r : Registry} {requested : AttributeSet} {candidates remaining part : List Variant}
  {name : String}

/-! ### Rounds at rest

A round at rest changes nothing, and where all rounds are, no pass does.
-/

theorem AtRest.round (h : AtRest r requested candidates name) :
    disambiguationRound r requested candidates name = candidates := by
  unfold disambiguationRound
  by_cases hsize : (valuesOf name candidates).size ≤ 1
  · rw [if_pos hsize]
  · rw [if_neg hsize]
    refine List.filter_eq_self.mpr fun v hv => Variant.staysFor_iff.mpr fun a ha => ?_
    rw [h]
    exact mem_valuesOf.mpr ⟨v, hv, ha⟩

theorem disambiguationRounds_of_atRest (names : List String)
    (h : ∀ name ∈ names, AtRest r requested candidates name) :
    disambiguationRounds r requested names candidates = candidates :=
  disambiguationRounds_of_fixed r requested names fun name hname => (h name hname).round

/-! ### What a pass leaves

`atRest_of_subset_round` is the lemma for one round, and it speaks of every part of
what the round left, so the rounds that follow need no second look.
-/

/-- **A round is at rest in any part of what it left.** -/
theorem atRest_of_subset_round (h : (r.disambiguationRule name).BuiltIn)
    (hcomp : r.disambiguationRule name = .preferLowest ∨
      r.disambiguationRule name = .preferHighest → Comparable (valuesOf name remaining))
    (hpart : part ⊆ disambiguationRound r requested remaining name) :
    AtRest r requested part name := by
  rw [disambiguationRound_eq_filter h] at hpart
  have hsub : ∀ a ∈ valuesOf name part, a ∈ valuesOf name remaining :=
    fun a => valuesOf_mono fun v hv => (List.mem_filter.mp (hpart hv)).1
  have hkept : ∀ a ∈ valuesOf name part, a ∈ preferredValues r requested remaining name := by
    intro a ha
    obtain ⟨v, hv, hva⟩ := mem_valuesOf.mp ha
    exact Variant.staysFor_iff.mp (List.mem_filter.mp (hpart hv)).2 a hva
  refine SortedSet.ext fun a => ⟨DisambiguationRule.mem_of_mem_preferred h, fun ha => ?_⟩
  -- Shown fewer values, the rule prefers what is left of its preference, and
  -- nothing else is left.
  have hiff : a ∈ preferredValues r requested part name ↔
      a ∈ preferredValues r requested remaining name :=
    DisambiguationRule.mem_preferred_iff_of_subset h hcomp hsub ⟨a, ha, hkept a ha⟩ ha
  exact hiff.mpr (hkept a ha)

/-- The later rounds leave a part of what an earlier round left. -/
theorem atRest_of_subset_rounds (h : r.ChoosesBuiltIn) (names : List String) :
    ∀ {remaining : List Variant},
      (∀ name ∈ names, r.disambiguationRule name = .preferLowest ∨
        r.disambiguationRule name = .preferHighest → Comparable (valuesOf name remaining)) →
      part ⊆ disambiguationRounds r requested names remaining →
      ∀ name ∈ names, AtRest r requested part name := by
  induction names with
  | nil =>
      intro _ _ _ name hname
      exact absurd hname List.not_mem_nil
  | cons name rest ih =>
      intro remaining hcomp hpart
      rw [disambiguationRounds_cons] at hpart
      obtain ⟨hname, hrest⟩ := List.forall_mem_cons.mp hcomp
      have hround := disambiguationRound_sublist r requested remaining name
      have hrounds := disambiguationRounds_sublist r requested rest
        (disambiguationRound r requested remaining name)
      refine List.forall_mem_cons.mpr ⟨?_, ih (fun other hother hrule => ?_) hpart⟩
      · exact atRest_of_subset_round (h.disambiguationRule name) hname
          fun v hv => hrounds.subset (hpart hv)
      · exact (hrest other hother hrule).mono
          fun a => valuesOf_mono fun v hv => hround.subset hv

theorem disambiguate_subset_rounds (capabilities : List CapabilitySelector) :
    disambiguate r requested candidates capabilities
      ⊆ disambiguationRounds r requested (r.disambiguationOrder requested) candidates := by
  simp only [disambiguate]
  split
  · exact List.filter_sublist.subset
  · exact fun _ hv => hv

/-- Candidates that are tied in the end provide the capabilities. -/
theorem provides_of_mem_disambiguate {capabilities : List CapabilitySelector} {v : Variant}
    (htied : 1 < (disambiguate r requested candidates capabilities).length)
    (hv : v ∈ disambiguate r requested candidates capabilities) :
    v.provides capabilities = true := by
  simp only [disambiguate] at htied hv
  split at hv
  · exact (List.mem_filter.mp hv).2
  · rename_i hfiltered
    rw [if_neg hfiltered] at htied
    have hnone : capabilities = [] := by simpa [htied] using hfiltered
    rw [hnone]
    rfl

/-- **One pass of disambiguation by built-in rules is enough**, if the values
compare wherever a rule looks for an extreme one.  A second pass leaves what the
first one left, because no requested attribute prefers any of the values that are
left to the others, and whoever is tied provides the capabilities. -/
theorem disambiguate_disambiguate (h : r.ChoosesBuiltIn)
    (hcomp : ExtremesCompare r requested candidates) (capabilities : List CapabilitySelector) :
    let left := disambiguate r requested candidates capabilities
    disambiguate r requested left capabilities = left ∧
    (∀ name, requested.contains name = true → AtRest r requested left name) ∧
    (1 < left.length → ∀ v ∈ left, v.provides capabilities = true) := by
  intro left
  have hprovides : 1 < left.length → ∀ v ∈ left, v.provides capabilities = true :=
    fun htied v hv => provides_of_mem_disambiguate htied hv
  have hrest : ∀ name ∈ r.disambiguationOrder requested, AtRest r requested left name :=
    atRest_of_subset_rounds h _
      (fun name hname => hcomp name (Registry.mem_disambiguationOrder.mp hname))
      (disambiguate_subset_rounds capabilities)
  refine ⟨?_, fun name hname => hrest name (Registry.mem_disambiguationOrder.mpr hname), hprovides⟩
  show disambiguate r requested left capabilities = left
  simp only [disambiguate, disambiguationRounds_of_atRest _ hrest]
  split
  · rename_i htied
    simp only [Bool.and_eq_true, decide_eq_true_eq] at htied
    exact List.filter_eq_self.mpr (hprovides htied.1)
  · rfl

end

namespace Sample

/-- Candidates with a newer version, with an older one twice, and with none. -/
def versionedCandidates : List Variant :=
  let unversioned : AttributeSet := .ofList [(Standard.usage, .string "java-api")]
  [newer, api, shaded, { runtime with attributes := unversioned }]

/-- Sizes that do not all compare, each with a colour. -/
def sizes : List Variant :=
  let sized (size : Value) (colour : String) : Variant :=
    { api with attributes := .ofList [("colour", .string colour), ("size", size)] }
  [sized (.integer 1) "red", sized (.integer 2) "red", sized (.string "large") "blue"]

end Sample

/-- The version drops the newer candidate, and the one without a version stays
beside the older ones. -/
theorem disambiguate_disambiguate_versioned : ∃ r, Registry.standard = .ok r ∧
    ExtremesCompare r Sample.request.attributes Sample.versionedCandidates ∧
    disambiguate r Sample.request.attributes Sample.versionedCandidates
        [⟨"org.example", "library", none⟩] = Sample.versionedCandidates.drop 1 ∧
    disambiguate r Sample.request.attributes (Sample.versionedCandidates.drop 1)
        [⟨"org.example", "library", none⟩] = Sample.versionedCandidates.drop 1 := by
  have hstandard : ∃ r, Registry.standard = .ok r ∧
      r.disambiguationRule Standard.usage
        = .ordered (Standard.strings ["java-api", "java-runtime"]) ∧
      disambiguate r Sample.request.attributes Sample.versionedCandidates
        [⟨"org.example", "library", none⟩] = Sample.versionedCandidates.drop 1 :=
    ⟨_, rfl, rfl, by decide⟩
  obtain ⟨r, hr, husage, hleft⟩ := hstandard
  have hkeys : Sample.request.attributes.keys = [Standard.jvmVersion, Standard.usage] := by decide
  have hversions : (valuesOf Standard.jvmVersion Sample.versionedCandidates).elements
      = [.integer 8, .integer 11] := by decide
  have hcomp : ExtremesCompare r Sample.request.attributes Sample.versionedCandidates := by
    intro name hname hrule
    rw [← SortedMap.mem_keys_iff_contains, hkeys] at hname
    simp only [List.mem_cons, List.not_mem_nil, or_false] at hname
    rcases hname with rfl | rfl
    · refine comparable_of_integers fun a ha => ?_
      rw [← SortedSet.mem_elements, hversions] at ha
      simp only [List.mem_cons, List.not_mem_nil, or_false] at ha
      rcases ha with rfl | rfl <;> exact ⟨_, rfl⟩
    · simp [husage] at hrule
  have hagain := (disambiguate_disambiguate (Registry.Standardized.standard hr).choosesBuiltIn hcomp
    [⟨"org.example", "library", none⟩]).1
  rw [hleft] at hagain
  exact ⟨r, hr, hcomp, hleft, hagain⟩

/-- Where the sizes do not compare, the colours leave some that do, and a second
pass has them to choose from. -/
example : ∃ r s, Registry.empty.register "size" .string none (some .preferLowest) = .ok r ∧
    r.register "colour" .string none (some (.ordered [.string "red"])) = .ok s ∧
    let requested : AttributeSet := .ofList [("colour", .string "red"), ("size", .integer 1)]
    disambiguate s requested Sample.sizes [] = Sample.sizes.take 2 ∧
    disambiguate s requested (Sample.sizes.take 2) [] = Sample.sizes.take 1 :=
  ⟨_, _, rfl, rfl, rfl, rfl⟩

end VariantSelection
