/-
The shortcuts of disambiguation change nothing.

Said plainly (`plainDisambiguate`), disambiguation runs one round for each attribute
in the order, every round is a filter by what the rule prefers of the values on
offer, and at the end the capabilities tell apart whoever is still tied.  What
really runs does less: it asks no rule about a single value, and it stops as soon as
one candidate is left.

A built-in rule keeps a single value when it is shown one.  So a round over one
value keeps everybody, also when some candidates or all of them have no value; a
round over one candidate is such a round; and of one candidate all rounds are.  A
custom rule may drop a value that has no rival, and then the plain procedure loses
the candidate that the shortcuts save.
-/
import VariantSelection.Proofs.Disambiguation.BuiltIn
import VariantSelection.Proofs.Selection
import VariantSelection.Proofs.Standard

namespace VariantSelection

/-- One round, whatever the number of candidates and of their values: who has
the attribute stays with a preferred value, and who lacks it stays. -/
def plainRound (r : Registry) (requested : AttributeSet) (remaining : List Variant)
    (name : String) : List Variant :=
  let preferred := (r.disambiguationRule name).preferred (requested.get? name)
    (.ofList (remaining.filterMap fun v => v.attributes.get? name))
  remaining.filter fun v =>
    match v.attributes.get? name with
    | some a => preferred.contains a
    | none => true

/-- All rounds, and then the capabilities if several candidates are left. -/
def plainDisambiguate (r : Registry) (requested : AttributeSet) (candidates : List Variant)
    (capabilities : List CapabilitySelector) : List Variant :=
  let remaining := (r.disambiguationOrder requested).foldl (plainRound r requested) candidates
  if 2 ≤ remaining.length ∧ capabilities ≠ [] then
    remaining.filter fun v =>
      capabilities.all fun s => v.capabilities.elements.any fun c => s.selects c
  else remaining

section
variable {r : Registry} {requested : AttributeSet} {candidates remaining : List Variant}
  {name : String}

/-! ### Each shortcut

There are three of them, and each is a lemma on the plain procedure: it would have
done nothing where the shortcut does nothing.
-/

theorem disambiguationRound_eq_plainRound (h : (r.disambiguationRule name).BuiltIn) :
    disambiguationRound r requested remaining name = plainRound r requested remaining name :=
  disambiguationRound_eq_filter h remaining

/-- **A single value is kept**, so `disambiguationRound` need not ask a rule about it. -/
theorem plainRound_of_size_le (h : (r.disambiguationRule name).BuiltIn)
    (hsize : (valuesOf name remaining).size ≤ 1) :
    plainRound r requested remaining name = remaining := by
  rw [← disambiguationRound_eq_plainRound h, disambiguationRound, if_pos hsize]

/-- **A single candidate is kept by all rounds**, so `disambiguationRounds` may
stop there. -/
theorem foldl_plainRound_of_length_le (h : r.ChoosesBuiltIn) (hlen : remaining.length ≤ 1)
    (names : List String) : names.foldl (plainRound r requested) remaining = remaining := by
  induction names with
  | nil => rfl
  | cons name rest ih =>
      have hsize := Nat.le_trans (size_valuesOf_le name remaining) hlen
      rw [List.foldl_cons, plainRound_of_size_le (h.disambiguationRule name) hsize]
      exact ih

/-- **A single candidate is all that is left of itself**, so `disambiguate` may
return it at once. -/
theorem plainDisambiguate_of_length_le (h : r.ChoosesBuiltIn) (hlen : candidates.length ≤ 1)
    (capabilities : List CapabilitySelector) :
    plainDisambiguate r requested candidates capabilities = candidates := by
  have htied : ¬(2 ≤ candidates.length ∧ capabilities ≠ []) := by omega
  simp only [plainDisambiguate, foldl_plainRound_of_length_le h hlen]
  rw [if_neg htied]

/-! ### All rounds -/

theorem disambiguationRounds_eq_foldl_plainRound (h : r.ChoosesBuiltIn) (names : List String) :
    ∀ remaining, disambiguationRounds r requested names remaining
      = names.foldl (plainRound r requested) remaining := by
  induction names with
  | nil =>
      intro remaining
      rfl
  | cons name rest ih =>
      intro remaining
      rw [disambiguationRounds]
      by_cases hlen : remaining.length ≤ 1
      · rw [if_pos hlen, foldl_plainRound_of_length_le h hlen]
      · rw [if_neg hlen, List.foldl_cons,
          disambiguationRound_eq_plainRound (h.disambiguationRule name), ih]

/-- **The shortcuts are nothing but shortcuts where the rules are built in**: what
is left is what the plain procedure leaves, and of a single candidate that is the
candidate itself. -/
theorem disambiguate_eq_plain (h : r.ChoosesBuiltIn) (requested : AttributeSet)
    (candidates : List Variant) (capabilities : List CapabilitySelector) :
    disambiguate r requested candidates capabilities
        = plainDisambiguate r requested candidates capabilities ∧
      (candidates.length ≤ 1 →
        plainDisambiguate r requested candidates capabilities = candidates) := by
  refine ⟨?_, fun hlen => plainDisambiguate_of_length_le h hlen capabilities⟩
  simp only [disambiguate, plainDisambiguate, disambiguationRounds_eq_foldl_plainRound h,
    Bool.and_eq_true, decide_eq_true_eq, Bool.not_eq_true', List.isEmpty_eq_false_iff]
  rfl

end

namespace Sample

/-- Candidates with a newer version, with an older one, with none, and with a
version that is a text. -/
def unevenCandidates : List Variant :=
  let unversioned : AttributeSet := .ofList [(Standard.usage, .string "java-runtime")]
  let written : AttributeSet :=
    .ofList [(Standard.usage, .string "java-api"), (Standard.jvmVersion, .string "8")]
  [newer, api, { runtime with attributes := unversioned }, { shaded with attributes := written }]

end Sample

/-- The usage drops the candidate without a version, and the versions of the others do
not compare.  Alone, the candidate with a written version is returned as it is. -/
theorem disambiguate_eq_plain_uneven : ∃ r, Registry.standard = .ok r ∧
    disambiguate r Sample.request.attributes Sample.unevenCandidates
        [⟨"org.example", "library", none⟩]
      = plainDisambiguate r Sample.request.attributes Sample.unevenCandidates
        [⟨"org.example", "library", none⟩] ∧
    plainDisambiguate r Sample.request.attributes (Sample.unevenCandidates.drop 3)
        [⟨"org.example", "library", none⟩] = Sample.unevenCandidates.drop 3 := by
  have hstandard : ∃ r, Registry.standard = .ok r := ⟨_, rfl⟩
  obtain ⟨r, hr⟩ := hstandard
  have hrules := (Registry.Standardized.standard hr).choosesBuiltIn
  exact ⟨r, hr, (disambiguate_eq_plain hrules _ _ _).1,
    (disambiguate_eq_plain hrules _ _ _).2 (by decide)⟩

/-- A custom rule that prefers nothing is never asked about a single value. -/
example : ∃ r, Registry.empty.register Standard.usage .string none
      (some (.custom "nothing" fun _ _ => .empty)) = .ok r ∧
    disambiguate r Sample.request.attributes [Sample.api] [] = [Sample.api] ∧
    plainDisambiguate r Sample.request.attributes [Sample.api] [] = [] :=
  ⟨_, rfl, rfl, rfl⟩

end VariantSelection
