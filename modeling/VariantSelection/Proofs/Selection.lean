/-
Why an answer to a request is the answer.

Selection by attributes depends on two lists only: the variants that qualify, and
what disambiguation leaves of them.  `verdict` is the answer as a function of the
second, and `matchVariant_eq` says that it is what the selection gives as soon as
anything qualifies.  From this each kind of answer is justified: what has to hold
for it to be given, and that its reports and candidates are all there.
-/
import VariantSelection.Proofs.Match
import VariantSelection.Proofs.Disambiguation
import VariantSelection.Attribute.Standard
import VariantSelection.Selection

namespace VariantSelection

/-! ### The variants that qualify

`Qualifies` says it of a variant and a request.  The code gets there by two filters, one
for the capabilities and one for the attributes; `qualifies_iff` puts them together.
-/

theorem Variant.provides_iff {v : Variant} {selectors : List CapabilitySelector} :
    v.provides selectors = true ↔
      ∀ s ∈ selectors, ∃ capability ∈ v.capabilities, s.selects capability = true := by
  simp only [provides, List.all_eq_true, List.any_eq_true, SortedSet.mem_elements]

/-- A variant that a request can be given: one of its capabilities for each
selector, and nothing that stands against its attributes. -/
def Variant.Qualifies (v : Variant) (r : Registry) (q : Request) : Prop :=
  (∀ s ∈ q.capabilities, ∃ capability ∈ v.capabilities, s.selects capability = true) ∧
    (v.report r q.attributes).incompatible = []

theorem Variant.qualifies_iff {v : Variant} {r : Registry} {q : Request} :
    v.Qualifies r q ↔
      v.provides q.capabilities = true ∧ (v.report r q.attributes).isCompatible = true := by
  rw [Qualifies, provides_iff, MatchReport.isCompatible_iff]

instance (v : Variant) (r : Registry) (q : Request) : Decidable (v.Qualifies r q) :=
  decidable_of_iff _ Variant.qualifies_iff.symm

/-- A variant that qualifies has an acceptable value for each requested attribute. -/
theorem Variant.Qualifies.get? {v : Variant} {r : Registry} {q : Request} (h : v.Qualifies r q)
    {name : String} {wanted : Value} (hwanted : q.attributes.get? name = some wanted) :
    ∃ a, v.attributes.get? name = some a ∧
      (r.compatibilityRule name).isCompatible wanted a = true :=
  evaluate_isCompatible_iff.mp (Variant.qualifies_iff.mp h).2 name wanted hwanted

theorem isCompatible_of_mem_valuesOf {r : Registry} {q : Request} {candidates : List Variant}
    (h : ∀ v ∈ candidates, v.Qualifies r q) {name : String} {wanted : Value}
    (hwanted : q.attributes.get? name = some wanted) :
    ∀ a ∈ valuesOf name candidates, (r.compatibilityRule name).isCompatible wanted a = true := by
  intro a ha
  obtain ⟨v, hv, hva⟩ := mem_valuesOf.mp ha
  obtain ⟨b, hvb, hok⟩ := (h v hv).get? hwanted
  rw [hva, Option.some.injEq] at hvb
  rwa [hvb]

theorem Component.candidates_eq_nil_iff {c : Component} {q : Request} :
    c.candidates q = [] ↔ ∀ v ∈ c.variants,
      ¬∀ s ∈ q.capabilities, ∃ capability ∈ v.capabilities, s.selects capability = true := by
  simp only [candidates, List.filter_eq_nil_iff, Variant.provides_iff]

/-- The variants that qualify, in the component's order. -/
def Component.qualified (c : Component) (r : Registry) (q : Request) : List Variant :=
  c.variants.filter fun v => v.Qualifies r q

theorem Component.mem_qualified {c : Component} {r : Registry} {q : Request} {v : Variant} :
    v ∈ c.qualified r q ↔ v ∈ c.variants ∧ v.Qualifies r q := by
  simp [qualified]

theorem Component.qualifies_of_mem_qualified {c : Component} {r : Registry} {q : Request} :
    ∀ v ∈ c.qualified r q, v.Qualifies r q :=
  fun _ hv => (mem_qualified.mp hv).2

theorem Component.compatibleCandidates_eq (c : Component) (r : Registry) (q : Request) :
    c.compatibleCandidates r q = c.qualified r q := by
  unfold compatibleCandidates candidates qualified
  rw [List.filter_filter]
  refine List.filter_congr fun v _ => ?_
  rw [Bool.eq_iff_iff, Bool.and_eq_true, decide_eq_true_eq, Variant.qualifies_iff]
  exact And.comm

theorem Component.qualified_provides {c : Component} {r : Registry} {q : Request} :
    ∀ v ∈ c.qualified r q, v.provides q.capabilities = true := by
  intro v hv
  exact (Variant.qualifies_iff.mp (qualifies_of_mem_qualified v hv)).1

/-! ### The answer as a function of what is left

The cases of the selection are those of `verdict`: nothing left, one left, or several.
-/

/-- What disambiguation leaves of the variants that qualify. -/
def Component.survivors (c : Component) (r : Registry) (q : Request) : List Variant :=
  disambiguate r q.attributes (c.qualified r q) q.capabilities

theorem Component.survivors_sublist (c : Component) (r : Registry) (q : Request) :
    (c.survivors r q).Sublist (c.qualified r q) :=
  disambiguate_sublist _ _ _ _

/-- What qualifies provides the capabilities, so the rounds alone decide what is left. -/
theorem Component.survivors_eq_rounds (c : Component) (r : Registry) (q : Request) :
    c.survivors r q = disambiguationRounds r q.attributes (r.disambiguationOrder q.attributes)
      (c.qualified r q) :=
  disambiguate_of_provides r q.attributes qualified_provides

/-- The answer when `survivors` are left of the variants that qualify. -/
def verdict (r : Registry) (c : Component) (q : Request) :
    List Variant → Except SelectionError Outcome
  | [] => .error (ambiguity r c q (c.qualified r q) true)
  | [winner] => .ok (.matched winner)
  | tied => .error (ambiguity r c q tied false)

theorem verdict_of_two_le {r : Registry} {c : Component} {q : Request} {tied : List Variant}
    (h : 2 ≤ tied.length) : verdict r c q tied = .error (ambiguity r c q tied false) := by
  match tied, h with
  | _ :: _ :: _, _ => rfl

theorem verdict_eq_matched_iff {r : Registry} {c : Component} {q : Request} {left : List Variant}
    {w : Variant} : verdict r c q left = .ok (.matched w) ↔ left = [w] := by
  match left with
  | [] => simp [verdict]
  | [winner] => simp [verdict]
  | first :: second :: rest =>
      rw [verdict_of_two_le (by simp)]
      simp

/-- The answer when nothing qualifies. -/
def incompatibility (r : Registry) (c : Component) (q : Request) : SelectionError :=
  .incompatible c.id.text q.consumer q.attributes (q.capabilities.map CapabilitySelector.text)
    ((c.candidates q).map fun v => v.report r q.attributes)

theorem matchVariant_of_none {r : Registry} {c : Component} {q : Request}
    (h : c.qualified r q = []) : matchVariant r c q = .error (incompatibility r c q) := by
  rw [matchVariant, c.compatibleCandidates_eq, h]
  rfl

/-- **What is left decides the answer.**  A variant that qualifies alone is what is
left of itself, so the shortcut of `matchVariant` for it needs no case of its own. -/
theorem matchVariant_eq {r : Registry} {c : Component} {q : Request} (h : c.qualified r q ≠ []) :
    matchVariant r c q = verdict r c q (c.survivors r q) := by
  rw [matchVariant, c.compatibleCandidates_eq, Component.survivors]
  match hq : c.qualified r q with
  | [] => exact absurd hq h
  | [only] =>
      have honly : [only].length ≤ 1 := Nat.le_refl 1
      rw [disambiguate_of_length_le r q.attributes honly]
      rfl
  | first :: second :: rest =>
      dsimp only
      generalize disambiguate r q.attributes (first :: second :: rest) q.capabilities = left
      match left with
      | [] => rw [verdict, hq]
      | [_] => rfl
      | _ :: _ :: _ => rfl

/-- An answer that is none means that nothing qualifies or that several variants are
listed, what is left or, where nothing is, all that qualified. -/
theorem matchVariant_eq_error {r : Registry} {c : Component} {q : Request} {e : SelectionError}
    (h : matchVariant r c q = .error e) :
    (c.qualified r q = [] ∧ e = incompatibility r c q) ∨
    ∃ tied unreduced, e = ambiguity r c q tied unreduced ∧ c.qualified r q ≠ [] ∧
      tied.Sublist (c.qualified r q) ∧ (unreduced = true ↔ c.survivors r q = []) := by
  by_cases hnone : c.qualified r q = []
  · rw [matchVariant_of_none hnone, Except.error.injEq] at h
    exact Or.inl ⟨hnone, h.symm⟩
  · rw [matchVariant_eq hnone] at h
    match hleft : c.survivors r q with
    | [] =>
        rw [hleft, verdict, Except.error.injEq] at h
        exact Or.inr ⟨_, true, h.symm, hnone, List.Sublist.refl _, by simp⟩
    | [w] =>
        rw [hleft, verdict] at h
        cases h
    | first :: second :: rest =>
        rw [hleft, verdict_of_two_le (by simp), Except.error.injEq, ← hleft] at h
        exact Or.inr ⟨_, false, h.symm, hnone, c.survivors_sublist r q, by simp⟩

theorem selectVariant_of_unnamed {r : Registry} {c : Component} {q : Request}
    (hvariants : c.variants ≠ []) (hname : q.variant = none) :
    selectVariant r c q = matchVariant r c q := by
  rw [selectVariant, if_neg (by simpa using hvariants), hname]

/-- **The variant that is left alone is selected**, and nothing else is. -/
theorem selectVariant_eq_matched_iff {r : Registry} {c : Component} {q : Request}
    (hunnamed : q.variant = none) {w : Variant} :
    selectVariant r c q = .ok (.matched w) ↔ c.survivors r q = [w] := by
  constructor
  · intro h
    have hvariants : c.variants ≠ [] := by
      intro hnone
      rw [selectVariant, if_pos (by simpa using hnone)] at h
      cases h
    rw [selectVariant_of_unnamed hvariants hunnamed] at h
    have hqualified : c.qualified r q ≠ [] := by
      intro hnone
      rw [matchVariant_of_none hnone] at h
      cases h
    rw [matchVariant_eq hqualified] at h
    exact verdict_eq_matched_iff.mp h
  · intro h
    have hw : w ∈ c.qualified r q := (c.survivors_sublist r q).subset (by simp [h])
    rw [selectVariant_of_unnamed (List.ne_nil_of_mem (Component.mem_qualified.mp hw).1) hunnamed,
      matchVariant_eq (List.ne_nil_of_mem hw)]
    exact verdict_eq_matched_iff.mpr h

/-! ### A library to choose from

The runs on fixed inputs in the modules on selection choose among these variants.
-/

namespace Sample

/-- A variant of the library, for a usage and for a version of the platform. -/
def variant (name usage : String) (jvm : Int64) : Variant where
  name
  attributes := .ofList [(Standard.usage, .string usage), (Standard.jvmVersion, .integer jvm)]
  capabilities := .singleton ⟨"org.example", "library", "1.0"⟩
  artifacts := []
  dependencies := []
  secondary := []

def api : Variant := variant "api" "java-api" 8

/-- Another variant with all that `api` has. -/
def shaded : Variant := variant "shaded" "java-api" 8

def newer : Variant := variant "newer" "java-api" 11

def runtime : Variant := variant "runtime" "java-runtime" 8

def library (variants : List Variant) : Component :=
  ⟨⟨"org.example", "library", "1.0"⟩, .declared, variants⟩

/-- A request of the API for version 8 of the platform. -/
def request : Request where
  consumer := "app"
  attributes := .ofList [(Standard.usage, .string "java-api"), (Standard.jvmVersion, .integer 8)]

end Sample

end VariantSelection
