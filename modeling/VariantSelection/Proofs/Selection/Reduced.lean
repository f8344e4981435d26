/-
Built-in rules never eliminate every candidate.

A round of a built-in rule keeps somebody: it prefers some of the values that are
there, or there are none and everybody sits the round out.  What qualifies provides
the capabilities, so asking for them once more at the end drops nobody.  Hence
something is left of the variants that qualify as soon as there are any
(`survivors_ne_nil`), and a tie is never reported unreduced (`unreduced_eq_false`).
-/
import VariantSelection.Proofs.Disambiguation.BuiltIn
import VariantSelection.Proofs.Selection.Justified
import VariantSelection.Proofs.Standard

namespace VariantSelection

section
variable {r : Registry} {c : Component} {q : Request}

theorem survivors_ne_nil (hrules : r.ChoosesBuiltIn) (hsome : c.qualified r q ≠ []) :
    c.survivors r q ≠ [] :=
  disambiguate_ne_nil hrules hsome Component.qualified_provides

/-- A tie is an answer by attributes. -/
theorem matchVariant_of_ambiguous {component consumer : String} {requested : AttributeSet}
    {candidates : List TiedCandidate} {unreduced : Bool} {conflicts : List (List String)}
    (h : selectVariant r c q
      = .error (.ambiguous component consumer requested candidates unreduced conflicts)) :
    matchVariant r c q
      = .error (.ambiguous component consumer requested candidates unreduced conflicts) := by
  by_cases hvariants : c.variants = []
  · rw [selectVariant, if_pos (by simpa using hvariants)] at h
    cases h
  · cases hname : q.variant with
    | none => rwa [selectVariant_of_unnamed hvariants hname] at h
    | some name =>
        have hanswer := namedAnswer_selectVariant r hvariants hname
        rw [h] at hanswer
        cases hanswer

/-- The tie lists what is left, and something is. -/
theorem unreduced_eq_false (hrules : r.ChoosesBuiltIn) {component consumer : String}
    {requested : AttributeSet} {candidates : List TiedCandidate} {unreduced : Bool}
    {conflicts : List (List String)}
    (h : selectVariant r c q
      = .error (.ambiguous component consumer requested candidates unreduced conflicts)) :
    unreduced = false := by
  obtain ⟨htwo, hleft, -⟩ := (matchJustified_matchVariant r c q).ambiguous _ _ _ _ _ _
    (matchVariant_of_ambiguous h)
  have hsome : c.qualified r q ≠ [] :=
    List.ne_nil_of_length_pos (Nat.lt_of_lt_of_le (by decide) htwo)
  cases unreduced with
  | false => rfl
  | true => exact absurd (hleft.mp rfl) (survivors_ne_nil hrules hsome)

/-- **Built-in rules never eliminate every candidate.**  What they leave is a sublist
of the candidates, whatever these are; of candidates that provide the capabilities
they leave somebody, and no selection ends in a tie that is unreduced. -/
theorem builtIn_leaves_some (hrules : r.ChoosesBuiltIn) :
    (∀ requested candidates capabilities,
      (disambiguate r requested candidates capabilities).Sublist candidates ∧
      (candidates ≠ [] →
        (∀ v ∈ candidates, ∀ s ∈ capabilities, ∃ capability ∈ v.capabilities,
          s.selects capability = true) →
        disambiguate r requested candidates capabilities ≠ [])) ∧
    ∀ c q component consumer requested candidates conflicts,
      selectVariant r c q
        ≠ .error (.ambiguous component consumer requested candidates true conflicts) := by
  refine ⟨fun requested candidates capabilities => ⟨?_, fun hsome hprovides => ?_⟩, ?_⟩
  · exact disambiguate_sublist r requested candidates capabilities
  · exact disambiguate_ne_nil hrules hsome fun v hv => Variant.provides_iff.mpr (hprovides v hv)
  · intro c q component consumer requested candidates conflicts hanswer
    exact absurd (unreduced_eq_false hrules hanswer) (by decide)

end

/-- A version as a text does not compare with one as a number, and one candidate has
no version at all. -/
theorem builtIn_leaves_some_mixed : ∃ r, Registry.standard = .ok r ∧
    disambiguate r Sample.request.attributes
      [Sample.newer,
        { Sample.api with
          attributes := .ofList
            [(Standard.usage, .string "java-api"), (Standard.jvmVersion, .string "8")] },
        { Sample.runtime with attributes := .ofList [(Standard.usage, .string "java-runtime")] }]
      [⟨"org.example", "library", none⟩] ≠ [] := by
  have hstandard : ∃ r, Registry.standard = .ok r := ⟨_, rfl⟩
  obtain ⟨r, hr⟩ := hstandard
  refine ⟨r, hr, ?_⟩
  have hleaves := builtIn_leaves_some (Registry.Standardized.standard hr).choosesBuiltIn
  exact (hleaves.1 _ _ _).2 (List.cons_ne_nil _ _) (by decide)

end VariantSelection
