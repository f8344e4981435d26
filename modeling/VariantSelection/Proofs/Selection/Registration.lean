/-
A registration only affects requests that it concerns.

A registration concerns a request when its name is requested and it has a rule to
give.  One without rules can still change when its attribute is consulted: a name
that was unknown until then leaves the unknown names, which are consulted last and
by name, and becomes the last of the registered ones.  The rule of such an attribute
has no preference, so its round keeps every candidate, and it does not matter where
in the order that round is.
-/
import VariantSelection.Proofs.Registry.Registration
import VariantSelection.Proofs.Selection
import VariantSelection.Proofs.Selection.Consulted

namespace VariantSelection

section
variable {r s : Registry} {requested : AttributeSet} {name : String}

/-! ### Rounds without preference

The induction is on the names that are consulted; at the name that is left out, the
round gives back the candidates it was shown.
-/

theorem disambiguationRound_of_noPreference (h : r.disambiguationRule name = .noPreference)
    (remaining : List Variant) : disambiguationRound r requested remaining name = remaining := by
  unfold disambiguationRound
  rw [h]
  by_cases hsize : (valuesOf name remaining).size ≤ 1
  · rw [if_pos hsize]
  · rw [if_neg hsize]
    refine List.filter_eq_self.mpr fun v hv => Variant.staysFor_iff.mpr fun a ha => ?_
    exact mem_valuesOf.mpr ⟨v, hv, ha⟩

/-- The round of an attribute without preference can be left out, wherever in
`names` it is. -/
theorem disambiguationRounds_filter_ne (h : r.disambiguationRule name = .noPreference)
    (names : List String) :
    ∀ remaining, disambiguationRounds r requested (names.filter (· ≠ name)) remaining
      = disambiguationRounds r requested names remaining := by
  induction names with
  | nil => intro remaining; rfl
  | cons first rest ih =>
      intro remaining
      by_cases hfirst : first = name
      · rw [List.filter_cons_of_neg (by simpa using hfirst), disambiguationRounds_cons, hfirst,
          disambiguationRound_of_noPreference h, ih]
      · rw [List.filter_cons_of_pos (by simpa using hfirst), disambiguationRounds_cons,
          disambiguationRounds_cons, ih]

/-! ### What a registration leaves as it is

In both cases the registries are consulted alike.  If the name is not requested that
is a matter of the rules, and if no rules are given it is one of the rounds.
-/

section
variable {type : ValueType} {compatibility : Option CompatibilityRule}
  {disambiguation : Option DisambiguationRule}

theorem Registry.consultedAlike_of_not_requested
    (h : r.register name type compatibility disambiguation = .ok s)
    (hname : requested.contains name = false) : s.ConsultedAlike r requested := by
  have hother : ∀ other, requested.contains other = true → other ≠ name :=
    fun _ hrequested => SortedMap.ne_of_contains hrequested hname
  have hall : ∀ t : Registry,
      (t.disambiguationOrder requested).filter (· ≠ name) = t.disambiguationOrder requested := by
    intro t
    refine List.filter_eq_self.mpr fun other hmem => ?_
    simpa using hother other (mem_disambiguationOrder.mp hmem)
  refine consultedAlike_of_rules ?_ (fun other hrequested => ?_) fun other hrequested => ?_
  · rw [← hall s, ← hall r, disambiguationOrder_register h]
  · rw [compatibilityRule_register h, if_neg (hother other hrequested)]
  · rw [disambiguationRule_register h, if_neg (hother other hrequested)]

/-- A registration without rules leaves the rules of all names, its own included. -/
theorem Registry.rules_register_none (h : r.register name type none none = .ok s)
    (other : String) :
    s.compatibilityRule other = r.compatibilityRule other ∧
      s.disambiguationRule other = r.disambiguationRule other := by
  rw [compatibilityRule_register h, disambiguationRule_register h]
  by_cases hother : other = name
  · rw [if_pos hother, if_pos hother, hother]
    exact ⟨rfl, rfl⟩
  · rw [if_neg hother, if_neg hother]
    exact ⟨rfl, rfl⟩

theorem Registry.consultedAlike_of_no_rules (h : r.register name type none none = .ok s) :
    s.ConsultedAlike r requested := by
  have hrules := rules_register_none h
  refine ⟨fun other _ => (hrules other).1, fun candidates => ?_⟩
  rw [disambiguationRounds_congr (s := r) fun other _ => (hrules other).2]
  by_cases hknown : name ∈ r.names
  · -- The order depends on the names and on the precedence, and both are what they were.
    have hnames : s.names = r.names := by rw [names_register h, if_pos hknown]
    rw [disambiguationOrder, disambiguationOrder, hnames, precedence_register h]
  · have hplain : r.disambiguationRule name = .noPreference := by
      rw [Registry.disambiguationRule, find?_eq_none_iff.mpr hknown]
    rw [← disambiguationRounds_filter_ne hplain (s.disambiguationOrder requested),
      disambiguationOrder_register h, disambiguationRounds_filter_ne hplain]

/-- **A registration changes no answer to a request that it does not concern**: one
without its name, or any request if it gives no rules, also where it changes the
order in which attributes are consulted. -/
theorem selectVariant_register (h : r.register name type compatibility disambiguation = .ok s)
    {q : Request} (hconcern : q.attributes.contains name = false ∨
      (compatibility = none ∧ disambiguation = none)) :
    (∀ c : Component, selectVariant s c q = selectVariant r c q) ∧
      ∀ v : Variant, selectArtifacts s v q.attributes = selectArtifacts r v q.attributes := by
  have halike : s.ConsultedAlike r q.attributes := by
    rcases hconcern with hname | ⟨rfl, rfl⟩
    · exact Registry.consultedAlike_of_not_requested h hname
    · exact Registry.consultedAlike_of_no_rules h
  exact ⟨selectVariant_congr halike, selectArtifacts_congr halike⟩

end

end

namespace Sample

/-- The attributes with two more that the standard does not know. -/
def coloured (attributes : AttributeSet) : AttributeSet :=
  (attributes.insert "colour" (.string "red")).insert "size" (.string "large")

def colouredLibrary : Component :=
  library ([newer, api].map fun v => { v with attributes := coloured v.attributes })

def colouredRequest : Request := { request with attributes := coloured request.attributes }

end Sample

/-- The size is asked for, and is consulted before the colour once it is registered. -/
theorem selectVariant_register_size : ∃ r s, Registry.standard = .ok r ∧
    r.register "size" .string none none = .ok s ∧
    r.disambiguationOrder Sample.colouredRequest.attributes
      = [Standard.usage, Standard.jvmVersion, "colour", "size"] ∧
    s.disambiguationOrder Sample.colouredRequest.attributes
      = [Standard.usage, Standard.jvmVersion, "size", "colour"] ∧
    selectVariant s Sample.colouredLibrary Sample.colouredRequest
      = selectVariant r Sample.colouredLibrary Sample.colouredRequest := by
  have hstandard : ∃ r s, Registry.standard = .ok r ∧
      r.register "size" .string none none = .ok s ∧
      r.disambiguationOrder Sample.colouredRequest.attributes
        = [Standard.usage, Standard.jvmVersion, "colour", "size"] ∧
      s.disambiguationOrder Sample.colouredRequest.attributes
        = [Standard.usage, Standard.jvmVersion, "size", "colour"] :=
    ⟨_, _, rfl, rfl, by decide, by decide⟩
  obtain ⟨r, s, hr, hs, hbefore, hafter⟩ := hstandard
  exact ⟨r, s, hr, hs, hbefore, hafter,
    (selectVariant_register hs (Or.inr ⟨rfl, rfl⟩)).1 Sample.colouredLibrary⟩

end VariantSelection
