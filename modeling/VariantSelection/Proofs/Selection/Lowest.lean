/-
The lowest sufficient version wins.

An attribute may accept what is at least the requested value and prefer the least
(`Request.AsksAtLeast`).  Asked for an integer, it lets integers through and nothing
else, so its round is shown integers only, and keeps those variants that have the
least of them (`disambiguationRound_eq`).  The rounds behind it can only drop some of
these, whatever their rules are.  Hence, when the attribute is consulted first, all
that is left has the least integer that any variant could have been selected with.

When nothing else is requested there is no other round, and the least integer
decides alone: it is missing when nothing is sufficient, and it selects a variant
when no other variant has it.
-/
import Mathlib.Order.Bounds.Defs
import VariantSelection.Proofs.Selection.Reduced

namespace VariantSelection

/-- The integers that the variants which qualify offer for the attribute. -/
def Component.offered (c : Component) (r : Registry) (q : Request) (name : String) : Set Int64 :=
  {m | ∃ v ∈ c.variants, v.Qualifies r q ∧ v.attributes.get? name = some (.integer m)}

/-- The integers that some variant has for the attribute and that are at
least `wanted`. -/
def Component.sufficient (c : Component) (name : String) (wanted : Int64) : Set Int64 :=
  {m | wanted ≤ m ∧ ∃ v ∈ c.variants, v.attributes.get? name = some (.integer m)}

/-- The variant has the least integer on offer, and it is at least the requested one. -/
def Variant.OffersLeast (w : Variant) (c : Component) (r : Registry) (q : Request) (name : String)
    (wanted : Int64) : Prop :=
  ∃ m, w.attributes.get? name = some (.integer m) ∧ wanted ≤ m ∧ IsLeast (c.offered r q name) m

/-- The request asks for an integer of an attribute that accepts what is at least it
and prefers the least. -/
structure Request.AsksAtLeast (q : Request) (r : Registry) (name : String) (wanted : Int64) :
    Prop where
  compatibility : r.compatibilityRule name = .atLeast
  disambiguation : r.disambiguationRule name = .preferLowest
  requested : q.attributes.get? name = some (.integer wanted)

section
variable {r : Registry} {c : Component} {q : Request} {name : String} {wanted : Int64}

/-! ### The round of the attribute

In this round all values that are shown are integers, so they compare, and there
is a least one.
-/

theorem Request.AsksAtLeast.integer_of_qualifies (h : q.AsksAtLeast r name wanted) {v : Variant}
    (hv : v.Qualifies r q) : ∃ m, v.attributes.get? name = some (.integer m) ∧ wanted ≤ m := by
  obtain ⟨a, ha, hok⟩ := hv.get? h.requested
  rw [h.compatibility] at hok
  obtain ⟨m, rfl, hle⟩ := CompatibilityRule.isCompatible_atLeast_integer_iff.mp hok
  exact ⟨m, ha, hle⟩

/-- **The round leaves the variants that have the least integer.** -/
theorem Request.AsksAtLeast.disambiguationRound_eq (h : q.AsksAtLeast r name wanted)
    {remaining : List Variant} (hqualify : ∀ v ∈ remaining, v.Qualifies r q)
    (hsome : remaining ≠ []) :
    ∃ m, IsLeast {k | ∃ v ∈ remaining, v.attributes.get? name = some (.integer k)} m ∧
      disambiguationRound r q.attributes remaining name
        = remaining.filter fun v => v.attributes.get? name = some (.integer m) := by
  have hall : ∀ a ∈ valuesOf name remaining, ∃ m, a = .integer m := by
    intro a ha
    obtain ⟨v, hv, hva⟩ := mem_valuesOf.mp ha
    obtain ⟨m, hm, -⟩ := h.integer_of_qualifies (hqualify v hv)
    rw [hva, Option.some.injEq] at hm
    exact ⟨m, hm⟩
  have hvalues : (valuesOf name remaining).elements ≠ [] := by
    obtain ⟨v, hv⟩ := List.exists_mem_of_ne_nil _ hsome
    obtain ⟨m, hm, -⟩ := h.integer_of_qualifies (hqualify v hv)
    exact List.ne_nil_of_mem (mem_valuesOf.mpr ⟨v, hv, hm⟩)
  obtain ⟨m, hkept, hmem, hle⟩ := exists_extreme_lt_integer hall hvalues
  refine ⟨m, ⟨mem_valuesOf.mp hmem, fun k hk => hle k (mem_valuesOf.mpr hk)⟩, ?_⟩
  have hbuiltIn : (r.disambiguationRule name).BuiltIn := by
    rw [h.disambiguation]
    exact trivial
  have hpreferred : preferredValues r q.attributes remaining name = .singleton (.integer m) := by
    rw [preferredValues, h.disambiguation]
    exact hkept
  rw [disambiguationRound_eq_filter hbuiltIn, hpreferred]
  refine List.filter_congr fun v hv => ?_
  obtain ⟨k, hk, -⟩ := h.integer_of_qualifies (hqualify v hv)
  rw [Bool.eq_iff_iff, Variant.staysFor_iff, decide_eq_true_eq, hk]
  simp

theorem offered_eq (c : Component) (r : Registry) (q : Request) (name : String) :
    c.offered r q name
      = {k | ∃ v ∈ c.qualified r q, v.attributes.get? name = some (.integer k)} := by
  simp only [Component.offered, Component.mem_qualified, and_assoc]

/-- **What is left has the least integer on offer**, where `name` is consulted first. -/
theorem Request.AsksAtLeast.offersLeast_of_mem_survivors (h : q.AsksAtLeast r name wanted)
    (hfirst : (r.disambiguationOrder q.attributes).head? = some name) {w : Variant}
    (hw : w ∈ c.survivors r q) : w.OffersLeast c r q name wanted := by
  obtain ⟨rest, horder⟩ := List.head?_eq_some_iff.mp hfirst
  have hqualified : w ∈ c.qualified r q := (c.survivors_sublist r q).subset hw
  obtain ⟨m, hleast, hround⟩ := h.disambiguationRound_eq
    Component.qualifies_of_mem_qualified (List.ne_nil_of_mem hqualified)
  rw [Component.survivors_eq_rounds, horder, disambiguationRounds_cons, hround] at hw
  -- The rounds behind the first one only drop candidates.
  have hleft := (disambiguationRounds_sublist r q.attributes rest _).subset hw
  have hm : w.attributes.get? name = some (.integer m) := by
    simpa using (List.mem_filter.mp hleft).2
  obtain ⟨k, hk, hle⟩ := h.integer_of_qualifies (Component.qualifies_of_mem_qualified w hqualified)
  rw [hm, Option.some.injEq, Value.integer.injEq] at hk
  exact ⟨m, hm, hk ▸ hle, by rwa [offered_eq]⟩

/-! ### Nothing else is requested

Then `offered` is `sufficient`: to qualify, a variant needs nothing but an integer
that is large enough.
-/

theorem disambiguationOrder_of_single {requested : AttributeSet} (h : requested.keys = [name]) :
    r.disambiguationOrder requested = [name] := by
  have hmem : ∀ other, other ∈ r.disambiguationOrder requested ↔ other ∈ [name] := by
    intro other
    rw [Registry.mem_disambiguationOrder, ← SortedMap.mem_keys_iff_contains, h]
  have hperm := (List.perm_ext_iff_of_nodup (r.nodup_disambiguationOrder requested)
    (List.nodup_singleton name)).mpr hmem
  exact List.perm_singleton.mp hperm

/-- A variant qualifies when its integer is sufficient. -/
theorem Request.AsksAtLeast.qualifies_iff (h : q.AsksAtLeast r name wanted)
    (honly : q.attributes.keys = [name]) (hselectors : q.capabilities = []) {v : Variant} :
    v.Qualifies r q ↔ ∃ m, v.attributes.get? name = some (.integer m) ∧ wanted ≤ m := by
  refine ⟨h.integer_of_qualifies, ?_⟩
  rintro ⟨m, hm, hle⟩
  refine Variant.qualifies_iff.mpr ⟨by rw [hselectors]; rfl, ?_⟩
  rw [Variant.report, evaluate_isCompatible_iff]
  intro other a ha
  have hother : other ∈ q.attributes.keys := SortedMap.mem_keys.mpr ⟨a, ha⟩
  rw [honly, List.mem_singleton] at hother
  rw [hother, h.requested, Option.some.injEq] at ha
  refine ⟨.integer m, hother ▸ hm, ?_⟩
  rw [hother, ← ha, h.compatibility]
  exact CompatibilityRule.isCompatible_atLeast_integer_iff.mpr ⟨m, rfl, hle⟩

theorem Request.AsksAtLeast.offered_eq_sufficient (h : q.AsksAtLeast r name wanted)
    (honly : q.attributes.keys = [name]) (hselectors : q.capabilities = []) :
    c.offered r q name = c.sufficient name wanted := by
  refine Set.ext fun m => ?_
  constructor
  · rintro ⟨v, hv, hqualifies, hm⟩
    obtain ⟨k, hk, hle⟩ := h.integer_of_qualifies hqualifies
    rw [hm, Option.some.injEq, Value.integer.injEq] at hk
    exact ⟨hk ▸ hle, v, hv, hm⟩
  · rintro ⟨hle, v, hv, hm⟩
    exact ⟨v, hv, (h.qualifies_iff honly hselectors).mpr ⟨m, hm, hle⟩, hm⟩

/-- **The least sufficient integer decides alone.** -/
theorem Request.AsksAtLeast.survivors_eq (h : q.AsksAtLeast r name wanted)
    (honly : q.attributes.keys = [name]) (hselectors : q.capabilities = []) {m : Int64}
    (hleast : IsLeast (c.sufficient name wanted) m) :
    c.survivors r q = c.variants.filter fun v => v.attributes.get? name = some (.integer m) := by
  obtain ⟨hle, v, hv, hm⟩ := hleast.1
  have hqualifies := fun {u : Variant} => h.qualifies_iff honly hselectors (v := u)
  have hsome : c.qualified r q ≠ [] :=
    List.ne_nil_of_mem (Component.mem_qualified.mpr ⟨hv, hqualifies.mpr ⟨m, hm, hle⟩⟩)
  obtain ⟨k, hk, hround⟩ := h.disambiguationRound_eq Component.qualifies_of_mem_qualified hsome
  rw [← offered_eq, h.offered_eq_sufficient honly hselectors] at hk
  have hsame : k = m := Int64.le_antisymm (hk.2 hleast.1) (hleast.2 hk.1)
  rw [Component.survivors_eq_rounds, disambiguationOrder_of_single honly,
    disambiguationRounds_cons, disambiguationRounds, hround, hsame, Component.qualified,
    List.filter_filter]
  refine List.filter_congr fun u _ => ?_
  rw [Bool.eq_iff_iff, Bool.and_eq_true, decide_eq_true_eq, decide_eq_true_eq]
  exact and_iff_left_of_imp fun hu => hqualifies.mpr ⟨m, hu, hle⟩

theorem Request.AsksAtLeast.isIncompatible_iff (h : q.AsksAtLeast r name wanted)
    (hunnamed : q.variant = none) (honly : q.attributes.keys = [name])
    (hselectors : q.capabilities = []) (hvariants : c.variants ≠ []) :
    IsIncompatible (selectVariant r c q) ↔
      ¬∃ v ∈ c.variants, ∃ m, v.attributes.get? name = some (.integer m) ∧ wanted ≤ m := by
  rw [isIncompatible_selectVariant_iff hunnamed, and_iff_right hvariants, Component.qualified,
    List.filter_eq_nil_iff]
  simp only [decide_eq_true_eq, h.qualifies_iff honly hselectors, not_exists, not_and]

theorem Request.AsksAtLeast.matched_iff (h : q.AsksAtLeast r name wanted)
    (hunnamed : q.variant = none) (honly : q.attributes.keys = [name])
    (hselectors : q.capabilities = []) {w : Variant} :
    selectVariant r c q = .ok (.matched w) ↔
      ∃ m, IsLeast (c.sufficient name wanted) m ∧
        (c.variants.filter fun v => v.attributes.get? name = some (.integer m)) = [w] := by
  rw [selectVariant_eq_matched_iff hunnamed]
  constructor
  · intro hleft
    have hfirst : (r.disambiguationOrder q.attributes).head? = some name := by
      rw [disambiguationOrder_of_single honly]
      rfl
    have hw : w ∈ c.survivors r q := by simp [hleft]
    obtain ⟨m, -, -, hleast⟩ := h.offersLeast_of_mem_survivors hfirst hw
    rw [h.offered_eq_sufficient honly hselectors] at hleast
    exact ⟨m, hleast, by rw [← h.survivors_eq honly hselectors hleast, hleft]⟩
  · rintro ⟨m, hleast, halone⟩
    rw [h.survivors_eq honly hselectors hleast, halone]

/-- **The lowest sufficient version wins whatever else is requested**, where it is
consulted first: what is selected or tied has the least integer that any variant
could have been selected with.  Requested alone, the attribute decides: nothing
matches when no integer is sufficient, and a variant is selected when it is the only
one with the least sufficient integer. -/
theorem selectVariant_lowest (hrules : r.ChoosesBuiltIn) (h : q.AsksAtLeast r name wanted)
    (hunnamed : q.variant = none) :
    ((r.disambiguationOrder q.attributes).head? = some name →
      (∀ w, selectVariant r c q = .ok (.matched w) → w.OffersLeast c r q name wanted) ∧
      ∀ component consumer requested candidates unreduced conflicts,
        selectVariant r c q
            = .error (.ambiguous component consumer requested candidates unreduced conflicts) →
          ∃ tied : List Variant,
            candidates = tied.map (fun v => ⟨v.report r q.attributes, v.capabilityIds⟩) ∧
            ∀ w ∈ tied, w ∈ c.variants ∧ w.OffersLeast c r q name wanted) ∧
    (q.attributes.keys = [name] → q.capabilities = [] → c.variants ≠ [] →
      (IsIncompatible (selectVariant r c q) ↔
        ¬∃ v ∈ c.variants, ∃ m, v.attributes.get? name = some (.integer m) ∧ wanted ≤ m) ∧
      ∀ w, selectVariant r c q = .ok (.matched w) ↔
        ∃ m, IsLeast (c.sufficient name wanted) m ∧
          (c.variants.filter fun v => v.attributes.get? name = some (.integer m)) = [w]) := by
  refine ⟨fun hfirst => ⟨fun w hw => ?_, ?_⟩, fun honly hselectors hvariants => ⟨?_, fun w => ?_⟩⟩
  · have hleft := (selectVariant_eq_matched_iff hunnamed).mp hw
    exact h.offersLeast_of_mem_survivors hfirst (by simp [hleft])
  · intro component consumer requested candidates unreduced conflicts hanswer
    obtain ⟨-, -, tied, hcandidates, -, -, htied⟩ :=
      (matchJustified_matchVariant r c q).ambiguous _ _ _ _ _ _ (matchVariant_of_ambiguous hanswer)
    obtain ⟨rfl, hsub, -⟩ := htied (unreduced_eq_false hrules hanswer)
    refine ⟨_, hcandidates, fun w hw => ⟨?_, h.offersLeast_of_mem_survivors hfirst hw⟩⟩
    exact (Component.mem_qualified.mp (hsub.subset hw)).1
  · exact h.isIncompatible_iff hunnamed honly hselectors hvariants
  · exact h.matched_iff hunnamed honly hselectors

end

namespace Sample

/-- A variant for the runtime, with a version between those of `api` and `newer`. -/
def between : Variant := variant "between" "java-runtime" 9

/-- A request for a version of the platform and nothing else. -/
def versionRequest (wanted : Int64) : Request :=
  { request with attributes := .ofList [(Standard.jvmVersion, .integer wanted)] }

end Sample

/-- With the version consulted before the usage, the lower version wins although its
variant is not the API. -/
theorem selectVariant_lowest_between : ∃ s r, Registry.standard = .ok s ∧
    s.declarePrecedence [Standard.jvmVersion, Standard.usage] = .ok r ∧
    (r.disambiguationOrder Sample.request.attributes).head? = some Standard.jvmVersion ∧
    selectVariant r (Sample.library [Sample.newer, Sample.between]) Sample.request
      = .ok (.matched Sample.between) ∧
    Sample.between.OffersLeast (Sample.library [Sample.newer, Sample.between]) r Sample.request
      Standard.jvmVersion 8 ∧
    IsIncompatible (selectVariant r (Sample.library [Sample.newer, Sample.between])
      (Sample.versionRequest 17)) ∧
    ¬∃ v ∈ (Sample.library [Sample.newer, Sample.between]).variants, ∃ m,
      v.attributes.get? Standard.jvmVersion = some (.integer m) ∧ 17 ≤ m := by
  have hdeclared : ∃ s r, Registry.standard = .ok s ∧
      s.declarePrecedence [Standard.jvmVersion, Standard.usage] = .ok r ∧
      Sample.request.AsksAtLeast r Standard.jvmVersion 8 ∧
      (Sample.versionRequest 17).AsksAtLeast r Standard.jvmVersion 17 ∧
      (r.disambiguationOrder Sample.request.attributes).head? = some Standard.jvmVersion ∧
      selectVariant r (Sample.library [Sample.newer, Sample.between]) Sample.request
        = .ok (.matched Sample.between) ∧
      IsIncompatible (selectVariant r (Sample.library [Sample.newer, Sample.between])
        (Sample.versionRequest 17)) :=
    ⟨_, _, rfl, rfl, ⟨rfl, rfl, rfl⟩, ⟨rfl, rfl, rfl⟩, by decide, rfl, _, _, _, _, _, rfl⟩
  obtain ⟨s, r, hs, hr, hrequest, hversion, hfirst, hanswer, hnone⟩ := hdeclared
  have hrules := (Registry.Standardized.redeclared (.standard hs) hr).choosesBuiltIn
  refine ⟨s, r, hs, hr, hfirst, hanswer, ?_, hnone, ?_⟩
  · exact ((selectVariant_lowest hrules hrequest rfl).1 hfirst).1 _ hanswer
  · exact ((selectVariant_lowest hrules hversion rfl).2 rfl rfl (List.cons_ne_nil _ _)).1.mp hnone

end VariantSelection
