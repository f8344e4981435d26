/-
Disambiguation by built-in rules.

A built-in rule that is shown one value keeps it, so skipping such a round is no
rule of its own, and a round never drops every candidate (`disambiguate_ne_nil`).

The rest is a simulation.  Take some candidates away, and run the rounds again: as
long as one of those that the first run left is still there, each round of the
second run keeps what the same round of the first run kept, less what was taken away
(`disambiguationRounds_filter`).  The value of that candidate is what the rules of
both runs have in common.
-/
import VariantSelection.Proofs.Disambiguation
import VariantSelection.Proofs.Registry

namespace VariantSelection

variable {r : Registry} {requested : AttributeSet}

/-- The values that a round keeps. -/
def preferredValues (r : Registry) (requested : AttributeSet) (remaining : List Variant)
    (name : String) : SortedSet Value :=
  (r.disambiguationRule name).preferred (requested.get? name) (valuesOf name remaining)

theorem disambiguationRound_eq_filter {name : String} (h : (r.disambiguationRule name).BuiltIn)
    (remaining : List Variant) :
    disambiguationRound r requested remaining name
      = remaining.filter fun v => v.staysFor name (preferredValues r requested remaining name) := by
  unfold disambiguationRound
  by_cases hsize : (valuesOf name remaining).size ≤ 1
  · rw [if_pos hsize]
    refine (List.filter_eq_self.mpr fun v hv => ?_).symm
    rw [Variant.staysFor_iff]
    intro a ha
    exact DisambiguationRule.mem_preferred_of_size_le h _ hsize (mem_valuesOf.mpr ⟨v, hv, ha⟩)
  · rw [if_neg hsize]
    rfl

/-- A round of a built-in rule leaves somebody. -/
theorem disambiguationRound_ne_nil {name : String} (h : (r.disambiguationRule name).BuiltIn)
    {remaining : List Variant} (hsome : remaining ≠ []) :
    disambiguationRound r requested remaining name ≠ [] := by
  rw [disambiguationRound_eq_filter h]
  by_cases hvalues : ∃ a, a ∈ valuesOf name remaining
  · obtain ⟨b, hb⟩ := hvalues
    obtain ⟨a, ha, hpreferred⟩ := DisambiguationRule.exists_mem_preferred h (requested.get? name) hb
    obtain ⟨v, hv, hva⟩ := mem_valuesOf.mp ha
    refine List.ne_nil_of_mem (List.mem_filter.mpr ⟨hv, Variant.staysFor_iff.mpr fun b hvb => ?_⟩)
    rw [hva, Option.some.injEq] at hvb
    rwa [← hvb]
  · obtain ⟨v, hv⟩ := List.exists_mem_of_ne_nil _ hsome
    refine List.ne_nil_of_mem (List.mem_filter.mpr ⟨hv, Variant.staysFor_iff.mpr fun a hva => ?_⟩)
    exact absurd ⟨a, mem_valuesOf.mpr ⟨v, hv, hva⟩⟩ hvalues

theorem disambiguationRounds_ne_nil (h : r.ChoosesBuiltIn) (names : List String) :
    ∀ {remaining : List Variant}, remaining ≠ [] →
      disambiguationRounds r requested names remaining ≠ [] := by
  induction names with
  | nil => intro remaining hsome; exact hsome
  | cons name rest ih =>
      intro remaining hsome
      rw [disambiguationRounds_cons]
      exact ih (disambiguationRound_ne_nil (h.disambiguationRule name) hsome)

/-- **Built-in rules leave somebody of candidates that provide the capabilities.** -/
theorem disambiguate_ne_nil (h : r.ChoosesBuiltIn) {candidates : List Variant}
    {capabilities : List CapabilitySelector} (hsome : candidates ≠ [])
    (hprovides : ∀ v ∈ candidates, v.provides capabilities = true) :
    disambiguate r requested candidates capabilities ≠ [] := by
  rw [disambiguate_of_provides r requested hprovides]
  exact disambiguationRounds_ne_nil h _ hsome

/-! ### Fewer candidates

`Settled` is what the simulation needs of a round, and it is kept when candidates
are dropped, so it may be asked of all rounds beforehand.
-/

/-- What a round needs of `remaining` for the simulation: each candidate has a
value, and the values compare where the rule looks for an extreme one. -/
structure Settled (r : Registry) (remaining : List Variant) (name : String) : Prop where
  builtIn : (r.disambiguationRule name).BuiltIn
  valued : ∀ v ∈ remaining, ∃ a, v.attributes.get? name = some a
  comparable : r.disambiguationRule name = .preferLowest ∨
    r.disambiguationRule name = .preferHighest → Comparable (valuesOf name remaining)

theorem Settled.mono {remaining fewer : List Variant} {name : String}
    (h : Settled r remaining name) (hsub : ∀ v ∈ fewer, v ∈ remaining) : Settled r fewer name :=
  ⟨h.builtIn, fun v hv => h.valued v (hsub v hv),
    fun hrule => (h.comparable hrule).mono fun _ => valuesOf_mono hsub⟩

theorem disambiguationRound_filter {remaining : List Variant} {name : String}
    (h : Settled r remaining name) {keep : Variant → Bool}
    (hleft : ∃ v ∈ disambiguationRound r requested remaining name, keep v = true) :
    disambiguationRound r requested (remaining.filter keep) name
      = (disambiguationRound r requested remaining name).filter keep := by
  rw [disambiguationRound_eq_filter h.builtIn] at hleft ⊢
  rw [disambiguationRound_eq_filter h.builtIn, List.filter_filter, List.filter_filter]
  refine List.filter_congr fun v hv => ?_
  cases hkeep : keep v with
  | false => simp
  | true =>
      obtain ⟨a, ha⟩ := h.valued v hv
      have hfewer : a ∈ valuesOf name (remaining.filter keep) :=
        mem_valuesOf.mpr ⟨v, List.mem_filter.mpr ⟨hv, hkeep⟩, ha⟩
      have hsub : ∀ b ∈ valuesOf name (remaining.filter keep), b ∈ valuesOf name remaining :=
        fun b => valuesOf_mono fun u hu => (List.mem_filter.mp hu).1
      -- The candidate that is still there holds a value that the larger set prefers.
      have hcommon : ∃ b ∈ valuesOf name (remaining.filter keep),
          b ∈ preferredValues r requested remaining name := by
        obtain ⟨u, hu, hukeep⟩ := hleft
        obtain ⟨humem, hustays⟩ := List.mem_filter.mp hu
        obtain ⟨b, hb⟩ := h.valued u humem
        exact ⟨b, mem_valuesOf.mpr ⟨u, List.mem_filter.mpr ⟨humem, hukeep⟩, hb⟩,
          Variant.staysFor_iff.mp hustays b hb⟩
      have hiff := DisambiguationRule.mem_preferred_iff_of_subset h.builtIn h.comparable hsub
        hcommon hfewer
      rw [Bool.true_and, Bool.and_true, Bool.eq_iff_iff, Variant.staysFor_iff, Variant.staysFor_iff]
      simp only [ha, Option.some.injEq, forall_eq']
      exact hiff

theorem disambiguationRounds_filter (names : List String) {keep : Variant → Bool} :
    ∀ {remaining : List Variant}, (∀ name ∈ names, Settled r remaining name) →
      (∃ v ∈ disambiguationRounds r requested names remaining, keep v = true) →
      disambiguationRounds r requested names (remaining.filter keep)
        = (disambiguationRounds r requested names remaining).filter keep := by
  induction names with
  | nil => intro remaining _ _; rfl
  | cons name rest ih =>
      intro remaining h hleft
      rw [disambiguationRounds_cons] at hleft
      rw [disambiguationRounds_cons, disambiguationRounds_cons]
      have hround : ∃ v ∈ disambiguationRound r requested remaining name, keep v = true := by
        obtain ⟨v, hv, hkeep⟩ := hleft
        exact ⟨v, (disambiguationRounds_sublist r requested rest _).subset hv, hkeep⟩
      rw [disambiguationRound_filter (h name List.mem_cons_self) hround]
      refine ih (fun other hother => ?_) hleft
      exact (h other (List.mem_cons_of_mem _ hother)).mono
        fun v hv => (disambiguationRound_sublist r requested remaining name).subset hv

end VariantSelection
