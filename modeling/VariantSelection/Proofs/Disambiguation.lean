/-
What the rounds of disambiguation leave.

Each round is a filter, so candidates are only ever dropped: what is left is a
sublist of what was given (`disambiguate_sublist`).  A rule is shown a set of
values, hence a round does not see in which order the candidates stand, and a
reordering of the candidates reorders what is left (`disambiguate_perm`).  The early
stop is no rule of its own: a round over a single candidate keeps it, so the rounds
are a plain fold (`disambiguationRounds_eq_foldl`).
-/
import VariantSelection.Proofs.Ordered.Map
import VariantSelection.Disambiguation

namespace VariantSelection

variable (r : Registry) (requested : AttributeSet)

/-! ### The values on offer

All that a rule gets to see of the candidates is `valuesOf`, a set.
-/

theorem mem_valuesOf {name : String} {candidates : List Variant} {a : Value} :
    a ∈ valuesOf name candidates ↔ ∃ v ∈ candidates, v.attributes.get? name = some a := by
  rw [valuesOf, SortedSet.mem_ofList, List.mem_filterMap]

theorem valuesOf_mono {name : String} {kept candidates : List Variant}
    (h : ∀ v ∈ kept, v ∈ candidates) {a : Value} (ha : a ∈ valuesOf name kept) :
    a ∈ valuesOf name candidates := by
  obtain ⟨v, hv, hva⟩ := mem_valuesOf.mp ha
  exact mem_valuesOf.mpr ⟨v, h v hv, hva⟩

theorem valuesOf_perm {name : String} {candidates others : List Variant}
    (h : candidates.Perm others) : valuesOf name candidates = valuesOf name others :=
  SortedSet.ext fun _ =>
    ⟨valuesOf_mono fun _ hv => h.mem_iff.mp hv, valuesOf_mono fun _ hv => h.mem_iff.mpr hv⟩

/-- One candidate offers one value at most. -/
theorem size_valuesOf_le (name : String) (candidates : List Variant) :
    (valuesOf name candidates).size ≤ candidates.length := by
  have hsub : (valuesOf name candidates).elements ⊆
      candidates.filterMap fun v => v.attributes.get? name := by
    intro a ha
    exact List.mem_filterMap.mpr (mem_valuesOf.mp (SortedSet.mem_elements.mp ha))
  have hle := (SortedSet.nodup_elements _).length_le_of_subset hsub
  exact Nat.le_trans hle (List.length_filterMap_le _ _)

/-! ### One round -/

theorem Variant.staysFor_iff {v : Variant} {name : String} {preferred : SortedSet Value} :
    v.staysFor name preferred = true ↔
      ∀ a, v.attributes.get? name = some a → a ∈ preferred := by
  unfold staysFor
  cases v.attributes.get? name with
  | none => simp
  | some a => simp

theorem disambiguationRound_sublist (remaining : List Variant) (name : String) :
    (disambiguationRound r requested remaining name).Sublist remaining := by
  simp only [disambiguationRound]
  split
  · exact List.Sublist.refl _
  · exact List.filter_sublist

theorem disambiguationRound_perm {remaining others : List Variant} (h : remaining.Perm others)
    (name : String) :
    (disambiguationRound r requested remaining name).Perm
      (disambiguationRound r requested others name) := by
  unfold disambiguationRound
  rw [valuesOf_perm h]
  by_cases hsize : (valuesOf name others).size ≤ 1
  · rw [if_pos hsize, if_pos hsize]
    exact h
  · rw [if_neg hsize, if_neg hsize]
    exact h.filter _

theorem disambiguationRound_of_length_le {remaining : List Variant} (h : remaining.length ≤ 1)
    (name : String) : disambiguationRound r requested remaining name = remaining := by
  unfold disambiguationRound
  rw [if_pos (Nat.le_trans (size_valuesOf_le name remaining) h)]

/-! ### All rounds

The lemmas of this section are inductions over the names, each with the lemma for
`disambiguationRound` as its step.
-/

/-- **The early stop changes nothing.** -/
theorem disambiguationRounds_eq_foldl (names : List String) :
    ∀ remaining, disambiguationRounds r requested names remaining
      = names.foldl (disambiguationRound r requested) remaining := by
  induction names with
  | nil => intro remaining; rfl
  | cons name rest ih =>
      intro remaining
      rw [List.foldl_cons, disambiguationRounds]
      by_cases h : remaining.length ≤ 1
      · rw [if_pos h, disambiguationRound_of_length_le r requested h, ← ih]
        -- Where the rounds stopped, the rest of them would have kept the candidate too.
        cases rest with
        | nil => rfl
        | cons next others => rw [disambiguationRounds, if_pos h]
      · rw [if_neg h, ih]

theorem disambiguationRounds_cons (name : String) (rest : List String) (remaining : List Variant) :
    disambiguationRounds r requested (name :: rest) remaining
      = disambiguationRounds r requested rest
          (disambiguationRound r requested remaining name) := by
  rw [disambiguationRounds_eq_foldl, disambiguationRounds_eq_foldl, List.foldl_cons]

theorem disambiguationRounds_sublist (names : List String) :
    ∀ remaining, (disambiguationRounds r requested names remaining).Sublist remaining := by
  induction names with
  | nil => intro remaining; exact List.Sublist.refl _
  | cons name rest ih =>
      intro remaining
      rw [disambiguationRounds_cons]
      exact (ih _).trans (disambiguationRound_sublist r requested remaining name)

/-- Where each of the rounds leaves everybody, all of them do. -/
theorem disambiguationRounds_of_fixed {remaining : List Variant} (names : List String)
    (h : ∀ name ∈ names, disambiguationRound r requested remaining name = remaining) :
    disambiguationRounds r requested names remaining = remaining := by
  induction names with
  | nil => rfl
  | cons name rest ih =>
      obtain ⟨hname, hrest⟩ := List.forall_mem_cons.mp h
      rw [disambiguationRounds_cons, hname]
      exact ih hrest

theorem disambiguationRounds_perm (names : List String) :
    ∀ {remaining others : List Variant}, remaining.Perm others →
      (disambiguationRounds r requested names remaining).Perm
        (disambiguationRounds r requested names others) := by
  induction names with
  | nil => intro remaining others h; exact h
  | cons name rest ih =>
      intro remaining others h
      rw [disambiguationRounds_cons, disambiguationRounds_cons]
      exact ih (disambiguationRound_perm r requested h name)

/-! ### Disambiguation -/

theorem disambiguate_sublist (candidates : List Variant) (capabilities : List CapabilitySelector) :
    (disambiguate r requested candidates capabilities).Sublist candidates := by
  have hrounds := disambiguationRounds_sublist r requested
    (r.disambiguationOrder requested) candidates
  simp only [disambiguate]
  split
  · exact List.filter_sublist.trans hrounds
  · exact hrounds

/-- Candidates that provide the capabilities are told apart by the rounds alone. -/
theorem disambiguate_of_provides {candidates : List Variant}
    {capabilities : List CapabilitySelector}
    (h : ∀ v ∈ candidates, v.provides capabilities = true) :
    disambiguate r requested candidates capabilities
      = disambiguationRounds r requested (r.disambiguationOrder requested) candidates := by
  have hsub := (disambiguationRounds_sublist r requested
    (r.disambiguationOrder requested) candidates).subset
  simp only [disambiguate]
  split
  · exact List.filter_eq_self.mpr fun v hv => h v (hsub hv)
  · rfl

/-- **A reordering of the candidates reorders what is left of them.** -/
theorem disambiguate_perm {candidates others : List Variant} (h : candidates.Perm others)
    (capabilities : List CapabilitySelector) :
    (disambiguate r requested candidates capabilities).Perm
      (disambiguate r requested others capabilities) := by
  have hrounds := disambiguationRounds_perm r requested (r.disambiguationOrder requested) h
  simp only [disambiguate, hrounds.length_eq]
  split
  · exact hrounds.filter _
  · exact hrounds

theorem disambiguate_of_length_le {candidates : List Variant} (h : candidates.length ≤ 1)
    (capabilities : List CapabilitySelector) :
    disambiguate r requested candidates capabilities = candidates := by
  have hrounds : ∀ names, disambiguationRounds r requested names candidates = candidates := by
    intro names
    cases names with
    | nil => rfl
    | cons name rest => rw [disambiguationRounds, if_pos h]
  have hlen : ¬(1 < candidates.length) := Nat.not_lt.mpr h
  simp [disambiguate, hrounds, hlen]

end VariantSelection
