/-
Every answer is justified and complete.

A component without variants has one answer, and a request that names a variant is
answered by the name alone.  Otherwise the answer is about the variants that
qualify, and `MatchJustified` says clause by clause what each kind of answer means
for them.  No clause asks anything of the rules: a custom rule may drop every
candidate, and then the error lists all that qualified.
-/
import VariantSelection.Proofs.Selection

namespace VariantSelection

/-- The answer to a request that names a variant: the first variant of that name, or
that there is none. -/
inductive NamedAnswer (c : Component) (name : String) : Except SelectionError Outcome → Prop
  | found (before : List Variant) (v : Variant) (after : List Variant)
      (split : c.variants = before ++ v :: after) (named : v.name = name)
      (first : ∀ u ∈ before, u.name ≠ name) : NamedAnswer c name (.ok (.explicit v))
  | missing (none : ∀ v ∈ c.variants, v.name ≠ name) :
      NamedAnswer c name (.error (.variantNotFound c.id.text name (joinWith ", " c.variantNames)))

/-- What an answer by capabilities and attributes says of the variants that qualify. -/
structure MatchJustified (r : Registry) (c : Component) (q : Request)
    (answer : Except SelectionError Outcome) : Prop where
  /-- There is no fourth kind of answer. -/
  kinds : (∃ v, answer = .ok (.matched v)) ∨
    (∃ reports, answer = .error (.incompatible c.id.text q.consumer q.attributes
      (q.capabilities.map CapabilitySelector.text) reports)) ∨
    (∃ candidates unreduced conflicts, answer = .error (.ambiguous c.id.text q.consumer q.attributes
      candidates unreduced conflicts))
  incompatible_iff : (∃ component consumer requested capabilities reports,
      answer = .error (.incompatible component consumer requested capabilities reports)) ↔
    c.qualified r q = []
  /-- One report for each variant that provides the capabilities, and each says why
  it is refused. -/
  reports : ∀ component consumer requested capabilities reports,
    answer = .error (.incompatible component consumer requested capabilities reports) →
      reports = ((c.variants.filter fun v => v.provides q.capabilities).map fun v =>
        v.report r q.attributes) ∧
      ∀ m ∈ reports, m.incompatible ≠ []
  alone : ∀ v, c.qualified r q = [v] → answer = .ok (.matched v)
  matched : ∀ v, answer = .ok (.matched v) → v ∈ c.qualified r q
  /-- A tie is between two variants at least, and lists what disambiguation left or,
  when it left nothing, all that qualified; reports, capabilities and conflicts are
  those of the listed variants. -/
  ambiguous : ∀ component consumer requested candidates unreduced conflicts,
    answer = .error (.ambiguous component consumer requested candidates unreduced conflicts) →
      2 ≤ (c.qualified r q).length ∧ (unreduced = true ↔ c.survivors r q = []) ∧
      ∃ tied : List Variant,
        candidates = tied.map (fun v => ⟨v.report r q.attributes, v.capabilityIds⟩) ∧
        conflicts = conflictingGroups tied ∧
        (unreduced = true → tied = c.qualified r q) ∧
        (unreduced = false →
          tied = c.survivors r q ∧ tied.Sublist (c.qualified r q) ∧ 2 ≤ tied.length)

theorem namedAnswer_selectVariant (r : Registry) {c : Component} {q : Request} {name : String}
    (hvariants : c.variants ≠ []) (hname : q.variant = some name) :
    NamedAnswer c name (selectVariant r c q) := by
  rw [selectVariant, if_neg (by simpa using hvariants), hname]
  dsimp only
  cases hfound : c.variant? name with
  | none =>
      refine .missing fun v hv hvname => ?_
      have hnot := List.find?_eq_none.mp hfound v hv
      exact hnot (by simpa using hvname)
  | some v =>
      obtain ⟨hnamed, before, after, hsplit, hfirst⟩ := List.find?_eq_some_iff_append.mp hfound
      refine .found before v after hsplit (by simpa using hnamed) fun u hu => ?_
      simpa using hfirst u hu

/-! ### The three answers by attributes

One lemma for each way in which a selection by attributes can end; nothing that
qualifies, one variant left, and all other cases.
-/

section
variable {r : Registry} {c : Component} {q : Request}

theorem report_incompatible_ne_nil (h : c.qualified r q = []) :
    ∀ v ∈ c.candidates q, (v.report r q.attributes).incompatible ≠ [] := by
  intro v hv hnil
  obtain ⟨hmem, hprovides⟩ := List.mem_filter.mp hv
  have hqualified : v ∈ c.qualified r q :=
    Component.mem_qualified.mpr ⟨hmem, Variant.provides_iff.mp hprovides, hnil⟩
  rw [h] at hqualified
  exact absurd hqualified List.not_mem_nil

theorem matchJustified_incompatibility (h : c.qualified r q = []) :
    MatchJustified r c q (.error (incompatibility r c q)) where
  kinds := Or.inr (Or.inl ⟨_, rfl⟩)
  incompatible_iff := ⟨fun _ => h, fun _ => ⟨_, _, _, _, _, rfl⟩⟩
  reports := by
    rintro _ _ _ _ _ ⟨⟩
    refine ⟨rfl, fun m hm => ?_⟩
    obtain ⟨v, hv, rfl⟩ := List.mem_map.mp hm
    exact report_incompatible_ne_nil h v hv
  alone := by
    intro v hv
    rw [h] at hv
    exact absurd hv (by simp)
  matched := by rintro _ ⟨⟩
  ambiguous := by rintro _ _ _ _ _ _ ⟨⟩

theorem matchJustified_matched {w : Variant} (h : c.survivors r q = [w]) :
    MatchJustified r c q (.ok (.matched w)) := by
  have hmem : w ∈ c.qualified r q := (c.survivors_sublist r q).subset (by simp [h])
  refine ⟨Or.inl ⟨w, rfl⟩, ⟨?_, ?_⟩, ?_, ?_, ?_, ?_⟩
  · rintro ⟨_, _, _, _, _, ⟨⟩⟩
  · intro hnil
    rw [hnil] at hmem
    exact absurd hmem List.not_mem_nil
  · rintro _ _ _ _ _ ⟨⟩
  · intro v hv
    rw [hv, List.mem_singleton] at hmem
    rw [hmem]
  · rintro v ⟨⟩
    exact hmem
  · rintro _ _ _ _ _ _ ⟨⟩

theorem matchJustified_ambiguity {tied : List Variant} {unreduced : Bool}
    (htwo : 2 ≤ (c.qualified r q).length) (hleft : unreduced = true ↔ c.survivors r q = [])
    (hall : unreduced = true → tied = c.qualified r q)
    (hsome : unreduced = false → tied = c.survivors r q ∧ 2 ≤ tied.length) :
    MatchJustified r c q (.error (ambiguity r c q tied unreduced)) := by
  refine ⟨Or.inr (Or.inr ⟨_, _, _, rfl⟩), ⟨?_, ?_⟩, ?_, ?_, ?_, ?_⟩
  · rintro ⟨_, _, _, _, _, ⟨⟩⟩
  · intro hnil
    rw [hnil] at htwo
    exact absurd htwo (by decide)
  · rintro _ _ _ _ _ ⟨⟩
  · intro v hv
    rw [hv] at htwo
    exact absurd htwo (by simp)
  · rintro _ ⟨⟩
  · rintro _ _ _ _ _ _ ⟨⟩
    refine ⟨htwo, hleft, tied, rfl, rfl, hall, fun hfalse => ?_⟩
    obtain ⟨rfl, hlen⟩ := hsome hfalse
    exact ⟨rfl, c.survivors_sublist r q, hlen⟩

/-- What qualifies alone is left, so nothing is left only of two at least. -/
theorem two_le_of_survivors_eq_nil (hsome : c.qualified r q ≠ []) (h : c.survivors r q = []) :
    2 ≤ (c.qualified r q).length := by
  refine Nat.lt_of_not_le fun hle => ?_
  rw [Component.survivors, disambiguate_of_length_le r q.attributes hle] at h
  exact hsome h

theorem matchJustified_matchVariant (r : Registry) (c : Component) (q : Request) :
    MatchJustified r c q (matchVariant r c q) := by
  by_cases hnone : c.qualified r q = []
  · rw [matchVariant_of_none hnone]
    exact matchJustified_incompatibility hnone
  · rw [matchVariant_eq hnone]
    match hleft : c.survivors r q with
    | [] =>
        have htwo := two_le_of_survivors_eq_nil hnone hleft
        exact matchJustified_ambiguity htwo ⟨fun _ => hleft, fun _ => rfl⟩ (fun _ => rfl) (by simp)
    | [w] => exact matchJustified_matched hleft
    | first :: second :: rest =>
        have hlen : 2 ≤ (c.survivors r q).length := by simp [hleft]
        have htwo := Nat.le_trans hlen (c.survivors_sublist r q).length_le
        refine matchJustified_ambiguity htwo (by simp [hleft]) (by simp) fun _ => ?_
        exact ⟨hleft.symm, hleft ▸ hlen⟩

/-- The answer that nothing qualifies. -/
def IsIncompatible (answer : Except SelectionError Outcome) : Prop :=
  ∃ component consumer requested capabilities reports,
    answer = .error (.incompatible component consumer requested capabilities reports)

/-- Nothing published is no case of nothing that qualifies. -/
theorem isIncompatible_selectVariant_iff (hunnamed : q.variant = none) :
    IsIncompatible (selectVariant r c q) ↔ c.variants ≠ [] ∧ c.qualified r q = [] := by
  by_cases hvariants : c.variants = []
  · rw [selectVariant, if_pos (by simpa using hvariants)]
    constructor
    · rintro ⟨_, _, _, _, _, ⟨⟩⟩
    · intro h
      exact absurd hvariants h.1
  · rw [selectVariant_of_unnamed hvariants hunnamed, and_iff_right hvariants]
    exact (matchJustified_matchVariant r c q).incompatible_iff

end

/-- **Every answer of the selection is justified and complete**, whatever
the rules are. -/
theorem selectVariant_justified (r : Registry) (c : Component) (q : Request) :
    (c.variants = [] → selectVariant r c q = .ok (.legacyDefault c.defaultArtifact)) ∧
    (∀ name, c.variants ≠ [] → q.variant = some name → NamedAnswer c name (selectVariant r c q)) ∧
    (c.variants ≠ [] → q.variant = none → MatchJustified r c q (selectVariant r c q)) := by
  refine ⟨fun hvariants => ?_, fun name hvariants hname => ?_, fun hvariants hname => ?_⟩
  · rw [selectVariant, if_pos (by simpa using hvariants)]
  · exact namedAnswer_selectVariant r hvariants hname
  · rw [selectVariant_of_unnamed hvariants hname]
    exact matchJustified_matchVariant r c q

/-- Nothing published, a variant that is named, and two variants that are tied. -/
theorem selectVariant_justified_library :
    selectVariant .empty (Sample.library []) Sample.request
        = .ok (.legacyDefault (Sample.library []).defaultArtifact) ∧
      NamedAnswer (Sample.library [Sample.api, Sample.newer]) "newer"
        (selectVariant .empty (Sample.library [Sample.api, Sample.newer])
          { Sample.request with variant := some "newer" }) ∧
      MatchJustified .empty (Sample.library [Sample.api, Sample.shaded]) Sample.request
        (selectVariant .empty (Sample.library [Sample.api, Sample.shaded]) Sample.request) := by
  refine ⟨?_, ?_, ?_⟩
  · exact (selectVariant_justified .empty (Sample.library []) Sample.request).1 rfl
  · exact (selectVariant_justified .empty _ { Sample.request with variant := some "newer" }).2.1
      "newer" (List.cons_ne_nil _ _) rfl
  · exact (selectVariant_justified .empty _ Sample.request).2.2 (List.cons_ne_nil _ _) rfl

end VariantSelection
