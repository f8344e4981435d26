/-
What a registration changes.

A name that is known keeps its place and takes over the rules that are given; a new
name comes last (`register_cases`).  The rules of all other names stay as they are.
A registration that gives no rules leaves those of its own name too, because a
new attribute starts with the rules that an unknown one has (`Definition.plain`).  What
is left to change is when the attribute is consulted, and no other attribute changes
its place among the others.
-/
import VariantSelection.Proofs.Registry

namespace VariantSelection

@[simp] theorem Definition.name_withRules (d : Definition)
    (compatibility : Option CompatibilityRule) (disambiguation : Option DisambiguationRule) :
    (d.withRules compatibility disambiguation).name = d.name := rfl

/-- An attribute with the rules that an unknown one has. -/
def Definition.plain (name : String) (type : ValueType) : Definition :=
  ⟨name, type, .exact, .noPreference⟩

namespace Registry

section
variable {r s : Registry} {name : String} {type : ValueType}
  {compatibility : Option CompatibilityRule} {disambiguation : Option DisambiguationRule}

theorem register_of_known {known : Definition} (hfound : r.find? name = some known) :
    r.register name type compatibility disambiguation
      = if known.type = type then .ok (r.replaceRules name compatibility disambiguation)
        else .error (.duplicate name known.type type) := by
  unfold register
  split
  case _ d hd =>
    rw [hfound, Option.some.injEq] at hd
    rw [hd]
  case _ hnone =>
    rw [hfound] at hnone
    cases hnone

theorem register_of_fresh (fresh : name ∉ r.names) :
    r.register name type compatibility disambiguation
      = .ok (r.add ⟨name, type, compatibility.getD .exact, disambiguation.getD .noPreference⟩
          fresh) := by
  unfold register
  split
  case _ d hd =>
    rw [find?_eq_none_iff.mpr fresh] at hd
    cases hd
  case _ => rfl

/-- A registration that succeeds replaces rules or adds a definition. -/
theorem register_cases (h : r.register name type compatibility disambiguation = .ok s) :
    ((∃ known, r.find? name = some known ∧ known.type = type) ∧
      s = r.replaceRules name compatibility disambiguation) ∨
    ∃ fresh : name ∉ r.names,
      s = r.add ⟨name, type, compatibility.getD .exact,
        disambiguation.getD .noPreference⟩ fresh := by
  cases hfound : r.find? name with
  | some known =>
      rw [register_of_known hfound] at h
      by_cases htype : known.type = type
      · rw [if_pos htype, Except.ok.injEq] at h
        exact Or.inl ⟨⟨known, rfl, htype⟩, h.symm⟩
      · rw [if_neg htype] at h
        cases h
  | none =>
      have fresh := find?_eq_none_iff.mp hfound
      rw [register_of_fresh fresh, Except.ok.injEq] at h
      exact Or.inr ⟨fresh, h.symm⟩

/-! ### Look-ups

A registration is told by look-ups from here on: `find?_register` is the one lemma
through which rules and orders see it.
-/

theorem find?_replaceRules (other : String) :
    (r.replaceRules name compatibility disambiguation).find? other
      = (r.find? other).map fun d =>
          if other = name then d.withRules compatibility disambiguation else d := by
  have hname : ∀ d : Definition, (if d.name = name then d.withRules compatibility disambiguation
      else d).name = d.name := by
    intro d
    by_cases hd : d.name = name
    · rw [if_pos hd, Definition.name_withRules]
    · rw [if_neg hd]
  unfold find? replaceRules
  rw [List.find?_map]
  simp only [Function.comp_def, hname]
  refine Option.map_congr fun d hd => ?_
  rw [show d.name = other by simpa using List.find?_some hd]

theorem find?_add {d : Definition} (fresh : d.name ∉ r.names) (other : String) :
    (r.add d fresh).find? other = (r.find? other).or (if d.name = other then some d else none) := by
  unfold find? add
  rw [List.find?_append, List.find?_cons, List.find?_nil]
  by_cases hd : d.name = other
  · simp [hd]
  · rw [if_neg hd, beq_false_of_ne hd]

/-- **After a registration `name` has the given rules**, over those it had or over
those of an unknown attribute, and every other name has what it had. -/
theorem find?_register (h : r.register name type compatibility disambiguation = .ok s)
    (other : String) :
    s.find? other
      = if other = name then
          some (((r.find? name).getD (.plain name type)).withRules compatibility disambiguation)
        else r.find? other := by
  rcases register_cases h with ⟨⟨known, hfound, -⟩, rfl⟩ | ⟨fresh, rfl⟩
  · rw [find?_replaceRules]
    by_cases hother : other = name
    · simp [hother, hfound]
    · simp only [if_neg hother]
      rw [Option.map_id']
  · rw [find?_add]
    by_cases hother : other = name
    · rw [hother, find?_eq_none_iff.mpr fresh]
      simp [Definition.plain, Definition.withRules]
    · rw [if_neg hother, if_neg (Ne.symm hother), Option.or_none]

/-! ### Rules -/

theorem compatibilityRule_register
    (h : r.register name type compatibility disambiguation = .ok s) (other : String) :
    s.compatibilityRule other
      = if other = name then compatibility.getD (r.compatibilityRule name)
        else r.compatibilityRule other := by
  unfold compatibilityRule
  rw [find?_register h]
  by_cases hother : other = name
  · rw [if_pos hother, if_pos hother]
    cases r.find? name <;> rfl
  · rw [if_neg hother, if_neg hother]

theorem disambiguationRule_register
    (h : r.register name type compatibility disambiguation = .ok s) (other : String) :
    s.disambiguationRule other
      = if other = name then disambiguation.getD (r.disambiguationRule name)
        else r.disambiguationRule other := by
  unfold disambiguationRule
  rw [find?_register h]
  by_cases hother : other = name
  · rw [if_pos hother, if_pos hother]
    cases r.find? name <;> rfl
  · rw [if_neg hother, if_neg hother]

/-! ### The order of consultation

Neither the precedence nor the places of the names that are there change.  So an order
loses nothing and gains at most the new name, and is the old one once this is left out.
-/

theorem names_register (h : r.register name type compatibility disambiguation = .ok s) :
    s.names = if name ∈ r.names then r.names else r.names ++ [name] := by
  rcases register_cases h with ⟨⟨known, hfound, -⟩, rfl⟩ | ⟨fresh, rfl⟩
  · have hmem : name ∈ r.names := by
      by_contra hnot
      rw [find?_eq_none_iff.mpr hnot] at hfound
      cases hfound
    rw [if_pos hmem]
    exact map_name_withRules r.definitions name compatibility disambiguation
  · rw [if_neg fresh]
    exact List.map_append

theorem precedence_register (h : r.register name type compatibility disambiguation = .ok s) :
    s.precedence = r.precedence := by
  rcases register_cases h with ⟨-, rfl⟩ | ⟨fresh, rfl⟩
  · rfl
  · rfl

/-- **A registration moves no attribute but its own.** -/
theorem disambiguationOrder_register
    (h : r.register name type compatibility disambiguation = .ok s) (requested : AttributeSet) :
    (s.disambiguationOrder requested).filter (· ≠ name)
      = (r.disambiguationOrder requested).filter (· ≠ name) := by
  unfold disambiguationOrder
  rw [precedence_register h, names_register h]
  by_cases hknown : name ∈ r.names
  · rw [if_pos hknown]
  · rw [if_neg hknown]
    have hlast : ([name].filter fun other =>
        requested.contains other && !r.precedence.contains other).filter (· ≠ name) = [] := by
      rw [List.filter_filter, List.filter_cons_of_neg (by simp), List.filter_nil]
    simp only [List.filter_append, hlast, List.append_nil]
    congr 1
    -- Among the names that are no longer unknown, the registered one is the only one.
    rw [List.filter_filter, List.filter_filter]
    refine List.filter_congr fun other _ => ?_
    by_cases hother : other = name
    · simp [hother]
    · simp [hother]

end

end Registry

end VariantSelection
