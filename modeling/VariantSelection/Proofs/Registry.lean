/-
What a registry consults, and in which order.

The attributes that are consulted for a request are the requested ones, whatever the
precedence is (`mem_disambiguationOrder`).  Two conditions on the rules are named
here as conditions on the registry, since a rule is reached through the name of
its attribute, and unknown names have rules too: `ChoosesBuiltIn` and
`ComparesExtremes`.  Of the operations, declaring a precedence leaves the
definitions alone, and converting a set gives values of the attributes' types.
-/
import VariantSelection.Proofs.Distinct
import VariantSelection.Proofs.Ordered.Map
import VariantSelection.Proofs.Rule
import VariantSelection.Attribute.Registry

namespace VariantSelection

theorem Value.coerce_eq_ok_iff {v w : Value} {name : String} {t : ValueType} :
    v.coerce name t = .ok w ↔ v.coerce? t = some w := by
  unfold Value.coerce
  cases v.coerce? t with
  | none => simp
  | some u => simp

namespace Registry

variable {r : Registry} {requested : AttributeSet} {name : String}

theorem find?_eq_some_iff {d : Definition} :
    r.find? name = some d ↔ d ∈ r.definitions ∧ d.name = name :=
  find?_key_eq_some_iff r.names_nodup

theorem find?_mem {d : Definition} (h : r.find? name = some d) :
    d ∈ r.definitions ∧ d.name = name :=
  find?_eq_some_iff.mp h

/-- **The attributes that are consulted are the requested ones.** -/
theorem mem_disambiguationOrder :
    name ∈ r.disambiguationOrder requested ↔ requested.contains name = true := by
  simp only [disambiguationOrder, List.mem_append, List.mem_filter,
    SortedMap.mem_keys_iff_contains, Bool.and_eq_true, Bool.not_eq_true', List.contains_eq_mem,
    decide_eq_false_iff_not]
  constructor
  · rintro ((⟨-, h⟩ | ⟨-, h, -⟩) | ⟨h, -⟩)
    · exact h
    · exact h
    · exact h
  · intro h
    by_cases hname : name ∈ r.names
    · by_cases hprecedence : name ∈ r.precedence
      · exact Or.inl (Or.inl ⟨hprecedence, h⟩)
      · exact Or.inl (Or.inr ⟨hname, h, hprecedence⟩)
    · exact Or.inr ⟨h, hname⟩

/-- **No attribute is consulted twice.** -/
theorem nodup_disambiguationOrder (r : Registry) (requested : AttributeSet) :
    (r.disambiguationOrder requested).Nodup := by
  have hprecedence := r.precedence_nodup.sublist
    (List.filter_sublist (p := requested.contains))
  have hnames := r.names_nodup.sublist
    (List.filter_sublist (p := fun name => requested.contains name && !r.precedence.contains name))
  have hkeys := requested.nodup_keys.sublist
    (List.filter_sublist (p := fun name => !r.names.contains name))
  -- Names are listed apart: what the precedence has, the other registered ones, and
  -- the unknown ones.
  refine List.nodup_append.mpr ⟨List.nodup_append.mpr ⟨hprecedence, hnames, ?_⟩, hkeys, ?_⟩
  · rintro first hfirst second hsecond rfl
    have hnot := (List.mem_filter.mp hsecond).2
    simp [(List.mem_filter.mp hfirst).1] at hnot
  · rintro first hfirst second hsecond rfl
    have hunknown : first ∉ r.names := by simpa using (List.mem_filter.mp hsecond).2
    rcases List.mem_append.mp hfirst with hfirst | hfirst
    · exact hunknown (r.precedence_registered first (List.mem_filter.mp hfirst).1)
    · exact hunknown (List.mem_filter.mp hfirst).1

/-- No definition has a custom rule for choosing among tied candidates. -/
def ChoosesBuiltIn (r : Registry) : Prop :=
  ∀ d ∈ r.definitions, d.disambiguation.BuiltIn

theorem ChoosesBuiltIn.disambiguationRule (h : r.ChoosesBuiltIn) (name : String) :
    (r.disambiguationRule name).BuiltIn := by
  unfold Registry.disambiguationRule
  cases hfound : r.find? name with
  | none => exact trivial
  | some d => exact h d (find?_mem hfound).1

/-- Wherever a requested attribute prefers the least or the greatest value, what is
compatible is a matter of comparison too. -/
def ComparesExtremes (r : Registry) (requested : AttributeSet) : Prop :=
  ∀ name, requested.contains name = true →
    r.disambiguationRule name = .preferLowest ∨ r.disambiguationRule name = .preferHighest →
    r.compatibilityRule name = .exact ∨ r.compatibilityRule name = .atLeast ∨
      r.compatibilityRule name = .atMost

/-! ### Operations

An operation is followed through its result, by what it leaves of the definitions
and of the precedence.
-/

theorem declarePrecedence_of_fault {entries : List String} {e : AttributeError}
    (h : r.precedenceFault? [] entries = some e) : r.declarePrecedence entries = .error e := by
  unfold declarePrecedence
  split
  case _ e' he =>
    rw [h, Option.some.injEq] at he
    rw [he]
  case _ hnone =>
    rw [h] at hnone
    cases hnone

theorem declarePrecedence_of_no_fault {entries : List String}
    (h : r.precedenceFault? [] entries = none) :
    r.declarePrecedence entries = .ok { r with
      precedence := entries
      precedence_nodup := (precedenceFault?_eq_none h).1
      precedence_registered :=
        fun name hname => ((precedenceFault?_eq_none h).2 name hname).1 } := by
  unfold declarePrecedence
  split
  case _ e he =>
    rw [h] at he
    cases he
  case _ => rfl

theorem definitions_of_declarePrecedence {s : Registry} {entries : List String}
    (h : r.declarePrecedence entries = .ok s) : s.definitions = r.definitions := by
  unfold declarePrecedence at h
  split at h
  · cases h
  · cases h
    rfl

theorem precedence_of_declarePrecedence {s : Registry} {entries : List String}
    (h : r.declarePrecedence entries = .ok s) : s.precedence = entries := by
  unfold declarePrecedence at h
  split at h
  · cases h
  · cases h
    rfl

/-! ### Conversions

A value is converted to the type of its attribute or refused, and `misfit?` says why
without converting it.
-/

/-- What is wrong with a value that its attribute cannot have. -/
def misfit? (r : Registry) (name : String) (v : Value) : Option AttributeError :=
  match v.coerce? (r.typeOf name) with
  | some _ => none
  | none => some (.coercion name v.text (r.typeOf name))

theorem reports_coerce (r : Registry) (name : String) (v : Value) :
    Reports (r.misfit? name v).toList (r.coerce name v) := by
  unfold misfit? coerce Value.coerce
  cases v.coerce? (r.typeOf name) with
  | some w => exact reports_ok w
  | none => exact reports_error _ []

theorem misfit?_eq_none_iff {v : Value} :
    r.misfit? name v = none ↔ ∃ w, r.coerce name v = .ok w := by
  rw [(r.reports_coerce name v).succeeds_iff, Option.toList_eq_nil_iff]

/-- What comes out of a conversion is of the attribute's type. -/
theorem type_of_coerce {v w : Value} (h : r.coerce name v = .ok w) : w.type = r.typeOf name :=
  Value.type_of_coerce?_eq_some (Value.coerce_eq_ok_iff.mp h)

theorem type_of_coerceSet {raw : AttributeSet} (h : r.coerceSet raw = .ok requested)
    {wanted : Value}
    (hwanted : requested.get? name = some wanted) : wanted.type = r.typeOf name := by
  obtain ⟨v, -, hcoerce⟩ := SortedMap.get?_of_traverse h hwanted
  exact type_of_coerce hcoerce

end Registry

end VariantSelection
