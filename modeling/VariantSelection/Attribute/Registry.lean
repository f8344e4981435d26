/-
The registry: which attributes are known, with their types and rules, and in which
order they are consulted when candidates tie.

A registry is a list of definitions in the order of their registration and a
precedence list.  No name is defined twice, and the precedence lists registered
names only, each once; both facts are fields of the type, so whoever holds a
registry holds them too.  An operation that can be refused, `register` or
`declarePrecedence`, answers with an error and no registry: the caller still has the
one it started from.
-/
import VariantSelection.Attribute.Error
import VariantSelection.Attribute.Rule
import VariantSelection.Attribute.Value

namespace VariantSelection

/-- An attribute with its type and its rules. -/
structure Definition where
  name : String
  type : ValueType
  compatibility : CompatibilityRule
  disambiguation : DisambiguationRule

/-- The definition with those rules replaced that are given. -/
def Definition.withRules (d : Definition) (compatibility : Option CompatibilityRule)
    (disambiguation : Option DisambiguationRule) : Definition :=
  { d with
    compatibility := compatibility.getD d.compatibility
    disambiguation := disambiguation.getD d.disambiguation }

/-- The known attributes and the order of their precedence. -/
structure Registry where
  definitions : List Definition
  precedence : List String
  names_nodup : (definitions.map Definition.name).Nodup
  precedence_nodup : precedence.Nodup
  precedence_registered : ∀ name ∈ precedence, name ∈ definitions.map Definition.name

namespace Registry

/-- The registry that knows nothing. -/
def empty : Registry := ⟨[], [], List.nodup_nil, List.nodup_nil, by simp⟩

instance : Inhabited Registry := ⟨empty⟩

/-- The registered names, in the order of their registration. -/
def names (r : Registry) : List String := r.definitions.map Definition.name

/-- The definition of `name`, if it is registered. -/
def find? (r : Registry) (name : String) : Option Definition :=
  r.definitions.find? fun d => d.name == name

/-- The definition of `name`. -/
def lookup (r : Registry) (name : String) : Except AttributeError Definition :=
  match r.find? name with
  | some d => .ok d
  | none => .error (.notFound name)

theorem find?_eq_none_iff {r : Registry} {name : String} :
    r.find? name = none ↔ name ∉ r.names := by
  simp only [find?, names, List.find?_eq_none, List.mem_map, beq_iff_eq]
  grind

theorem map_name_withRules (definitions : List Definition) (name : String)
    (compatibility : Option CompatibilityRule) (disambiguation : Option DisambiguationRule) :
    (definitions.map fun d =>
      if d.name = name then d.withRules compatibility disambiguation else d).map Definition.name
      = definitions.map Definition.name := by
  rw [List.map_map]
  refine List.map_congr_left fun d _ => ?_
  by_cases h : d.name = name <;> simp [Definition.withRules, h]

/-- The registry with the given rules put in place of those of `name`. -/
def replaceRules (r : Registry) (name : String) (compatibility : Option CompatibilityRule)
    (disambiguation : Option DisambiguationRule) : Registry where
  definitions := r.definitions.map fun d =>
    if d.name = name then d.withRules compatibility disambiguation else d
  precedence := r.precedence
  names_nodup := by rw [map_name_withRules]; exact r.names_nodup
  precedence_nodup := r.precedence_nodup
  precedence_registered := by rw [map_name_withRules]; exact r.precedence_registered

/-- The registry with one more definition, of a name it does not know. -/
def add (r : Registry) (d : Definition) (fresh : d.name ∉ r.names) : Registry where
  definitions := r.definitions ++ [d]
  precedence := r.precedence
  names_nodup := by
    have h := r.names_nodup
    simp only [List.map_append, List.map_cons, List.map_nil, List.nodup_append]
    exact ⟨h, by simp, fun a ha b hb => by simp only [List.mem_singleton] at hb; grind [names]⟩
  precedence_nodup := r.precedence_nodup
  precedence_registered := fun name h => by
    have := r.precedence_registered name h
    simp only [List.map_append, List.mem_append]
    exact .inl this

/-- Registers `name`.  A name that is known keeps its place, takes over the rules
that are given and refuses another type; a new name comes last, exact and without
preference where no rule is given. -/
def register (r : Registry) (name : String) (type : ValueType)
    (compatibility : Option CompatibilityRule) (disambiguation : Option DisambiguationRule) :
    Except AttributeError Registry :=
  match h : r.find? name with
  | some d =>
    if d.type = type then .ok (r.replaceRules name compatibility disambiguation)
    else .error (.duplicate name d.type type)
  | none =>
    .ok (r.add
      { name, type
        compatibility := compatibility.getD .exact
        disambiguation := disambiguation.getD .noPreference }
      (find?_eq_none_iff.1 h))

/-- The first entry of a precedence list that has no place in it, `seen` being what
was listed before. -/
def precedenceFault? (r : Registry) (seen : List String) : List String → Option AttributeError
  | [] => none
  | name :: rest =>
    if name ∉ r.names then some (.invalidPrecedence name .unregistered)
    else if name ∈ seen then some (.invalidPrecedence name .repeated)
    else precedenceFault? r (name :: seen) rest

theorem precedenceFault?_eq_none {r : Registry} {seen entries : List String}
    (h : r.precedenceFault? seen entries = none) :
    entries.Nodup ∧ (∀ name ∈ entries, name ∈ r.names ∧ name ∉ seen) := by
  induction entries generalizing seen with
  | nil => simp
  | cons name rest ih =>
    unfold precedenceFault? at h
    split at h
    · simp at h
    · split at h
      · simp at h
      · have := ih h
        grind

/-- Declares the precedence: registered names, each once. -/
def declarePrecedence (r : Registry) (entries : List String) : Except AttributeError Registry :=
  match h : r.precedenceFault? [] entries with
  | some e => .error e
  | none =>
    .ok { r with
      precedence := entries
      precedence_nodup := (precedenceFault?_eq_none h).1
      precedence_registered := fun name hn => ((precedenceFault?_eq_none h).2 name hn).1 }

/-- The order in which requested attributes are consulted: the declared precedence, then
the other registered names as they were registered, then the unknown names by name. -/
def disambiguationOrder (r : Registry) (requested : AttributeSet) : List String :=
  r.precedence.filter requested.contains
    ++ r.names.filter (fun name => requested.contains name && !r.precedence.contains name)
    ++ requested.keys.filter (fun name => !r.names.contains name)

/-- The compatibility rule of `name`; an unknown attribute must match exactly. -/
def compatibilityRule (r : Registry) (name : String) : CompatibilityRule :=
  match r.find? name with
  | some d => d.compatibility
  | none => .exact

/-- The disambiguation rule of `name`; an unknown attribute expresses no preference. -/
def disambiguationRule (r : Registry) (name : String) : DisambiguationRule :=
  match r.find? name with
  | some d => d.disambiguation
  | none => .noPreference

/-- The type of `name`; the values of an unknown attribute are strings. -/
def typeOf (r : Registry) (name : String) : ValueType :=
  match r.find? name with
  | some d => d.type
  | none => .string

/-- The value as one of the type that `name` has. -/
def coerce (r : Registry) (name : String) (v : Value) : Except AttributeError Value :=
  v.coerce name (r.typeOf name)

/-- Every value of the set as one of its attribute's type, or the first
failure by name. -/
def coerceSet (r : Registry) (set : AttributeSet) : Except AttributeError AttributeSet :=
  set.traverse r.coerce

end Registry

end VariantSelection
