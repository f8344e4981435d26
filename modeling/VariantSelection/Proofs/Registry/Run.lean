/-
The registry over a run of its operations.

A run starts with the empty registry and goes on whatever its operations answer.
Every state of the tables is the stored form of a registry (`after_stored`), so what
holds of all registries holds in it: the index is exact and the names are distinct.
A refused operation leaves what was there, except that of the standard attributes
those stay that were registered by then.  No operation but a reset takes a
definition away, changes its type or puts another one before it (`places_perform`).
-/
import VariantSelection.Proofs.Registry.Declaration
import VariantSelection.Proofs.Registry.Refusal
import VariantSelection.Proofs.Registry.Tables

namespace VariantSelection

namespace Registry

/-! ### Runs

The tables and the registry perform the same operations, and both go on after a
refusal with what they have.
-/

/-- What can be done to a registry. -/
inductive Operation
  | register (name : String) (type : ValueType) (compatibility : Option CompatibilityRule)
      (disambiguation : Option DisambiguationRule)
  | declare (d : Descriptor)
  | addStandard
  | declarePrecedence (entries : List String)
  | reset

/-- The registry after an operation, and the error if it was refused. -/
def perform (r : Registry) : Operation → Registry × Option AttributeError
  | .register name type compatibility disambiguation =>
    r.attempt (r.register name type compatibility disambiguation)
  | .declare d => r.attempt (r.declare d)
  | .addStandard => r.addStandard
  | .declarePrecedence entries => r.attempt (r.declarePrecedence entries)
  | .reset => (.empty, none)

/-- The registry after a run that starts with the empty one. -/
def after (operations : List Operation) : Registry :=
  operations.foldl (fun r op => (r.perform op).1) .empty

theorem after_append (operations more : List Operation) :
    after (operations ++ more) = more.foldl (fun r op => (r.perform op).1) (after operations) :=
  List.foldl_append

namespace Tables

/-- The tables after an operation, and the error if it was refused. -/
def perform (t : Tables) : Operation → Tables × Option AttributeError
  | .register name type compatibility disambiguation =>
    t.register name type compatibility disambiguation
  | .declare d => t.declare d
  | .addStandard => t.addStandard
  | .declarePrecedence entries => t.declarePrecedence entries
  | .reset => (.empty, none)

/-- The tables after a run that starts with the empty ones. -/
def after (operations : List Operation) : Tables :=
  operations.foldl (fun t op => (t.perform op).1) .empty

end Tables

theorem perform_stored (r : Registry) (op : Operation) :
    r.stored.perform op = (r.perform op).map stored id := by
  cases op with
  | register name type compatibility disambiguation =>
      exact register_stored r name type compatibility disambiguation
  | declare d => exact declare_stored r d
  | addStandard => exact addStandard_stored r
  | declarePrecedence entries => exact declarePrecedence_stored r entries
  | reset => rfl

/-- **A run of the tables stores the run of the registry.** -/
theorem after_stored (operations : List Operation) :
    Tables.after operations = (after operations).stored := by
  unfold Tables.after after
  rw [← stored_empty]
  refine List.foldl_hom stored fun r op => ?_
  rw [perform_stored, Prod.map_fst]

/-! ### Consistency

`Consistent` is about the tables alone.  It need not be carried over a run: every
stored registry is consistent, and the tables of a run store one.
-/

/-- Names are defined once, a look-up gives the definition of the name, and the
precedence lists registered names, each once. -/
structure Tables.Consistent (t : Tables) : Prop where
  names_nodup : t.names.Nodup
  lookup_eq_ok_iff : ∀ name d, t.lookup name = .ok d ↔ d ∈ t.definitions ∧ d.name = name
  precedence_nodup : t.precedence.Nodup
  precedence_registered : ∀ name ∈ t.precedence, name ∈ t.names

theorem lookup_eq_ok_iff {r : Registry} {name : String} {d : Definition} :
    r.lookup name = .ok d ↔ d ∈ r.definitions ∧ d.name = name := by
  rw [← find?_eq_some_iff, lookup]
  cases r.find? name with
  | none => simp
  | some known => simp

theorem consistent_stored (r : Registry) : r.stored.Consistent where
  names_nodup := r.names_nodup
  lookup_eq_ok_iff := fun name d => by
    rw [lookup_stored]
    exact lookup_eq_ok_iff
  precedence_nodup := r.precedence_nodup
  precedence_registered := r.precedence_registered

/-! ### Refused operations

`attempt` gives back what it was given, and all operations but one go through it.
-/

section
variable {r : Registry}

theorem attempt_refused {x : Except AttributeError Registry} (h : (r.attempt x).2 ≠ none) :
    (r.attempt x).1 = r := by
  cases x with
  | error e => rfl
  | ok s => exact absurd rfl h

theorem notMissing_of_attempt {x : Except AttributeError Registry}
    (hx : FailsWith AttributeError.NotMissing x) {e : AttributeError}
    (h : (r.attempt x).2 = some e) : e.NotMissing := by
  cases x with
  | error cause =>
      rw [attempt, Option.some.injEq] at h
      exact h ▸ hx cause rfl
  | ok s => cases h

/-- A refused operation changes nothing, unless it is made of several. -/
theorem perform_refused {op : Operation} (hop : op ≠ .addStandard)
    (h : (r.perform op).2 ≠ none) : (r.perform op).1 = r := by
  cases op with
  | register name type compatibility disambiguation => exact attempt_refused h
  | declare d => exact attempt_refused h
  | addStandard => exact absurd rfl hop
  | declarePrecedence entries => exact attempt_refused h
  | reset => exact absurd rfl h

/-- **No operation comes upon a place at which nothing lies.** -/
theorem notMissing_of_perform {op : Operation} {e : AttributeError}
    (h : (r.perform op).2 = some e) : e.NotMissing := by
  cases op with
  | register name type compatibility disambiguation =>
      exact notMissing_of_attempt
        ((r.failsWith_register name type compatibility disambiguation).mono
          fun _ => AttributeError.OfDeclaration.notMissing) h
  | declare d =>
      exact notMissing_of_attempt
        ((r.failsWith_declare d).mono fun _ => AttributeError.OfDeclaration.notMissing) h
  | addStandard => exact r.notMissing_of_addStandard h
  | declarePrecedence entries =>
      exact notMissing_of_attempt (r.failsWith_declarePrecedence entries) h
  | reset => cases h

end

/-! ### Places

The places of the names and their types are compared by `<+:`, since a definition
that is there neither moves nor changes its type.
-/

/-- The names in the order of their registration, with their types. -/
def Tables.places (t : Tables) : List (String × ValueType) :=
  t.definitions.map fun d => (d.name, d.type)

section
variable {r s : Registry}

theorem places_register {name : String} {type : ValueType}
    {compatibility : Option CompatibilityRule} {disambiguation : Option DisambiguationRule}
    (h : r.register name type compatibility disambiguation = .ok s) :
    r.stored.places <+: s.stored.places := by
  rcases register_cases h with ⟨-, rfl⟩ | ⟨fresh, rfl⟩
  · have hsame : (r.replaceRules name compatibility disambiguation).stored.places
        = r.stored.places := by
      unfold Tables.places stored replaceRules
      rw [List.map_map]
      refine List.map_congr_left fun d _ => ?_
      by_cases hd : d.name = name
      · simp [Definition.withRules, hd]
      · simp [hd]
    exact hsame ▸ List.prefix_rfl
  · exact ⟨_, (List.map_append ..).symm⟩

theorem places_declare {d : Descriptor} (h : r.declare d = .ok s) :
    r.stored.places <+: s.stored.places := by
  obtain ⟨rules, -, hregister⟩ := declare_eq_ok_iff.mp h
  exact places_register hregister

theorem places_declarePrecedence {entries : List String} (h : r.declarePrecedence entries = .ok s) :
    r.stored.places <+: s.stored.places := by
  have hdefinitions : s.stored.definitions = r.stored.definitions :=
    definitions_of_declarePrecedence h
  have hsame : s.stored.places = r.stored.places := by
    rw [Tables.places, Tables.places, hdefinitions]
  exact hsame ▸ List.prefix_rfl

theorem places_attempt {x : Except AttributeError Registry}
    (hx : ∀ s, x = .ok s → r.stored.places <+: s.stored.places) :
    r.stored.places <+: (r.attempt x).1.stored.places := by
  cases x with
  | error e => exact List.prefix_rfl
  | ok s => exact hx s rfl

theorem places_declareEach (descriptors : List Descriptor) :
    ∀ r : Registry, r.stored.places <+: (r.declareEach descriptors).1.stored.places := by
  induction descriptors with
  | nil => exact fun r => List.prefix_rfl
  | cons d rest ih =>
      intro r
      unfold declareEach
      cases hdeclare : r.declare d with
      | error e => exact List.prefix_rfl
      | ok s => exact (places_declare hdeclare).trans (ih s)

theorem places_addStandard (r : Registry) :
    r.stored.places <+: r.addStandard.1.stored.places := by
  have heach := places_declareEach Standard.descriptors r
  rcases r.addStandard_cases with ⟨e, hall⟩ | ⟨s, hprecedence, hall⟩
  · rw [hall]
    exact heach
  · rw [hall]
    exact heach.trans (places_declarePrecedence hprecedence)

/-- An operation other than `reset` adds definitions behind the others at most. -/
theorem places_perform {op : Operation} (hop : op ≠ .reset) :
    r.stored.places <+: (r.perform op).1.stored.places := by
  cases op with
  | register name type compatibility disambiguation =>
      exact places_attempt fun s h => places_register h
  | declare d => exact places_attempt fun s h => places_declare h
  | addStandard => exact places_addStandard r
  | declarePrecedence entries => exact places_attempt fun s h => places_declarePrecedence h
  | reset => exact absurd rfl hop

theorem places_foldl_perform (operations : List Operation) :
    ∀ r : Registry, .reset ∉ operations →
      r.stored.places
        <+: (operations.foldl (fun r op => (r.perform op).1) r).stored.places := by
  induction operations with
  | nil => exact fun r _ => List.prefix_rfl
  | cons op rest ih =>
      intro r hreset
      rw [List.mem_cons, not_or] at hreset
      exact (places_perform (Ne.symm hreset.1)).trans (ih _ hreset.2)

/-- **A registry is consistent over every run of its operations**, refused ones
included.  The tables are those of the run's registry, with the same answer to every
next operation.  No operation comes upon a place at which nothing lies, a refused
one changes nothing unless it is made of several, and until a reset what is
registered keeps its place and its type. -/
theorem after_consistent (operations : List Operation) :
    (Tables.after operations = (after operations).stored ∧
      ∀ op, ((Tables.after operations).perform op).2 = ((after operations).perform op).2) ∧
    (Tables.after operations).Consistent ∧
    (∀ op name, ((Tables.after operations).perform op).2 ≠ some (.notFound name)) ∧
    (∀ op, op ≠ .addStandard → ((Tables.after operations).perform op).2 ≠ none →
      ((Tables.after operations).perform op).1 = Tables.after operations) ∧
    (∀ more, .reset ∉ more →
      (Tables.after operations).places <+: (Tables.after (operations ++ more)).places) := by
  rw [after_stored]
  simp only [perform_stored, Prod.map_fst, Prod.map_snd, id]
  refine ⟨⟨trivial, fun op => trivial⟩, consistent_stored _, fun op name h => ?_,
    fun op hop hrefused => ?_, fun more hreset => ?_⟩
  · exact notMissing_of_perform h name rfl
  · rw [perform_refused hop hrefused]
  · rw [after_stored, after_append]
    exact places_foldl_perform more (after operations) hreset

end

namespace Sample

/-- Two attributes and a precedence, with a registration in between that is refused. -/
def operations : List Operation :=
  [.register "colour" .string none none, .register "size" .integer (some .atLeast) none,
    .register "colour" .boolean none none, .declarePrecedence ["size"]]

end Sample

/-- A second type for the colour is refused and changes nothing, and the standard
attributes come behind. -/
theorem after_consistent_colour :
    (Tables.after Sample.operations).places = [("colour", .string), ("size", .integer)] ∧
    ((Tables.after Sample.operations).perform (.register "colour" .integer none none)).2
      = some (.duplicate "colour" .string .integer) ∧
    ((Tables.after Sample.operations).perform (.register "colour" .integer none none)).1
      = Tables.after Sample.operations ∧
    (Tables.after Sample.operations).places
      <+: (Tables.after (Sample.operations ++ [.addStandard])).places := by
  have hrefused :
      ((Tables.after Sample.operations).perform (.register "colour" .integer none none)).2
      = some (.duplicate "colour" .string .integer) := by
    decide
  obtain ⟨-, -, -, hunchanged, hplaces⟩ := after_consistent Sample.operations
  refine ⟨by decide, hrefused, hunchanged _ (by simp) ?_, hplaces [.addStandard] (by simp)⟩
  rw [hrefused]
  simp

end Registry

end VariantSelection
