/-
How a registry is stored.

The definitions lie in a list in the order of their registration, an index says at
which place the definition of a name lies, and the precedence is a list of names.
Nothing in the type `Tables` keeps the three together: a registration goes by the
index, and where nothing lies at the place that it finds there, it answers that the
name was not found.  That this never happens is seen by comparison.  Every registry
has one stored form, in which the index is exact (`get?_index_stored`), and each
operation leads from the stored form of a registry to the stored form of what the
registry becomes, with the same answer.
-/
import VariantSelection.Attribute.Standard
import VariantSelection.Proofs.Distinct
import VariantSelection.Proofs.Registry.Registration

namespace VariantSelection

namespace Registry

/-- The definitions, the place of each name among them, and the precedence. -/
structure Tables where
  definitions : List Definition
  index : SortedMap String Nat
  precedence : List String

namespace Tables

/-! ### The operations

They work in place, on the tables as they find them: nothing here assumes that the
index is right.
-/

def empty : Tables := ⟨[], .empty, []⟩

def names (t : Tables) : List String := t.definitions.map Definition.name

/-- The definition at the place that the index has for `name`. -/
def find? (t : Tables) (name : String) : Option Definition :=
  (t.index.get? name).bind fun place => t.definitions[place]?

/-- The definition of `name`. -/
def lookup (t : Tables) (name : String) : Except AttributeError Definition :=
  match t.find? name with
  | some d => .ok d
  | none => .error (.notFound name)

/-- Registers a name again that the index has a place for. -/
def update (t : Tables) (place : Nat) (name : String) (type : ValueType)
    (compatibility : Option CompatibilityRule) (disambiguation : Option DisambiguationRule) :
    Tables × Option AttributeError :=
  match t.definitions[place]? with
  | some known =>
    if known.type = type then
      ({ t with
          definitions := t.definitions.set place (known.withRules compatibility disambiguation) },
        none)
    else (t, some (.duplicate name known.type type))
  | none => (t, some (.notFound name))

/-- Registers a new name, and looks for the definition where it was put. -/
def append (t : Tables) (d : Definition) : Tables × Option AttributeError :=
  let next : Tables :=
    { t with
      definitions := t.definitions ++ [d]
      index := t.index.insert d.name t.definitions.length }
  match next.definitions[t.definitions.length]? with
  | some _ => (next, none)
  | none => (next, some (.notFound d.name))

/-- Registers `name`, at the place that it has or behind the others. -/
def register (t : Tables) (name : String) (type : ValueType)
    (compatibility : Option CompatibilityRule) (disambiguation : Option DisambiguationRule) :
    Tables × Option AttributeError :=
  match t.index.get? name with
  | some place => t.update place name type compatibility disambiguation
  | none =>
    t.append ⟨name, type, compatibility.getD .exact, disambiguation.getD .noPreference⟩

/-- Registers the attribute that `d` declares. -/
def declare (t : Tables) (d : Descriptor) : Tables × Option AttributeError :=
  match d.rules with
  | .ok (compatibility, disambiguation) => t.register d.name d.type compatibility disambiguation
  | .error e => (t, some e)

/-- Registers the attributes that a list declares, up to the first that is refused. -/
def declareEach (t : Tables) : List Descriptor → Tables × Option AttributeError
  | [] => (t, none)
  | d :: rest =>
    match t.declare d with
    | (next, none) => next.declareEach rest
    | (next, some e) => (next, some e)

/-- The first entry of a precedence list that has no place in it, `seen` being what
was listed before. -/
def precedenceFault? (t : Tables) (seen : List String) : List String → Option AttributeError
  | [] => none
  | name :: rest =>
    if !t.index.contains name then some (.invalidPrecedence name .unregistered)
    else if name ∈ seen then some (.invalidPrecedence name .repeated)
    else precedenceFault? t (name :: seen) rest

/-- Declares the precedence: names that the index has, each once. -/
def declarePrecedence (t : Tables) (entries : List String) : Tables × Option AttributeError :=
  match t.precedenceFault? [] entries with
  | some e => (t, some e)
  | none => ({ t with precedence := entries }, none)

/-- Registers the standard attributes and then declares their precedence. -/
def addStandard (t : Tables) : Tables × Option AttributeError :=
  match t.declareEach Standard.descriptors with
  | (next, some e) => (next, some e)
  | (next, none) => next.declarePrecedence Standard.precedence

end Tables

/-! ### The stored form

`stored` numbers the names of a registry, and these are distinct.  That is all the
index needs to be exact.
-/

/-- How the registry is stored: each name is indexed by its place. -/
def stored (r : Registry) : Tables := ⟨r.definitions, .ofList r.names.zipIdx, r.precedence⟩

/-- What its owner holds after an operation on a registry: if it is refused, the
registry as it was. -/
def attempt (r : Registry) : Except AttributeError Registry → Registry × Option AttributeError
  | .ok s => (s, none)
  | .error e => (r, some e)

section
variable {r : Registry} {name : String}

/-- **The index of a stored registry is exact.** -/
theorem get?_index_stored {place : Nat} :
    r.stored.index.get? name = some place ↔ r.names[place]? = some name := by
  have hkeys : (r.names.zipIdx.map Prod.fst).Nodup := by
    rw [List.zipIdx_map_fst]
    exact r.names_nodup
  rw [stored, SortedMap.get?_ofList_eq_some_iff hkeys, List.mem_zipIdx_iff_getElem?]

theorem get?_index_stored_eq_none : r.stored.index.get? name = none ↔ name ∉ r.names := by
  simp only [Option.eq_none_iff_forall_ne_some, ne_eq, get?_index_stored, List.mem_iff_getElem?,
    not_exists]

theorem contains_index_stored : r.stored.index.contains name = true ↔ name ∈ r.names := by
  rw [SortedMap.contains_iff, List.mem_iff_getElem?]
  exact exists_congr fun place => get?_index_stored

/-- A name that is registered lies where the index says. -/
theorem exists_place_of_find? {d : Definition} (h : r.find? name = some d) :
    ∃ place, r.stored.index.get? name = some place ∧ r.definitions[place]? = some d := by
  obtain ⟨hd, hname⟩ := find?_mem h
  obtain ⟨place, hplace⟩ := List.mem_iff_getElem?.mp hd
  refine ⟨place, get?_index_stored.mpr ?_, hplace⟩
  rw [names, List.getElem?_map, hplace, Option.map_some, hname]

theorem find?_stored : r.stored.find? name = r.find? name := by
  unfold Tables.find?
  cases hfound : r.find? name with
  | some d =>
      obtain ⟨place, hindex, hplace⟩ := exists_place_of_find? hfound
      rw [hindex]
      exact hplace
  | none =>
      rw [get?_index_stored_eq_none.mpr (find?_eq_none_iff.mp hfound)]
      rfl

theorem lookup_stored : r.stored.lookup name = r.lookup name := by
  rw [Tables.lookup, find?_stored]
  rfl

theorem stored_empty : empty.stored = Tables.empty := rfl

end

/-! ### Operations on the stored form

Each lemma moves `stored` over one operation: what the tables do to the stored form
is what the registry does, stored.
-/

section
variable (r : Registry)

theorem stored_replaceRules {name : String} {place : Nat} {d : Definition}
    (hplace : r.definitions[place]? = some d) (hname : d.name = name)
    (compatibility : Option CompatibilityRule) (disambiguation : Option DisambiguationRule) :
    (r.replaceRules name compatibility disambiguation).stored
      = { r.stored with
          definitions := r.definitions.set place (d.withRules compatibility disambiguation) } := by
  have hdefinitions := set_eq_map_of_nodup r.names_nodup hplace
    fun b => b.withRules compatibility disambiguation
  rw [hname] at hdefinitions
  have hnames : (r.replaceRules name compatibility disambiguation).names = r.names :=
    map_name_withRules r.definitions name compatibility disambiguation
  unfold stored
  rw [hnames, hdefinitions]
  rfl

theorem stored_add {d : Definition} (fresh : d.name ∉ r.names) :
    (r.add d fresh).stored
      = { r.stored with
          definitions := r.definitions ++ [d]
          index := r.stored.index.insert d.name r.definitions.length } := by
  have hnames : (r.add d fresh).names.zipIdx
      = r.names.zipIdx ++ [(d.name, r.definitions.length)] := by
    rw [show (r.add d fresh).names = r.names ++ [d.name] from List.map_append, List.zipIdx_append]
    simp [names]
  unfold stored
  rw [hnames, SortedMap.ofList, List.foldl_append]
  rfl

theorem update_stored {name : String} {place : Nat} {known : Definition}
    (hplace : r.definitions[place]? = some known) (hname : known.name = name) (type : ValueType)
    (compatibility : Option CompatibilityRule) (disambiguation : Option DisambiguationRule) :
    r.stored.update place name type compatibility disambiguation
      = if known.type = type then
          ((r.replaceRules name compatibility disambiguation).stored, none)
        else (r.stored, some (.duplicate name known.type type)) := by
  have hstored : r.stored.definitions[place]? = some known := hplace
  rw [Tables.update, hstored, stored_replaceRules r hplace hname]
  rfl

theorem append_stored {d : Definition} (fresh : d.name ∉ r.names) :
    r.stored.append d = ((r.add d fresh).stored, none) := by
  have hlast : (r.stored.definitions ++ [d])[r.stored.definitions.length]? = some d :=
    List.getElem?_concat_length
  unfold Tables.append
  rw [stored_add r fresh]
  dsimp only
  rw [hlast]
  rfl

/-- **A registration finds what it looks for**, and does to `r.stored` what it
does to `r`. -/
theorem register_stored (name : String) (type : ValueType)
    (compatibility : Option CompatibilityRule) (disambiguation : Option DisambiguationRule) :
    r.stored.register name type compatibility disambiguation
      = (r.attempt (r.register name type compatibility disambiguation)).map stored id := by
  unfold Tables.register
  cases hfound : r.find? name with
  | some known =>
      obtain ⟨place, hindex, hplace⟩ := exists_place_of_find? hfound
      rw [hindex, register_of_known hfound]
      dsimp only
      rw [update_stored r hplace (find?_mem hfound).2]
      by_cases htype : known.type = type
      · rw [if_pos htype, if_pos htype]
        rfl
      · rw [if_neg htype, if_neg htype]
        rfl
  | none =>
      have fresh := find?_eq_none_iff.mp hfound
      rw [get?_index_stored_eq_none.mpr fresh, register_of_fresh fresh]
      exact append_stored r fresh

theorem declare_stored (d : Descriptor) :
    r.stored.declare d = (r.attempt (r.declare d)).map stored id := by
  unfold Tables.declare declare
  cases d.rules with
  | error e => rfl
  | ok rules => exact register_stored r d.name d.type rules.1 rules.2

theorem declareEach_stored (descriptors : List Descriptor) :
    ∀ r : Registry, r.stored.declareEach descriptors
      = (r.declareEach descriptors).map stored id := by
  induction descriptors with
  | nil => intro r; rfl
  | cons d rest ih =>
      intro r
      rw [Tables.declareEach, declareEach, declare_stored]
      cases r.declare d with
      | error e => rfl
      | ok s => exact ih s

theorem precedenceFault?_stored (entries : List String) :
    ∀ seen, r.stored.precedenceFault? seen entries = r.precedenceFault? seen entries := by
  induction entries with
  | nil => intro seen; rfl
  | cons name rest ih =>
      intro seen
      rw [Tables.precedenceFault?, precedenceFault?, ih]
      by_cases hname : name ∈ r.names
      · simp [contains_index_stored.mpr hname, hname]
      · have hnot : r.stored.index.contains name = false := by
          rw [Bool.eq_false_iff, Ne, contains_index_stored]
          exact hname
        simp [hnot, hname]

theorem declarePrecedence_stored (entries : List String) :
    r.stored.declarePrecedence entries
      = (r.attempt (r.declarePrecedence entries)).map stored id := by
  unfold Tables.declarePrecedence
  rw [precedenceFault?_stored]
  cases hfault : r.precedenceFault? [] entries with
  | some e =>
      rw [declarePrecedence_of_fault hfault]
      rfl
  | none =>
      rw [declarePrecedence_of_no_fault hfault]
      rfl

theorem addStandard_stored : r.stored.addStandard = r.addStandard.map stored id := by
  unfold Tables.addStandard addStandard
  rw [declareEach_stored]
  rcases r.declareEach Standard.descriptors with ⟨s, _ | e⟩
  · refine (declarePrecedence_stored s Standard.precedence).trans ?_
    dsimp only
    cases s.declarePrecedence Standard.precedence with
    | ok next => rfl
    | error e => rfl
  · rfl

end

end Registry

end VariantSelection
