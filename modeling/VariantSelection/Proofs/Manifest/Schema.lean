/-
The registry that a valid manifest describes.

A valid manifest declares no attribute twice and lists none twice in its precedence
(`Manifest.nodup_of_valid`), so nothing that it declares itself can be in the way of
anything else that it declares.  What remains to go wrong is found without building
anything (`SchemaSpec.Buildable`): in the descriptors one by one, where a
declared attribute meets a standard one, and in the precedence by looking at the names.
Likewise everything in the registry can be told from the schema
(`SchemaSpec.Describes`).
-/
import VariantSelection.Manifest.Schema
import VariantSelection.Proofs.Registry.Declaration
import VariantSelection.Proofs.Registry.Refusal
import VariantSelection.Proofs.Standard

namespace VariantSelection

/-! ### What is valid -/

theorem nodup_of_firstRepeated? (names : List String) :
    ∀ {seen}, firstRepeated? seen names = none → names.Nodup ∧ ∀ name ∈ names, name ∉ seen := by
  induction names with
  | nil =>
      intro seen _
      exact ⟨List.nodup_nil, List.forall_mem_nil _⟩
  | cons name rest ih =>
      intro seen h
      unfold firstRepeated? at h
      by_cases hseen : name ∈ seen
      · rw [if_pos hseen] at h
        cases h
      · rw [if_neg hseen] at h
        obtain ⟨hnodup, hrest⟩ := ih h
        refine ⟨List.nodup_cons.mpr ⟨fun hname => hrest name hname List.mem_cons_self, hnodup⟩,
          List.forall_mem_cons.mpr ⟨hseen, fun other hother hmem => ?_⟩⟩
        exact hrest other hother (List.mem_cons_of_mem _ hmem)

theorem Manifest.nodup_of_valid {m : Manifest} (hvalid : m.fault? = none) :
    m.schema.precedence.Nodup ∧ (m.schema.attributes.map Descriptor.name).Nodup := by
  unfold fault? at hvalid
  split at hvalid
  · cases hvalid
  · split at hvalid
    · cases hvalid
    case _ hprecedence =>
      split at hvalid
      · cases hvalid
      case _ hattributes =>
        exact ⟨(nodup_of_firstRepeated? _ hprecedence).1, (nodup_of_firstRepeated? _ hattributes).1⟩

namespace SchemaSpec

/-! ### What a schema asks for

Both `Buildable` and `Describes` look at the schema and at names only.  A registry
occurs in the second one as the thing that is described.
-/

section
variable (s : SchemaSpec)

/-- The definitions of the standard attributes, if these are among the known ones. -/
def standardDefinitions : List Definition :=
  if s.standard then Standard.definitions else []

def standardNames : List String := s.standardDefinitions.map Definition.name

def standardPrecedence : List String :=
  if s.standard then Standard.precedence else []

/-- The standard definition of `name`. -/
def standard? (name : String) : Option Definition :=
  s.standardDefinitions.find? fun d => d.name == name

def declaredNames : List String := s.attributes.map Descriptor.name

/-- The descriptor that declares `name`. -/
def declared? (name : String) : Option Descriptor :=
  s.attributes.find? fun d => d.name == name

/-- Nothing in the schema stands in the way of a registry. -/
structure Buildable : Prop where
  rules : ∀ d ∈ s.attributes, ∃ rules, d.rules = .ok rules
  /-- An attribute that is a standard one too is declared with the type of that. -/
  types : ∀ d ∈ s.attributes, ∀ known, s.standard? d.name = some known → known.type = d.type
  precedence : ∀ name ∈ s.precedence, name ∈ s.standardNames ∨ name ∈ s.declaredNames

/-- The registry is what the schema asks for: of every name it has what the descriptor
says, or else what the standard attribute has, or else what an unknown one has. -/
structure Describes (r : Registry) : Prop where
  names : r.names
    = s.standardNames ++ s.declaredNames.filter fun name => !s.standardNames.contains name
  type : ∀ name, r.typeOf name
    = (((s.declared? name).map Descriptor.type).or
        ((s.standard? name).map Definition.type)).getD .string
  compatibility : ∀ name, r.compatibilityRule name
    = (((s.declared? name).bind fun d => d.given.1).or
        ((s.standard? name).map Definition.compatibility)).getD .exact
  disambiguation : ∀ name, r.disambiguationRule name
    = (((s.declared? name).bind fun d => d.given.2).or
        ((s.standard? name).map Definition.disambiguation)).getD .noPreference
  precedence : r.precedence = if s.precedence.isEmpty then s.standardPrecedence else s.precedence

end

/-! ### The stages of the construction

A registry is made in three stages: `start` has the standard attributes, the
declared ones come next, and `finish` takes their precedence.  Each stage is
inverted here, so the construction as a whole need not be opened again.
-/

/-- The registry to which `s.attributes` are declared: it has the standard
attributes, if the schema asks for them, and nothing else. -/
structure Starts (s : SchemaSpec) (r : Registry) : Prop where
  definitions : r.definitions = s.standardDefinitions
  precedence : r.precedence = s.standardPrecedence

/-- The first stage: the standard attributes, or nothing. -/
def start (s : SchemaSpec) : Except AttributeError Registry :=
  if s.standard then Registry.standard else .ok Registry.empty

/-- The last stage: the declared precedence takes the place of the standard one. -/
def finish (s : SchemaSpec) (declared : Registry) : Except AttributeError Registry :=
  if s.precedence.isEmpty then .ok declared else declared.declarePrecedence s.precedence

section
variable {s : SchemaSpec} {start declared r : Registry} {name : String}

theorem exists_starts (s : SchemaSpec) : ∃ r, s.start = .ok r ∧ s.Starts r := by
  unfold SchemaSpec.start
  by_cases hstandard : s.standard = true
  · obtain ⟨r, hr, hdefinitions, hprecedence⟩ := Standard.registry_eq
    refine ⟨r, by rw [if_pos hstandard, hr], ?_, ?_⟩
    · rw [standardDefinitions, if_pos hstandard, hdefinitions]
    · rw [standardPrecedence, if_pos hstandard, hprecedence]
  · refine ⟨Registry.empty, if_neg hstandard, ?_, ?_⟩
    · rw [standardDefinitions, if_neg hstandard]
      rfl
    · rw [standardPrecedence, if_neg hstandard]
      rfl

theorem Starts.names (hstart : s.Starts start) : start.names = s.standardNames := by
  rw [Registry.names, hstart.definitions, standardNames]

theorem Starts.find? (hstart : s.Starts start) (name : String) :
    start.find? name = s.standard? name := by
  rw [Registry.find?, hstart.definitions, standard?]

/-- What is declared is known in the end, and nothing else that is not a
standard attribute. -/
theorem Starts.mem_names_iff (hstart : s.Starts start) (hnodup : s.declaredNames.Nodup)
    (hdeclared : s.attributes.foldlM Registry.declare start = .ok declared) :
    name ∈ declared.names ↔ name ∈ s.standardNames ∨ name ∈ s.declaredNames := by
  rw [Registry.names_foldlM_declare hnodup hdeclared, hstart.names]
  by_cases hstandard : name ∈ s.standardNames
  · simp [hstandard]
  · simp [hstandard, declaredNames]

theorem finish_succeeds_iff (hnodup : s.precedence.Nodup) :
    (∃ r, s.finish declared = .ok r) ↔ ∀ name ∈ s.precedence, name ∈ declared.names := by
  unfold finish
  by_cases hempty : s.precedence.isEmpty = true
  · rw [if_pos hempty, List.isEmpty_iff.mp hempty]
    exact iff_of_true ⟨declared, rfl⟩ (List.forall_mem_nil _)
  · rw [if_neg hempty]
    exact declared.declarePrecedence_succeeds_iff hnodup

theorem failsWith_finish (hnodup : s.precedence.Nodup) :
    FailsWith (fun e => ∀ name, e ≠ .invalidPrecedence name .repeated) (s.finish declared) := by
  unfold finish
  by_cases hempty : s.precedence.isEmpty = true
  · rw [if_pos hempty]
    exact failsWith_ok _
  · rw [if_neg hempty]
    exact declared.failsWith_declarePrecedence_of_nodup hnodup

theorem definitions_of_finish (h : s.finish declared = .ok r) :
    r.definitions = declared.definitions := by
  unfold finish at h
  by_cases hempty : s.precedence.isEmpty = true
  · rw [if_pos hempty, Except.ok.injEq] at h
    rw [h]
  · rw [if_neg hempty] at h
    exact Registry.definitions_of_declarePrecedence h

theorem precedence_of_finish (h : s.finish declared = .ok r) :
    r.precedence = if s.precedence.isEmpty then declared.precedence else s.precedence := by
  unfold finish at h
  by_cases hempty : s.precedence.isEmpty = true
  · rw [if_pos hempty, Except.ok.injEq] at h
    rw [if_pos hempty, h]
  · rw [if_neg hempty] at h
    rw [if_neg hempty, Registry.precedence_of_declarePrecedence h]

/-! ### What is built

The stages are put together name by name: `definition?` is what a name has in
the end, and the rules and the type of a name follow from it.
-/

/-- The definition of `name` that a schema amounts to. -/
def definition? (s : SchemaSpec) (name : String) : Option Definition :=
  match s.declared? name with
  | some d => some (d.definition (s.standard? name))
  | none => s.standard? name

theorem Starts.find?_of_finish (hstart : s.Starts start) (hnodup : s.declaredNames.Nodup)
    (hdeclared : s.attributes.foldlM Registry.declare start = .ok declared)
    (hr : s.finish declared = .ok r) (name : String) : r.find? name = s.definition? name := by
  have hfound := Registry.find?_foldlM_declare hnodup hdeclared name
  rw [hstart.find?] at hfound
  rw [Registry.find?, definitions_of_finish hr]
  exact hfound

theorem Buildable.typeOf (hbuildable : s.Buildable) (hfind : r.find? name = s.definition? name) :
    r.typeOf name
      = (((s.declared? name).map Descriptor.type).or
          ((s.standard? name).map Definition.type)).getD .string := by
  rw [Registry.typeOf, hfind, definition?]
  cases hdeclared : s.declared? name with
  | none => cases s.standard? name <;> rfl
  | some d =>
      cases hstandard : s.standard? name with
      | none => rfl
      | some known =>
          have hname : d.name = name := by simpa using List.find?_some hdeclared
          exact hbuildable.types d (List.mem_of_find?_eq_some hdeclared) known
            (hname ▸ hstandard)

theorem compatibilityRule_of_find? (hfind : r.find? name = s.definition? name) :
    r.compatibilityRule name
      = (((s.declared? name).bind fun d => d.given.1).or
          ((s.standard? name).map Definition.compatibility)).getD .exact := by
  rw [Registry.compatibilityRule, hfind, definition?]
  cases s.declared? name with
  | none => cases s.standard? name <;> rfl
  | some d => exact d.compatibility_definition (s.standard? name)

theorem disambiguationRule_of_find? (hfind : r.find? name = s.definition? name) :
    r.disambiguationRule name
      = (((s.declared? name).bind fun d => d.given.2).or
          ((s.standard? name).map Definition.disambiguation)).getD .noPreference := by
  rw [Registry.disambiguationRule, hfind, definition?]
  cases s.declared? name with
  | none => cases s.standard? name <;> rfl
  | some d => exact d.disambiguation_definition (s.standard? name)

theorem Buildable.describes (hbuildable : s.Buildable) (hstart : s.Starts start)
    (hnodup : s.declaredNames.Nodup)
    (hdeclared : s.attributes.foldlM Registry.declare start = .ok declared)
    (hr : s.finish declared = .ok r) : s.Describes r where
  names := by
    rw [Registry.names, definitions_of_finish hr, ← hstart.names]
    exact Registry.names_foldlM_declare hnodup hdeclared
  type := fun name => hbuildable.typeOf (hstart.find?_of_finish hnodup hdeclared hr name)
  compatibility := fun name =>
    compatibilityRule_of_find? (hstart.find?_of_finish hnodup hdeclared hr name)
  disambiguation := fun name =>
    disambiguationRule_of_find? (hstart.find?_of_finish hnodup hdeclared hr name)
  precedence := by
    rw [precedence_of_finish hr, Registry.precedence_foldlM_declare hdeclared, hstart.precedence]

/-- A schema is buildable if its attributes can be declared over the standard ones
and its precedence lists what is known then. -/
theorem Starts.buildable_iff (hstart : s.Starts start) (hnodup : s.declaredNames.Nodup)
    (hprecedence : s.precedence.Nodup) :
    s.Buildable ↔ ∃ declared, s.attributes.foldlM Registry.declare start = .ok declared ∧
      ∃ r, s.finish declared = .ok r := by
  constructor
  · intro hbuildable
    have hcan : ∀ d ∈ s.attributes, start.CanDeclare d := by
      intro d hd
      refine ⟨hbuildable.rules d hd, ?_⟩
      rw [hstart.find?]
      exact hbuildable.types d hd
    obtain ⟨declared, hdeclared⟩ := (Registry.foldlM_declare_succeeds_iff hnodup).mpr hcan
    refine ⟨declared, hdeclared, (finish_succeeds_iff hprecedence).mpr fun name hname => ?_⟩
    exact (hstart.mem_names_iff hnodup hdeclared).mpr (hbuildable.precedence name hname)
  · rintro ⟨declared, hdeclared, hr⟩
    have hcan := (Registry.foldlM_declare_succeeds_iff hnodup).mp ⟨declared, hdeclared⟩
    refine ⟨fun d hd => (hcan d hd).rules, fun d hd => ?_, fun name hname => ?_⟩
    · rw [← hstart.find?]
      exact (hcan d hd).type
    · exact (hstart.mem_names_iff hnodup hdeclared).mp
        ((finish_succeeds_iff hprecedence).mp hr name hname)

end

end SchemaSpec

/-! ### The registry -/

namespace Manifest

variable {m : Manifest}

theorem registry_eq (m : Manifest) :
    m.registry = m.schema.start >>= fun start =>
      m.schema.attributes.foldlM Registry.declare start >>= m.schema.finish := by
  unfold registry SchemaSpec.start
  by_cases hstandard : m.schema.standard = true
  · simp only [if_pos hstandard]
    rfl
  · simp only [if_neg hstandard]
    rfl

/-- **A valid manifest gives a registry unless its schema cannot be built, and then
exactly what the schema asks for.**  Whether it can be built is said of the
descriptors and names alone, and its precedence is never refused because something
is in it twice. -/
theorem registry_of_valid (hvalid : m.fault? = none) :
    ((∃ r, m.registry = .ok r) ↔ m.schema.Buildable) ∧
    (∀ name, m.registry ≠ .error (.invalidPrecedence name .repeated)) ∧
    ∀ r, m.registry = .ok r → m.schema.Describes r := by
  obtain ⟨hprecedence, hnodup⟩ := nodup_of_valid hvalid
  obtain ⟨start, hok, hstart⟩ := m.schema.exists_starts
  have hbuildable := hstart.buildable_iff hnodup hprecedence
  rw [registry_eq, hok, ok_bind]
  refine ⟨?_, fun name h => ?_, fun r hr => ?_⟩
  · rw [hbuildable]
    simp only [bind_eq_ok]
    exact ⟨fun ⟨r, declared, hdeclared, hr⟩ => ⟨declared, hdeclared, r, hr⟩,
      fun ⟨declared, hdeclared, r, hr⟩ => ⟨r, declared, hdeclared, hr⟩⟩
  · have hdeclarations : FailsWith (fun e => ∀ name, e ≠ .invalidPrecedence name .repeated)
        (m.schema.attributes.foldlM Registry.declare start) := by
      refine (FailsWith.foldlM Registry.failsWith_declare m.schema.attributes start).mono ?_
      rintro e he name rfl
      exact he
    exact hdeclarations.bind (fun _ => SchemaSpec.failsWith_finish hprecedence) _ h name rfl
  · obtain ⟨declared, hdeclared, hfinish⟩ := bind_eq_ok.mp hr
    have hable := hbuildable.mpr ⟨declared, hdeclared, r, hfinish⟩
    exact hable.describes hstart hnodup hdeclared hfinish

end Manifest

namespace Sample

/-- Of the Java version the highest is preferred, and the colour comes before it. -/
def paint : Manifest :=
  { project := { name := "app" }
    schema :=
      { precedence := ["colour", Standard.jvmVersion]
        attributes :=
          [{ name := Standard.jvmVersion, type := .integer, disambiguation := some .preferHighest },
           { name := "colour", type := .string, disambiguation := some .ordered
             preferred := Standard.strings ["red", "green"] }] } }

end Sample

/-- The declared preference takes the place of the standard one, and the standard
compatibility stays. -/
theorem Manifest.registry_of_valid_paint : Sample.paint.fault? = none ∧
    Sample.paint.schema.Buildable ∧
    ∃ r, Sample.paint.registry = .ok r ∧ Sample.paint.schema.Describes r ∧
      r.names = Standard.definitions.map Definition.name ++ ["colour"] ∧
      r.compatibilityRule Standard.jvmVersion = .atLeast ∧
      r.disambiguationRule Standard.jvmVersion = .preferHighest ∧
      r.precedence = ["colour", Standard.jvmVersion] := by
  have hvalid : Sample.paint.fault? = none := by decide
  obtain ⟨hbuildable, -, hdescribes⟩ := registry_of_valid hvalid
  have hregistry : ∃ r, Sample.paint.registry = .ok r := ⟨_, rfl⟩
  obtain ⟨r, hr⟩ := hregistry
  have hr' := hdescribes r hr
  refine ⟨hvalid, hbuildable.mp ⟨r, hr⟩, r, hr, hr', ?_, ?_, ?_, ?_⟩
  · rw [hr'.names]
    decide
  · rw [hr'.compatibility]
    rfl
  · rw [hr'.disambiguation]
    rfl
  · rw [hr'.precedence]
    rfl

end VariantSelection
