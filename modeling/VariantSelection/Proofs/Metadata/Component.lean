/-
Which module metadata is accepted, and what becomes of it.

`IsDocument` says which documents stand in JSON trees, and the entries of a document
keep their scalars as they stand there; `AttributeEntry.StandsFor` says which value
such a scalar stands for.  Everything that can be wrong with a document can be
listed in the order in which it stands there, without converting anything: of a
variant first its own attributes, then those of its secondary variants, then its
name, for which only the names before it matter.  Reading stops at the first fault
of the list (`Document.reports_component`), so a document is accepted where the list
is empty (`Document.faults_eq_nil_iff`).  Then every variant of the document has
become one of the component, at the same place (`Document.describes_component`).
-/
import VariantSelection.Metadata.Component
import VariantSelection.Proofs.Component
import VariantSelection.Proofs.Metadata.Document
import VariantSelection.Proofs.Registry

namespace VariantSelection

namespace Metadata

/-! ### What a document needs

None of this looks at how a document is read: a scalar `StandsFor` a value, and
whether that converts is asked of the registry.
-/

/-- The value that a scalar stands for before its type is known.  A number is an
integer where it is a signed one of 64 bits, and otherwise its text. -/
inductive AttributeEntry.StandsFor : AttributeEntry → Value → Prop
  | string (s : String) : StandsFor (.string s) (.string s)
  | boolean (b : Bool) : StandsFor (.boolean b) (.boolean b)
  | integer (n : Int64) : StandsFor (.number (.integer n)) (.integer n)
  | large (n : UInt64) : StandsFor (.number (.large n)) (.string (toString n.toNat))
  | real (x : Float) : StandsFor (.number (.real x)) (.string (doubleText x))

/-- Every value can be an attribute's, and is one of the registered type or can be
converted to it. -/
def Convertible (r : Registry) (entries : SortedMap String AttributeEntry) : Prop :=
  ∀ name entry, entries.get? name = some entry →
    ∃ wire value, entry.StandsFor wire ∧ r.coerce name wire = .ok value

/-- The document is of a version that is understood, its attributes have values of
their types, and no two variants have one name. -/
structure Document.Acceptable (d : Document) (r : Registry) : Prop where
  format : ∃ rest, d.formatVersion = "1." ++ rest
  own : ∀ v ∈ d.variants, Convertible r v.attributes
  secondary : ∀ v ∈ d.variants, ∀ s ∈ v.secondary, Convertible r s.attributes
  names_nodup : (d.variants.map VariantEntry.name).Nodup

/-! ### What becomes of it

`Describes` relates each part of a document to the part of the component that it
becomes, field by field.
-/

/-- The attributes are those of the document, each value converted. -/
def Converts (r : Registry) (entries : SortedMap String AttributeEntry) (set : AttributeSet) :
    Prop :=
  ∀ name value, set.get? name = some value ↔ ∃ entry wire,
    entries.get? name = some entry ∧ entry.StandsFor wire ∧ r.coerce name wire = .ok value

/-- The dependency has the version that the nested one requires, and none if that
requires none. -/
structure DependencyEntry.Describes (e : DependencyEntry) (d : Dependency) : Prop where
  group : d.group = e.group
  name : d.name = e.name
  version : ∀ required, d.version = some required ↔
    ∃ version, e.version = some version ∧ version.requires = some required

structure SecondaryEntry.Describes (e : SecondaryEntry) (r : Registry) (s : SecondaryVariant) :
    Prop where
  name : s.name = e.name
  attributes : Converts r e.attributes s.attributes
  artifacts : s.artifacts = e.files.map fun f => ⟨f.name, f.url⟩

/-- The variant is the one of the entry, for a component with this coordinate. -/
structure VariantEntry.Describes (e : VariantEntry) (r : Registry) (id : Coordinate) (v : Variant) :
    Prop where
  name : v.name = e.name
  attributes : Converts r e.attributes v.attributes
  /-- What is declared, or what the component is itself. -/
  capabilities : ∀ capability, capability ∈ v.capabilities ↔
    if e.capabilities = [] then capability = ⟨id.group, id.name, id.version⟩
    else ∃ declared ∈ e.capabilities,
      capability = ⟨declared.group, declared.name, declared.version⟩
  artifacts : v.artifacts = e.files.map fun f => ⟨f.name, f.url⟩
  dependencies : List.Forall₂ (fun e d => e.Describes d) e.dependencies v.dependencies
  secondary : List.Forall₂ (fun e s => e.Describes r s) e.secondary v.secondary

/-- The component has a variant for each one of the document, in its order, and each
is as `VariantEntry.Describes` asks for. -/
structure Document.Describes (d : Document) (r : Registry) (c : Component) : Prop where
  id : c.id = ⟨d.group, d.name, d.version⟩
  source : c.source = .moduleMetadata
  variants : List.Forall₂ (fun e v => e.Describes r c.id v) d.variants c.variants

/-! ### Faults

What is wrong with a document is listed without reading it: attribute by attribute,
and then variant by variant in the order of the document.
-/

/-- What is wrong with a value that an attribute's entry stands for. -/
def typeFault? (path variant : String) (r : Registry) (name : String) (wire : Value) :
    Option MetadataError :=
  (r.misfit? name wire).map (.illTypedAttribute path variant)

/-- What is wrong with the value of an attribute: that it is no scalar, or that what
it stands for is not of the type. -/
def AttributeEntry.fault? (path variant : String) (r : Registry) (name : String) :
    AttributeEntry → Option MetadataError
  | .nonScalar => some (.nonScalarAttribute path variant name)
  | .string s => typeFault? path variant r name (.string s)
  | .boolean b => typeFault? path variant r name (.boolean b)
  | .number (.integer n) => typeFault? path variant r name (.integer n)
  | .number (.large n) => typeFault? path variant r name (.string (toString n.toNat))
  | .number (.real x) => typeFault? path variant r name (.string (doubleText x))

/-- The faults of attributes, by name. -/
def attributeFaults (path variant : String) (r : Registry)
    (entries : SortedMap String AttributeEntry) : List MetadataError :=
  entries.entries.filterMap fun e => e.2.fault? path variant r e.1

/-- The faults of a variant's own attributes, then those of its secondary variants,
which are named behind it. -/
def VariantEntry.faults (v : VariantEntry) (path : String) (r : Registry) : List MetadataError :=
  attributeFaults path v.name r v.attributes
    ++ v.secondary.flatMap fun s => attributeFaults path s!"{v.name}/{s.name}" r s.attributes

/-- The fault of a name that stands among the earlier ones. -/
def nameFaults (id : Coordinate) (earlier : List String) (name : String) : List MetadataError :=
  if name ∈ earlier then [.duplicateVariant ⟨id, name⟩] else []

/-- The faults of variants, one variant after another. -/
def variantFaults (path : String) (r : Registry) (id : Coordinate) (earlier : List String) :
    List VariantEntry → List MetadataError
  | [] => []
  | v :: rest =>
    (v.faults path r ++ nameFaults id earlier v.name)
      ++ variantFaults path r id (earlier ++ [v.name]) rest

/-- The faults of a document, in the order in which they are met. -/
def Document.faults (d : Document) (path : String) (r : Registry) : List MetadataError :=
  (if isSupported d.formatVersion then [] else [.unsupportedFormat path d.formatVersion])
    ++ variantFaults path r ⟨d.group, d.name, d.version⟩ [] d.variants

/-! ### What scalars stand for -/

section
variable {path : String} {r : Registry} {entry : AttributeEntry} {wire : Value}

theorem AttributeEntry.value?_eq_some_iff : entry.value? = some wire ↔ entry.StandsFor wire := by
  constructor
  · intro h
    cases entry with
    | string s => exact Option.some.inj h ▸ .string s
    | boolean b => exact Option.some.inj h ▸ .boolean b
    | nonScalar => cases h
    | number n =>
        cases n with
        | integer n => exact Option.some.inj h ▸ .integer n
        | large n => exact Option.some.inj h ▸ .large n
        | real x => exact Option.some.inj h ▸ .real x
  · intro h
    cases h <;> rfl

/-- Only what is no scalar stands for nothing. -/
theorem AttributeEntry.value?_eq_none_iff : entry.value? = none ↔ entry = .nonScalar := by
  cases entry with
  | string | boolean | number => simp [value?]
  | nonScalar => simp [value?]

theorem AttributeEntry.fault?_of_standsFor {variant name : String} (h : entry.StandsFor wire) :
    entry.fault? path variant r name = typeFault? path variant r name wire := by
  cases h <;> rfl

end

/-! ### Reading stops at the first fault

`reports_typed` is about a single value, and from there `Reports.bind` and its like
carry the statement through attributes, variants and the whole document.
-/

section
variable {path : String} {r : Registry} {c next : Component} {v : Variant}

theorem reports_typed (variant name : String) (entry : AttributeEntry) :
    Reports (entry.fault? path variant r name).toList (entry.typed path variant r name) := by
  unfold AttributeEntry.typed
  cases hvalue : entry.value? with
  | none =>
      rw [AttributeEntry.value?_eq_none_iff.mp hvalue]
      exact reports_error _ []
  | some wire =>
      rw [AttributeEntry.fault?_of_standsFor (AttributeEntry.value?_eq_some_iff.mp hvalue),
        typeFault?, Option.toList_map]
      exact (r.reports_coerce name wire).mapError (MetadataError.illTypedAttribute path variant)

theorem reports_typedAttributes (variant : String) (entries : SortedMap String AttributeEntry) :
    Reports (attributeFaults path variant r entries) (typedAttributes path variant r entries) := by
  unfold attributeFaults
  rw [List.filterMap_eq_flatMap_toList]
  exact SortedMap.reports_traverse (reports_typed variant) entries

theorem reports_variant (e : VariantEntry) : Reports (e.faults path r) (e.variant path r) := by
  refine (reports_typedAttributes e.name e.attributes).bind fun attributes _ => ?_
  refine Reports.bind_pure (Reports.mapM (fun s => ?_) e.secondary) _
  exact (reports_typedAttributes _ s.attributes).bind_pure _

theorem reports_addVariant :
    Reports (nameFaults c.id c.variantNames v.name)
      ((c.addVariant v).mapError MetadataError.duplicateVariant) := by
  unfold nameFaults Component.addVariant
  by_cases htaken : v.name ∈ c.variantNames
  · rw [if_pos htaken, if_pos htaken]
    exact reports_error _ []
  · rw [if_neg htaken, if_neg htaken]
    exact reports_ok _

theorem name_variant {e : VariantEntry} (h : e.variant path r = .ok v) : v.name = e.name := by
  unfold VariantEntry.variant at h
  simp only [bind_eq_ok, pure_eq_ok] at h
  obtain ⟨_, -, _, -, rfl⟩ := h
  rfl

theorem reports_addEntry (e : VariantEntry) :
    Reports (e.faults path r ++ nameFaults c.id c.variantNames e.name) (addEntry path r c e) := by
  refine (reports_variant e).bind fun v hv => ?_
  rw [← name_variant hv]
  exact reports_addVariant

theorem addEntry_eq_ok {e : VariantEntry} (h : addEntry path r c e = .ok next) :
    ∃ v, e.variant path r = .ok v ∧
      next = { c with variants := c.variants ++ [c.completed v] } := by
  unfold addEntry at h
  simp only [bind_eq_ok, mapError_eq_ok] at h
  obtain ⟨v, hv, hadd⟩ := h
  exact ⟨v, hv, Component.addVariant_eq_ok hadd⟩

theorem variantNames_addEntry {e : VariantEntry} (h : addEntry path r c e = .ok next) :
    next.variantNames = c.variantNames ++ [e.name] := by
  obtain ⟨v, hv, rfl⟩ := addEntry_eq_ok h
  simp [Component.variantNames, name_variant hv]

/-- The names that matter for a variant are those that the component has by then, so
the induction is for any `c`. -/
theorem reports_foldlM_addEntry (entries : List VariantEntry) :
    ∀ c : Component, Reports (variantFaults path r c.id c.variantNames entries)
      (entries.foldlM (addEntry path r) c) := by
  induction entries with
  | nil => exact reports_ok
  | cons e rest ih =>
      intro c
      rw [List.foldlM_cons]
      refine (reports_addEntry e).bind fun next hnext => ?_
      have hid : next.id = c.id := by
        obtain ⟨v, -, rfl⟩ := addEntry_eq_ok hnext
        rfl
      rw [← hid, ← variantNames_addEntry hnext]
      exact ih next

theorem Document.reports_component (d : Document) :
    Reports (d.faults path r) (d.component path r) := by
  unfold Document.faults Document.component
  by_cases hformat : isSupported d.formatVersion = true
  · rw [if_pos hformat, if_pos hformat]
    exact reports_foldlM_addEntry d.variants _
  · rw [if_neg hformat, if_neg hformat]
    exact reports_error _ _

end

/-! ### No faults

The faults of a part are none exactly where it is acceptable, which is how the
conditions of the first section come out of the lists.
-/

section
variable {path : String} {r : Registry}

theorem isSupported_iff {version : String} :
    isSupported version = true ↔ ∃ rest, version = "1." ++ rest := by
  unfold isSupported
  rw [List.isPrefixOf_iff_prefix]
  constructor
  · rintro ⟨rest, hrest⟩
    refine ⟨String.ofList rest, ?_⟩
    rw [← String.ofList_toList (s := version), ← hrest, String.ofList_append]
  · rintro ⟨rest, rfl⟩
    exact ⟨rest.toList, by rw [String.toList_append]; rfl⟩

theorem typeFault?_eq_none_iff {variant name : String} {wire : Value} :
    typeFault? path variant r name wire = none ↔ ∃ value, r.coerce name wire = .ok value := by
  rw [typeFault?, Option.map_eq_none_iff, Registry.misfit?_eq_none_iff]

theorem AttributeEntry.fault?_eq_none_iff {variant name : String} {entry : AttributeEntry} :
    entry.fault? path variant r name = none ↔
      ∃ wire value, entry.StandsFor wire ∧ r.coerce name wire = .ok value := by
  constructor
  · intro h
    cases hvalue : entry.value? with
    | none =>
        rw [value?_eq_none_iff.mp hvalue] at h
        cases h
    | some wire =>
        have hwire := value?_eq_some_iff.mp hvalue
        rw [fault?_of_standsFor hwire, typeFault?_eq_none_iff] at h
        obtain ⟨value, hcoerce⟩ := h
        exact ⟨wire, value, hwire, hcoerce⟩
  · rintro ⟨wire, value, hwire, hcoerce⟩
    rw [fault?_of_standsFor hwire, typeFault?_eq_none_iff]
    exact ⟨value, hcoerce⟩

theorem attributeFaults_eq_nil_iff {variant : String} {entries : SortedMap String AttributeEntry} :
    attributeFaults path variant r entries = [] ↔ Convertible r entries := by
  unfold attributeFaults Convertible
  simp only [List.filterMap_eq_nil_iff, Prod.forall, AttributeEntry.fault?_eq_none_iff,
    SortedMap.get?_eq_some_iff]

theorem VariantEntry.faults_eq_nil_iff {v : VariantEntry} :
    v.faults path r = [] ↔
      Convertible r v.attributes ∧ ∀ s ∈ v.secondary, Convertible r s.attributes := by
  simp only [faults, List.append_eq_nil_iff, List.flatMap_eq_nil_iff, attributeFaults_eq_nil_iff]

theorem nameFaults_eq_nil_iff {id : Coordinate} {earlier : List String} {name : String} :
    nameFaults id earlier name = [] ↔ name ∉ earlier := by
  unfold nameFaults
  by_cases htaken : name ∈ earlier
  · simp [htaken]
  · simp [htaken]

theorem variantFaults_eq_nil_iff {id : Coordinate} (entries : List VariantEntry) :
    ∀ {earlier : List String}, variantFaults path r id earlier entries = [] ↔
      (∀ v ∈ entries, v.faults path r = []) ∧
        (entries.map VariantEntry.name).Nodup ∧ ∀ v ∈ entries, v.name ∉ earlier := by
  induction entries with
  | nil => simp [variantFaults]
  | cons v rest ih =>
      intro earlier
      simp only [variantFaults, List.append_eq_nil_iff, nameFaults_eq_nil_iff, ih,
        List.forall_mem_cons, List.map_cons, List.nodup_cons, List.mem_append, List.mem_singleton,
        not_or, List.mem_map, not_exists, not_and]
      constructor
      · rintro ⟨⟨hv, hfresh⟩, hrest, hnodup, hothers⟩
        exact ⟨⟨hv, hrest⟩, ⟨fun w hw => (hothers w hw).2, hnodup⟩, hfresh,
          fun w hw => (hothers w hw).1⟩
      · rintro ⟨⟨hv, hrest⟩, ⟨hname, hnodup⟩, hfresh, hothers⟩
        exact ⟨⟨hv, hfresh⟩, hrest, hnodup, fun w hw => ⟨hothers w hw, hname w hw⟩⟩

theorem Document.faults_eq_nil_iff {d : Document} : d.faults path r = [] ↔ d.Acceptable r := by
  have hformat : (if isSupported d.formatVersion then []
      else [MetadataError.unsupportedFormat path d.formatVersion]) = []
        ↔ ∃ rest, d.formatVersion = "1." ++ rest := by
    rw [← isSupported_iff]
    by_cases hsupported : isSupported d.formatVersion = true
    · simp [hsupported]
    · simp [hsupported]
  rw [faults, List.append_eq_nil_iff, hformat, variantFaults_eq_nil_iff]
  simp only [VariantEntry.faults_eq_nil_iff]
  constructor
  · rintro ⟨hversion, hconvertible, hnodup, -⟩
    exact ⟨hversion, fun v hv => (hconvertible v hv).1, fun v hv => (hconvertible v hv).2, hnodup⟩
  · rintro ⟨hversion, hown, hsecondary, hnodup⟩
    exact ⟨hversion, fun v hv => ⟨hown v hv, hsecondary v hv⟩, hnodup, fun _ _ => List.not_mem_nil⟩

end

/-! ### Texts that are no documents

No fault of a document is that it is malformed, so this is told of other texts only.
-/

section
variable {path other : String} {r : Registry}

theorem malformed_not_mem_attributeFaults {variant : String}
    {entries : SortedMap String AttributeEntry} :
    .malformed other ∉ attributeFaults path variant r entries := by
  intro h
  obtain ⟨e, -, hfault⟩ := List.mem_filterMap.mp h
  have htype : ∀ wire, typeFault? path variant r e.1 wire ≠ some (.malformed other) := by
    intro wire
    simp [typeFault?]
  unfold AttributeEntry.fault? at hfault
  split at hfault
  · simp at hfault
  all_goals exact htype _ hfault

theorem malformed_not_mem_variantFaults {id : Coordinate} (entries : List VariantEntry) :
    ∀ {earlier : List String}, .malformed other ∉ variantFaults path r id earlier entries := by
  induction entries with
  | nil => exact List.not_mem_nil
  | cons v rest ih =>
      intro earlier
      simp only [variantFaults, VariantEntry.faults, List.mem_append, List.mem_flatMap,
        malformed_not_mem_attributeFaults, ih, and_false, exists_false, or_false, false_or]
      unfold nameFaults
      split <;> simp

theorem Document.malformed_not_mem_faults (d : Document) : .malformed other ∉ d.faults path r := by
  rw [faults, List.mem_append, not_or]
  refine ⟨?_, malformed_not_mem_variantFaults d.variants⟩
  split <;> simp

theorem readText_eq_malformed_iff {text : String} :
    readText text path r = .error (.malformed path) ↔ Document.parse? text = none := by
  unfold readText
  cases Document.parse? text with
  | none => simp
  | some d =>
      simp only [reduceCtorEq, iff_false]
      intro h
      exact d.malformed_not_mem_faults (List.mem_of_mem_head? ((d.reports_component _).mp h))

end

/-! ### What is kept

The way back: what the component has is what some entry of the document says.
-/

section
variable {path : String} {r : Registry} {c d : Component}

theorem AttributeEntry.typed_eq_ok_iff {variant name : String} {entry : AttributeEntry}
    {value : Value} :
    entry.typed path variant r name = .ok value ↔
      ∃ wire, entry.StandsFor wire ∧ r.coerce name wire = .ok value := by
  simp only [typed, ← value?_eq_some_iff]
  cases entry.value? with
  | none => simp
  | some wire => simp [mapError_eq_ok]

theorem converts_of_typedAttributes {variant : String} {entries : SortedMap String AttributeEntry}
    {set : AttributeSet} (h : typedAttributes path variant r entries = .ok set) :
    Converts r entries set := by
  intro name value
  rw [SortedMap.get?_traverse_iff h]
  simp only [AttributeEntry.typed_eq_ok_iff, exists_and_left]

theorem DependencyEntry.describes_dependency (e : DependencyEntry) : e.Describes e.dependency := by
  refine ⟨rfl, rfl, fun required => ?_⟩
  rw [dependency, Option.bind_eq_some_iff]

theorem SecondaryEntry.describes_of_secondaryVariant {e : SecondaryEntry} {owner : String}
    {s : SecondaryVariant} (h : e.secondaryVariant path owner r = .ok s) : e.Describes r s := by
  unfold secondaryVariant at h
  simp only [bind_eq_ok, pure_eq_ok] at h
  obtain ⟨attributes, hattributes, rfl⟩ := h
  exact ⟨rfl, converts_of_typedAttributes hattributes, rfl⟩

theorem VariantEntry.describes_of_variant {e : VariantEntry} {v : Variant}
    (h : e.variant path r = .ok v) (c : Component) : e.Describes r c.id (c.completed v) := by
  unfold variant at h
  simp only [bind_eq_ok, pure_eq_ok] at h
  obtain ⟨attributes, hattributes, secondary, hsecondary, rfl⟩ := h
  refine ⟨c.name_completed _, ?_, fun capability => ?_, c.artifacts_completed _, ?_, ?_⟩
  · rw [Component.attributes_completed]
    exact converts_of_typedAttributes hattributes
  · rw [c.mem_capabilities_completed _ rfl]
    simp only [List.map_eq_nil_iff, List.mem_map, eq_comm (b := capability)]
    rfl
  · rw [Component.dependencies_completed]
    exact forall₂_map_of_forall fun d _ => d.describes_dependency
  · rw [Component.secondary_completed]
    exact (mapM_eq_ok_iff.mp hsecondary).imp fun _ _ => SecondaryEntry.describes_of_secondaryVariant

/-- The component has what it had, and behind that a variant for each entry. -/
theorem describes_foldlM_addEntry (entries : List VariantEntry) :
    ∀ {c d : Component}, entries.foldlM (addEntry path r) c = .ok d →
      ∃ added, d = { c with variants := c.variants ++ added } ∧
        List.Forall₂ (fun e v => e.Describes r c.id v) entries added := by
  induction entries with
  | nil =>
      intro c d h
      cases h
      exact ⟨[], by simp, List.Forall₂.nil⟩
  | cons e rest ih =>
      intro c d h
      rw [List.foldlM_cons, bind_eq_ok] at h
      obtain ⟨next, hnext, hd⟩ := h
      obtain ⟨v, hv, rfl⟩ := addEntry_eq_ok hnext
      obtain ⟨added, rfl, hadded⟩ := ih hd
      exact ⟨c.completed v :: added, by simp,
        List.Forall₂.cons (e.describes_of_variant hv c) hadded⟩

theorem Document.describes_component {d : Document} (h : d.component path r = .ok c) :
    d.Describes r c := by
  unfold component at h
  by_cases hformat : isSupported d.formatVersion = true
  · rw [if_pos hformat] at h
    obtain ⟨added, rfl, hadded⟩ := describes_foldlM_addEntry d.variants h
    exact ⟨rfl, rfl, hadded⟩
  · rw [if_neg hformat] at h
    cases h

end

/-! ### Reading -/

/-- **Module metadata is read exactly where it is acceptable, and then nothing of it
is lost.**  A text that holds no document is malformed.  Of a document that is not
acceptable the first of its faults is told: the version first, then the variants in
their order. -/
theorem readText_parsed (text path : String) (r : Registry) :
    (readText text path r = .error (.malformed path) ↔
      ¬∃ tree d, JsonValue.parse? text = some tree ∧ IsDocument tree d) ∧
    ∀ tree d, JsonValue.parse? text = some tree → IsDocument tree d →
      ((∃ c, readText text path r = .ok c) ↔ d.Acceptable r) ∧
      (∀ c, readText text path r = .ok c → d.Describes r c) ∧
      ∀ e, readText text path r = .error e ↔ (d.faults path r).head? = some e := by
  constructor
  · rw [readText_eq_malformed_iff, Option.eq_none_iff_forall_ne_some, exists_comm, not_exists]
    simp only [ne_eq, Document.parse?_eq_some_iff]
  · intro tree d htree hdocument
    have hread : readText text path r = d.component path r := by
      rw [readText, Document.parse?_eq_some_iff.mpr ⟨tree, htree, hdocument⟩]
    have hreports : Reports (d.faults path r) (d.component path r) := d.reports_component
    rw [hread]
    refine ⟨?_, fun c => Document.describes_component, hreports⟩
    rw [hreports.succeeds_iff, Document.faults_eq_nil_iff]

namespace Sample

/-- A registry that knows a size. -/
def sized : Registry :=
  Registry.empty.add ⟨"size", .integer, .atLeast, .preferLowest⟩ List.not_mem_nil

/-- The text of a document with these variants. -/
def document (variants : String) : String :=
  "\x7b\"formatVersion\":\"1.1\",\"component\":"
    ++ "\x7b\"group\":\"g\",\"module\":\"m\",\"version\":\"1\"\x7d,\"variants\":["
    ++ variants ++ "]\x7d"

/-- A variant with a size and with what it depends on. -/
def plain : String :=
  "\x7b\"name\":\"api\",\"attributes\":\x7b\"size\":\"8\"\x7d,\"dependencies\":"
    ++ "[\x7b\"group\":\"g\",\"module\":\"n\",\"version\":\x7b\"requires\":\"2\"\x7d\x7d]\x7d"

/-- A variant without one, and another of its name, with a secondary variant that
has no size to speak of. -/
def zipped : String :=
  "\x7b\"name\":\"api\"\x7d,\x7b\"name\":\"api\",\"secondaryVariants\":"
    ++ "[\x7b\"name\":\"zip\",\"attributes\":\x7b\"size\":null\x7d\x7d]\x7d"

def plainEntry : VariantEntry :=
  ⟨"api", .ofList [("size", .string "8")], [], [], [⟨"g", "n", some ⟨some "2"⟩⟩], []⟩

def zippedEntries : List VariantEntry :=
  [⟨"api", .empty, [], [], [], []⟩,
   ⟨"api", .empty, [], [], [], [⟨"zip", .ofList [("size", .nonScalar)], []⟩]⟩]

end Sample

/-- The size is read as a number, and the dependency with the version it requires.
Of a second variant with the name of the first it is told that its secondary variant
has no size, since that comes before its own name. -/
theorem readText_parsed_sized :
    (∃ tree d c, JsonValue.parse? (Sample.document Sample.plain) = some tree ∧ IsDocument tree d ∧
      readText (Sample.document Sample.plain) "lib.module" Sample.sized = .ok c ∧
      d.Acceptable Sample.sized ∧ d.Describes Sample.sized c ∧
      ∃ v ∈ c.variants, v.attributes.get? "size" = some (.integer 8) ∧
        v.dependencies = [⟨"g", "n", some "2"⟩]) ∧
    (∃ tree d, JsonValue.parse? (Sample.document Sample.zipped) = some tree ∧ IsDocument tree d ∧
      readText (Sample.document Sample.zipped) "lib.module" Sample.sized
        = .error (.nonScalarAttribute "lib.module" "api/zip" "size")) ∧
    readText "[" "lib.module" Sample.sized = .error (.malformed "lib.module") := by
  have hplain : Document.parse? (Sample.document Sample.plain)
      = some ⟨"1.1", "g", "m", "1", [Sample.plainEntry]⟩ := by
    decide +kernel
  have hzipped : Document.parse? (Sample.document Sample.zipped)
      = some ⟨"1.1", "g", "m", "1", Sample.zippedEntries⟩ := by
    decide +kernel
  have hopen : JsonValue.parse? "[" = none := by
    decide +kernel
  obtain ⟨plainTree, hplainTree, hplainDocument⟩ := Document.parse?_eq_some_iff.mp hplain
  obtain ⟨zippedTree, hzippedTree, hzippedDocument⟩ := Document.parse?_eq_some_iff.mp hzipped
  obtain ⟨-, hread⟩ := readText_parsed (Sample.document Sample.plain) "lib.module" Sample.sized
  obtain ⟨-, hrefuse⟩ := readText_parsed (Sample.document Sample.zipped) "lib.module" Sample.sized
  obtain ⟨hsucceeds, hdescribes, -⟩ := hread _ _ hplainTree hplainDocument
  obtain ⟨-, -, hfails⟩ := hrefuse _ _ hzippedTree hzippedDocument
  refine ⟨?_, ⟨_, _, hzippedTree, hzippedDocument, (hfails _).mpr (by decide)⟩, ?_⟩
  · have hfaultless : Document.faults ⟨"1.1", "g", "m", "1", [Sample.plainEntry]⟩ "lib.module"
        Sample.sized = [] := by
      decide
    have hacceptable := Document.faults_eq_nil_iff.mp hfaultless
    obtain ⟨c, hc⟩ := hsucceeds.mpr hacceptable
    have hdescribed := hdescribes c hc
    obtain ⟨v, rest, hv, -, hvariants⟩ := List.forall₂_cons_left_iff.mp hdescribed.variants
    refine ⟨_, _, c, hplainTree, hplainDocument, hc, hacceptable, hdescribed,
      v, by simp [hvariants], ?_, ?_⟩
    · exact (hv.attributes "size" (.integer 8)).mpr ⟨.string "8", .string "8", by decide,
        .string _, by decide⟩
    · obtain ⟨d, others, hd, hothers, hdependencies⟩ :=
        List.forall₂_cons_left_iff.mp hv.dependencies
      have hgroup : d.group = "g" := hd.group
      have hname : d.name = "n" := hd.name
      have hversion : d.version = some "2" := (hd.version "2").mpr ⟨⟨some "2"⟩, rfl, rfl⟩
      rw [hdependencies, List.forall₂_nil_left_iff.mp hothers, ← hgroup, ← hname, ← hversion]
  · refine (readText_parsed "[" "lib.module" Sample.sized).1.mpr ?_
    rintro ⟨tree, d, htree, -⟩
    rw [hopen] at htree
    cases htree

end Metadata

end VariantSelection
