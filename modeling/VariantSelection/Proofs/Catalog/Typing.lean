/-
The types of the values in a catalog.

Module metadata is read with the registry at hand: a value is converted to the type
of its attribute, or the file is refused (`Metadata.converted_readText`).  POM files
are read without it.  The variants derived from one have texts for three attributes,
`Pom.derivedAttributes`, whatever type these are registered with.  So a catalog
holds a value of another type than the registered one exactly where a POM publishes
variants and the registry takes one of the three for something else than texts.
-/
import VariantSelection.Proofs.Catalog.Duplicate
import VariantSelection.Proofs.Conversion
import VariantSelection.Proofs.Metadata.Component
import VariantSelection.Proofs.Ordered.Overlay
import VariantSelection.Proofs.Pom
import VariantSelection.Selection

namespace VariantSelection

/-! ### Values of the registered types

`WellTyped` goes from the values of a set up to the variants of a component.  An
overlay keeps it, so the secondary variants need no word of their own.
-/

/-- Every value of the set is one of its attribute's type. -/
def Registry.AdmitsAll (r : Registry) (set : AttributeSet) : Prop :=
  ∀ name v, set.get? name = some v → r.Admits name v

/-- Every value that the variant has or lays over others is one of its
attribute's type. -/
structure Variant.WellTyped (v : Variant) (r : Registry) : Prop where
  own : r.AdmitsAll v.attributes
  secondary : ∀ s ∈ v.secondary, r.AdmitsAll s.attributes

def Component.WellTyped (c : Component) (r : Registry) : Prop :=
  ∀ v ∈ c.variants, v.WellTyped r

section
variable {r : Registry} {v : Variant}

theorem Registry.AdmitsAll.overlay {set top : AttributeSet} (hset : r.AdmitsAll set)
    (htop : r.AdmitsAll top) : r.AdmitsAll (set.overlay top) := by
  intro name value hvalue
  rw [SortedMap.get?_overlay, Option.or_eq_some_iff] at hvalue
  rcases hvalue with hupper | ⟨-, hlower⟩
  · exact htop name value hupper
  · exact hset name value hlower

theorem Variant.WellTyped.admitsAll_of_candidate (h : v.WellTyped r) :
    ∀ form ∈ v.artifactCandidates, r.AdmitsAll form.attributes := by
  intro form hform
  rcases List.mem_cons.mp hform with rfl | hsecondary
  · exact h.own
  · obtain ⟨s, hs, rfl⟩ := List.mem_map.mp hsecondary
    exact h.own.overlay (h.secondary s hs)

/-- What is requested and what is provided under one name are of one type. -/
theorem Registry.AdmitsAll.type_eq {set raw requested : AttributeSet} (h : r.AdmitsAll set)
    (hrequested : r.coerceSet raw = .ok requested) {name : String} {wanted found : Value}
    (hwanted : requested.get? name = some wanted) (hfound : set.get? name = some found) :
    wanted.type = found.type := by
  rw [Registry.type_of_coerceSet hrequested hwanted, Registry.admits_iff.mp (h name found hfound)]

end

/-! ### Module metadata -/

/-- A component that was read from module metadata, as far as it is read. -/
structure Component.Converted (c : Component) (r : Registry) : Prop where
  source : c.source = .moduleMetadata
  wellTyped : c.WellTyped r

namespace Metadata

variable {r : Registry} {path : String}

theorem Converts.admitsAll {entries : SortedMap String AttributeEntry} {set : AttributeSet}
    (h : Converts r entries set) : r.AdmitsAll set := by
  intro name value hvalue
  obtain ⟨_, wire, -, -, hcoerce⟩ := (h name value).mp hvalue
  exact Registry.admits_of_coerce hcoerce

theorem VariantEntry.Describes.wellTyped {e : VariantEntry} {id : Coordinate} {v : Variant}
    (h : e.Describes r id v) : v.WellTyped r := by
  refine ⟨Converts.admitsAll h.attributes, fun s hs => ?_⟩
  obtain ⟨entry, -, hentry⟩ := exists_of_mem_right h.secondary hs
  exact Converts.admitsAll hentry.attributes

/-- The values of a component are of the registered types, since its variants are
those of the document, converted. -/
theorem converted_readText {text : String} {c : Component} (h : readText text path r = .ok c) :
    c.Converted r := by
  unfold readText at h
  cases hparsed : Document.parse? text with
  | none => simp [hparsed] at h
  | some document =>
      rw [hparsed] at h
      have hdescribes := Document.describes_component h
      refine ⟨hdescribes.source, fun v hv => ?_⟩
      obtain ⟨e, -, he⟩ := exists_of_mem_right hdescribes.variants hv
      exact he.wellTyped

end Metadata

/-! ### POM files

Of a derived variant only the names of its attributes matter here, and that their
values are texts: `Variant.Derived` leaves out which texts they are.
-/

namespace Pom

/-- The attributes of the variants that are derived from a POM. -/
def derivedAttributes : List String := [Standard.category, Standard.libraryElements, Standard.usage]

end Pom

/-- A variant that is derived from a POM: it has texts for three attributes, and
nothing is laid over them. -/
structure Variant.Derived (v : Variant) : Prop where
  texts : ∀ name ∈ Pom.derivedAttributes, ∃ text, v.attributes.get? name = some (.string text)
  no_others : ∀ name, name ∉ Pom.derivedAttributes → v.attributes.get? name = none
  secondary : v.secondary = []

theorem Variant.DerivedFor.derived {v : Variant} {c : Component} {name usage : String}
    (h : v.DerivedFor c name usage) : v.Derived := by
  refine ⟨fun key hkey => ?_, fun key hkey => ?_, h.secondary⟩
  · simp only [Pom.derivedAttributes, List.mem_cons, List.not_mem_nil, or_false] at hkey
    rcases hkey with rfl | rfl | rfl
    · exact ⟨"library", (h.attributes _ _).mpr (by simp)⟩
    · exact ⟨"jar", (h.attributes _ _).mpr (by simp)⟩
    · exact ⟨usage, (h.attributes _ _).mpr (by simp)⟩
  · refine Option.eq_none_iff_forall_ne_some.mpr fun value hvalue => hkey ?_
    exact List.mem_map_of_mem (f := Prod.fst) ((h.attributes key value).mp hvalue)

namespace Pom

theorem derived_component {path : String} {project : XmlNode} {c : Component}
    (h : component path project = .ok c) : c.source = .pom ∧ ∀ v ∈ c.variants, v.Derived := by
  by_cases hpackaging : project.Tells "packaging" "pom"
  · obtain ⟨-, -, -, -, hdescribed⟩ := component_eq_ok_iff.mp h
    rw [describedAs, if_pos hpackaging] at hdescribed
    rw [← hdescribed]
    exact ⟨rfl, fun v hv => absurd hv List.not_mem_nil⟩
  · have hderived := derivedFrom_component h hpackaging
    obtain ⟨compile, runtime, hvariants, hcompile, hruntime, -⟩ := hderived.variants
    rw [hvariants, List.forall_mem_cons, List.forall_mem_singleton]
    exact ⟨hderived.source, hcompile.derived, hruntime.derived⟩

theorem derived_readText {text path : String} {c : Component} (h : readText text path = .ok c) :
    c.source = .pom ∧ ∀ v ∈ c.variants, v.Derived := by
  unfold readText at h
  cases hparsed : XmlNode.parse? text with
  | none => simp [hparsed] at h
  | some project =>
      simp only [hparsed] at h
      exact derived_component h

end Pom

theorem Registry.admits_string_iff {r : Registry} {name text : String} :
    r.Admits name (.string text) ↔ r.typeOf name = .string :=
  admits_iff.trans eq_comm

/-- The texts are of the registered types where the registry takes all of
`Pom.derivedAttributes` for texts. -/
theorem Variant.Derived.wellTyped_iff {v : Variant} {r : Registry} (h : v.Derived) :
    v.WellTyped r ↔ ∀ name ∈ Pom.derivedAttributes, r.typeOf name = .string := by
  constructor
  · intro hv name hname
    obtain ⟨text, htext⟩ := h.texts name hname
    exact Registry.admits_string_iff.mp (hv.own name _ htext)
  · intro hstrings
    refine ⟨fun name value hvalue => ?_, fun s hs => ?_⟩
    · by_cases hname : name ∈ Pom.derivedAttributes
      · obtain ⟨text, htext⟩ := h.texts name hname
        rw [htext, Option.some.injEq] at hvalue
        rw [← hvalue, Registry.admits_string_iff]
        exact hstrings name hname
      · rw [h.no_others name hname] at hvalue
        cases hvalue
    · rw [h.secondary] at hs
      cases hs

/-! ### Catalogs

A component was read in one of two ways (`ReadAs`), and each of them decides whether
it is `WellTyped`; `forall_of_load` takes this to the catalog.
-/

namespace Catalog

/-- Where the component was read, and what this means for the values that it has. -/
inductive ReadAs (r : Registry) (c : Component) : Prop
  | metadata (converted : c.Converted r)
  | pom (source : c.source = .pom) (derived : ∀ v ∈ c.variants, v.Derived)

section
variable {s : FileSystem} {r : Registry} {directory p : Path} {c : Component} {catalog : Catalog}

theorem readAs_of_describe (h : describe s r p = .ok c) : ReadAs r c := by
  unfold describe at h
  simp only [bind_eq_ok, mapError_eq_ok] at h
  obtain ⟨content, -, h⟩ := h
  by_cases hpom : p.hasExtension ["pom"] = true
  · rw [if_pos hpom, mapError_eq_ok] at h
    obtain ⟨hsource, hderived⟩ := Pom.derived_readText h
    exact .pom hsource hderived
  · rw [if_neg hpom, mapError_eq_ok] at h
    exact .metadata (Metadata.converted_readText h)

/-- The component has the registered types everywhere, but for the
`Pom.derivedAttributes` where it comes from a POM. -/
theorem ReadAs.wellTyped_iff (h : ReadAs r c) :
    c.WellTyped r ↔ (c.source = .pom → c.variants ≠ [] →
      ∀ name ∈ Pom.derivedAttributes, r.typeOf name = .string) := by
  cases h with
  | metadata hconverted =>
      refine iff_of_true hconverted.wellTyped fun hpom => ?_
      rw [hconverted.source] at hpom
      cases hpom
  | pom hsource hderived =>
      constructor
      · intro htyped _ hsome
        obtain ⟨v, hv⟩ := List.exists_mem_of_ne_nil _ hsome
        exact (hderived v hv).wellTyped_iff.mp (htyped v hv)
      · intro hstrings v hv
        exact (hderived v hv).wellTyped_iff.mpr (hstrings hsource (List.ne_nil_of_mem hv))

/-- **A catalog has values of the registered types, except where a POM publishes
variants and the registry takes the category, the library elements or the usage for
something else than texts.**  What comes from module metadata has them always.  Where
they are right, a converted request is never compared with a value of another type. -/
theorem load_wellTyped_iff (h : load s directory r = .ok catalog) :
    (∀ c ∈ catalog.components, c.source ≠ .pom → c.WellTyped r) ∧
    ((∀ c ∈ catalog.components, c.WellTyped r) ↔
      ∀ c ∈ catalog.components, c.source = .pom → c.variants ≠ [] →
        ∀ name ∈ Pom.derivedAttributes, r.typeOf name = .string) ∧
    (∀ c ∈ catalog.components, c.WellTyped r → ∀ raw requested, r.coerceSet raw = .ok requested →
      ∀ v ∈ c.variants, ∀ form ∈ v.artifactCandidates, ∀ name wanted found,
        requested.get? name = some wanted → form.attributes.get? name = some found →
          wanted.type = found.type) := by
  have hread : ∀ c ∈ catalog.components, ReadAs r c :=
    forall_of_load (fun _ _ => readAs_of_describe) h
  refine ⟨fun c hc hsource => ?_, ?_, ?_⟩
  · exact (hread c hc).wellTyped_iff.mpr fun hpom => absurd hpom hsource
  · exact forall₂_congr fun c hc => (hread c hc).wellTyped_iff
  · intro c _ htyped raw requested hrequested v hv form hform name wanted found hwanted hfound
    exact ((htyped v hv).admitsAll_of_candidate form hform).type_eq hrequested hwanted hfound

end

namespace Sample

/-- A directory with these files. -/
def published (files : List (String × String)) : FileSystem where
  root := .directory [("d", .directory (files.map fun f => (f.1, .file f.2.toUTF8)))]
  current := []

/-- A module with a variant whose version of the platform is written as a text. -/
def versionedModule : String :=
  "\x7b\"formatVersion\":\"1.1\",\"component\":"
    ++ "\x7b\"group\":\"org.example\",\"module\":\"versioned\",\"version\":\"1.0\"\x7d,"
    ++ "\"variants\":[\x7b\"name\":\"api\",\"attributes\":\x7b\"org.gradle.jvm.version\":\"8\"\x7d\x7d]\x7d"

/-- That module and a POM. -/
def moduleAndPom : FileSystem :=
  published [("api.module", versionedModule), ("lib.pom", libraryPom)]

/-- The POM alone. -/
def onlyPom : FileSystem := published [("lib.pom", libraryPom)]

theorem collect_moduleAndPom : moduleAndPom.collect ⟨"d"⟩ metadataExtensions
    = .ok [⟨"d/api.module"⟩, ⟨"d/lib.pom"⟩] :=
  collect_of_pairwise rfl (by decide) (by decide)

theorem collect_onlyPom : onlyPom.collect ⟨"d"⟩ metadataExtensions = .ok [⟨"d/lib.pom"⟩] :=
  collect_of_pairwise rfl (by decide) (by decide)

/-- A registry that knows one attribute. -/
def registryOf (name : String) (type : ValueType) : Registry :=
  Registry.empty.add ⟨name, type, .exact, .noPreference⟩ List.not_mem_nil

/-- The component of the module, with the version as a number. -/
def versioned : Component where
  id := ⟨"org.example", "versioned", "1.0"⟩
  source := .moduleMetadata
  variants :=
    [{ name := "api"
       attributes := .ofList [(Standard.jvmVersion, .integer 8)]
       capabilities := .singleton ⟨"org.example", "versioned", "1.0"⟩
       artifacts := []
       dependencies := []
       secondary := [] }]

/-- The component of the POM. -/
def derived : Component :=
  let bare := Component.new ⟨"org.example", "lib", "1.0"⟩ .pom
  { bare with variants := (Pom.derivedVariants bare []).map bare.completed }

theorem describe_versioned :
    describe moduleAndPom (registryOf Standard.jvmVersion .integer) ⟨"d/api.module"⟩
      = .ok versioned := by
  decide +kernel

theorem describe_derived :
    describe moduleAndPom (registryOf Standard.jvmVersion .integer) ⟨"d/lib.pom"⟩
      = .ok derived := by
  decide

/-- Both are loaded. -/
theorem load_moduleAndPom : load moduleAndPom ⟨"d"⟩ (registryOf Standard.jvmVersion .integer)
    = .ok ((empty.fill versioned).fill derived) := by
  have hmodule : described moduleAndPom (registryOf Standard.jvmVersion .integer) "module"
      [⟨"d/api.module"⟩, ⟨"d/lib.pom"⟩] = [versioned] := by
    rw [described_cons_of_pos (by decide) describe_versioned, described_cons_of_neg (by decide)]
    rfl
  have hpom : described moduleAndPom (registryOf Standard.jvmVersion .integer) "pom"
      [⟨"d/api.module"⟩, ⟨"d/lib.pom"⟩] = [derived] := by
    rw [described_cons_of_neg (by decide), described_cons_of_pos (by decide) describe_derived]
    rfl
  have hread : ∀ p ∈ [Path.mk "d/api.module", ⟨"d/lib.pom"⟩],
      ∃ x, describe moduleAndPom (registryOf Standard.jvmVersion .integer) p = .ok x := by
    simp [describe_versioned, describe_derived]
  rw [load_of_nodup collect_moduleAndPom hread (by simp [hmodule]), hmodule, hpom]
  rfl

end Sample

/-- A catalog of both kinds of files: the text in the module is read as a number,
and the texts of the POM may be texts. -/
theorem load_wellTyped_iff_moduleAndPom :
    load Sample.moduleAndPom ⟨"d"⟩ (Sample.registryOf Standard.jvmVersion .integer)
      = .ok ((empty.fill Sample.versioned).fill Sample.derived) ∧
    ((empty.fill Sample.versioned).fill Sample.derived).components
      = [Sample.derived, Sample.versioned] ∧
    ∀ c ∈ [Sample.derived, Sample.versioned],
      c.WellTyped (Sample.registryOf Standard.jvmVersion .integer) := by
  have hcomponents : ((empty.fill Sample.versioned).fill Sample.derived).components
      = [Sample.derived, Sample.versioned] := by
    decide
  have hstrings : ∀ name ∈ Pom.derivedAttributes,
      (Sample.registryOf Standard.jvmVersion .integer).typeOf name = .string := by
    decide
  refine ⟨Sample.load_moduleAndPom, hcomponents, ?_⟩
  rw [← hcomponents]
  exact (load_wellTyped_iff Sample.load_moduleAndPom).2.1.mpr fun _ _ _ _ => hstrings

/-- With the usage registered as an integer, a POM has a text for it all the same. -/
theorem load_not_wellTyped_pom : ∃ catalog,
    load Sample.onlyPom ⟨"d"⟩ (Sample.registryOf Standard.usage .integer) = .ok catalog ∧
    ∃ c ∈ catalog.components, ∃ v ∈ c.variants,
      v.attributes.get? Standard.usage = some (.string "java-api") ∧
        ¬(Sample.registryOf Standard.usage .integer).Admits Standard.usage
          (.string "java-api") := by
  have hdescribe : ∀ p ∈ [Path.mk "d/lib.pom"],
      (describe Sample.onlyPom (Sample.registryOf Standard.usage .integer) p).isOk = true := by
    decide
  have hread := fun p hp => isOk_iff.mp (hdescribe p hp)
  have hnot : ¬(Sample.registryOf Standard.usage .integer).Admits Standard.usage
      (.string "java-api") := by
    rw [Registry.admits_string_iff]
    decide
  have hloaded : ∃ catalog,
      load Sample.onlyPom ⟨"d"⟩ (Sample.registryOf Standard.usage .integer) = .ok catalog ∧
      ∃ c ∈ catalog.components, ∃ v ∈ c.variants,
        v.attributes.get? Standard.usage = some (.string "java-api") :=
    ⟨_, load_of_nodup Sample.collect_onlyPom hread (by decide), by decide⟩
  obtain ⟨catalog, hload, c, hc, v, hv, hvalue⟩ := hloaded
  exact ⟨catalog, hload, c, hc, v, hv, hvalue, hnot⟩

end Catalog

end VariantSelection
