/-
What a JSON value says as a module metadata document.

For each kind of record in a document there is a relation between the JSON value and
the entry, which says field by field what stands where and is stated without the
readers: `IsFile`, `IsCapability`, `IsVersion`, `IsDependency`, `IsSecondary`,
`IsVariant` and `IsDocument`, with `IsAttribute` for one value of an attribute and
`IsAttributes` for all of them.  An entry keeps the scalar as it stands in the
document, and a dependency its nested version.  Each relation has a lemma that the
reader gives exactly what the relation says; `reads_document` is the one for whole
documents, and `parse?_eq_some_iff` the one for their texts.
-/
import VariantSelection.Metadata.Document
import VariantSelection.Proofs.Json.Record
import VariantSelection.Proofs.Ordered.Overlay

namespace VariantSelection

namespace Metadata

open JsonValue JsonRecord

/-! ### Attributes -/

/-- The value of an attribute that stands inside `depth` arrays and objects: a
scalar is kept as it is, and of null, an array or an object only that it is none. -/
inductive IsAttribute (depth : Nat) : JsonValue → AttributeEntry → Prop
  | string {s : JsonString} {text : String} (h : s.text? = some text) :
      IsAttribute depth (.string s) (.string text)
  | number {l : NumberLiteral} {n : JsonNumber} (h : l.number? = some n) :
      IsAttribute depth (.number l) (.number n)
  | boolean (b : Bool) : IsAttribute depth (.boolean b) (.boolean b)
  | null : IsAttribute depth .null .nonScalar
  | array {items : List JsonValue}
      (h : (JsonValue.array items).isStorable (depthLimit - depth) = true) :
      IsAttribute depth (.array items) .nonScalar
  | object {members : List (JsonString × JsonValue)}
      (h : (JsonValue.object members).isStorable (depthLimit - depth) = true) :
      IsAttribute depth (.object members) .nonScalar

/-- The last of the members under `name` says this. -/
inductive IsLast (depth : Nat) (name : String) (entry : AttributeEntry) :
    List (JsonString × JsonValue) → Prop
  | here {key : JsonString} {w : JsonValue} {rest : List (JsonString × JsonValue)}
      (hkey : key.text? = some name) (hentry : IsAttribute depth w entry)
      (hrest : ∀ m ∈ rest, m.1.text? ≠ some name) : IsLast depth name entry ((key, w) :: rest)
  | later {m : JsonString × JsonValue} {rest : List (JsonString × JsonValue)}
      (h : IsLast depth name entry rest) : IsLast depth name entry (m :: rest)

/-- Each member is an attribute, and for a name that several have the last one counts. -/
inductive IsAttributes (depth : Nat) : JsonValue → SortedMap String AttributeEntry → Prop
  | object {members : List (JsonString × JsonValue)} {entries : SortedMap String AttributeEntry}
      (each : ∀ m ∈ members, ∃ name entry, m.1.text? = some name ∧ IsAttribute depth m.2 entry)
      (last : ∀ name entry, entries.get? name = some entry ↔ IsLast depth name entry members) :
      IsAttributes depth (.object members) entries

theorem reads_attribute (depth : Nat) : Reads (readAttribute depth) (IsAttribute depth) := by
  intro v entry
  constructor
  · intro h
    unfold readAttribute at h
    split at h
    · rename_i hstorable
      cases v with
      | string s =>
          obtain ⟨text, htext, rfl⟩ := Option.map_eq_some_iff.mp h
          exact .string htext
      | number l =>
          obtain ⟨n, hn, rfl⟩ := Option.map_eq_some_iff.mp h
          exact .number hn
      | boolean b =>
          cases h
          exact .boolean b
      | null =>
          cases h
          exact .null
      | array items =>
          cases h
          exact .array hstorable
      | object members =>
          cases h
          exact .object hstorable
    · cases h
  · intro h
    cases h with
    | string htext => simp [readAttribute, isStorable, htext]
    | number hn => simp [readAttribute, isStorable, hn]
    | boolean b => simp [readAttribute, isStorable]
    | null => simp [readAttribute, isStorable]
    | array hstorable => simp [readAttribute, hstorable]
    | object hstorable => simp [readAttribute, hstorable]

/-- The member under its name as a text, and with what its value says. -/
def ReadsMember (depth : Nat) (m : JsonString × JsonValue) (e : String × AttributeEntry) : Prop :=
  m.1.text? = some e.1 ∧ IsAttribute depth m.2 e.2

section
variable {depth : Nat} {members : List (JsonString × JsonValue)}
variable {entries : List (String × AttributeEntry)}

theorem forall_ne_iff (h : List.Forall₂ (ReadsMember depth) members entries) {name : String} :
    (∀ e ∈ entries, e.1 ≠ name) ↔ ∀ m ∈ members, m.1.text? ≠ some name := by
  induction h with
  | nil => simp
  | cons hfirst _ ih =>
      rw [List.forall_mem_cons, List.forall_mem_cons, ih, hfirst.1, ne_eq, ne_eq, Option.some.injEq]

theorem get?_ofList_eq_some_iff_isLast (h : List.Forall₂ (ReadsMember depth) members entries)
    {name : String} {entry : AttributeEntry} :
    (SortedMap.ofList entries).get? name = some entry ↔ IsLast depth name entry members := by
  induction h with
  | nil =>
      constructor
      · rintro ⟨⟩
      · rintro ⟨⟩
  | @cons m e rest others hfirst hrest ih =>
      rw [SortedMap.get?_ofList_cons, Option.or_eq_some_iff, ih, SortedMap.get?_ofList_eq_none_iff,
        forall_ne_iff hrest]
      constructor
      · rintro (hlater | ⟨hnone, hhere⟩)
        · exact .later hlater
        · obtain ⟨rfl, hentry⟩ := Option.ite_none_right_eq_some.mp hhere
          cases hentry
          exact .here hfirst.1 hfirst.2 hnone
      · intro hlast
        cases hlast with
        | here hkey hentry hnone =>
            obtain rfl := Option.some.inj (hkey.symm.trans hfirst.1)
            refine .inr ⟨hnone, ?_⟩
            rw [if_pos rfl, (reads_attribute depth).unique hfirst.2 hentry]
        | later hlater => exact .inl hlater

theorem readsMember_iff {m : JsonString × JsonValue} {e : String × AttributeEntry} :
    ReadsMember depth m e ↔ (∃ name, m.1.text? = some name) ∧
      (readAttribute depth m.2).map (fun entry => (m.1.text?.getD "", entry)) = some e := by
  rw [ReadsMember, ← reads_attribute depth, Option.map_eq_some_iff]
  constructor
  · rintro ⟨hname, hentry⟩
    exact ⟨⟨e.1, hname⟩, e.2, hentry, by rw [hname, Option.getD_some]⟩
  · rintro ⟨⟨name, hname⟩, entry, hentry, rfl⟩
    exact ⟨by rw [hname, Option.getD_some], hentry⟩

theorem readAttributes_object_iff {map : SortedMap String AttributeEntry} :
    readAttributes depth (.object members) = some map ↔
      ∃ entries, List.Forall₂ (ReadsMember depth) members entries ∧ map = .ofList entries := by
  simp only [readAttributes, Option.bind_eq_bind, Option.bind_eq_some_iff, members?_eq_some_iff,
    mapM_eq_some_iff, Option.pure_def, Option.some.injEq]
  have hentries (entries : List (String × AttributeEntry)) :
      List.Forall₂ (ReadsMember depth) members entries ↔
        (∀ m ∈ members, ∃ name, m.1.text? = some name) ∧
          List.Forall₂
            (fun m e => (readAttribute depth m.2).map (fun entry => (m.1, entry)) = some e)
            (named members) entries := by
    rw [named, List.forall₂_map_left_iff, ← List.forall₂_and_left]
    exact ⟨fun h => h.imp fun _ _ => readsMember_iff.mp,
      fun h => h.imp fun _ _ => readsMember_iff.mpr⟩
  constructor
  · rintro ⟨_, ⟨htexts, rfl⟩, entries, hread, rfl⟩
    exact ⟨entries, (hentries entries).mpr ⟨htexts, hread⟩, rfl⟩
  · rintro ⟨entries, hread, rfl⟩
    obtain ⟨htexts, hread⟩ := (hentries entries).mp hread
    exact ⟨_, ⟨htexts, rfl⟩, entries, hread, rfl⟩

theorem exists_entries
    (h : ∀ m ∈ members, ∃ name entry, m.1.text? = some name ∧ IsAttribute depth m.2 entry) :
    ∃ entries, List.Forall₂ (ReadsMember depth) members entries := by
  induction members with
  | nil => exact ⟨[], .nil⟩
  | cons m rest ih =>
      obtain ⟨⟨name, entry, hfirst⟩, hrest⟩ := List.forall_mem_cons.mp h
      obtain ⟨entries, hentries⟩ := ih hrest
      exact ⟨(name, entry) :: entries, .cons hfirst hentries⟩

end

theorem reads_attributes (depth : Nat) : Reads (readAttributes depth) (IsAttributes depth) := by
  intro v map
  constructor
  · intro h
    cases v with
    | object members =>
        obtain ⟨entries, hentries, rfl⟩ := readAttributes_object_iff.mp h
        refine .object (fun m hm => ?_) fun name entry => get?_ofList_eq_some_iff_isLast hentries
        obtain ⟨e, -, hname, hentry⟩ := exists_of_mem_right (List.Forall₂.flip hentries) hm
        exact ⟨e.1, e.2, hname, hentry⟩
    | null | boolean | number | string | array => cases h
  · rintro ⟨heach, hlast⟩
    obtain ⟨entries, hentries⟩ := exists_entries heach
    refine readAttributes_object_iff.mpr ⟨entries, hentries, SortedMap.ext fun name => ?_⟩
    refine Option.ext fun entry => ?_
    rw [hlast, get?_ofList_eq_some_iff_isLast hentries]

/-! ### Files, capabilities and dependencies

Each of these is one record, so its reader is an instance of `reads_record` and the
only thing to say is what stands in which field.
-/

/-- The fields of a file. -/
def fileFields : List String := ["name", "url"]

structure IsFile (v : JsonValue) (f : FileEntry) : Prop where
  record : v.IsRecord fileFields
  name : v.Field fileFields "name" IsText f.name
  url : v.Field fileFields "url" IsText f.url

def capabilityFields : List String := ["group", "name", "version"]

structure IsCapability (v : JsonValue) (c : CapabilityEntry) : Prop where
  record : v.IsRecord capabilityFields
  group : v.Field capabilityFields "group" IsText c.group
  name : v.Field capabilityFields "name" IsText c.name
  version : v.Field capabilityFields "version" IsText c.version

def versionFields : List String := ["requires"]

structure IsVersion (v : JsonValue) (e : VersionEntry) : Prop where
  record : v.IsRecord versionFields
  requires : v.FieldOr versionFields "requires" (IsNullable IsText) none e.requires

def dependencyFields : List String := ["group", "module", "version"]

structure IsDependency (v : JsonValue) (d : DependencyEntry) : Prop where
  record : v.IsRecord dependencyFields
  group : v.Field dependencyFields "group" IsText d.group
  name : v.Field dependencyFields "module" IsText d.name
  version : v.FieldOr dependencyFields "version" (IsNullable IsVersion) none d.version

theorem reads_file : Reads readFile IsFile := by
  refine reads_record (by decide) (fun v f h => h.record) fun v r f hr => ?_
  simp (disch := decide) only [required_iff hr _ reads_text, Option.bind_eq_bind,
    Option.bind_eq_some_iff, Option.pure_def, Option.some.injEq]
  constructor
  · rintro ⟨_, hname, _, hurl, rfl⟩
    exact ⟨hr.isRecord, hname, hurl⟩
  · rintro ⟨-, hname, hurl⟩
    exact ⟨_, hname, _, hurl, rfl⟩

theorem reads_capability : Reads readCapability IsCapability := by
  refine reads_record (by decide) (fun v c h => h.record) fun v r c hr => ?_
  simp (disch := decide) only [required_iff hr _ reads_text, Option.bind_eq_bind,
    Option.bind_eq_some_iff, Option.pure_def, Option.some.injEq]
  constructor
  · rintro ⟨_, hgroup, _, hname, _, hversion, rfl⟩
    exact ⟨hr.isRecord, hgroup, hname, hversion⟩
  · rintro ⟨-, hgroup, hname, hversion⟩
    exact ⟨_, hgroup, _, hname, _, hversion, rfl⟩

theorem reads_version : Reads readVersion IsVersion := by
  refine reads_record (by decide) (fun v e h => h.record) fun v r e hr => ?_
  simp (disch := decide) only [nullable_iff hr _ reads_text, Option.bind_eq_bind,
    Option.bind_eq_some_iff, Option.pure_def, Option.some.injEq]
  constructor
  · rintro ⟨_, hrequires, rfl⟩
    exact ⟨hr.isRecord, hrequires⟩
  · rintro ⟨-, hrequires⟩
    exact ⟨_, hrequires, rfl⟩

theorem reads_dependency : Reads readDependency IsDependency := by
  refine reads_record (by decide) (fun v d h => h.record) fun v r d hr => ?_
  simp (disch := decide) only [required_iff hr _ reads_text, nullable_iff hr _ reads_version,
    Option.bind_eq_bind, Option.bind_eq_some_iff, Option.pure_def, Option.some.injEq]
  constructor
  · rintro ⟨_, hgroup, _, hname, _, hversion, rfl⟩
    exact ⟨hr.isRecord, hgroup, hname, hversion⟩
  · rintro ⟨-, hgroup, hname, hversion⟩
    exact ⟨_, hgroup, _, hname, _, hversion, rfl⟩

/-! ### Variants

A secondary variant is a record like a variant, with fewer fields.
-/

def secondaryFields : List String := ["name", "attributes", "files"]

structure IsSecondary (v : JsonValue) (e : SecondaryEntry) : Prop where
  record : v.IsRecord secondaryFields
  name : v.Field secondaryFields "name" IsText e.name
  attributes : v.FieldOr secondaryFields "attributes" (IsAttributes 6) .empty e.attributes
  files : v.FieldOr secondaryFields "files" (IsList IsFile) [] e.files

def variantFields : List String :=
  ["name", "attributes", "capabilities", "files", "dependencies", "secondaryVariants"]

structure IsVariant (v : JsonValue) (e : VariantEntry) : Prop where
  record : v.IsRecord variantFields
  name : v.Field variantFields "name" IsText e.name
  attributes : v.FieldOr variantFields "attributes" (IsAttributes 4) .empty e.attributes
  capabilities : v.FieldOr variantFields "capabilities" (IsList IsCapability) [] e.capabilities
  files : v.FieldOr variantFields "files" (IsList IsFile) [] e.files
  dependencies : v.FieldOr variantFields "dependencies" (IsList IsDependency) [] e.dependencies
  secondary : v.FieldOr variantFields "secondaryVariants" (IsList IsSecondary) [] e.secondary

theorem reads_secondary : Reads readSecondary IsSecondary := by
  refine reads_record (by decide) (fun v e h => h.record) fun v r e hr => ?_
  simp (disch := decide) only [required_iff hr _ reads_text, list_iff hr _ reads_file,
    withDefault_iff hr _ (reads_attributes 6), Option.bind_eq_bind, Option.bind_eq_some_iff,
    Option.pure_def, Option.some.injEq]
  constructor
  · rintro ⟨_, hname, _, hattributes, _, hfiles, rfl⟩
    exact ⟨hr.isRecord, hname, hattributes, hfiles⟩
  · rintro ⟨-, hname, hattributes, hfiles⟩
    exact ⟨_, hname, _, hattributes, _, hfiles, rfl⟩

theorem reads_variant : Reads readVariant IsVariant := by
  refine reads_record (by decide) (fun v e h => h.record) fun v r e hr => ?_
  simp (disch := decide) only [required_iff hr _ reads_text,
    withDefault_iff hr _ (reads_attributes 4),
    list_iff hr _ reads_capability, list_iff hr _ reads_file, list_iff hr _ reads_dependency,
    list_iff hr _ reads_secondary, Option.bind_eq_bind, Option.bind_eq_some_iff, Option.pure_def,
    Option.some.injEq]
  constructor
  · rintro ⟨_, hname, _, hattributes, _, hcapabilities, _, hfiles, _, hdependencies, _, hsecondary,
      rfl⟩
    exact ⟨hr.isRecord, hname, hattributes, hcapabilities, hfiles, hdependencies, hsecondary⟩
  · rintro ⟨-, hname, hattributes, hcapabilities, hfiles, hdependencies, hsecondary⟩
    exact ⟨_, hname, _, hattributes, _, hcapabilities, _, hfiles, _, hdependencies, _, hsecondary,
      rfl⟩

/-! ### Documents

`reads_document` is where all readers meet.  What remains is the text, which holds a
document if it holds a JSON value that is one.
-/

def componentFields : List String := ["group", "module", "version"]

structure IsComponent (v : JsonValue) (c : String × String × String) : Prop where
  record : v.IsRecord componentFields
  group : v.Field componentFields "group" IsText c.1
  name : v.Field componentFields "module" IsText c.2.1
  version : v.Field componentFields "version" IsText c.2.2

def documentFields : List String := ["formatVersion", "component", "variants"]

structure IsDocument (v : JsonValue) (d : Document) : Prop where
  record : v.IsRecord documentFields
  formatVersion : v.Field documentFields "formatVersion" IsText d.formatVersion
  component : v.Field documentFields "component" IsComponent (d.group, d.name, d.version)
  variants : v.FieldOr documentFields "variants" (IsList IsVariant) [] d.variants

theorem reads_component : Reads readComponent IsComponent := by
  refine reads_record (by decide) (fun v c h => h.record) fun v r c hr => ?_
  simp (disch := decide) only [required_iff hr _ reads_text, Option.bind_eq_bind,
    Option.bind_eq_some_iff, Option.pure_def, Option.some.injEq]
  constructor
  · rintro ⟨_, hgroup, _, hname, _, hversion, rfl⟩
    exact ⟨hr.isRecord, hgroup, hname, hversion⟩
  · rintro ⟨-, hgroup, hname, hversion⟩
    exact ⟨_, hgroup, _, hname, _, hversion, rfl⟩

/-- **A document is read exactly where the tree is one, and as what the tree says.** -/
theorem reads_document : Reads readDocument IsDocument := by
  refine reads_record (by decide) (fun v d h => h.record) fun v r d hr => ?_
  simp (disch := decide) only [required_iff hr _ reads_text, required_iff hr _ reads_component,
    list_iff hr _ reads_variant, Option.bind_eq_bind, Option.bind_eq_some_iff, Option.pure_def,
    Option.some.injEq]
  constructor
  · rintro ⟨_, hcomponent, _, hformat, _, hvariants, rfl⟩
    exact ⟨hr.isRecord, hformat, hcomponent, hvariants⟩
  · rintro ⟨-, hformat, hcomponent, hvariants⟩
    exact ⟨_, hcomponent, _, hformat, _, hvariants, rfl⟩

/-- A text is read as the document that its tree is. -/
theorem Document.parse?_eq_some_iff {text : String} {d : Document} :
    Document.parse? text = some d ↔
      ∃ tree, JsonValue.parse? text = some tree ∧ IsDocument tree d := by
  rw [Document.parse?, Option.bind_eq_bind, Option.bind_eq_some_iff]
  simp only [reads_document _ d]

end Metadata

end VariantSelection
