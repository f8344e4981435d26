/-
What a new project is read back as.

The manifest that is written is read back as it was, and the metadata describes the
component that the manifest asks for, so with no other metadata files around, the
dependency is resolved in both configurations.  The one rule of manifests that the
project can break is that its name must not be blank: the name is written without
being looked at.
-/
import VariantSelection.Proofs.Catalog.Duplicate
import VariantSelection.Proofs.Manifest.Document
import VariantSelection.Proofs.Scaffold
import VariantSelection.Resolution
import VariantSelection.Session.Loading

namespace VariantSelection

theorem toList_unlines (lines : List String) :
    (unlines lines).toList = lines.flatMap fun line => line.toList ++ ['\n'] := by
  unfold unlines
  simp [String.toList_join, List.flatMap_map]

/-- The variant that an entry of a report names. -/
def ResolutionEntry.variant? (e : ResolutionEntry) : Option String :=
  e.outcome.toOption.bind fun resolved => resolved.outcome.variant?

namespace Scaffold

open FileAction FileSystem

/-! ### The component

The metadata is one fixed text, so it is read once and for all.
-/

/-- A variant as the metadata describes it. -/
def variantEntry (name usage : String) : Metadata.VariantEntry where
  name
  attributes := .ofList
    [("org.gradle.category", .string "library"),
     ("org.gradle.dependency.bundling", .string "external"),
     ("org.gradle.jvm.version", .number (.integer 11)),
     ("org.gradle.libraryelements", .string "jar"),
     ("org.gradle.usage", .string usage)]
  capabilities := []
  files := [⟨"greeter-1.0.jar", "greeter-1.0.jar"⟩]
  dependencies := []
  secondary := []

/-- The document that the metadata holds. -/
def document : Metadata.Document where
  formatVersion := "1.1"
  group := "org.example"
  name := "greeter"
  version := "1.0"
  variants := [variantEntry "apiElements" "java-api", variantEntry "runtimeElements" "java-runtime"]

theorem parse?_metadata : Metadata.Document.parse? metadata = some document := by
  -- The characters are taken line by line: to decode the whole text at once takes
  -- the kernel a minute.
  unfold Metadata.Document.parse? JsonValue.parse? jsonTokens?
  rw [metadata, toList_unlines]
  decide +kernel

/-- A variant of the component. -/
def variant (name usage : String) : Variant where
  name
  attributes := .ofList
    [(Standard.category, .string "library"), (Standard.bundling, .string "external"),
     (Standard.jvmVersion, .integer 11), (Standard.libraryElements, .string "jar"),
     (Standard.usage, .string usage)]
  capabilities := .singleton ⟨"org.example", "greeter", "1.0"⟩
  artifacts := [⟨"greeter-1.0.jar", "greeter-1.0.jar"⟩]
  dependencies := []
  secondary := []

/-- The component that a new project depends on. -/
def component : Component where
  id := greeter
  source := .moduleMetadata
  variants := [variant "apiElements" "java-api", variant "runtimeElements" "java-runtime"]

/-- The metadata describes the component, and with it the project resolves its
dependency for both usages. -/
theorem exists_registry : ∃ r, Registry.standard = .ok r ∧
    (∀ path, document.component path r = .ok component) ∧
    ∀ name, ∃ report,
      (Session.mk r (Catalog.empty.fill component)).resolveAll (manifest name) none = .ok report ∧
      report.isSuccess = true ∧
      report.entries.map ResolutionEntry.variant? = [some "apiElements", some "runtimeElements"] :=
  ⟨_, rfl, fun _ => rfl, fun _ => ⟨_, rfl, rfl, rfl⟩⟩

theorem readText_metadata {r : Registry} {path : String}
    (h : document.component path r = .ok component) :
    Metadata.readText metadata path r = .ok component := by
  rw [Metadata.readText, parse?_metadata]
  exact h

/-! ### The manifest

The manifest differs from one project to the next by its name alone.
-/

theorem parse_manifest (name : String) :
    Manifest.parse (manifest name).text = .ok (manifest name) := by
  refine Manifest.parse_text_of_readable fun e he => ?_
  have hentries : (manifest name).dependencies.entries = [("greeter", { module := greeter })] := rfl
  rw [hentries, List.mem_singleton] at he
  rw [he]
  exact (by decide : Coordinate.parse greeter.text = .ok greeter)

/-- The name is all that can be wrong with the manifest. -/
theorem fault?_manifest (name : String) :
    (manifest name).fault? = if isBlankText name then some .blankName else none := by
  unfold Manifest.fault?
  rfl

section
variable {name : String} {directory : Path} {s t : FileSystem} {place : List String}
variable {r : Registry}

theorem read_manifest (h : Writable directory t place) :
    Manifest.read (withFiles name place t) (manifestPath directory)
      = if isBlankText name then .error (.invalid (manifestPath directory) .blankName)
        else .ok (manifest name) := by
  rw [Manifest.read, h.text_manifest, mapError_ok, ok_bind, parse_manifest, mapError_ok, ok_bind,
    fault?_manifest]
  by_cases hblank : isBlankText name = true
  · rw [if_pos hblank, if_pos hblank]
    rfl
  · rw [if_neg hblank, if_neg hblank]
    rfl

/-! ### The catalog

The metadata directory may have been there before, with files that describe other
components; `listed_of_empty` is the case in which it had none.
-/

/-- The metadata directory has the entries that it had, and the metadata of
the component. -/
theorem exists_entries_withFiles (h : Writable directory t place) :
    ∃ entries, t.root.node? (place ++ ["metadata"]) = some (.directory entries) ∧
      (withFiles name place t).entries (catalogPath directory)
        = .ok (FileNode.putEntry "greeter-1.0.module" (.file metadata.toUTF8) entries) := by
  obtain ⟨entries, hentries⟩ := FileNode.kind?_eq_directory.mp h.catalog
  have hbeside : (withManifest name place t).root.node? (place ++ ["metadata"])
      = some (.directory entries) := by
    show (FileNode.put _ t.root (place ++ [Manifest.fileName])).node? (place ++ "metadata" :: [])
      = _
    rw [FileNode.node?_put_child _ _ h.reaches.directory, if_neg (by decide)]
    exact hentries
  have hafter := (h.withFiles.reaches.node_join_eq_ok_iff isName_metadata).mpr
    (FileNode.node?_put_parent (.file metadata.toUTF8) "greeter-1.0.module" hbeside)
  refine ⟨entries, hentries, ?_⟩
  unfold FileSystem.entries catalogPath
  rw [hafter]
  rfl

theorem extension?_modulePath (directory : Path) :
    (modulePath directory).extension? = some "module" := by
  unfold Path.extension? modulePath
  rw [isName_module.fileName?_join]
  rfl

/-- Where no files were listed, the metadata of the component is all that
`collect` finds. -/
theorem collect_withFiles (h : Writable directory t place)
    (hfresh : t.root.listed (catalogPath directory) (place ++ ["metadata"]) = []) :
    (withFiles name place t).collect (catalogPath directory) Catalog.metadataExtensions
      = .ok [modulePath directory] := by
  obtain ⟨entries, hbefore, hafter⟩ := exists_entries_withFiles h
  have hnone : FileNode.entryPaths (catalogPath directory) entries = [] := by
    simpa [FileNode.listed, hbefore, FileNode.filePaths] using hfresh
  have hplace : ∀ below,
      FileNode.child? "greeter-1.0.module" entries ≠ some (.directory below) := by
    intro below hchild
    refine h.module (FileNode.kind?_eq_directory.mpr ⟨below, ?_⟩)
    rw [modulePlace, node?_singleton _ hbefore, hchild]
  have hpaths :=
    FileNode.entryPaths_putEntry_file metadata.toUTF8 (catalogPath directory) hnone hplace
  refine Catalog.collect_of_pairwise hafter ?_ (List.pairwise_singleton _ _)
  rw [hpaths]
  refine List.filter_eq_self.mpr fun p hp => ?_
  rw [List.mem_singleton.mp hp]
  exact Catalog.hasExtension_iff.mpr ⟨"module", by decide, extension?_modulePath directory⟩

/-- Loading finds the component, and nothing else. -/
theorem load_withFiles (h : Writable directory t place)
    (hfresh : t.root.listed (catalogPath directory) (place ++ ["metadata"]) = [])
    (hread : ∀ path, document.component path r = .ok component) :
    Catalog.load (withFiles name place t) (catalogPath directory) r
      = .ok (Catalog.empty.fill component) := by
  have hmodule : (modulePath directory).hasExtension ["module"] = true :=
    Catalog.hasExtension_singleton_iff.mpr (extension?_modulePath directory)
  have hpom : (modulePath directory).hasExtension ["pom"] = false := by
    rw [Path.hasExtension, extension?_modulePath]
    decide
  have hdescribe : Catalog.describe (withFiles name place t) r (modulePath directory)
      = .ok component := by
    rw [Catalog.describe, FileSystem.read, h.text_module, mapError_ok, mapError_ok, ok_bind,
      if_neg (by simp [hpom]), readText_metadata (hread _), mapError_ok]
  have hmodules : Catalog.described (withFiles name place t) r "module" [modulePath directory]
      = [component] := Catalog.described_cons_of_pos hmodule hdescribe []
  have hpoms : Catalog.described (withFiles name place t) r "pom" [modulePath directory] = [] :=
    Catalog.described_cons_of_neg hpom []
  rw [Catalog.load_of_nodup (collect_withFiles h hfresh) (by simp [hdescribe]) (by simp [hmodules]),
    hmodules, hpoms]
  rfl

/-- What a project directory without other metadata files is loaded as. -/
theorem load_session_withFiles (h : Writable directory t place)
    (hfresh : t.root.listed (catalogPath directory) (place ++ ["metadata"]) = [])
    (hregistry : Registry.standard = .ok r)
    (hread : ∀ path, document.component path r = .ok component) :
    Session.load (withFiles name place t) directory
      = if isBlankText name
        then .error (.manifest (.invalid (manifestPath directory) .blankName))
        else .ok (⟨r, Catalog.empty.fill component⟩, manifest name) := by
  have hmanifest : Manifest.read (withFiles name place t) (directory.join Manifest.fileName)
      = if isBlankText name then .error (.invalid (manifestPath directory) .blankName)
        else .ok (manifest name) := read_manifest h
  rw [Session.load, hmanifest]
  by_cases hblank : isBlankText name = true
  · rw [if_pos hblank, if_pos hblank]
    rfl
  have hstandard : (manifest name).registry = .ok r := by
    unfold Manifest.registry
    rw [hregistry]
    rfl
  have hthere : (withFiles name place t).contains (directory.join (manifest name).project.catalog)
      = true := by
    refine (h.withFiles.reaches.contains_join_iff isName_metadata).mpr ?_
    rw [h.withFiles.catalog]
    rfl
  have hload : Catalog.load (withFiles name place t)
      (directory.join (manifest name).project.catalog) r = .ok (Catalog.empty.fill component) :=
    load_withFiles h hfresh hread
  rw [if_neg hblank, if_neg hblank, mapError_ok, ok_bind, hstandard, mapError_ok, ok_bind]
  simp only [hthere, if_true, hload, mapError_ok, ok_bind]
  rfl

/-- A directory that was absent or empty has no metadata files once the
directories are there. -/
theorem listed_of_empty (hadds : AddsDirectories s t) (h : Prepared directory t place)
    (hempty : ∀ entries,
      s.root.node? (s.place directory) = some (.directory entries) → entries = []) :
    t.root.listed (catalogPath directory) (place ++ ["metadata"]) = [] := by
  rw [hadds.listed]
  exact FileNode.listed_below_empty _ _ (h.place_eq hadds ▸ hempty)

end

/-- **A new project is loaded and resolved unless its name is blank.**  Where the
directory was absent or empty, the manifest is read back with the name of the
project, and each of the two configurations resolves the dependency; with a blank
name, loading refuses the manifest. -/
theorem load_of_create {name : String} {directory : Path} {s s' : FileSystem}
    (hempty : ∀ entries,
      s.root.node? (s.place directory) = some (.directory entries) → entries = [])
    (hcreated : on (create name directory) s = (.ok (), s')) :
    (isBlankText name = false → ∃ session m report, Session.load s' directory = .ok (session, m) ∧
      m.project.name = name ∧ session.resolveAll m none = .ok report ∧ report.isSuccess = true ∧
      report.entries.map ResolutionEntry.variant?
        = [some "apiElements", some "runtimeElements"]) ∧
    (isBlankText name = true → Session.load s' directory
      = .error (.manifest (.invalid (manifestPath directory) .blankName))) := by
  obtain ⟨t, place, hadds, hwritable, rfl⟩ := exists_withFiles hcreated
  obtain ⟨r, hregistry, hread, hresolve⟩ := exists_registry
  have hfresh := listed_of_empty hadds hwritable.toPrepared hempty
  have hload : Session.load (withFiles name place t) directory = _ :=
    load_session_withFiles hwritable hfresh hregistry hread
  constructor
  · intro hblank
    obtain ⟨report, hreport, hsuccess, hvariants⟩ := hresolve name
    rw [if_neg (by simp [hblank])] at hload
    exact ⟨_, _, report, hload, rfl, hreport, hsuccess, hvariants⟩
  · intro hblank
    rw [hload, if_pos hblank]

namespace Sample

/-- A system with one directory, and nothing in it. -/
def vacant : FileSystem := ⟨.directory [("p", .directory [])], []⟩

theorem entries_vacant : ∀ entries,
    vacant.root.node? (vacant.place ⟨"p"⟩) = some (.directory entries) → entries = [] := by
  intro entries hentries
  have hempty : vacant.root.node? (vacant.place ⟨"p"⟩) = some (.directory []) := by rfl
  rw [hempty] at hentries
  cases hentries
  rfl

end Sample

/-- A project with a name. -/
theorem load_of_create_demo : ∃ s' session m report,
    on (create "demo" ⟨"p"⟩) Sample.vacant = (.ok (), s') ∧
      Session.load s' ⟨"p"⟩ = .ok (session, m) ∧ m.project.name = "demo" ∧
      session.resolveAll m none = .ok report ∧ report.isSuccess = true := by
  have hcreated : on (create "demo" ⟨"p"⟩) Sample.vacant
      = (.ok (), (on (create "demo" ⟨"p"⟩) Sample.vacant).2) := Prod.ext (by rfl) rfl
  obtain ⟨hloads, -⟩ := load_of_create Sample.entries_vacant hcreated
  obtain ⟨session, m, report, hload, hname, hreport, hsuccess, -⟩ := hloads (by decide)
  exact ⟨_, session, m, report, hcreated, hload, hname, hreport, hsuccess⟩

/-- A project without one: it is made, and cannot be loaded. -/
theorem load_ne_ok_of_create_nameless : ∃ s',
    on (create "" ⟨"p"⟩) Sample.vacant = (.ok (), s') ∧
      Session.load s' ⟨"p"⟩ = .error (.manifest (.invalid ⟨"p/varsel.toml"⟩ .blankName)) := by
  have hcreated : on (create "" ⟨"p"⟩) Sample.vacant
      = (.ok (), (on (create "" ⟨"p"⟩) Sample.vacant).2) := Prod.ext (by rfl) rfl
  refine ⟨_, hcreated, ?_⟩
  obtain ⟨t, place, hadds, hwritable, hs'⟩ := exists_withFiles hcreated
  obtain ⟨r, hregistry, hread, -⟩ := exists_registry
  have hfresh := listed_of_empty hadds hwritable.toPrepared Sample.entries_vacant
  rw [hs', load_session_withFiles hwritable hfresh hregistry hread, if_pos (by decide)]
  rfl

end Scaffold

end VariantSelection
