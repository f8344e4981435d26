/-
Components that are defined twice.

Two module files for one coordinate are refused, whatever the files are called and
wherever they lie (`load_of_not_nodup`).  Two POM files for one coordinate are not:
loading succeeds, and the catalog has the component of the first one
(`load_of_nodup`).  So of what the files describe the catalog keeps, for each
coordinate, the first component from module metadata, or else the first from a POM.
-/
import VariantSelection.Proofs.Catalog.Loading

namespace VariantSelection

namespace Catalog

section
variable {s : FileSystem} {r : Registry} {directory : Path} {files : List Path}

/-- The files that are collected are those below the directory that have one of the
extensions. -/
theorem exists_entries_of_collect {extensions : List String}
    (h : s.collect directory extensions = .ok files) :
    ∃ entries, s.entries directory = .ok entries ∧
      ∀ p, p ∈ files ↔
        p ∈ FileNode.entryPaths directory entries ∧ p.hasExtension extensions = true := by
  unfold FileSystem.collect at h
  cases hentries : s.entries directory with
  | error fault => simp [hentries] at h
  | ok entries =>
      simp only [hentries, Except.ok.injEq] at h
      refine ⟨entries, rfl, fun p => ?_⟩
      rw [← h, List.mem_mergeSort, List.mem_filter]

/-- Files that lie in the order of their paths are collected as they lie. -/
theorem collect_of_pairwise {extensions : List String} {entries : List (String × FileNode)}
    (hentries : s.entries directory = .ok entries)
    (hfound : (FileNode.entryPaths directory entries).filter (fun p => p.hasExtension extensions)
      = files)
    (hordered : files.Pairwise fun p q => (compare p q).isLE) :
    s.collect directory extensions = .ok files := by
  rw [FileSystem.collect, hentries]
  dsimp only
  rw [hfound, List.mergeSort_of_pairwise hordered]

theorem load_eq (h : s.collect directory metadataExtensions = .ok files) :
    load s directory r = (do
      let loading ← files.foldlM (Loading.addFile s r) ⟨.empty, []⟩
      return loading.finish) := by
  rw [load, h]
  rfl

theorem free_empty {components : List Component} :
    empty.Free components ↔ (components.map Component.id).Nodup :=
  ⟨And.left, fun h => ⟨h, fun _ _ => rfl⟩⟩

theorem describes_of_mem_collect (hfiles : s.collect directory metadataExtensions = .ok files)
    (hdescribe : ∀ p ∈ files, ∃ x, describe s r p = .ok x) :
    ∀ p ∈ files, ∃ x, Describes s r p x := by
  intro p hp
  obtain ⟨entries, -, hmem⟩ := exists_entries_of_collect hfiles
  obtain ⟨x, hx⟩ := hdescribe p hp
  exact ⟨x, describes_of_metadata ((hmem p).mp hp).2 hx⟩

/-- Where no two module files have a coordinate in common, loading succeeds. -/
theorem load_of_nodup (hfiles : s.collect directory metadataExtensions = .ok files)
    (hdescribe : ∀ p ∈ files, ∃ x, describe s r p = .ok x)
    (hnodup : ((described s r "module" files).map Component.id).Nodup) :
    load s directory r
      = .ok ((described s r "module" files ++ described s r "pom" files).foldl fill .empty) := by
  have hreads := describes_of_mem_collect hfiles hdescribe
  have hend := foldlM_addFile_of_free files ⟨.empty, []⟩ hreads (free_empty.mpr hnodup)
  rw [load_eq hfiles, hend, ok_bind, List.foldl_append]
  rfl

/-- Where two of them have, loading is refused. -/
theorem load_of_not_nodup (hfiles : s.collect directory metadataExtensions = .ok files)
    (hdescribe : ∀ p ∈ files, ∃ x, describe s r p = .ok x)
    (hclash : ¬((described s r "module" files).map Component.id).Nodup) :
    ∃ cause, load s directory r = .error (.duplicateComponent cause) := by
  have hreads := describes_of_mem_collect hfiles hdescribe
  have hfree : ¬empty.Free (described s r "module" files) := mt free_empty.mp hclash
  obtain ⟨cause, hcause⟩ := foldlM_addFile_of_not_free files ⟨.empty, []⟩ hreads hfree
  refine ⟨cause, ?_⟩
  rw [load_eq hfiles, hcause]
  rfl

/-- **Two module files for one coordinate are all that is refused as a duplicate.**
In every other case loading succeeds, also when two POM files have a coordinate in
common; what the catalog has for a coordinate is what the first file describes that
has it, module files before POM files. -/
theorem load_duplicateComponent_iff (hfiles : s.collect directory metadataExtensions = .ok files)
    (hdescribe : ∀ p ∈ files, ∃ x, describe s r p = .ok x) :
    ((∃ cause, load s directory r = .error (.duplicateComponent cause)) ↔
      ¬((described s r "module" files).map Component.id).Nodup) ∧
    (((described s r "module" files).map Component.id).Nodup →
      ∃ catalog, load s directory r = .ok catalog ∧
        ∀ id, catalog.get? id = (described s r "module" files
          ++ described s r "pom" files).find? fun x => x.id = id) := by
  refine ⟨⟨?_, load_of_not_nodup hfiles hdescribe⟩, fun hnodup => ?_⟩
  · rintro ⟨cause, hcause⟩ hnodup
    rw [load_of_nodup hfiles hdescribe hnodup] at hcause
    cases hcause
  · refine ⟨_, load_of_nodup hfiles hdescribe hnodup, fun id => ?_⟩
    rw [get?_foldl_fill]
    exact Option.none_or

end

/-! ### One component in two files

The two sides of the rule, on directories that differ in the extension of
their files alone.
-/

namespace Sample

/-- A directory with two files of one content. -/
def twice (extension content : String) : FileSystem where
  root := .directory [("d", .directory
    [("a." ++ extension, .file content.toUTF8), ("b." ++ extension, .file content.toUTF8)])]
  current := []

def libraryModule : String :=
  "\x7b\"formatVersion\":\"1.1\",\"component\":"
    ++ "\x7b\"group\":\"org.example\",\"module\":\"lib\",\"version\":\"1.0\"\x7d\x7d"

def libraryPom : String :=
  "<project><groupId>org.example</groupId><artifactId>lib</artifactId>"
    ++ "<version>1.0</version></project>"

theorem collect_modules : (twice "module" libraryModule).collect ⟨"d"⟩ metadataExtensions
    = .ok [⟨"d/a.module"⟩, ⟨"d/b.module"⟩] :=
  collect_of_pairwise rfl (by decide) (by decide)

theorem collect_poms : (twice "pom" libraryPom).collect ⟨"d"⟩ metadataExtensions
    = .ok [⟨"d/a.pom"⟩, ⟨"d/b.pom"⟩] :=
  collect_of_pairwise rfl (by decide) (by decide)

end Sample

/-- A component in two module files is refused. -/
theorem load_duplicateComponent_modules : ∃ files,
    (Sample.twice "module" Sample.libraryModule).collect ⟨"d"⟩ metadataExtensions = .ok files ∧
    (∀ p ∈ files,
      ∃ x, describe (Sample.twice "module" Sample.libraryModule) .empty p = .ok x) ∧
    ∃ cause, load (Sample.twice "module" Sample.libraryModule) ⟨"d"⟩ .empty
      = .error (.duplicateComponent cause) := by
  have hdescribe : ∀ p ∈ [Path.mk "d/a.module", ⟨"d/b.module"⟩],
      (describe (Sample.twice "module" Sample.libraryModule) .empty p).isOk = true := by
    decide +kernel
  have hclash : ¬((described (Sample.twice "module" Sample.libraryModule) .empty "module"
      [⟨"d/a.module"⟩, ⟨"d/b.module"⟩]).map Component.id).Nodup := by
    decide +kernel
  have hread := fun p hp => isOk_iff.mp (hdescribe p hp)
  exact ⟨_, Sample.collect_modules, hread,
    (load_duplicateComponent_iff Sample.collect_modules hread).1.mpr hclash⟩

/-- A component in two POM files, and in no module file, is not refused. -/
theorem load_ne_duplicateComponent_poms : ∃ files catalog,
    (Sample.twice "pom" Sample.libraryPom).collect ⟨"d"⟩ metadataExtensions = .ok files ∧
    (∀ p ∈ files, ∃ x, describe (Sample.twice "pom" Sample.libraryPom) .empty p = .ok x) ∧
    described (Sample.twice "pom" Sample.libraryPom) .empty "module" files = [] ∧
    (described (Sample.twice "pom" Sample.libraryPom) .empty "pom" files).map Component.id
      = [⟨"org.example", "lib", "1.0"⟩, ⟨"org.example", "lib", "1.0"⟩] ∧
    load (Sample.twice "pom" Sample.libraryPom) ⟨"d"⟩ .empty = .ok catalog := by
  have hdescribe : ∀ p ∈ [Path.mk "d/a.pom", ⟨"d/b.pom"⟩],
      (describe (Sample.twice "pom" Sample.libraryPom) .empty p).isOk = true := by
    decide
  have hread := fun p hp => isOk_iff.mp (hdescribe p hp)
  have hmodules : described (Sample.twice "pom" Sample.libraryPom) .empty "module"
      [⟨"d/a.pom"⟩, ⟨"d/b.pom"⟩] = [] := by
    decide
  exact ⟨_, _, Sample.collect_poms, hread, hmodules, by decide,
    load_of_nodup Sample.collect_poms hread (by rw [hmodules]; exact List.nodup_nil)⟩

end Catalog

end VariantSelection
