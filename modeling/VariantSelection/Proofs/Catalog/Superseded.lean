/-
Which file of a directory gives a component.

What POMs describe waits until all files are read and then fills the coordinates that
are free, so the order of the paths decides nothing between the two kinds of files.
The laws below are stated for the files as a set, `DescribedBelow`: what a file is
called, where it lies below the directory and what comes before it occurs in none of
them.  They leave open only which POM is taken where several describe one coordinate.
-/
import VariantSelection.Proofs.Catalog.Typing
import VariantSelection.Proofs.Distinct

namespace VariantSelection

namespace Catalog

/-- A file with the extension lies below the directory and describes the component. -/
def DescribedBelow (s : FileSystem) (r : Registry) (directory : Path) (extension : String)
    (x : Component) : Prop :=
  ∃ entries, s.entries directory = .ok entries ∧
    ∃ p ∈ FileNode.entryPaths directory entries,
      p.hasExtension [extension] = true ∧ describe s r p = .ok x

section
variable {s : FileSystem} {r : Registry} {directory p : Path} {files : List Path} {x : Component}
  {catalog : Catalog}

/-! ### The components of the files

The order of the files is dropped here: `mem_described_iff` turns the list that
loading goes through into `DescribedBelow`.
-/

theorem mem_described {extension : String} :
    x ∈ described s r extension files
      ↔ ∃ p ∈ files, p.hasExtension [extension] = true ∧ describe s r p = .ok x := by
  simp only [described, List.mem_filterMap, List.mem_filter, toOption_eq_some_iff, and_assoc]

theorem mem_described_iff {extension : String} (hextension : extension ∈ metadataExtensions)
    (hfiles : s.collect directory metadataExtensions = .ok files) :
    x ∈ described s r extension files ↔ DescribedBelow s r directory extension x := by
  obtain ⟨entries, hentries, hmem⟩ := exists_entries_of_collect hfiles
  rw [mem_described]
  constructor
  · rintro ⟨p, hp, hkind, hx⟩
    exact ⟨entries, hentries, p, ((hmem p).mp hp).1, hkind, hx⟩
  · rintro ⟨others, hothers, p, hp, hkind, hx⟩
    rw [hentries, Except.ok.injEq] at hothers
    have hmetadata : p.hasExtension metadataExtensions = true :=
      hasExtension_iff.mpr ⟨extension, hextension, hasExtension_singleton_iff.mp hkind⟩
    exact ⟨p, (hmem p).mpr ⟨hothers ▸ hp, hmetadata⟩, hkind, hx⟩

/-- `describe` takes a file for a POM exactly where its extension says so. -/
theorem source_of_describe (h : describe s r p = .ok x) :
    x.source = .pom ↔ p.hasExtension ["pom"] = true := by
  unfold describe at h
  simp only [bind_eq_ok, mapError_eq_ok] at h
  obtain ⟨content, -, h⟩ := h
  by_cases hpom : p.hasExtension ["pom"] = true
  · rw [if_pos hpom, mapError_eq_ok] at h
    exact iff_of_true (Pom.derived_readText h).1 hpom
  · rw [if_neg hpom, mapError_eq_ok] at h
    refine iff_of_false ?_ hpom
    rw [(Metadata.converted_readText h).source]
    rintro ⟨⟩

theorem source_of_pom (h : DescribedBelow s r directory "pom" x) : x.source = .pom := by
  obtain ⟨entries, -, p, -, hkind, hx⟩ := h
  exact (source_of_describe hx).mpr hkind

theorem source_ne_pom_of_module (h : DescribedBelow s r directory "module" x) :
    x.source ≠ .pom := by
  obtain ⟨entries, -, p, -, hkind, hx⟩ := h
  intro hsource
  -- A file has one extension, so a module file is no POM.
  have hpom := hasExtension_singleton_iff.mp ((source_of_describe hx).mp hsource)
  rw [hasExtension_singleton_iff.mp hkind, Option.some.injEq] at hpom
  exact absurd hpom (by decide)

/-! ### One directory

`get?_of_module` and `contains_of_pom` say what a file of either kind does for its
coordinate, and `describedBelow_of_get?` says that nothing else does anything.
-/

/-- Loading succeeds only where every file describes a component, and no two module
files one with the same coordinate; then the first file that describes a coordinate
has its component taken, module files before POM files. -/
theorem exists_files_of_load (h : load s directory r = .ok catalog) :
    ∃ files, s.collect directory metadataExtensions = .ok files ∧
      (∀ p ∈ files, ∃ x, describe s r p = .ok x) ∧
      ((described s r "module" files).map Component.id).Nodup ∧
      ∀ id, catalog.get? id = ((described s r "module" files).find? fun x => x.id = id).or
        ((described s r "pom" files).find? fun x => x.id = id) := by
  have hload := h
  unfold load at h
  simp only [bind_eq_ok, pure_eq_ok, mapError_eq_ok] at h
  obtain ⟨files, hfiles, loading, hloading, -⟩ := h
  have hdescribe : ∀ p ∈ files, ∃ x, describe s r p = .ok x := by
    refine forall_of_foldlM (fun _ p _ hnext => ?_) files hloading
    rw [addFile_eq, bind_eq_ok] at hnext
    obtain ⟨x, hx, -⟩ := hnext
    exact ⟨x, hx⟩
  have hnodup : ((described s r "module" files).map Component.id).Nodup := by
    by_contra hclash
    obtain ⟨cause, hcause⟩ := load_of_not_nodup hfiles hdescribe hclash
    rw [hload] at hcause
    cases hcause
  refine ⟨files, hfiles, hdescribe, hnodup, fun id => ?_⟩
  rw [load_of_nodup hfiles hdescribe hnodup, Except.ok.injEq] at hload
  rw [← hload, get?_foldl_fill, List.find?_append]
  exact Option.none_or

theorem get?_of_module (h : load s directory r = .ok catalog)
    (hx : DescribedBelow s r directory "module" x) : catalog.get? x.id = some x := by
  obtain ⟨files, hfiles, -, hnodup, hget⟩ := exists_files_of_load h
  have hmem : x ∈ described s r "module" files := (mem_described_iff (by decide) hfiles).mpr hx
  rw [hget, (find?_key_eq_some_iff hnodup).mpr ⟨hmem, rfl⟩, Option.some_or]

theorem contains_of_pom (h : load s directory r = .ok catalog)
    (hx : DescribedBelow s r directory "pom" x) : catalog.contains x.id = true := by
  obtain ⟨files, hfiles, -, -, hget⟩ := exists_files_of_load h
  have hmem : x ∈ described s r "pom" files := (mem_described_iff (by decide) hfiles).mpr hx
  have hfound : ((described s r "pom" files).find? fun y => y.id = x.id).isSome = true :=
    List.find?_isSome.mpr ⟨x, hmem, by simp⟩
  rw [contains_iff, hget, ← Option.isSome_iff_exists, Option.isSome_or, hfound, Bool.or_true]

/-- What the catalog has under a coordinate is from a module file, or from a POM
that no module file supersedes. -/
theorem describedBelow_of_get? (h : load s directory r = .ok catalog) {id : Coordinate}
    (hx : catalog.get? id = some x) :
    x.id = id ∧ (DescribedBelow s r directory "module" x ∨
      DescribedBelow s r directory "pom" x ∧
        ¬∃ y, y.id = id ∧ DescribedBelow s r directory "module" y) := by
  obtain ⟨files, hfiles, -, hnodup, hget⟩ := exists_files_of_load h
  rw [hget] at hx
  cases hmodule : (described s r "module" files).find? fun y => y.id = id with
  | some y =>
      rw [hmodule, Option.some_or, Option.some.injEq] at hx
      obtain ⟨hmem, hid⟩ := (find?_key_eq_some_iff hnodup).mp hmodule
      exact ⟨hx ▸ hid, Or.inl ((mem_described_iff (by decide) hfiles).mp (hx ▸ hmem))⟩
  | none =>
      rw [hmodule, Option.none_or] at hx
      have hid : x.id = id := by simpa using List.find?_some hx
      have hmem := List.mem_of_find?_eq_some hx
      refine ⟨hid, Or.inr ⟨(mem_described_iff (by decide) hfiles).mp hmem, ?_⟩⟩
      rintro ⟨y, hy, hbelow⟩
      have hnot := List.find?_eq_none.mp hmodule y
        ((mem_described_iff (by decide) hfiles).mpr hbelow)
      simp [hy] at hnot

/-- **In a catalog that loads, module metadata supersedes POMs.**  Every metadata
file was read.  The catalog has the coordinates of the components that the files
describe, and under each of them one of these components; that of a module file if
there is one, and else one from a POM. -/
theorem load_supersedes (h : load s directory r = .ok catalog) :
    (∀ files, s.collect directory metadataExtensions = .ok files →
      ∀ p ∈ files, ∃ x, describe s r p = .ok x) ∧
    (∀ id, catalog.contains id = true ↔ ∃ x, x.id = id ∧
      (DescribedBelow s r directory "module" x ∨ DescribedBelow s r directory "pom" x)) ∧
    (∀ id x, catalog.get? id = some x → x.id = id ∧
      (DescribedBelow s r directory "module" x ∨ DescribedBelow s r directory "pom" x)) ∧
    (∀ x, DescribedBelow s r directory "module" x → catalog.get? x.id = some x) ∧
    (∀ id x, catalog.get? id = some x →
      (x.source = .pom ↔ ¬∃ y, y.id = id ∧ DescribedBelow s r directory "module" y)) := by
  refine ⟨?_, fun id => ?_, fun id x hx => ?_, fun x hx => get?_of_module h hx, fun id x hx => ?_⟩
  · obtain ⟨files, hfiles, hdescribe, -⟩ := exists_files_of_load h
    intro others hothers
    rw [hfiles, Except.ok.injEq] at hothers
    exact hothers ▸ hdescribe
  · constructor
    · intro hcontains
      obtain ⟨x, hx⟩ := contains_iff.mp hcontains
      obtain ⟨hid, hbelow⟩ := describedBelow_of_get? h hx
      exact ⟨x, hid, hbelow.imp_right And.left⟩
    · rintro ⟨x, rfl, hmodule | hpom⟩
      · exact contains_iff.mpr ⟨x, get?_of_module h hmodule⟩
      · exact contains_of_pom h hpom
  · obtain ⟨hid, hbelow⟩ := describedBelow_of_get? h hx
    exact ⟨hid, hbelow.imp_right And.left⟩
  · obtain ⟨hid, hmodule | ⟨hpom, hnone⟩⟩ := describedBelow_of_get? h hx
    · exact iff_of_false (source_ne_pom_of_module hmodule) (not_not.mpr ⟨x, hid, hmodule⟩)
    · exact iff_of_true (source_of_pom hpom) hnone

end

namespace Sample

/-- A directory in which the POM of a component comes before its module metadata. -/
def pomFirst : FileSystem := published [("a.pom", libraryPom), ("b.module", libraryModule)]

theorem collect_pomFirst : pomFirst.collect ⟨"d"⟩ metadataExtensions
    = .ok [⟨"d/a.pom"⟩, ⟨"d/b.module"⟩] :=
  collect_of_pairwise rfl (by decide) (by decide)

/-- The component of the module, which has no variants. -/
def bare : Component := .new ⟨"org.example", "lib", "1.0"⟩ .moduleMetadata

theorem describe_pomFirst_pom : describe pomFirst .empty ⟨"d/a.pom"⟩ = .ok derived := by
  decide

theorem describe_pomFirst_module : describe pomFirst .empty ⟨"d/b.module"⟩ = .ok bare := by
  decide +kernel

theorem describedBelow_pomFirst_module : DescribedBelow pomFirst .empty ⟨"d"⟩ "module" bare :=
  ⟨_, rfl, ⟨"d/b.module"⟩, by decide, by decide, describe_pomFirst_module⟩

end Sample

/-- The POM and the module describe one coordinate, and the catalog has the
module's component. -/
theorem load_supersedes_pomFirst : ∃ catalog,
    load Sample.pomFirst ⟨"d"⟩ .empty = .ok catalog ∧
    describe Sample.pomFirst .empty ⟨"d/a.pom"⟩ = .ok Sample.derived ∧
    Sample.derived.id = Sample.bare.id ∧ Sample.derived ≠ Sample.bare ∧
    catalog.get? Sample.bare.id = some Sample.bare := by
  have hread : ∀ p ∈ [Path.mk "d/a.pom", ⟨"d/b.module"⟩],
      ∃ x, describe Sample.pomFirst .empty p = .ok x := by
    simp [Sample.describe_pomFirst_pom, Sample.describe_pomFirst_module]
  have hmodule : described Sample.pomFirst .empty "module" [⟨"d/a.pom"⟩, ⟨"d/b.module"⟩]
      = [Sample.bare] := by
    rw [described_cons_of_neg (by decide),
      described_cons_of_pos (by decide) Sample.describe_pomFirst_module]
    rfl
  have hload := load_of_nodup Sample.collect_pomFirst hread (by simp [hmodule])
  exact ⟨_, hload, Sample.describe_pomFirst_pom, rfl, by decide,
    (load_supersedes hload).2.2.2.1 Sample.bare Sample.describedBelow_pomFirst_module⟩

end Catalog

end VariantSelection
