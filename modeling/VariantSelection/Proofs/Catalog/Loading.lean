/-
What loading makes of the metadata files.

Every file describes one component, and its extension decides what becomes of that.
A component from module metadata asks for a free coordinate, and loading stops where
there is none.  A component from a POM waits, and fills its coordinate in the end if
that is free then.  So two module files are all that can clash.  POM files never do:
of two for one coordinate the first one fills it, and the second one is passed over
as if module metadata had superseded it.  `foldlM_addFile_of_free` and
`foldlM_addFile_of_not_free` say this of a run through the files.  Nothing enters
the catalog but what some file describes, so it has the properties that all files
give to their components (`forall_of_load`).
-/
import VariantSelection.Proofs.Except
import VariantSelection.Proofs.Ordered.Map
import VariantSelection.Catalog.Loading

namespace VariantSelection

namespace Catalog

/-! ### The components of a catalog

`insert` is what module metadata asks for and `fill` what a POM asks for.  They do
the same where the coordinate is free, and where it is taken the one is refused and
the other passes.
-/

section
variable {c : Catalog} {x : Component} {id : Coordinate}

theorem contains_iff : c.contains id = true ↔ ∃ y, c.get? id = some y :=
  SortedMap.contains_iff

theorem get?_fill : (c.fill x).get? id = (c.get? id).or (if x.id = id then some x else none) := by
  unfold fill
  by_cases htaken : c.contains x.id = true
  · rw [if_pos htaken]
    by_cases hid : x.id = id
    · obtain ⟨y, hy⟩ := contains_iff.mp (hid ▸ htaken)
      rw [hy, Option.some_or]
    · rw [if_neg hid, Option.or_none]
  · rw [if_neg htaken]
    show (c.byCoordinate.insert x.id x).get? id = _
    rw [SortedMap.get?_insert]
    by_cases hid : id = x.id
    · have hfree : c.get? id = none := by
        rw [Option.eq_none_iff_forall_ne_some]
        exact fun y hy => htaken (contains_iff.mpr ⟨y, hid ▸ hy⟩)
      rw [if_pos hid, if_pos hid.symm, hfree, Option.none_or]
    · rw [if_neg hid, if_neg (Ne.symm hid), Option.or_none]
      rfl

/-- A coordinate that is free is filled by the first of `components` that has it. -/
theorem get?_foldl_fill (components : List Component) :
    ∀ c : Catalog, (components.foldl fill c).get? id
      = (c.get? id).or (components.find? fun x => x.id = id) := by
  induction components with
  | nil => intro c; exact (Option.or_none).symm
  | cons x rest ih =>
      intro c
      rw [List.foldl_cons, ih, get?_fill, Option.or_assoc, List.find?_cons]
      by_cases hid : x.id = id
      · simp [hid]
      · simp [hid]

theorem contains_fill : (c.fill x).contains id = (c.contains id || x.id = id) := by
  rw [Bool.eq_iff_iff, Bool.or_eq_true, decide_eq_true_eq, contains_iff, contains_iff, get?_fill]
  cases c.get? id with
  | some y => simp
  | none => simp

theorem insert_of_free (h : c.contains x.id = false) (origin : String) :
    c.insert x origin = .ok (c.fill x) := by
  simp [insert, fill, h]

theorem insert_of_taken (h : c.contains x.id = true) (origin : String) :
    c.insert x origin = .error ⟨x.id, origin⟩ := by
  simp [insert, h]

end

/-- A component of the catalog with `x` in it is `x` or was there before. -/
theorem mem_components_fill {c : Catalog} {x y : Component} (h : y ∈ (c.fill x).components) :
    y = x ∨ y ∈ c.components := by
  unfold fill at h
  by_cases htaken : c.contains x.id = true
  · rw [if_pos htaken] at h
    exact Or.inr h
  · rw [if_neg htaken] at h
    obtain ⟨e, he, rfl⟩ := List.mem_map.mp h
    rcases mem_insertEntry he with rfl | he
    · exact Or.inl rfl
    · exact Or.inr (List.mem_map_of_mem he)

/-- The components have coordinates that are free, each its own. -/
def Free (c : Catalog) (components : List Component) : Prop :=
  (components.map Component.id).Nodup ∧ ∀ x ∈ components, c.contains x.id = false

theorem free_cons {c : Catalog} {x : Component} {rest : List Component} :
    c.Free (x :: rest) ↔ c.contains x.id = false ∧ (c.fill x).Free rest := by
  simp only [Free, List.map_cons, List.nodup_cons, List.forall_mem_cons, contains_fill,
    Bool.or_eq_false_iff, decide_eq_false_iff_not, List.mem_map, not_exists, not_and]
  constructor
  · rintro ⟨⟨hfresh, hnodup⟩, hx, hrest⟩
    exact ⟨hx, hnodup, fun y hy => ⟨hrest y hy, fun hid => hfresh y hy hid.symm⟩⟩
  · rintro ⟨hx, hnodup, hrest⟩
    exact ⟨⟨fun y hy hid => (hrest y hy).2 hid.symm, hnodup⟩, hx, fun y hy => (hrest y hy).1⟩

/-! ### One file

A file is read without a look at what was read before (`describe`), and only what it
describes is then added to that (`Loading.add`).
-/

/-- The component that a metadata file describes. -/
def describe (s : FileSystem) (r : Registry) (p : Path) : Except CatalogError Component := do
  let content ← (s.read p).mapError .file
  if p.hasExtension ["pom"] then (Pom.readText content p.text).mapError .pom
  else (Metadata.readText content p.text r).mapError .metadata

/-- What was read when a component is read from the file at `p`. -/
def Loading.add (loading : Loading) (p : Path) (x : Component) : Except CatalogError Loading :=
  if p.hasExtension ["pom"] then return { loading with poms := loading.poms ++ [x] }
  else do
    let catalog ← (loading.catalog.insert x p.text).mapError .duplicateComponent
    return { loading with catalog }

section
variable {s : FileSystem} {r : Registry} {p : Path} {x : Component} {loading : Loading}

theorem addFile_eq : loading.addFile s r p = describe s r p >>= loading.add p := by
  unfold Loading.addFile describe Loading.add
  cases s.read p with
  | error cause => rfl
  | ok content =>
      by_cases hpom : p.hasExtension ["pom"] = true
      · simp only [mapError_ok, ok_bind, if_pos hpom]
      · simp only [mapError_ok, ok_bind, if_neg hpom]

theorem add_of_pom (hpom : p.hasExtension ["pom"] = true) :
    loading.add p x = .ok { loading with poms := loading.poms ++ [x] } := by
  rw [Loading.add, if_pos hpom]
  rfl

theorem add_of_free (hpom : p.hasExtension ["pom"] = false)
    (hfree : loading.catalog.contains x.id = false) :
    loading.add p x = .ok { loading with catalog := loading.catalog.fill x } := by
  rw [Loading.add, if_neg (by simp [hpom]), insert_of_free hfree]
  rfl

theorem add_of_taken (hpom : p.hasExtension ["pom"] = false)
    (htaken : loading.catalog.contains x.id = true) :
    loading.add p x = .error (.duplicateComponent ⟨x.id, p.text⟩) := by
  rw [Loading.add, if_neg (by simp [hpom]), insert_of_taken htaken]
  rfl

end

/-! ### What holds of every component

A property of components is carried from the files to the catalog by one induction,
whatever the property is.
-/

section
variable {s : FileSystem} {r : Registry} {P : Component → Prop}

/-- All that was read so far has the property. -/
def Loading.All (loading : Loading) (P : Component → Prop) : Prop :=
  (∀ x ∈ loading.catalog.components, P x) ∧ ∀ x ∈ loading.poms, P x

/-- A file adds the component that it describes to what was read, and nothing else. -/
theorem Loading.All.addFile {loading next : Loading} {p : Path}
    (hfile : ∀ p x, describe s r p = .ok x → P x) (hall : loading.All P)
    (h : loading.addFile s r p = .ok next) : next.All P := by
  rw [addFile_eq, bind_eq_ok] at h
  obtain ⟨x, hx, hadd⟩ := h
  by_cases hpom : p.hasExtension ["pom"] = true
  · rw [add_of_pom hpom, Except.ok.injEq] at hadd
    rw [← hadd]
    refine ⟨hall.1, fun y hy => ?_⟩
    rcases List.mem_append.mp hy with hy | hy
    · exact hall.2 y hy
    · rw [List.mem_singleton.mp hy]
      exact hfile p x hx
  · have hmodule : p.hasExtension ["pom"] = false := by simpa using hpom
    by_cases htaken : loading.catalog.contains x.id = true
    · rw [add_of_taken hmodule htaken] at hadd
      cases hadd
    · rw [add_of_free hmodule (by simpa using htaken), Except.ok.injEq] at hadd
      rw [← hadd]
      refine ⟨fun y hy => ?_, hall.2⟩
      rcases mem_components_fill hy with rfl | hy
      · exact hfile p _ hx
      · exact hall.1 y hy

theorem forall_foldl_fill (components : List Component) :
    ∀ c : Catalog, (∀ x ∈ c.components, P x) → (∀ x ∈ components, P x) →
      ∀ x ∈ (components.foldl fill c).components, P x := by
  induction components with
  | nil =>
      intro c hc _
      exact hc
  | cons first rest ih =>
      intro c hc hcomponents
      obtain ⟨hfirst, hrest⟩ := List.forall_mem_cons.mp hcomponents
      refine ih (c.fill first) (fun x hx => ?_) hrest
      rcases mem_components_fill hx with rfl | hx
      · exact hfirst
      · exact hc x hx

/-- **Whatever holds of each component that a file describes holds of each component
of the catalog.** -/
theorem forall_of_load {directory : Path} {catalog : Catalog}
    (hfile : ∀ p x, describe s r p = .ok x → P x) (h : load s directory r = .ok catalog) :
    ∀ x ∈ catalog.components, P x := by
  unfold load at h
  simp only [bind_eq_ok, pure_eq_ok] at h
  obtain ⟨files, -, loading, hloading, rfl⟩ := h
  have hstart : Loading.All ⟨.empty, []⟩ P := ⟨by rintro _ ⟨⟩, by rintro _ ⟨⟩⟩
  have hall : loading.All P :=
    foldlM_invariant (P := fun loading => Loading.All loading P)
      (fun _ _ _ hall hnext => hall.addFile hfile hnext) files hstart hloading
  exact forall_foldl_fill loading.poms loading.catalog hall.1 hall.2

end

/-! ### All files

Which files matter for a coordinate can be said of their list at once: `described`
picks the components of the files with one extension, in the order of the files.
-/

/-- The components that the files with an extension describe, in the order
of the files. -/
def described (s : FileSystem) (r : Registry) (extension : String) (files : List Path) :
    List Component :=
  (files.filter fun p => p.hasExtension [extension]).filterMap fun p => (describe s r p).toOption

/-- A file describes a component, as module metadata or as a POM. -/
inductive Describes (s : FileSystem) (r : Registry) (p : Path) (x : Component) : Prop
  | asModule (hmodule : p.hasExtension ["module"] = true) (hpom : p.hasExtension ["pom"] = false)
      (hx : describe s r p = .ok x)
  | asPom (hmodule : p.hasExtension ["module"] = false) (hpom : p.hasExtension ["pom"] = true)
      (hx : describe s r p = .ok x)

section
variable {s : FileSystem} {r : Registry} {p : Path} {x : Component}

theorem hasExtension_iff {extensions : List String} :
    p.hasExtension extensions = true ↔ ∃ e ∈ extensions, p.extension? = some e := by
  unfold Path.hasExtension
  cases p.extension? with
  | none => simp
  | some e => simp

theorem hasExtension_singleton_iff {e : String} :
    p.hasExtension [e] = true ↔ p.extension? = some e := by
  simp [hasExtension_iff]

theorem describes_of_metadata (h : p.hasExtension metadataExtensions = true)
    (hx : describe s r p = .ok x) : Describes s r p x := by
  obtain ⟨e, he, hp⟩ := hasExtension_iff.mp h
  have hother : ∀ other, e ≠ other → p.hasExtension [other] = false := by
    intro other hne
    rw [Path.hasExtension, hp]
    simpa using hne
  simp only [metadataExtensions, List.mem_cons, List.not_mem_nil, or_false] at he
  rcases he with rfl | rfl
  · exact .asModule (hasExtension_singleton_iff.mpr hp) (hother _ (by decide)) hx
  · exact .asPom (hother _ (by decide)) (hasExtension_singleton_iff.mpr hp) hx

theorem described_cons_of_pos {extension : String} (h : p.hasExtension [extension] = true)
    (hx : describe s r p = .ok x) (rest : List Path) :
    described s r extension (p :: rest) = x :: described s r extension rest := by
  rw [described, List.filter_cons_of_pos (by simpa using h), List.filterMap_cons, hx, described]
  rfl

theorem described_cons_of_neg {extension : String} (h : p.hasExtension [extension] = false)
    (rest : List Path) :
    described s r extension (p :: rest) = described s r extension rest := by
  rw [described, List.filter_cons_of_neg (by simpa using h), described]

/-- Files are read to the end when the module files among them find free
coordinates: `addFile` refuses nothing else of files that describe components. -/
theorem foldlM_addFile_of_free (files : List Path) :
    ∀ loading : Loading, (∀ p ∈ files, ∃ x, Describes s r p x) →
      loading.catalog.Free (described s r "module" files) →
      files.foldlM (Loading.addFile s r) loading
        = .ok ⟨(described s r "module" files).foldl fill loading.catalog,
            loading.poms ++ described s r "pom" files⟩ := by
  induction files with
  | nil =>
      intro loading _ _
      rw [List.foldlM_nil, pure_eq_ok, described, described]
      simp
  | cons p rest ih =>
      intro loading hfiles hfree
      obtain ⟨⟨x, hp⟩, hrest⟩ := List.forall_mem_cons.mp hfiles
      rw [List.foldlM_cons, addFile_eq]
      cases hp with
      | asModule hmodule hpom hx =>
          rw [described_cons_of_pos hmodule hx] at hfree ⊢
          obtain ⟨hxfree, hrestfree⟩ := free_cons.mp hfree
          have hend := ih { loading with catalog := loading.catalog.fill x } hrest hrestfree
          rw [hx, ok_bind, add_of_free hpom hxfree, ok_bind, hend, described_cons_of_neg hpom]
          rfl
      | asPom hmodule hpom hx =>
          rw [described_cons_of_neg hmodule] at hfree ⊢
          have hend := ih { loading with poms := loading.poms ++ [x] } hrest hfree
          rw [hx, ok_bind, add_of_pom hpom, ok_bind, hend, described_cons_of_pos hpom hx,
            List.append_assoc]
          rfl

/-- Reading stops at a module file whose coordinate is taken. -/
theorem foldlM_addFile_of_not_free (files : List Path) :
    ∀ loading : Loading, (∀ p ∈ files, ∃ x, Describes s r p x) →
      ¬loading.catalog.Free (described s r "module" files) →
      ∃ cause, files.foldlM (Loading.addFile s r) loading = .error (.duplicateComponent cause) := by
  induction files with
  | nil =>
      intro loading _ hclash
      exact absurd ⟨List.nodup_nil, by simp [described]⟩ hclash
  | cons p rest ih =>
      intro loading hfiles hclash
      obtain ⟨⟨x, hp⟩, hrest⟩ := List.forall_mem_cons.mp hfiles
      rw [List.foldlM_cons, addFile_eq]
      cases hp with
      | asModule hmodule hpom hx =>
          rw [described_cons_of_pos hmodule hx, free_cons, not_and] at hclash
          rw [hx, ok_bind]
          by_cases htaken : loading.catalog.contains x.id = true
          · rw [add_of_taken hpom htaken]
            exact ⟨_, rfl⟩
          · have hxfree : loading.catalog.contains x.id = false := by simpa using htaken
            rw [add_of_free hpom hxfree, ok_bind]
            exact ih _ hrest (hclash hxfree)
      | asPom hmodule hpom hx =>
          rw [described_cons_of_neg hmodule] at hclash
          rw [hx, ok_bind, add_of_pom hpom, ok_bind]
          exact ih _ hrest hclash

end

end Catalog

end VariantSelection
