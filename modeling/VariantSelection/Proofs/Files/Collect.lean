/-
Which files are collected, and in what order.

The names that lead from a directory to its files do not depend on the directory's
own path, and in a tree without two entries of one name, `FileNode.IsTree`, each
file has its own.  So collecting is done on lists of names,
`FileNode.matchingNames`: those of the files are gone through once, the last name
decides which of them count, and sorting the paths is sorting the names, since a
path is compared part by part and the parts of the directory are the same for all of
them (`Path.compare_below`).
-/
import Mathlib.Data.List.Nodup
import VariantSelection.Proofs.Distinct
import VariantSelection.Proofs.Files.Listing
import VariantSelection.Proofs.Files.Walk
import VariantSelection.Proofs.Ordered.Set

namespace VariantSelection

/-- The path that names lead to from a path. -/
def Path.below (base : Path) (names : List String) : Path := names.foldl Path.join base

namespace FileNode

/-- A tree as a file system has it: what lies in a directory has names, and no two
entries have the same one. -/
inductive IsTree : FileNode → Prop
  | file (content : ByteArray) : IsTree (.file content)
  | directory (entries : List (String × FileNode)) (hnames : ∀ e ∈ entries, Path.IsName e.1)
      (hdistinct : (entries.map Prod.fst).Nodup) (hbelow : ∀ e ∈ entries, IsTree e.2) :
      IsTree (.directory entries)

theorem isTree_directory_iff {entries : List (String × FileNode)} :
    IsTree (.directory entries) ↔ (∀ e ∈ entries, Path.IsName e.1) ∧
      (entries.map Prod.fst).Nodup ∧ ∀ e ∈ entries, IsTree e.2 := by
  constructor
  · rintro (_ | ⟨_, hnames, hdistinct, hbelow⟩)
    exact ⟨hnames, hdistinct, hbelow⟩
  · rintro ⟨hnames, hdistinct, hbelow⟩
    exact .directory entries hnames hdistinct hbelow

mutual

instance decidableIsTree : (node : FileNode) → Decidable node.IsTree
  | .file content => isTrue (.file content)
  | .directory entries =>
    have := decidableAreTrees entries
    decidable_of_iff _ isTree_directory_iff.symm

instance decidableAreTrees : (entries : List (String × FileNode)) →
    Decidable (∀ e ∈ entries, e.2.IsTree)
  | [] => isTrue (by simp)
  | e :: rest =>
    have := decidableIsTree e.2
    have := decidableAreTrees rest
    decidable_of_iff (e.2.IsTree ∧ ∀ e ∈ rest, e.2.IsTree) (by simp)

end

mutual

/-- The names that lead from a node to the files at and below it, as a walk through
the tree meets them. -/
def fileNames : FileNode → List (List String)
  | .file _ => [[]]
  | .directory entries => entryNames entries

/-- The names that lead to the files at and below the entries of a directory. -/
def entryNames : List (String × FileNode) → List (List String)
  | [] => []
  | (name, node) :: rest => node.fileNames.map (name :: ·) ++ entryNames rest

end

/-! ### Walking through a tree

The walk gives paths, and `entryPaths_eq_map` replaces them by the names that lead
to them.  Of a tree it meets each file, and each once.
-/

mutual

theorem filePaths_eq_map (path : Path) (node : FileNode) :
    node.filePaths path = node.fileNames.map path.below := by
  cases node with
  | file content => rfl
  | directory entries => exact entryPaths_eq_map path entries

/-- The paths of the files are what their names lead to. -/
theorem entryPaths_eq_map (path : Path) (entries : List (String × FileNode)) :
    entryPaths path entries = (entryNames entries).map path.below := by
  cases entries with
  | nil => rfl
  | cons e rest =>
      rw [entryPaths, entryNames, List.map_append, List.map_map,
        filePaths_eq_map (path.join e.1) e.2, entryPaths_eq_map path rest]
      rfl

end

theorem entryNames_eq_flatMap (entries : List (String × FileNode)) :
    entryNames entries = entries.flatMap fun e => e.2.fileNames.map (e.1 :: ·) := by
  induction entries with
  | nil => rfl
  | cons e rest ih => rw [entryNames, ih, List.flatMap_cons]

section
variable {root node : FileNode} {entries : List (String × FileNode)} {names : List String}

theorem child?_eq_some_iff (hdistinct : (entries.map Prod.fst).Nodup) {name : String} :
    child? name entries = some node ↔ (name, node) ∈ entries := by
  rw [child?, Option.map_eq_some_iff]
  simp only [find?_key_eq_some_iff hdistinct]
  constructor
  · rintro ⟨⟨_, _⟩, ⟨hmem, rfl⟩, rfl⟩
    exact hmem
  · intro hmem
    exact ⟨_, ⟨hmem, rfl⟩, rfl⟩

/-- What lies in a tree is a tree, and the way to it consists of names. -/
theorem IsTree.of_node? (h : root.IsTree) (hnode : root.node? names = some node) :
    node.IsTree ∧ ∀ name ∈ names, Path.IsName name := by
  induction h generalizing names with
  | file content =>
      cases names with
      | nil =>
          rw [node?, Option.some.injEq] at hnode
          exact ⟨hnode ▸ IsTree.file content, by simp⟩
      | cons name rest => simp [node?] at hnode
  | directory entries hnames hdistinct hbelow ih =>
      cases names with
      | nil =>
          rw [node?, Option.some.injEq] at hnode
          exact ⟨hnode ▸ IsTree.directory entries hnames hdistinct hbelow, by simp⟩
      | cons name rest =>
          rw [node?, Option.bind_eq_some_iff] at hnode
          obtain ⟨child, hchild, hrest⟩ := hnode
          have hmem := (child?_eq_some_iff hdistinct).mp hchild
          obtain ⟨htree, hall⟩ := ih _ hmem hrest
          exact ⟨htree, List.forall_mem_cons.mpr ⟨hnames _ hmem, hall⟩⟩

/-- The walk meets the files of the tree. -/
theorem IsTree.mem_fileNames_iff (h : node.IsTree) :
    names ∈ node.fileNames ↔ ∃ content, node.node? names = some (.file content) := by
  induction h generalizing names with
  | file content =>
      cases names with
      | nil => simp [fileNames, node?]
      | cons name rest => simp [fileNames, node?]
  | directory entries hnames hdistinct hbelow ih =>
      rw [fileNames, entryNames_eq_flatMap, List.mem_flatMap]
      cases names with
      | nil => simp [node?]
      | cons name rest =>
          simp only [node?, Option.bind_eq_some_iff, child?_eq_some_iff hdistinct]
          constructor
          · rintro ⟨⟨_, child⟩, hmem, hnames⟩
            obtain ⟨_, hrest, heq⟩ := List.mem_map.mp hnames
            rw [List.cons.injEq] at heq
            obtain ⟨rfl, rfl⟩ := heq
            obtain ⟨content, hcontent⟩ := (ih _ hmem).mp hrest
            exact ⟨content, child, hmem, hcontent⟩
          · rintro ⟨content, child, hmem, hcontent⟩
            exact ⟨_, hmem, List.mem_map_of_mem ((ih _ hmem).mpr ⟨content, hcontent⟩)⟩

/-- It meets each of them once. -/
theorem IsTree.nodup_fileNames (h : node.IsTree) : node.fileNames.Nodup := by
  induction h with
  | file content => simp [fileNames]
  | directory entries hnames hdistinct hbelow ih =>
      rw [fileNames, entryNames_eq_flatMap, List.nodup_flatMap]
      refine ⟨fun e he => (ih e he).map (List.cons_injective), ?_⟩
      refine (List.pairwise_map.mp hdistinct).imp fun hne => ?_
      -- The first name tells the files of two entries apart.
      refine List.disjoint_left.mpr fun names hfirst hsecond => ?_
      obtain ⟨_, -, rfl⟩ := List.mem_map.mp hfirst
      obtain ⟨_, -, heq⟩ := List.mem_map.mp hsecond
      exact hne (List.cons.inj heq).1.symm

end

end FileNode

/-! ### The order of paths

Paths below one directory begin with the same parts, so the comparison goes on to
the names; and where these are names indeed, different ones give different paths.
-/

namespace Path

variable {names names' : List String}

theorem parts_below (base : Path) (h : ∀ name ∈ names, IsName name) :
    (base.below names).parts = base.parts ++ names.map PathPart.name := by
  induction names generalizing base with
  | nil => simp [below]
  | cons name rest ih =>
      obtain ⟨hname, hrest⟩ := List.forall_mem_cons.mp h
      show ((base.join name).below rest).parts = _
      rw [ih (base.join name) hrest, hname.parts_join, List.append_assoc, List.map_cons,
        List.singleton_append]

theorem compare_append_left {α : Type} [Ord α] [Std.ReflOrd α] (front as bs : List α) :
    compare (front ++ as) (front ++ bs) = compare as bs := by
  induction front with
  | nil => rfl
  | cons a front ih =>
      rw [List.cons_append, List.cons_append, List.compare_cons_cons, Std.ReflOrd.compare_self, ih,
        Ordering.eq_then]

theorem compare_map_name (names names' : List String) :
    compare (names.map PathPart.name) (names'.map PathPart.name) = compare names names' := by
  induction names generalizing names' with
  | nil => cases names' <;> rfl
  | cons name rest ih =>
      cases names' with
      | nil => rfl
      | cons name' rest' =>
          rw [List.map_cons, List.map_cons, List.compare_cons_cons, List.compare_cons_cons, ih]
          rfl

/-- **Below one directory, paths come in the order of the names that lead to them.** -/
theorem compare_below (base : Path) (h : ∀ name ∈ names, IsName name)
    (h' : ∀ name ∈ names', IsName name) :
    compare (base.below names) (base.below names') = compare names names' := by
  show compare (base.below names).parts (base.below names').parts = _
  rw [parts_below base h, parts_below base h', compare_append_left, compare_map_name]

theorem below_inj (base : Path) (h : ∀ name ∈ names, IsName name)
    (h' : ∀ name ∈ names', IsName name) :
    base.below names = base.below names' ↔ names = names' := by
  refine ⟨fun heq => ?_, congrArg base.below⟩
  have hsame := compare_below base h h'
  rw [heq, compare_below base h' h', Std.ReflOrd.compare_self] at hsame
  exact Std.LawfulEqCmp.eq_of_compare hsame.symm

/-- The extension of a path is that of the last name that leads to it. -/
theorem hasExtension_below (base : Path) {extensions : List String} (hne : names ≠ [])
    (h : ∀ name ∈ names, IsName name) :
    (base.below names).hasExtension extensions = true ↔
      ∃ name, names.getLast? = some name ∧ ∃ e ∈ extensions, HasExtension name e := by
  obtain ⟨front, last, rfl⟩ := (List.eq_nil_or_concat names).resolve_left hne
  rw [List.concat_eq_append] at h ⊢
  have hjoin : base.below (front ++ [last]) = (base.below front).join last := by simp [below]
  rw [hjoin, (h last (by simp)).hasExtension_join, List.getLast?_concat]
  simp

end Path

/-! ### Strictly ascending lists of names

A strictly ascending list is told by its members.  That is how the order in which a
directory has its entries drops out.
-/

theorem compare_names_eq_lt_iff (names names' : List String) :
    compare names names' = .lt ↔ names < names' := by
  induction names generalizing names' with
  | nil => cases names' <;> simp
  | cons name rest ih =>
      cases names' with
      | nil => simp
      | cons name' rest' =>
          rw [List.compare_cons_cons, Ordering.then_eq_lt, compare_text_eq_lt_iff,
            Std.LawfulEqCmp.compare_eq_iff_eq, ih, List.cons_lt_cons_iff]

/-- What is sorted and has nothing twice is strictly ascending. -/
theorem pairwise_lt_mergeSort {found : List (List String)} (h : found.Nodup) :
    (found.mergeSort fun a b => (compare a b).isLE).Pairwise (· < ·) := by
  have htotal : ∀ a b : List String, (compare a b).isLE || (compare b a).isLE := by
    intro a b
    have hswap : compare b a = (compare a b).swap := Std.OrientedCmp.eq_swap
    rw [hswap]
    cases compare a b <;> rfl
  have hsorted := List.pairwise_mergeSort (fun _ _ _ => Std.TransCmp.isLE_trans) htotal found
  have hdistinct := (List.mergeSort_perm found fun a b => (compare a b).isLE).nodup_iff.mpr h
  refine (hsorted.and hdistinct).imp fun {a b} hab => ?_
  rw [← compare_names_eq_lt_iff]
  obtain ⟨hle, hne⟩ := hab
  cases hcompare : compare a b with
  | lt => rfl
  | eq => exact absurd (Std.LawfulEqCmp.eq_of_compare hcompare) hne
  | gt => simp [hcompare] at hle

theorem eq_of_pairwise_lt {found found' : List (List String)} (h : found.Pairwise (· < ·))
    (h' : found'.Pairwise (· < ·)) (hmem : ∀ names, names ∈ found ↔ names ∈ found') :
    found = found' := by
  have hsets : (⟨found, h.imp (compare_names_eq_lt_iff _ _).mpr⟩ : SortedSet (List String))
      = ⟨found', h'.imp (compare_names_eq_lt_iff _ _).mpr⟩ := SortedSet.ext hmem
  exact congrArg SortedSet.elements hsets

/-! ### Collecting

What was found by names is turned back into paths: the list is the same, and it is
`Collects` that says what it consists of.
-/

namespace FileNode

/-- The names that lead to the files with one of the extensions below a directory,
in ascending order. -/
def matchingNames (directory : Path) (extensions : List String)
    (entries : List (String × FileNode)) :
    List (List String) :=
  ((entryNames entries).filter fun names =>
    (directory.below names).hasExtension extensions).mergeSort
    fun a b => (compare a b).isLE

section
variable {entries : List (String × FileNode)} {names : List String}
  (h : (FileNode.directory entries).IsTree)
include h

theorem IsTree.names_of_mem (hmem : names ∈ entryNames entries) :
    names ≠ [] ∧ ∀ name ∈ names, Path.IsName name := by
  obtain ⟨content, hcontent⟩ := h.mem_fileNames_iff.mp hmem
  refine ⟨?_, (h.of_node? hcontent).2⟩
  rintro rfl
  simp [node?] at hcontent

theorem IsTree.mem_matchingNames_iff (directory : Path) (extensions names : List String) :
    names ∈ matchingNames directory extensions entries ↔
      (∃ content, (FileNode.directory entries).node? names = some (.file content)) ∧
        ∃ name, names.getLast? = some name ∧ ∃ e ∈ extensions, Path.HasExtension name e := by
  rw [matchingNames, List.mem_mergeSort, List.mem_filter, ← h.mem_fileNames_iff]
  refine and_congr_right fun hmem => ?_
  obtain ⟨hne, hall⟩ := h.names_of_mem hmem
  exact Path.hasExtension_below directory hne hall

theorem IsTree.names_of_mem_matchingNames {directory : Path} {extensions : List String}
    (hmem : names ∈ matchingNames directory extensions entries) :
    ∀ name ∈ names, Path.IsName name := by
  rw [matchingNames, List.mem_mergeSort, List.mem_filter] at hmem
  exact (h.names_of_mem hmem.1).2

theorem IsTree.pairwise_matchingNames (directory : Path) (extensions : List String) :
    (matchingNames directory extensions entries).Pairwise (· < ·) :=
  pairwise_lt_mergeSort (h.nodup_fileNames.filter _)

theorem IsTree.pairwise_below_matchingNames (directory : Path) (extensions : List String) :
    ((matchingNames directory extensions entries).map directory.below).Pairwise
      fun p q => compare p q = .lt := by
  refine List.pairwise_map.mpr ((h.pairwise_matchingNames directory extensions).imp_of_mem
    fun {a b} ha hb hab => ?_)
  rw [Path.compare_below directory (h.names_of_mem_matchingNames ha)
    (h.names_of_mem_matchingNames hb)]
  exact (compare_names_eq_lt_iff a b).mpr hab

/-- Names that lead to one path are the same, and a file is not a directory; so
`below` has no path twice. -/
theorem IsTree.below_notMem_of_directory (directory : Path) (extensions : List String)
    {inner : List (String × FileNode)}
    (hinner : (FileNode.directory entries).node? names = some (.directory inner)) :
    directory.below names ∉ (matchingNames directory extensions entries).map directory.below := by
  intro hpath
  obtain ⟨names', hfound, heq⟩ := List.mem_map.mp hpath
  have hsame : names' = names := (Path.below_inj directory (h.names_of_mem_matchingNames hfound)
    (h.of_node? hinner).2).mp heq
  obtain ⟨⟨content, hcontent⟩, -⟩ := (h.mem_matchingNames_iff directory extensions names').mp hfound
  rw [hsame, hinner] at hcontent
  cases hcontent

/-- Sorting the paths is sorting the names. -/
theorem IsTree.map_below_matchingNames (directory : Path) (extensions : List String) :
    (matchingNames directory extensions entries).map directory.below
      = ((entryPaths directory entries).filter fun p => p.hasExtension extensions).mergeSort
          fun p q => (compare p q).isLE := by
  rw [entryPaths_eq_map, List.filter_map]
  refine List.map_mergeSort fun names hnames names' hnames' => ?_
  rw [Path.compare_below directory (h.names_of_mem (List.mem_of_mem_filter hnames)).2
    (h.names_of_mem (List.mem_of_mem_filter hnames')).2]

end

end FileNode

namespace FileSystem

/-- What is collected below a directory, as the names that lead to it. -/
structure Collects (s : FileSystem) (directory : Path) (place : List String)
    (extensions : List String) (found : List (List String)) : Prop where
  result : s.collect directory extensions = .ok (found.map directory.below)
  /-- The names lead to files, at any depth, and the last of them has one of the
  extensions. -/
  mem_iff : ∀ names, names ∈ found ↔
    (∃ content, s.root.node? (place ++ names) = some (.file content)) ∧
      ∃ name, names.getLast? = some name ∧ ∃ e ∈ extensions, Path.HasExtension name e
  /-- The first name that differs decides, so nothing stands twice. -/
  ascending : found.Pairwise (· < ·)
  ordered : (found.map directory.below).Pairwise fun p q => compare p q = .lt
  /-- A directory is not collected, whatever its name is. -/
  directory_notMem : ∀ names, s.root.kind? (place ++ names) = some .directory →
    directory.below names ∉ found.map directory.below

section
variable {s t : FileSystem} {directory p : Path} {place : List String} {extensions : List String}

theorem entries_eq_ok (hplace : s.locate p = .ok place) {entries : List (String × FileNode)}
    (hnode : s.root.node? place = some (.directory entries)) : s.entries p = .ok entries := by
  unfold FileSystem.entries node
  rw [hplace, ok_bind, hnode]
  rfl

theorem exists_collects (extensions : List String) (htree : s.root.IsTree)
    (hplace : s.locate directory = .ok place)
    (hdirectory : s.root.kind? place = some .directory) :
    ∃ found, s.Collects directory place extensions found := by
  obtain ⟨entries, hnode⟩ := FileNode.kind?_eq_directory.mp hdirectory
  have hentries := (htree.of_node? hnode).1
  have hbelow : ∀ names,
      s.root.node? (place ++ names) = (FileNode.directory entries).node? names := by
    intro names
    rw [FileNode.node?_append, hnode, Option.bind_some]
  refine ⟨FileNode.matchingNames directory extensions entries, ?_, ?_,
    hentries.pairwise_matchingNames directory extensions,
    hentries.pairwise_below_matchingNames directory extensions, ?_⟩
  · rw [hentries.map_below_matchingNames, collect, entries_eq_ok hplace hnode]
  · intro names
    rw [hentries.mem_matchingNames_iff, hbelow]
  · intro names hkind
    obtain ⟨inner, hinner⟩ := FileNode.kind?_eq_directory.mp hkind
    rw [hbelow] at hinner
    exact hentries.below_notMem_of_directory directory extensions hinner

theorem locate_extend (hcurrent : t.current = s.current) (hextends : Extends s.root t.root)
    (hplace : s.locate p = .ok place) : t.locate p = .ok place := by
  unfold locate at hplace ⊢
  by_cases hempty : p.text = ""
  · simp [hempty] at hplace
  · rw [if_neg hempty] at hplace ⊢
    rw [start_congr hcurrent]
    exact hextends.walk p.steps hplace

end

/-- **Below a directory exactly the files with one of the extensions are
collected**, each once and in the order of their paths.  In which order the
directories have their entries does not count: a tree with the same at every place
gives the same paths. -/
theorem collect_exactly {s : FileSystem} {directory : Path} {place : List String}
    (extensions : List String) (htree : s.root.IsTree) (hplace : s.locate directory = .ok place)
    (hdirectory : s.root.kind? place = some .directory) :
    (∃ found, s.Collects directory place extensions found) ∧
      ∀ t : FileSystem, t.root.IsTree → t.current = s.current →
        (∀ q, t.root.kind? q = s.root.kind? q) →
        t.collect directory extensions = s.collect directory extensions := by
  obtain ⟨found, hfound⟩ := exists_collects extensions htree hplace hdirectory
  refine ⟨⟨found, hfound⟩, fun t htree' hcurrent hsame => ?_⟩
  have hextends : Extends s.root t.root :=
    ⟨fun q hq => (hsame q).trans hq, fun q hq => by rwa [hsame]⟩
  obtain ⟨found', hfound'⟩ := exists_collects extensions htree'
    (locate_extend hcurrent hextends hplace) ((hsame place).trans hdirectory)
  have heq : found' = found := by
    refine eq_of_pairwise_lt hfound'.ascending hfound.ascending fun names => ?_
    simp only [hfound'.mem_iff, hfound.mem_iff, ← FileNode.kind?_eq_file, hsame]
  rw [hfound'.result, hfound.result, heq]

namespace Sample

/-- A directory with a name of a metadata file, one whose name begins as that of a
file beside it does, and a file whose name is an extension. -/
def repository : FileSystem where
  root := .directory [("d", .directory
    [("lib-1.pom", .file .empty), (".pom", .file .empty), ("notes.txt", .file .empty),
      ("lib.module", .directory [("c.module", .file .empty)]),
      ("lib", .directory [("b.pom", .file .empty)])])]
  current := []

end Sample

theorem collect_exactly_repository :
    Sample.repository.root.IsTree ∧ Sample.repository.locate ⟨"d"⟩ = .ok ["d"] ∧
    Sample.repository.root.kind? ["d"] = some .directory ∧
    (∃ found, Sample.repository.Collects ⟨"d"⟩ ["d"] ["module", "pom"] found) ∧
    ∀ t : FileSystem, t.root.IsTree → t.current = Sample.repository.current →
      (∀ q, t.root.kind? q = Sample.repository.root.kind? q) →
      t.collect ⟨"d"⟩ ["module", "pom"] = Sample.repository.collect ⟨"d"⟩ ["module", "pom"] := by
  have htree : Sample.repository.root.IsTree := by decide
  have hplace : Sample.repository.locate ⟨"d"⟩ = .ok ["d"] := rfl
  have hdirectory : Sample.repository.root.kind? ["d"] = some .directory := by decide
  exact ⟨htree, hplace, hdirectory, collect_exactly ["module", "pom"] htree hplace hdirectory⟩

end FileSystem

end VariantSelection
