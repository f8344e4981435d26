/-
Which files a directory lists.

A new directory with nothing in it adds no path to any list, wherever the list
starts (`listed_put_empty`); a new file adds one to the list of the directory that
it lies in (`entryPaths_putEntry_file`).
-/
import VariantSelection.Proofs.Files.Node

namespace VariantSelection

namespace FileNode

/-- The paths of the files at and below the node that the names lead to, for a node
that lies at `path`. -/
def listed (path : Path) (root : FileNode) (place : List String) : List Path :=
  ((root.node? place).map fun node => node.filePaths path).getD []

section
variable {root node child : FileNode} {entries : List (String × FileNode)} {name last : String}
variable {before : List String}

theorem entryPaths_eq_flatMap (path : Path) (entries : List (String × FileNode)) :
    entryPaths path entries = entries.flatMap fun e => e.2.filePaths (path.join e.1) := by
  induction entries with
  | nil => rfl
  | cons e entries ih => rw [entryPaths, ih, List.flatMap_cons]

theorem entryPaths_append (path : Path) (front back : List (String × FileNode)) :
    entryPaths path (front ++ back) = entryPaths path front ++ entryPaths path back := by
  simp only [entryPaths_eq_flatMap, List.flatMap_append]

theorem putEntry_of_free (node : FileNode) (hfree : child? name entries = none) :
    putEntry name node entries = entries ++ [(name, node)] := by
  induction entries with
  | nil => rfl
  | cons e entries ih =>
      by_cases he : e.1 = name
      · simp [child?, he] at hfree
      · have hrest : child? name entries = none := by simpa [child?, he] using hfree
        rw [putEntry, if_neg he, ih hrest, List.cons_append]

/-- A node in the place of one that lists the same files. -/
theorem entryPaths_putEntry_of_same (path : Path) (hchild : child? name entries = some child)
    (hsame : node.filePaths (path.join name) = child.filePaths (path.join name)) :
    entryPaths path (putEntry name node entries) = entryPaths path entries := by
  induction entries with
  | nil => simp [child?] at hchild
  | cons e entries ih =>
      obtain ⟨other, old⟩ := e
      by_cases he : other = name
      · have hold : old = child := by simpa [child?, he] using hchild
        rw [putEntry, if_pos he, entryPaths, entryPaths, hsame, hold, he]
      · have hrest : child? name entries = some child := by simpa [child?, he] using hchild
        rw [putEntry, if_neg he, entryPaths, entryPaths, ih hrest]

theorem filePaths_put_empty (hparent : root.kind? before = some .directory)
    (hfree : root.kind? (before ++ [last]) = none) (path : Path) :
    (put (.directory []) root (before ++ [last])).filePaths path = root.filePaths path := by
  induction before generalizing root path with
  | nil =>
      obtain ⟨entries, hentries⟩ := kind?_eq_directory.mp hparent
      rw [node?, Option.some.injEq] at hentries
      rw [hentries] at hfree ⊢
      have hnone : child? last entries = none := by
        simpa [kind?_eq_none, node?, Option.bind_eq_none_iff] using hfree
      rw [List.nil_append, put, filePaths, filePaths, putEntry_of_free _ hnone, entryPaths_append]
      simp [entryPaths, filePaths]
  | cons name before ih =>
      obtain ⟨below, hbelow⟩ := kind?_eq_directory.mp hparent
      cases root with
      | file content => simp [node?] at hbelow
      | directory entries =>
          rw [node?, Option.bind_eq_some_iff] at hbelow
          obtain ⟨child, hchild, hinner⟩ := hbelow
          have hinnerFree : child.kind? (before ++ [last]) = none := by
            simpa [kind?_eq_none, node?, hchild] using hfree
          have hsame := ih (kind?_eq_directory.mpr ⟨below, hinner⟩) hinnerFree (path.join name)
          obtain ⟨next, rest, hrest⟩ := List.exists_cons_of_ne_nil
            (List.append_ne_nil_of_right_ne_nil before (List.cons_ne_nil last []))
          rw [hrest] at hsame
          rw [List.cons_append, hrest, put, hchild]
          simp only [filePaths]
          exact entryPaths_putEntry_of_same path hchild hsame

theorem listed_empty (path : Path) (place : List String) :
    listed path (.directory []) place = [] := by
  cases place with
  | nil => simp [listed, node?, filePaths, entryPaths]
  | cons name rest => simp [listed, node?, child?]

/-- **A new directory with nothing in it is listed nowhere.** -/
theorem listed_put_empty (hparent : root.kind? before = some .directory)
    (hfree : root.kind? (before ++ [last]) = none) (path : Path) (place : List String) :
    listed path (put (.directory []) root (before ++ [last])) place = listed path root place := by
  induction before generalizing root place with
  | nil =>
      cases place with
      | nil =>
          simp only [listed, node?, Option.map_some, Option.getD_some]
          exact filePaths_put_empty hparent hfree path
      | cons other rest =>
          unfold listed
          rw [← List.nil_append (other :: rest), node?_put_child _ last hparent]
          by_cases hother : other = last
          · have hnone : root.node? ([] ++ other :: rest) = none := by
              rw [hother, ← List.singleton_append, ← List.append_assoc, node?_append,
                kind?_eq_none.mp hfree, Option.bind_none]
            rw [if_pos hother, hnone]
            exact listed_empty path rest
          · rw [if_neg hother]
  | cons name before ih =>
      cases place with
      | nil =>
          simp only [listed, node?, Option.map_some, Option.getD_some]
          exact filePaths_put_empty hparent hfree path
      | cons other rest =>
          obtain ⟨below, hbelow⟩ := kind?_eq_directory.mp hparent
          cases root with
          | file content => simp [node?] at hbelow
          | directory entries =>
              rw [node?, Option.bind_eq_some_iff] at hbelow
              obtain ⟨child, hchild, hinner⟩ := hbelow
              have hinnerFree : child.kind? (before ++ [last]) = none := by
                simpa [kind?_eq_none, node?, hchild] using hfree
              have hsame := ih (kind?_eq_directory.mpr ⟨below, hinner⟩) hinnerFree rest
              unfold listed at hsame ⊢
              rw [List.cons_append, node?_cons_put (by simp)]
              by_cases hother : other = name
              · rw [if_pos hother, hother, node?, hchild]
                exact hsame
              · rw [if_neg hother]

/-- Nothing is listed below a place where nothing is, or an empty directory. -/
theorem listed_below_empty {place : List String} (path : Path) (name : String)
    (hempty : ∀ entries, root.node? place = some (.directory entries) → entries = []) :
    listed path root (place ++ [name]) = [] := by
  have hnone : root.node? (place ++ [name]) = none := by
    rw [node?_append]
    cases hplace : root.node? place with
    | none => rfl
    | some found =>
        cases found with
        | file content => rfl
        | directory entries => rw [hempty entries hplace]; rfl
  rw [listed, hnone]
  rfl

/-- A file in a directory that lists no files. -/
theorem entryPaths_putEntry_file (content : ByteArray) (path : Path)
    (hnone : entryPaths path entries = [])
    (hplace : ∀ below, child? name entries ≠ some (.directory below)) :
    entryPaths path (putEntry name (.file content) entries) = [path.join name] := by
  have hfree : child? name entries = none := by
    cases hchild : child? name entries with
    | none => rfl
    | some child =>
        have hmem : (name, child) ∈ entries := by
          obtain ⟨e, he, heq⟩ := Option.map_eq_some_iff.mp hchild
          have hname : e.1 = name := by simpa using List.find?_some he
          rw [← hname, ← heq]
          exact List.mem_of_find?_eq_some he
        rw [entryPaths_eq_flatMap, List.flatMap_eq_nil_iff] at hnone
        cases child with
        | directory below => exact absurd hchild (hplace below)
        | file old =>
            have hnil := hnone _ hmem
            rw [filePaths] at hnil
            cases hnil
  rw [putEntry_of_free _ hfree, entryPaths_append, hnone]
  rfl

end

end FileNode

end VariantSelection
