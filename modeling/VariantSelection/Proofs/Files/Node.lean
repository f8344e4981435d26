/-
What lies where in a tree of files.

A walk never looks into a file, and of a directory it only asks whether it has an
entry.  So all that counts of a tree is which kind of node lies at each place,
`kind?`, and putting a node somewhere changes what lies at that place and nothing
else (`kind?_put`): an empty directory is put where nothing was, and a file where
nothing or a file was, and below neither of these there is anything.
-/
import Mathlib.Data.List.Infix
import VariantSelection.Files.Node

namespace VariantSelection

/-- What a node is, without the entries of a directory. -/
inductive FileKind
  | directory
  | file (content : ByteArray)

instance (kind : Option FileKind) : Decidable (kind = some .directory) :=
  match kind with
  | some .directory => isTrue rfl
  | some (.file _) => isFalse nofun
  | none => isFalse nofun

namespace FileNode

/-- What a node is, without the entries of a directory. -/
def kind : FileNode → FileKind
  | .directory _ => .directory
  | .file content => .file content

/-- The kind of the node that the names lead to. -/
def kind? (root : FileNode) (place : List String) : Option FileKind := (root.node? place).map kind

section
variable {root node : FileNode} {entries : List (String × FileNode)} {name last : String}
variable {place before rest : List String}

theorem kind?_eq_directory : root.kind? place = some .directory
    ↔ ∃ entries, root.node? place = some (.directory entries) := by
  unfold kind?
  cases root.node? place with
  | none => simp
  | some node => cases node <;> simp [kind]

theorem kind?_eq_file {content : ByteArray} :
    root.kind? place = some (.file content) ↔ root.node? place = some (.file content) := by
  unfold kind?
  cases root.node? place with
  | none => simp
  | some node => cases node <;> simp [kind]

theorem kind?_eq_none : root.kind? place = none ↔ root.node? place = none := by
  simp [kind?]

theorem child?_putEntry (other : String) :
    child? other (putEntry name node entries)
      = if other = name then some node else child? other entries := by
  induction entries with
  | nil =>
      by_cases hother : other = name
      · simp [child?, putEntry, hother]
      · simp [child?, putEntry, hother, Ne.symm hother]
  | cons e entries ih =>
      by_cases he : e.1 = name
      · by_cases hother : other = name
        · simp [child?, putEntry, he, hother]
        · simp [child?, putEntry, he, hother, Ne.symm hother]
      · unfold child? at ih ⊢
        rw [putEntry, if_neg he, List.find?_cons, List.find?_cons]
        by_cases hsame : e.1 = other
        · have hother : other ≠ name := hsame ▸ he
          simp [hsame, hother]
        · simp only [hsame, decide_false, ih]

theorem node?_append (p q : List String) (root : FileNode) :
    root.node? (p ++ q) = (root.node? p).bind fun node => node.node? q := by
  induction p generalizing root with
  | nil => simp [node?]
  | cons name p ih =>
      cases root with
      | file content => simp [node?]
      | directory entries =>
          rw [List.cons_append, node?, node?, Option.bind_assoc]
          cases child? name entries with
          | none => rfl
          | some child => exact ih child

theorem node?_cons_put (hne : rest ≠ []) (other : String) (q : List String) :
    (put node (.directory entries) (name :: rest)).node? (other :: q)
      = if other = name then (child? name entries).bind fun child => (put node child rest).node? q
        else (FileNode.directory entries).node? (other :: q) := by
  obtain ⟨next, rest, rfl⟩ := List.exists_cons_of_ne_nil hne
  rw [put]
  cases hchild : child? name entries with
  | none =>
      by_cases hother : other = name
      · simp [node?, hother, hchild]
      · simp [hother]
  | some child =>
      by_cases hother : other = name
      · simp [node?, child?_putEntry, hother]
      · simp [node?, child?_putEntry, hother]

/-- The directory that the node was put in. -/
theorem node?_put_parent (node : FileNode) (last : String)
    (hparent : root.node? before = some (.directory entries)) :
    (put node root (before ++ [last])).node? before
      = some (.directory (putEntry last node entries)) := by
  induction before generalizing root with
  | nil =>
      rw [node?, Option.some.injEq] at hparent
      rw [hparent]
      rfl
  | cons name before ih =>
      cases root with
      | file content => simp [node?] at hparent
      | directory _ =>
          rw [node?, Option.bind_eq_some_iff] at hparent
          obtain ⟨child, hchild, hbelow⟩ := hparent
          rw [List.cons_append, node?_cons_put (by simp), if_pos rfl, hchild]
          exact ih hbelow

/-- In that directory there is the node, and next to it what was there before. -/
theorem node?_put_child (node : FileNode) (last : String)
    (hparent : root.kind? before = some .directory) (other : String) (q : List String) :
    (put node root (before ++ [last])).node? (before ++ other :: q)
      = if other = last then node.node? q else root.node? (before ++ other :: q) := by
  obtain ⟨entries, hentries⟩ := kind?_eq_directory.mp hparent
  rw [node?_append, node?_append, node?_put_parent node last hentries, hentries]
  simp only [Option.bind_some, node?, child?_putEntry]
  by_cases hother : other = last
  · simp [hother]
  · simp [hother]

/-- Elsewhere, there is what was there before. -/
theorem kind?_put_elsewhere (hparent : root.kind? before = some .directory) {q : List String}
    (hq : ¬ before ++ [last] <+: q) :
    (put node root (before ++ [last])).kind? q = root.kind? q := by
  induction before generalizing root q with
  | nil =>
      cases root with
      | file content => simp [kind?, node?, kind] at hparent
      | directory entries =>
          cases q with
          | nil => rfl
          | cons other q =>
              have hother : other ≠ last := by
                intro heq
                exact hq (by simp [heq])
              simp [kind?, put, node?, child?_putEntry, hother]
  | cons name before ih =>
      cases root with
      | file content => simp [kind?, node?] at hparent
      | directory entries =>
          cases q with
          | nil =>
              obtain ⟨next, rest, hrest⟩ := List.exists_cons_of_ne_nil
                (List.append_ne_nil_of_right_ne_nil before (List.cons_ne_nil last []))
              rw [List.cons_append, hrest, put]
              cases child? name entries <;> rfl
          | cons other q =>
              unfold kind?
              rw [List.cons_append, node?_cons_put (by simp)]
              by_cases hother : other = name
              · rw [if_pos hother, hother, node?]
                simp only [kind?, node?] at hparent
                cases hchild : child? name entries with
                | none => rfl
                | some child =>
                    rw [hchild] at hparent
                    refine ih hparent fun hunder => hq ?_
                    rw [hother, List.cons_append]
                    exact List.cons_prefix_cons.mpr ⟨rfl, hunder⟩
              · rw [if_neg hother]

/-- A node with nothing below it, put where no directory was, changes one place. -/
theorem kind?_put (hparent : root.kind? before = some .directory)
    (hplace : root.kind? (before ++ [last]) ≠ some .directory)
    (hleaf : ∀ name rest, node.node? (name :: rest) = none) (q : List String) :
    (put node root (before ++ [last])).kind? q
      = if q = before ++ [last] then some node.kind else root.kind? q := by
  -- Below the place there was nothing, since no directory lay there, and there is
  -- nothing now.
  by_cases hunder : before ++ [last] <+: q
  · obtain ⟨rest, rfl⟩ := hunder
    have hput := node?_put_child node last hparent last rest
    rw [if_pos rfl] at hput
    rw [List.append_assoc, List.singleton_append]
    cases rest with
    | nil =>
        rw [if_pos rfl, kind?, hput]
        rfl
    | cons name rest =>
        have hnone : root.kind? (before ++ last :: name :: rest) = none := by
          have hsplit : before ++ last :: name :: rest
              = (before ++ [last]) ++ name :: rest := by simp
          rw [kind?_eq_none, hsplit, node?_append]
          cases hold : root.node? (before ++ [last]) with
          | none => rfl
          | some old =>
              cases old with
              | file content => rfl
              | directory entries => exact absurd (kind?_eq_directory.mpr ⟨entries, hold⟩) hplace
        rw [if_neg (by simp), kind?, hput, hleaf, hnone]
        rfl
  · rw [kind?_put_elsewhere hparent hunder, if_neg]
    rintro rfl
    exact hunder List.prefix_rfl

end

end FileNode

end VariantSelection
