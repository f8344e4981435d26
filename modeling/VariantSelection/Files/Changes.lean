/-
What an action changed in a file system, and where paths lead by their text alone.
-/
import VariantSelection.Files.System

namespace VariantSelection

/-- A directory or a file to make, at the place that names lead to from the root. -/
inductive FileChange
  | directory (place : List String)
  | file (place : List String) (content : ByteArray)

namespace FileNode

mutual

/-- The directories and files at and below a node that lies at `place`, directories
before what they hold. -/
def contents (place : List String) : FileNode → List FileChange
  | .file content => [.file place content]
  | .directory entries => .directory place :: entryContents place entries

/-- The directories and files at and below the entries of the directory at `place`. -/
def entryContents (place : List String) : List (String × FileNode) → List FileChange
  | [] => []
  | (name, node) :: rest => node.contents (place ++ [name]) ++ entryContents place rest

end

/-- The tree with `node` at the place that the names lead to, and with the
directories around it. -/
def mount (node : FileNode) : FileNode → List String → FileNode
  | _, [] => node
  | .file _, name :: rest => .directory [(name, mount node (.directory []) rest)]
  | .directory entries, name :: rest =>
    let child := (child? name entries).getD (.directory [])
    .directory (putEntry name (mount node child rest) entries)

end FileNode

namespace FileSystem

/-- Whether a change has been made already. -/
def holds (s : FileSystem) : FileChange → Bool
  | .directory place =>
    match s.root.node? place with
    | some (.directory _) => true
    | _ => false
  | .file place content =>
    match s.root.node? place with
    | some (.file old) => old.data = content.data
    | _ => false

/-- The changes that lead from one file system to another that has the same
files and more. -/
def changes (before after : FileSystem) : List FileChange :=
  (after.root.contents []).filter fun change => !before.holds change

/-- Where a path leads if every step of it can be taken. -/
def place (s : FileSystem) (p : Path) : List String :=
  p.steps.foldl (fun place step =>
    if step = "." then place else if step = ".." then place.dropLast else place ++ [step])
      (s.start p)

end FileSystem

end VariantSelection
