/-
Trees of files: the content of a directory, all the way down.
-/
import VariantSelection.Files.Path

namespace VariantSelection

/-- A file with its bytes, or a directory with its entries. -/
inductive FileNode
  | file (content : ByteArray)
  | directory (entries : List (String × FileNode))

namespace FileNode

instance : Inhabited FileNode := ⟨.directory []⟩

/-- The entry called `name`. -/
def child? (name : String) (entries : List (String × FileNode)) : Option FileNode :=
  (entries.find? fun e => e.1 = name).map Prod.snd

/-- Puts `node` in the place of the entry called `name`, or at the end if
there is none. -/
def putEntry (name : String) (node : FileNode) : List (String × FileNode) → List (String × FileNode)
  | [] => [(name, node)]
  | e :: rest => if e.1 = name then (name, node) :: rest else e :: putEntry name node rest

/-- The node that is reached through the directories with these names. -/
def node? : FileNode → List String → Option FileNode
  | node, [] => some node
  | .file _, _ :: _ => none
  | .directory entries, name :: rest => (child? name entries).bind fun child => child.node? rest

/-- The tree with `node` at the place that the names lead to; a tree without the
directory it would lie in is left as it is. -/
def put (node : FileNode) : FileNode → List String → FileNode
  | _, [] => node
  | .file content, _ :: _ => .file content
  | .directory entries, [name] => .directory (putEntry name node entries)
  | .directory entries, name :: next :: rest =>
    match child? name entries with
    | none => .directory entries
    | some child => .directory (putEntry name (put node child (next :: rest)) entries)

mutual

/-- The paths of the files at and below a node that lies at `path`. -/
def filePaths (path : Path) : FileNode → List Path
  | .file _ => [path]
  | .directory entries => entryPaths path entries

/-- The paths of the files at and below the entries of the directory at `path`. -/
def entryPaths (path : Path) : List (String × FileNode) → List Path
  | [] => []
  | (name, node) :: rest => node.filePaths (path.join name) ++ entryPaths path rest

end

end FileNode

end VariantSelection
