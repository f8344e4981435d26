/-
The program: it takes a copy of the files that a command looks at, runs the command
on the copy, and makes the changes on the disk.
-/
import VariantSelection.Command.Arguments
import VariantSelection.Files.Changes

namespace VariantSelection

/-- The absolute path of a place. -/
def placeText (place : List String) : String := "/" ++ joinWith "/" place

/-- The node at a path on the disk, if there is one, down to `depth` directories. -/
def readNode (depth : Nat) (path : String) : IO (Option FileNode) :=
  try
    let found ← IO.FS.realPath path
    if ← found.isDir then
      match depth with
      | 0 => return some (.directory [])
      | depth + 1 =>
        let entries ← (← found.readDir).toList.filterMapM fun entry => do
          let node ← readNode depth (path ++ "/" ++ entry.fileName)
          return node.map fun node => (entry.fileName, node)
        return some (.directory entries)
    else return some (.file (← IO.FS.readBinFile found))
  catch _ => return none

/-- Copies the node at a place, if there is one. -/
def copyNode (depth : Nat) (s : FileSystem) (place : List String) : IO FileSystem := do
  match ← readNode depth (placeText place) with
  | some node => return { s with root := node.mount s.root place }
  | none => return s

/-- Copies the node at a place where the copy has none yet. -/
def copyMissing (s : FileSystem) (place : List String) : IO FileSystem := do
  if (s.root.node? place).isSome then return s else copyNode 0 s place

/-- Copies the directories around a place, as far as they exist, and everything at
and below it. -/
def copyTree (s : FileSystem) (place : List String) : IO FileSystem := do
  let around := (List.range place.length).map fun n => place.take n
  copyNode 1000 (← around.foldlM copyMissing s) place

/-- Makes a change on the disk. -/
def applyChange : FileChange → IO Unit
  | .directory place => IO.FS.createDirAll (placeText place)
  | .file place content => IO.FS.writeBinFile (placeText place) content

/-- The files that a command looks at. -/
def copyFor (arguments : List String) (current : List String) : IO FileSystem := do
  let bare : FileSystem := ⟨FileNode.mount (.directory []) (.directory []) current, current⟩
  let s ← copyNode 0 bare (bare.place (bare.currentPath.join Manifest.fileName))
  match Command.parse arguments with
  | .ok command => (command.directories s).foldlM (fun s p => copyTree s (s.place p)) s
  | .error _ => return s

end VariantSelection

open VariantSelection in
def main (arguments : List String) : IO UInt32 := do
  let directory ← IO.currentDir
  let current := (fields '/' directory.toString).filter fun name => name ≠ ""
  let before ← copyFor arguments current
  let (result, after) := (runArguments arguments).run before
  (before.changes after).forM applyChange
  IO.print result.output
  IO.eprint result.diagnostics
  return UInt32.ofNat result.exitCode
