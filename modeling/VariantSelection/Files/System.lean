/-
A file system without links: a tree, and the directory that relative paths start from.

Walking a path takes its steps one by one.  Every step but the last has to end in a
directory, and so has the last one when a slash follows it; the first step that
fails decides the fault.  Operations that change files run in `FileAction`: what was
done before a fault stays done.
-/
import VariantSelection.Files.Node

namespace VariantSelection

/-- Why the system refuses an operation on a path. -/
inductive FileFault
  | notFound
  | exists
  | notDirectory
  | isDirectory
  | notText
  deriving DecidableEq

def FileFault.message : FileFault → String
  | .notFound => "No such file or directory (os error 2)"
  | .exists => "File exists (os error 17)"
  | .notDirectory => "Not a directory (os error 20)"
  | .isDirectory => "Is a directory (os error 21)"
  | .notText => "stream did not contain valid UTF-8"

/-- A fault, and the path it was met at. -/
structure FileError where
  path : Path
  fault : FileFault
  deriving DecidableEq

def FileError.message (e : FileError) : String :=
  s!"cannot access {e.path.text}: {e.fault.message}"

/-- The files of a system, and the names that lead to the current directory. -/
structure FileSystem where
  root : FileNode
  current : List String

/-- An action that can change files, and fail; the changes stay when it fails. -/
abbrev FileAction (ε : Type) : Type → Type := ExceptT ε (StateM FileSystem)

namespace FileSystem

/-- Takes one step from the directory that `place` leads to. -/
def step (root : FileNode) (place : List String) (step : String) : Except FileFault (List String) :=
  match root.node? place with
  | none => .error .notFound
  | some (.file _) => .error .notDirectory
  | some (.directory entries) =>
    if step = "." then .ok place
    else if step = ".." then .ok place.dropLast
    else if (FileNode.child? step entries).isSome then .ok (place ++ [step])
    else .error .notFound

/-- Where the walk along a path starts. -/
def start (s : FileSystem) (p : Path) : List String := if p.isAbsolute then [] else s.current

/-- The names that lead from the root to where a path leads. -/
def locate (s : FileSystem) (p : Path) : Except FileFault (List String) :=
  if p.text = "" then .error .notFound
  else p.steps.foldlM (step s.root) (s.start p)

/-- What a path leads to. -/
def node (s : FileSystem) (p : Path) : Except FileFault FileNode := do
  match s.root.node? (← s.locate p) with
  | some node => .ok node
  | none => .error .notFound

/-- Whether a path leads to anything. -/
def contains (s : FileSystem) (p : Path) : Bool := (s.node p).isOk

/-- Whether a path leads to a directory. -/
def isDirectory (s : FileSystem) (p : Path) : Bool :=
  match s.node p with
  | .ok (.directory _) => true
  | _ => false

/-- The text of the file that a path leads to. -/
def text (s : FileSystem) (p : Path) : Except FileFault String := do
  match ← s.node p with
  | .directory _ => .error .isDirectory
  | .file content =>
    match String.fromUTF8? content with
    | some text => .ok text
    | none => .error .notText

/-- The entries of the directory that a path leads to. -/
def entries (s : FileSystem) (p : Path) : Except FileFault (List (String × FileNode)) := do
  match ← s.node p with
  | .directory entries => .ok entries
  | .file _ => .error .notDirectory

/-- The directory that the last step of a path is taken from, and that step. -/
def lastStep (s : FileSystem) (p : Path) : Except FileFault (List String × String) :=
  match ((fields '/' p.text).filter (· ≠ "")).reverse with
  | [] => if p.text = "" then .error .notFound else .ok ([], ".")
  | last :: before => do
    let place ← before.reverse.foldlM (step s.root) (s.start p)
    match s.root.node? place with
    | some (.directory _) => .ok (place, last)
    | some (.file _) => .error .notDirectory
    | none => .error .notFound

/-- Whether a step is one that names no entry. -/
def isMove (step : String) : Bool := step = "." || step = ".."

/-- The system with a new directory where a path leads to. -/
def addDirectory (s : FileSystem) (p : Path) : Except FileFault FileSystem := do
  let (place, last) ← s.lastStep p
  if isMove last || (s.root.node? (place ++ [last])).isSome then .error .exists
  else .ok { s with root := FileNode.put (.directory []) s.root (place ++ [last]) }

/-- The system with a file of this content where a path leads to. -/
def writeBytes (s : FileSystem) (p : Path) (content : ByteArray) : Except FileFault FileSystem := do
  let (place, last) ← s.lastStep p
  if isMove last || p.endsWithSlash then .error .isDirectory
  else
    match s.root.node? (place ++ [last]) with
    | some (.directory _) => .error .isDirectory
    | _ => .ok { s with root := FileNode.put (.file content) s.root (place ++ [last]) }

/-- The text of a file, with the path in the error. -/
def read (s : FileSystem) (p : Path) : Except FileError String :=
  (s.text p).mapError fun fault => ⟨p, fault⟩

/-- The files below a directory that have one of the extensions, in the order of
their paths. -/
def collect (s : FileSystem) (directory : Path) (extensions : List String) :
    Except FileError (List Path) :=
  match s.entries directory with
  | .error fault => .error ⟨directory, fault⟩
  | .ok entries =>
    let found := (FileNode.entryPaths directory entries).filter fun p => p.hasExtension extensions
    .ok (found.mergeSort fun a b => (compare a b).isLE)

end FileSystem

namespace FileAction

/-- Changes the files as `step` says; where it refuses, they stay as they are. -/
def change (step : FileSystem → Except FileFault FileSystem) : FileAction FileFault Unit := do
  match step (← get) with
  | .ok s => set s
  | .error fault => throw fault

/-- Makes the directory at a path; one that is there already will do. -/
def makeDirectory (p : Path) : FileAction FileFault Unit :=
  tryCatch (change fun s => s.addDirectory p) fun fault => do
    if (← get).isDirectory p then return
    else throw fault

/-- Makes the directory at the first path of a list; when the one around it is
missing, makes that first, which is the next of the list. -/
def makeDirectories : List Path → FileAction FileFault Unit
  | [] => return
  | p :: outer =>
    if p.text = "" then return
    else
      tryCatch (makeDirectory p) fun
        | .notFound => do
          makeDirectories outer
          makeDirectory p
        | fault => throw fault

/-- An action on the file at a path, with the path in its error. -/
def onPath {α : Type} (p : Path) (action : FileAction FileFault α) : FileAction FileError α :=
  ExceptT.adapt (fun fault => ⟨p, fault⟩) action

/-- Makes the directory at a path, and those around it, unless they are there. -/
def ensureDirectory (p : Path) : FileAction FileError Unit :=
  onPath p (makeDirectories (p :: p.ancestors))

/-- Makes a file of this text where a path leads to, in the place of an old one. -/
def put (p : Path) (text : String) : FileAction FileError Unit :=
  onPath p (change fun s => s.writeBytes p text.toUTF8)

/-- Writes a file, in a directory that is made first if need be. -/
def write (p : Path) (text : String) : FileAction FileError Unit := do
  match p.parent? with
  | some directory => ensureDirectory directory
  | none => pure ()
  put p text

end FileAction

end VariantSelection
