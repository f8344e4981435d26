/-
The commands of the program, and what each of them does in the current directory.

A command answers with a result to print and an exit code.  Only `init` changes files.
-/
import VariantSelection.Report.Configurations
import VariantSelection.Report.Outgoing
import VariantSelection.Report.Resolution
import VariantSelection.Report.Schema
import VariantSelection.Scaffold
import VariantSelection.Session.Loading

namespace VariantSelection

inductive Command
  | init (name : Option String)
  | resolve (configuration : Option String)
  | outgoingVariants (module : Option String)
  | resolvableConfigurations (configuration : Option String)
  | attributes
  deriving DecidableEq

/-- What a command prints, and the exit code it ends with. -/
structure CommandResult where
  exitCode : Nat := 0
  output : String := ""
  diagnostics : String := ""
  deriving DecidableEq

/-- The result of a command that fails, with what it printed before. -/
def CommandResult.failure (message : String) (output : String) : CommandResult where
  exitCode := 1
  output
  diagnostics := s!"error: {message}\n"

/-- The result of a part of a command, or the failure of the whole. -/
def CommandResult.ofExcept (result : Except String CommandResult) : CommandResult :=
  match result with
  | .ok r => r
  | .error message => .failure message ""

/-- The current directory. -/
def FileSystem.currentPath (s : FileSystem) : Path := ⟨"/" ++ joinWith "/" s.current⟩

namespace Command

/-- What is said where the current directory holds no project. -/
def noProject : String :=
  s!"no {Manifest.fileName} found in current directory — run `varsel init` to create a project"

/-- The current directory, if it holds a project. -/
def projectRoot (s : FileSystem) : Except String Path :=
  if s.contains (s.currentPath.join Manifest.fileName) then .ok s.currentPath else .error noProject

/-- The session and the manifest of the project in a directory. -/
def openProject (s : FileSystem) (root : Path) : Except String (Session × Manifest) :=
  (Session.load s root).mapError LoadError.message

/-- The name of a project that is given none: that of the current directory. -/
def defaultName (s : FileSystem) : String := s.current.getLast?.getD "my-project"

/-- Scaffolds a project in a directory of its own name. -/
def scaffold (name : Option String) : StateM FileSystem CommandResult := do
  let s ← get
  let name := name.getD (defaultName s)
  let directory := s.currentPath.join name
  match ← (Scaffold.create name directory).run with
  | .error e => return .failure e.message ""
  | .ok () =>
    return {
      diagnostics := unlines
        [s!"    Created project `{name}` at {directory.text}", "", "  To get started:",
         s!"    cd {name}", "    varsel resolve"] }

/-- Prints a resolution; the command fails if one of its selections does. -/
def resolutionResult (r : Resolution) : CommandResult :=
  let selections := r.entries.length
  let failures := r.failures.length
  if r.isSuccess then
    { output := r.text, diagnostics := s!"    Resolved {selections} selection(s)\n" }
  else
    .failure s!"{failures} of {selections} selection(s) failed — see the report above" r.text

/-- Resolves all dependencies. -/
def resolveAll (configuration : Option String) (s : FileSystem) : Except String CommandResult := do
  let (session, m) ← openProject s (← projectRoot s)
  let resolution ← (session.resolveAll m configuration).mapError RequestError.message
  return resolutionResult resolution

/-- Lists what components offer. -/
def listOutgoing (module : Option String) (s : FileSystem) : Except String CommandResult := do
  let root ← projectRoot s
  let only ← module.mapM fun text => (Coordinate.parse text).mapError CoordinateError.message
  let (session, _) ← openProject s root
  let output ← (session.catalog.outgoingVariants only).mapError SelectionError.message
  return { output, diagnostics := if output.isEmpty then "The catalog is empty\n" else "" }

/-- Lists what configurations request. -/
def listConfigurations (configuration : Option String) (s : FileSystem) :
    Except String CommandResult := do
  let (session, m) ← openProject s (← projectRoot s)
  let output ← (m.resolvableConfigurations session.registry configuration).mapError
    RequestError.message
  return { output }

/-- Lists the registered attributes. -/
def listAttributes (s : FileSystem) : Except String CommandResult := do
  let (session, _) ← openProject s (← projectRoot s)
  return { output := session.registry.describeSchema }

/-- Runs a command in the current directory. -/
def run : Command → StateM FileSystem CommandResult
  | .init name => scaffold name
  | .resolve configuration => return .ofExcept (resolveAll configuration (← get))
  | .outgoingVariants module => return .ofExcept (listOutgoing module (← get))
  | .resolvableConfigurations configuration =>
    return .ofExcept (listConfigurations configuration (← get))
  | .attributes => return .ofExcept (listAttributes (← get))

/-- The directories that a command looks into, beside the current one. -/
def directories (s : FileSystem) : Command → List Path
  | .init name => [s.currentPath.join (name.getD (defaultName s))]
  | _ =>
    match Manifest.read s (s.currentPath.join Manifest.fileName) with
    | .ok m => [s.currentPath.join m.project.catalog]
    | .error _ => []

end Command

end VariantSelection
