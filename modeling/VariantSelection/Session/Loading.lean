/-
Sessions: a registry and a catalog, both complete before anything is selected.

Resolving a component selects one of its variants and then the files of that
variant; the result names both.

`Session.load` builds the session of a project from its directory.
-/
import VariantSelection.Catalog.Loading
import VariantSelection.Manifest.Document
import VariantSelection.Manifest.Schema
import VariantSelection.Selection

namespace VariantSelection

/-- What every selection of a project looks at. -/
structure Session where
  registry : Registry
  catalog : Catalog

/-- How a component was resolved, and the variant where it has any. -/
inductive ResolvedOutcome
  | matched (variant : String)
  | explicit (variant : String)
  | legacyDefault
  deriving DecidableEq

/-- The variant that was selected. -/
def ResolvedOutcome.variant? : ResolvedOutcome → Option String
  | .matched variant => some variant
  | .explicit variant => some variant
  | .legacyDefault => none

/-- The result of one resolution. -/
structure Resolved where
  outcome : ResolvedOutcome
  /-- The variant, primary or secondary, or else the file, that the files come from. -/
  source : String
  artifacts : List Artifact
  dependencies : List Dependency
  /-- The capabilities as they are written, in order. -/
  capabilities : List String
  deriving DecidableEq

namespace Session

/-- The component with a coordinate. -/
def component (s : Session) (module : Coordinate) : Except SelectionError Component :=
  match s.catalog.get? module with
  | some c => .ok c
  | none => .error (.componentNotFound module.text)

/-- Selects a variant of a component. -/
def select (s : Session) (module : Coordinate) (q : Request) : Except SelectionError Outcome := do
  selectVariant s.registry (← s.component module) q

/-- The result of a resolution that ends in a variant. -/
def resolvedVariant (s : Session) (q : Request) (outcome : ResolvedOutcome) (v : Variant) :
    Resolved :=
  let files := selectArtifacts s.registry v q.attributes
  { outcome
    source := files.source
    artifacts := files.artifacts
    dependencies := v.dependencies
    capabilities := v.capabilityIds }

/-- Selects a variant of a component, and its files. -/
def resolve (s : Session) (module : Coordinate) (q : Request) : Except SelectionError Resolved := do
  let c ← s.component module
  match ← selectVariant s.registry c q with
  | .matched v => return s.resolvedVariant q (.matched v.name) v
  | .explicit v => return s.resolvedVariant q (.explicit v.name) v
  | .legacyDefault file =>
    return {
      outcome := .legacyDefault
      source := file.name
      artifacts := [file]
      dependencies := []
      capabilities := [c.implicitCapability.text] }

end Session

/-! ### Loading -/

/-- Why a directory gives no session. -/
inductive LoadError
  | manifest (cause : ManifestError)
  | attribute (cause : AttributeError)
  | catalog (cause : CatalogError)
  deriving DecidableEq

def LoadError.message : LoadError → String
  | .manifest cause => cause.message
  | .attribute cause => cause.message
  | .catalog cause => cause.message

/-- The session and the manifest of the project in a directory.  The catalog is
empty where the directory of metadata files does not exist. -/
def Session.load (s : FileSystem) (root : Path) : Except LoadError (Session × Manifest) := do
  let m ← (Manifest.read s (root.join Manifest.fileName)).mapError .manifest
  let registry ← m.registry.mapError .attribute
  let directory := root.join m.project.catalog
  if s.contains directory then
    let catalog ← (Catalog.load s directory registry).mapError .catalog
    return (⟨registry, catalog⟩, m)
  else return (⟨registry, .empty⟩, m)

end VariantSelection
