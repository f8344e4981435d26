/-
Loading a catalog from the metadata files below a directory.

The files are taken in the order of their paths.  Components from module metadata
enter the catalog at once, and no two of them may share a coordinate.  Components
from POM files wait until all files are read, and then `fill` the coordinates that
are still free, so module metadata supersedes a POM wherever the two files lie.
-/
import VariantSelection.Catalog
import VariantSelection.Files.System
import VariantSelection.Metadata.Component
import VariantSelection.Pom

namespace VariantSelection

/-- Why a directory gives no catalog. -/
inductive CatalogError
  | file (cause : FileError)
  | metadata (cause : MetadataError)
  | pom (cause : PomError)
  | duplicateComponent (cause : DuplicateComponent)
  deriving DecidableEq

def CatalogError.message : CatalogError → String
  | .file cause => cause.message
  | .metadata cause => cause.message
  | .pom cause => cause.message
  | .duplicateComponent cause => cause.message

namespace Catalog

/-- The extensions of metadata files. -/
def metadataExtensions : List String := ["module", "pom"]

/-- What was read so far: a catalog of the components from module metadata, and the
others in the order in which they were read. -/
structure Loading where
  catalog : Catalog
  poms : List Component

/-- Reads one file; what is no POM file is module metadata. -/
def Loading.addFile (s : FileSystem) (r : Registry) (loading : Loading) (p : Path) :
    Except CatalogError Loading := do
  let content ← (s.read p).mapError .file
  if p.hasExtension ["pom"] then
    let component ← (Pom.readText content p.text).mapError .pom
    return { loading with poms := loading.poms ++ [component] }
  else
    let component ← (Metadata.readText content p.text r).mapError .metadata
    let catalog ← (loading.catalog.insert component p.text).mapError .duplicateComponent
    return { loading with catalog }

/-- The catalog of what was read. -/
def Loading.finish (loading : Loading) : Catalog := loading.poms.foldl fill loading.catalog

/-- The catalog of the metadata files below a directory. -/
def load (s : FileSystem) (directory : Path) (r : Registry) : Except CatalogError Catalog := do
  let files ← (s.collect directory metadataExtensions).mapError .file
  let loading ← files.foldlM (Loading.addFile s r) ⟨.empty, []⟩
  return loading.finish

end Catalog

end VariantSelection
