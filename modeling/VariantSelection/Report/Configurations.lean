/-
The listing of the consumer configurations with the attributes that they request,
and of the order in which attributes are consulted.
-/
import VariantSelection.Report.Outgoing
import VariantSelection.Report.Schema
import VariantSelection.Resolution

namespace VariantSelection

/-- A configuration as it is listed. -/
structure ListedConfiguration where
  name : String
  description : Option String
  /-- The requested attributes, each of its registered type. -/
  attributes : AttributeSet
  deriving DecidableEq

/-- The configurations that a listing shows. -/
def Manifest.listed (m : Manifest) (r : Registry) (only : Option String) :
    Except RequestError (List ListedConfiguration) := do
  let configurations ← (m.selected only).mapError .configuration
  configurations.mapM fun c => do
    let attributes ← (r.coerceSet c.2.attributes).mapError .attribute
    return ⟨c.1, c.2.description, attributes⟩

def ListedConfiguration.lines (c : ListedConfiguration) : List String :=
  titleLines s!"Configuration {c.name}"
    ++ (match c.description with
      | some description => [description, ""]
      | none => [])
    ++ (if c.attributes.isEmpty then ["    No attributes requested"]
      else attributeLines "" c.attributes)
    ++ [""]

/-- The listing of the configurations, or of the one that is named. -/
def Manifest.resolvableConfigurations (m : Manifest) (r : Registry) (only : Option String) :
    Except RequestError String := do
  let configurations ← m.listed r only
  return unlines (configurations.flatMap ListedConfiguration.lines ++ r.orderLines)

end VariantSelection
