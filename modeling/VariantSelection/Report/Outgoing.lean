/-
The listing of what components offer: their variants with capabilities, attributes,
files and dependencies.
-/
import VariantSelection.Catalog
import VariantSelection.Selection
import VariantSelection.Text

namespace VariantSelection

/-- The line above and below a title. -/
def titleRule : String := "--------------------------------------------------"

/-- A title between two rules. -/
def titleLines (title : String) : List String := [titleRule, title, titleRule]

/-- The attributes of a set, their names in one column. -/
def attributeLines (indent : String) (set : AttributeSet) : List String :=
  if set.isEmpty then []
  else
    let width := columnWidth set.keys
    s!"{indent}Attributes"
      :: set.entries.map fun e => s!"{indent}    - {padRight width e.1} = {e.2.text}"

/-- The files of a variant; an address that is not the name itself stands behind it. -/
def artifactLines (indent : String) (artifacts : List Artifact) : List String :=
  if artifacts.isEmpty then []
  else
    s!"{indent}Artifacts" :: artifacts.map fun a =>
      if a.url = a.name then s!"{indent}    - {a.name}" else s!"{indent}    - {a.name} ({a.url})"

def capabilityLine (c : Component) (capability : Capability) : String :=
  if capability = c.implicitCapability then s!"        - {capability.text} (default capability)"
  else s!"        - {capability.text}"

def dependencyLines (dependencies : List Dependency) : List String :=
  if dependencies.isEmpty then []
  else "    Dependencies" :: dependencies.map fun d => s!"        - {d.text}"

def SecondaryVariant.lines (s : SecondaryVariant) : List String :=
  s!"        - {s.name}"
    :: (attributeLines "            " s.attributes ++ artifactLines "            " s.artifacts)

def secondaryLines (secondary : List SecondaryVariant) : List String :=
  if secondary.isEmpty then []
  else "    Secondary Variants" :: secondary.flatMap SecondaryVariant.lines

def Variant.lines (v : Variant) (c : Component) : List String :=
  [s!"Variant {v.name}", "    Capabilities"]
    ++ v.capabilities.elements.map (capabilityLine c)
    ++ attributeLines "    " v.attributes
    ++ artifactLines "    " v.artifacts
    ++ dependencyLines v.dependencies
    ++ secondaryLines v.secondary
    ++ [""]

def Component.lines (c : Component) : List String :=
  titleLines s!"Component {c.id.text} ({c.source.text})" ++
    if c.variants.isEmpty then
      [s!"No variants published; consumers receive {c.defaultArtifact.name}", ""]
    else c.variants.flatMap fun v => v.lines c

/-- The components that a listing shows: all of them, or the one that is asked for. -/
def Catalog.listed (c : Catalog) (only : Option Coordinate) :
    Except SelectionError (List Component) :=
  match only with
  | none => .ok c.components
  | some id =>
    match c.get? id with
    | some component => .ok [component]
    | none => .error (.componentNotFound id.text)

/-- The listing of the catalog, or of one of its components. -/
def Catalog.outgoingVariants (c : Catalog) (only : Option Coordinate) :
    Except SelectionError String := do
  let components ← c.listed only
  return unlines (components.flatMap Component.lines)

end VariantSelection
