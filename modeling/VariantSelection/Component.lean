/-
Components: a coordinate and the variants published under it, which `addVariant`
takes one by one.
-/
import VariantSelection.Coordinate
import VariantSelection.Variant

namespace VariantSelection

/-- Where the variants of a component are described. -/
inductive ComponentSource
  | moduleMetadata
  | pom
  | declared
  deriving DecidableEq

def ComponentSource.text : ComponentSource → String
  | .moduleMetadata => "module metadata"
  | .pom => "pom"
  | .declared => "declared"

/-- A component with its variants, in the order in which they were added. -/
structure Component where
  id : Coordinate
  source : ComponentSource
  variants : List Variant
  deriving DecidableEq

/-- A variant name that a component has already. -/
structure DuplicateVariant where
  component : Coordinate
  variant : String
  deriving DecidableEq

def DuplicateVariant.message (e : DuplicateVariant) : String :=
  s!"component {e.component.text} declares variant '{e.variant}' more than once"

namespace Component

/-- A component that publishes nothing yet. -/
def new (id : Coordinate) (source : ComponentSource) : Component := ⟨id, source, []⟩

/-- The capability that a variant has when it declares none. -/
def implicitCapability (c : Component) : Capability := ⟨c.id.group, c.id.name, c.id.version⟩

/-- The variant called `name`. -/
def variant? (c : Component) (name : String) : Option Variant :=
  c.variants.find? fun v => v.name == name

def variantNames (c : Component) : List String := c.variants.map Variant.name

/-- The variant as the component holds it: with the implicit capability if it
declares none. -/
def completed (c : Component) (v : Variant) : Variant :=
  if v.capabilities.isEmpty then { v with capabilities := .singleton c.implicitCapability } else v

/-- Adds a variant behind the others, unless its name is taken. -/
def addVariant (c : Component) (v : Variant) : Except DuplicateVariant Component :=
  if v.name ∈ c.variantNames then .error ⟨c.id, v.name⟩
  else .ok { c with variants := c.variants ++ [c.completed v] }

/-- The file that stands for a component without variants. -/
def defaultArtifact (c : Component) : Artifact :=
  let file := c.id.defaultArtifactName
  ⟨file, c.id.url mavenCentral file⟩

/-- The groups of variants with the same capabilities. -/
def capabilityConflicts (c : Component) : List (List String) := conflictingGroups c.variants

end Component

end VariantSelection
