/-
Project manifests: what a project is called, which attributes it knows, what it
depends on, and in which configurations its dependencies are resolved.

`Manifest.fault?` finds the first rule that a manifest breaks, `Manifest.registry`
is what the attributes it knows come to, and `Manifest.selected` are the
configurations that an operation is about.
-/
import VariantSelection.Attribute.Descriptor
import VariantSelection.Attribute.Standard
import VariantSelection.Coordinate

namespace VariantSelection

structure Project where
  name : String
  /-- The directory of metadata files, seen from that of the project. -/
  catalog : String := "metadata"
  deriving DecidableEq

/-- The attributes that a project knows. -/
structure SchemaSpec where
  /-- Whether the standard attributes are among them. -/
  standard : Bool := true
  /-- Takes the place of the standard precedence unless it is empty. -/
  precedence : List String := []
  attributes : List Descriptor := []
  deriving DecidableEq

/-- A component that a project depends on. -/
structure DependencySpec where
  module : Coordinate
  /-- The variant to take, whatever its attributes are. -/
  variant : Option String := none
  /-- Selectors of capabilities, as they are written. -/
  capabilities : List String := []
  deriving DecidableEq

/-- A consumer of the dependencies, with the attributes it requests. -/
structure ConfigurationSpec where
  description : Option String := none
  attributes : AttributeSet := .empty
  deriving DecidableEq

structure Manifest where
  project : Project
  schema : SchemaSpec := {}
  dependencies : SortedMap String DependencySpec := .empty
  configurations : SortedMap String ConfigurationSpec := .empty
  deriving DecidableEq

/-! ### Rules of manifests -/

/-- A rule that a manifest breaks. -/
inductive ManifestFault
  | blankName
  | repeatedPrecedence (name : String)
  | repeatedAttribute (name : String)
  | variantAndCapabilities (dependency : String)
  | withoutConfigurations
  deriving DecidableEq

def ManifestFault.message : ManifestFault → String
  | .blankName => "project.name must not be empty"
  | .repeatedPrecedence name => s!"schema.precedence lists '{name}' more than once"
  | .repeatedAttribute name => s!"schema.attributes declares '{name}' more than once"
  | .variantAndCapabilities dependency =>
    s!"dependency '{dependency}' sets both `variant` and `capabilities` — an explicit variant ignores "
      ++ "capabilities"
  | .withoutConfigurations => "dependencies are declared but no [configurations] resolve them"

/-- The first name of a list that stands there, or in `seen`, before. -/
def firstRepeated? (seen : List String) : List String → Option String
  | [] => none
  | name :: rest => if name ∈ seen then some name else firstRepeated? (name :: seen) rest

/-- Whether a dependency names a variant and capabilities, of which only one can count. -/
def DependencySpec.isContradictory (d : DependencySpec) : Bool :=
  d.variant.isSome && !d.capabilities.isEmpty

namespace Manifest

/-- The first rule that a manifest breaks. -/
def fault? (m : Manifest) : Option ManifestFault :=
  if isBlankText m.project.name then some .blankName
  else
    match firstRepeated? [] m.schema.precedence with
    | some name => some (.repeatedPrecedence name)
    | none =>
      match firstRepeated? [] (m.schema.attributes.map Descriptor.name) with
      | some name => some (.repeatedAttribute name)
      | none =>
        match m.dependencies.entries.find? fun e => e.2.isContradictory with
        | some e => some (.variantAndCapabilities e.1)
        | none =>
          if !m.dependencies.isEmpty && m.configurations.isEmpty then some .withoutConfigurations
          else none

end Manifest

/-! ### The registry -/

namespace Manifest

/-- The registry of a manifest: the standard attributes if they are asked for, then
the declared ones in their order, then the declared precedence if there is one. -/
def registry (m : Manifest) : Except AttributeError Registry := do
  let start ← if m.schema.standard then Registry.standard else .ok Registry.empty
  let declared ← m.schema.attributes.foldlM Registry.declare start
  if m.schema.precedence.isEmpty then return declared
  else declared.declarePrecedence m.schema.precedence

end Manifest

/-! ### Configurations -/

/-- A configuration that a manifest does not declare, beside those that it does. -/
structure UnknownConfiguration where
  name : String
  declared : List String
  deriving DecidableEq

def UnknownConfiguration.message (e : UnknownConfiguration) : String :=
  let declared := if e.declared.isEmpty then "(none)" else joinWith ", " e.declared
  s!"unknown configuration '{e.name}' — declared configurations: {declared}"

/-- All configurations by name, or only the one that is named. -/
def Manifest.selected (m : Manifest) (only : Option String) :
    Except UnknownConfiguration (List (String × ConfigurationSpec)) :=
  match only with
  | none => .ok m.configurations.entries
  | some name =>
    match m.configurations.get? name with
    | some c => .ok [(name, c)]
    | none => .error ⟨name, m.configurations.keys⟩

end VariantSelection
