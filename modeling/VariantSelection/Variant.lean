/-
Variants: what a component offers, each an independent set of files with attributes,
capabilities and dependencies.
-/
import VariantSelection.Attribute.Value
import VariantSelection.Capability
import VariantSelection.Ordered.Set

namespace VariantSelection

/-- A published file. -/
structure Artifact where
  name : String
  /-- Relative to the component's directory, or an absolute address. -/
  url : String
  deriving DecidableEq

/-- What a variant depends on, with the version it requires if it requires one. -/
structure Dependency where
  group : String
  name : String
  version : Option String
  deriving DecidableEq

/-- The dependency as it is written. -/
def Dependency.text (d : Dependency) : String :=
  match d.version with
  | some version => s!"{d.group}:{d.name}:{version}"
  | none => s!"{d.group}:{d.name}"

/-- A partial substitute for a variant's files; its attributes are laid over those
of the variant. -/
structure SecondaryVariant where
  name : String
  attributes : AttributeSet
  artifacts : List Artifact
  deriving DecidableEq

/-- One of the ways in which a component can be consumed. -/
structure Variant where
  name : String
  attributes : AttributeSet
  capabilities : SortedSet Capability
  artifacts : List Artifact
  dependencies : List Dependency
  secondary : List SecondaryVariant
  deriving DecidableEq

namespace Variant

/-- The capabilities as they are written, in order. -/
def capabilityIds (v : Variant) : List String :=
  v.capabilities.elements.map Capability.text

/-- Whether each selector selects one of the variant's capabilities. -/
def provides (v : Variant) (selectors : List CapabilitySelector) : Bool :=
  selectors.all fun s => v.capabilities.elements.any s.selects

end Variant

/-- The names of the variants that have the same set of capabilities, a group for
each set that several have.  Groups stand in the order of their first members, and
members in the order of the variants. -/
def conflictingGroups (variants : List Variant) : List (List String) :=
  let sets := (variants.map Variant.capabilities).eraseDups
  let groups := sets.map fun set =>
    (variants.filter fun v => v.capabilities = set).map Variant.name
  groups.filter fun group => 1 < group.length

end VariantSelection
