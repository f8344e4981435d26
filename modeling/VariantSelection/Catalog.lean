/-
The catalog: the known components, each under its coordinate.
-/
import VariantSelection.Component
import VariantSelection.Ordered.Map

namespace VariantSelection

/-- Components by coordinate. -/
structure Catalog where
  byCoordinate : SortedMap Coordinate Component

/-- A component that a catalog has already; `origin` is where the second
definition stands. -/
structure DuplicateComponent where
  id : Coordinate
  origin : String
  deriving DecidableEq

def DuplicateComponent.message (e : DuplicateComponent) : String :=
  s!"component {e.id.text} is defined more than once (second definition in {e.origin})"

namespace Catalog

/-- The catalog without components. -/
def empty : Catalog := ⟨.empty⟩

/-- The component with the coordinate `id`. -/
def get? (c : Catalog) (id : Coordinate) : Option Component := c.byCoordinate.get? id

/-- Whether there is a component with the coordinate `id`. -/
def contains (c : Catalog) (id : Coordinate) : Bool := c.byCoordinate.contains id

/-- The components, ascending by coordinate. -/
def components (c : Catalog) : List Component := c.byCoordinate.values

def size (c : Catalog) : Nat := c.byCoordinate.size

def isEmpty (c : Catalog) : Bool := c.byCoordinate.isEmpty

/-- Adds a component that was read from `origin`, unless its coordinate is taken. -/
def insert (c : Catalog) (component : Component) (origin : String) :
    Except DuplicateComponent Catalog :=
  if c.contains component.id then .error ⟨component.id, origin⟩
  else .ok ⟨c.byCoordinate.insert component.id component⟩

/-- Adds a component where its coordinate is not taken, and leaves the catalog as it
is otherwise. -/
def fill (c : Catalog) (component : Component) : Catalog :=
  if c.contains component.id then c else ⟨c.byCoordinate.insert component.id component⟩

end Catalog

end VariantSelection
