/-
The listing of the registered attributes with their types and rules, and of
their precedence.

`Registry.describeSchema` is the listing by itself; `Registry.orderLines` is what
other listings say of the order in which attributes are consulted.
-/
import VariantSelection.Attribute.Registry
import VariantSelection.Text

namespace VariantSelection

namespace Registry

/-- The line of one definition.  The name fills its column; the type takes the
room it needs. -/
def schemaLine (width : Nat) (d : Definition) : String :=
  s!"{padRight width d.name}  {d.type.text}  compatibility: {d.compatibility.text}, "
    ++ s!"disambiguation: {d.disambiguation.text}"

def schemaLines (r : Registry) : List String :=
  r.definitions.map (schemaLine (columnWidth r.names))

/-- The line of the precedence, below an empty one; there is none where nothing
is declared. -/
def precedenceLines (r : Registry) : List String :=
  if r.precedence.isEmpty then [] else ["", "Precedence: " ++ joinWith " > " r.precedence]

/-- The listing of the registry. -/
def describeSchema (r : Registry) : String :=
  if r.definitions.isEmpty then "No attributes registered\n"
  else unlines (r.schemaLines ++ r.precedenceLines)

/-! ### The order of attributes -/

/-- The registered names in the order in which they are consulted, those of the
precedence with their place in it. -/
def rankedNames (r : Registry) : List (String × Option Nat) :=
  r.precedence.mapIdx (fun i name => (name, some (i + 1)))
    ++ (r.names.filter fun name => !r.precedence.contains name).map fun name => (name, none)

/-- The line of a name in that order. -/
def rankedLine : String × Option Nat → String
  | (name, some place) => s!"    - {name} ({place})"
  | (name, none) => s!"    - {name}"

/-- The lines on the order of attributes; there are none where no precedence
is declared. -/
def orderLines (r : Registry) : List String :=
  if r.precedence.isEmpty then []
  else
    "The following attributes have disambiguation rules defined." :: ""
      :: r.rankedNames.map rankedLine

end Registry

end VariantSelection
