/-
Breaking ties among candidates that all match.

The requested attributes are visited in the registry's order, one
`disambiguationRound` each: the attribute's rule is shown the distinct values that
the remaining candidates have, and candidates with a value outside the preferred
ones drop out.  A candidate without the attribute sits the round out.  The
rounds end when one candidate is left; candidates that are still tied then have to provide
the requested capabilities.
-/
import VariantSelection.Attribute.Registry
import VariantSelection.Variant

namespace VariantSelection

/-- The distinct values that candidates have for an attribute. -/
def valuesOf (name : String) (candidates : List Variant) : SortedSet Value :=
  .ofList (candidates.filterMap fun v => v.attributes.get? name)

/-- Whether a candidate stays when `preferred` are the values to keep. -/
def Variant.staysFor (v : Variant) (name : String) (preferred : SortedSet Value) : Bool :=
  match v.attributes.get? name with
  | some value => preferred.contains value
  | none => true

/-- One round.  A single value leaves the rule nothing to choose. -/
def disambiguationRound (r : Registry) (requested : AttributeSet) (remaining : List Variant)
    (name : String) : List Variant :=
  let values := valuesOf name remaining
  if values.size ≤ 1 then remaining
  else
    let preferred := (r.disambiguationRule name).preferred (requested.get? name) values
    remaining.filter fun v => v.staysFor name preferred

/-- The rounds for a list of attributes, until one candidate is left. -/
def disambiguationRounds (r : Registry) (requested : AttributeSet) :
    List String → List Variant → List Variant
  | [], remaining => remaining
  | name :: rest, remaining =>
    if remaining.length ≤ 1 then remaining
    else disambiguationRounds r requested rest (disambiguationRound r requested remaining name)

/-- The candidates that are preferred to the others, in the order in which they
were given. -/
def disambiguate (r : Registry) (requested : AttributeSet) (candidates : List Variant)
    (capabilities : List CapabilitySelector) : List Variant :=
  let remaining := disambiguationRounds r requested (r.disambiguationOrder requested) candidates
  if 1 < remaining.length && !capabilities.isEmpty then
    remaining.filter fun v => v.provides capabilities
  else remaining

end VariantSelection
