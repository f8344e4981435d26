/-
How the attributes of a candidate meet those of a request, as `evaluate` reports it.

Every requested attribute is either compatible or incompatible, and every attribute
that is provided unasked is unmatched; a candidate is compatible when no
requested attribute is incompatible.
-/
import VariantSelection.Attribute.Registry

namespace VariantSelection

/-- A requested attribute and what the candidate has for it, if it has anything. -/
structure AttributeMatch where
  name : String
  requested : Value
  provided : Option Value
  deriving DecidableEq

/-- An attribute that nobody asked for. -/
structure ProvidedAttribute where
  name : String
  value : Value
  deriving DecidableEq

/-- A candidate's attributes sorted by how they meet the request, each list
ascending by name. -/
structure MatchReport where
  candidate : String
  unmatched : List ProvidedAttribute
  compatible : List AttributeMatch
  incompatible : List AttributeMatch
  deriving DecidableEq

/-- Whether nothing stands against the candidate. -/
def MatchReport.isCompatible (m : MatchReport) : Bool := m.incompatible.isEmpty

/-- Whether the candidate has the attribute, with a value that the attribute's
rule accepts. -/
def AttributeMatch.isSatisfied (m : AttributeMatch) (r : Registry) : Bool :=
  match m.provided with
  | some v => (r.compatibilityRule m.name).isCompatible m.requested v
  | none => false

/-- The requested attributes, each with what the candidate has for it. -/
def attributeMatches (requested provided : AttributeSet) : List AttributeMatch :=
  requested.entries.map fun e => ⟨e.1, e.2, provided.get? e.1⟩

/-- Evaluates a candidate that provides `provided` against a request. -/
def evaluate (r : Registry) (requested : AttributeSet) (candidate : String)
    (provided : AttributeSet) : MatchReport where
  candidate := candidate
  unmatched := (provided.entries.filter fun e => !requested.contains e.1).map fun e => ⟨e.1, e.2⟩
  compatible := (attributeMatches requested provided).filter fun m => m.isSatisfied r
  incompatible := (attributeMatches requested provided).filter fun m => !m.isSatisfied r

end VariantSelection
