/-
Selecting one variant of a component for a consumer, and then the files of that
variant: `selectVariant` and `selectArtifacts`.

A component without variants gives its default artifact, and a variant that the consumer
names is taken unseen.  Otherwise the variants that provide the requested capabilities
are evaluated; those that match are disambiguated, and one has to be left.
-/
import VariantSelection.Component
import VariantSelection.Disambiguation
import VariantSelection.Match

namespace VariantSelection

/-- What a consumer asks of a component. -/
structure Request where
  /-- The consumer's name, for messages only. -/
  consumer : String
  attributes : AttributeSet
  capabilities : List CapabilitySelector := []
  /-- The variant to take whatever its attributes are. -/
  variant : Option String := none
  deriving DecidableEq

/-- How the selected variant was reached. -/
inductive Outcome
  | matched (v : Variant)
  | explicit (v : Variant)
  | legacyDefault (a : Artifact)
  deriving DecidableEq

/-- The selected variant, where the component has any. -/
def Outcome.variant? : Outcome → Option Variant
  | .matched v => some v
  | .explicit v => some v
  | .legacyDefault _ => none

/-- A candidate that is left beside others. -/
structure TiedCandidate where
  report : MatchReport
  capabilities : List String
  deriving DecidableEq

/-- Why no variant is selected. -/
inductive SelectionError
  /-- No candidate matches; `reports` has every candidate that provides the
  capabilities. -/
  | incompatible (component consumer : String) (requested : AttributeSet)
      (capabilities : List String) (reports : List MatchReport)
  /-- Several candidates are left.  When disambiguation left none (`unreduced`), the
  candidates are all that matched. -/
  | ambiguous (component consumer : String) (requested : AttributeSet)
      (candidates : List TiedCandidate) (unreduced : Bool) (conflicts : List (List String))
  | variantNotFound (component variant available : String)
  | componentNotFound (component : String)
  deriving DecidableEq

def SelectionError.message : SelectionError → String
  | .incompatible component consumer _ _ reports =>
    s!"no matching variant of {component} was found for consumer '{consumer}' "
      ++ s!"({reports.length} candidate(s) considered)"
  | .ambiguous component consumer _ candidates _ _ =>
    s!"cannot choose between {candidates.length} variants of {component} for consumer '{consumer}'"
  | .variantNotFound component variant available =>
    s!"variant '{variant}' of {component} does not exist — available variants: {available}"
  | .componentNotFound component =>
    s!"component {component} is not in the variant catalog — add its .module or .pom file to the "
      ++ "catalog directory"

/-- How a variant meets a request. -/
def Variant.report (v : Variant) (r : Registry) (requested : AttributeSet) : MatchReport :=
  evaluate r requested v.name v.attributes

/-- The variants that provide what the request lists as capabilities. -/
def Component.candidates (c : Component) (q : Request) : List Variant :=
  c.variants.filter fun v => v.provides q.capabilities

/-- The candidates that match. -/
def Component.compatibleCandidates (c : Component) (r : Registry) (q : Request) : List Variant :=
  (c.candidates q).filter fun v => (v.report r q.attributes).isCompatible

/-- The error that lists tied candidates. -/
def ambiguity (r : Registry) (c : Component) (q : Request) (tied : List Variant)
    (unreduced : Bool) : SelectionError :=
  .ambiguous c.id.text q.consumer q.attributes
    (tied.map fun v => ⟨v.report r q.attributes, v.capabilityIds⟩) unreduced
      (conflictingGroups tied)

/-- Selects among the variants by capabilities and attributes. -/
def matchVariant (r : Registry) (c : Component) (q : Request) : Except SelectionError Outcome :=
  match c.compatibleCandidates r q with
  | [] =>
    .error (.incompatible c.id.text q.consumer q.attributes
      (q.capabilities.map CapabilitySelector.text)
      ((c.candidates q).map fun v => v.report r q.attributes))
  | [only] => .ok (.matched only)
  | compatible =>
    match disambiguate r q.attributes compatible q.capabilities with
    | [winner] => .ok (.matched winner)
    | [] => .error (ambiguity r c q compatible true)
    | tied => .error (ambiguity r c q tied false)

/-- Selects one variant of `c` for the request. -/
def selectVariant (r : Registry) (c : Component) (q : Request) : Except SelectionError Outcome :=
  if c.variants.isEmpty then .ok (.legacyDefault c.defaultArtifact)
  else
    match q.variant with
    | some name =>
      match c.variant? name with
      | some v => .ok (.explicit v)
      | none => .error (.variantNotFound c.id.text name (joinWith ", " c.variantNames))
    | none => matchVariant r c q

/-! ### The files of a selected variant -/

/-- The files chosen for a variant, and the name of the variant, primary or
secondary, that they belong to. -/
structure ArtifactSelection where
  source : String
  artifacts : List Artifact
  deriving DecidableEq

/-- A secondary variant as a candidate beside the variant that it belongs to. -/
def SecondaryVariant.asCandidate (s : SecondaryVariant) (primary : Variant) : Variant where
  name := s.name
  attributes := primary.attributes.overlay s.attributes
  capabilities := primary.capabilities
  artifacts := s.artifacts
  dependencies := []
  secondary := []

/-- The variant itself and its secondary variants, as candidates for its files. -/
def Variant.artifactCandidates (v : Variant) : List Variant :=
  { v with secondary := [] } :: v.secondary.map fun s => s.asCandidate v

/-- The one candidate for a variant's files that matches and is preferred to the
others, if there is one. -/
def artifactWinner? (r : Registry) (v : Variant) (requested : AttributeSet) : Option Variant :=
  match v.artifactCandidates.filter fun c => (c.report r requested).isCompatible with
  | [] => none
  | [only] => some only
  | compatible =>
    match disambiguate r requested compatible [] with
    | [winner] => some winner
    | _ => none

/-- The files of a variant for a request: those of a secondary variant of another
name where it wins, and otherwise the variant's own. -/
def selectArtifacts (r : Registry) (v : Variant) (requested : AttributeSet) : ArtifactSelection :=
  match artifactWinner? r v requested with
  | some winner =>
    if winner.name = v.name then ⟨v.name, v.artifacts⟩ else ⟨winner.name, winner.artifacts⟩
  | none => ⟨v.name, v.artifacts⟩

end VariantSelection
