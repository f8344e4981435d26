/-
The rules of an attribute.

A compatibility rule decides whether a provided value satisfies a requested one; a
disambiguation rule picks, among the distinct values that tied candidates offer, those
to keep.  Both are a closed list of strategies and one open door: a `custom` rule
carries a label and a function of the values alone, so a rule can see nothing else.
-/
import VariantSelection.Attribute.Value
import VariantSelection.Ordered.Map
import VariantSelection.Ordered.Set

namespace VariantSelection

/-- Whether a provided value satisfies a requested one. -/
inductive CompatibilityRule
  /-- Nothing but the requested value. -/
  | exact
  /-- A value that does not compare less. -/
  | atLeast
  /-- A value that does not compare greater. -/
  | atMost
  /-- What the table lists for the requested value. -/
  | accepts (table : SortedMap Value (SortedSet Value))
  | custom (label : String) (check : Value → Value → Bool)

/-- Which of the values on offer are kept. -/
inductive DisambiguationRule
  /-- All of them. -/
  | noPreference
  /-- The least. -/
  | preferLowest
  /-- The greatest. -/
  | preferHighest
  /-- The requested one, where it is on offer. -/
  | preferRequested
  /-- The first of a list that is on offer. -/
  | ordered (values : List Value)
  | custom (label : String) (choose : Option Value → SortedSet Value → SortedSet Value)

namespace CompatibilityRule

instance : Inhabited CompatibilityRule := ⟨.exact⟩

/-- Whether `provided` satisfies `requested`.  Equal values always do; the rule is
asked about the others. -/
def isCompatible (rule : CompatibilityRule) (requested provided : Value) : Bool :=
  requested = provided ||
    match rule with
    | .exact => false
    | .atLeast =>
      match provided.compare? requested with
      | some o => o.isGE
      | none => false
    | .atMost =>
      match provided.compare? requested with
      | some o => o.isLE
      | none => false
    | .accepts table =>
      match table.get? requested with
      | some values => values.contains provided
      | none => false
    | .custom _ check => check requested provided

/-- The rule's name, with its table or label. -/
def text : CompatibilityRule → String
  | .exact => "exact"
  | .atLeast => "at-least"
  | .atMost => "at-most"
  | .accepts table =>
    table.entries.foldl (fun shown e =>
      s!"{shown} {e.1.text}<-{bracketed (e.2.elements.map Value.text)}") "accepts"
  | .custom label _ => s!"custom({label})"

end CompatibilityRule

/-- The value that no value compares `wins` against, found by one pass in reading order;
no answer when the pass meets a value that does not compare with the best one so far. -/
def extremeFrom? (wins : Ordering) (best : Value) : List Value → Option Value
  | [] => some best
  | v :: rest =>
    match v.compare? best with
    | none => none
    | some o => if o = wins then extremeFrom? wins v rest else extremeFrom? wins best rest

/-- The extreme value of a set as a set of one, and the set as it is when it has none. -/
def extreme (wins : Ordering) (candidates : SortedSet Value) : SortedSet Value :=
  match candidates.elements with
  | [] => candidates
  | first :: rest =>
    match extremeFrom? wins first rest with
    | some best => .singleton best
    | none => candidates

namespace DisambiguationRule

instance : Inhabited DisambiguationRule := ⟨.noPreference⟩

/-- The values to keep of those on offer. -/
def preferred (rule : DisambiguationRule) (requested : Option Value)
    (candidates : SortedSet Value) :
    SortedSet Value :=
  match rule with
  | .noPreference => candidates
  | .preferLowest => extreme .lt candidates
  | .preferHighest => extreme .gt candidates
  | .preferRequested =>
    match requested with
    | some v => if candidates.contains v then .singleton v else candidates
    | none => candidates
  | .ordered values =>
    match values.find? candidates.contains with
    | some v => .singleton v
    | none => candidates
  | .custom _ choose => choose requested candidates

/-- The rule's name, with its list or label. -/
def text : DisambiguationRule → String
  | .noPreference => "none"
  | .preferLowest => "prefer-lowest"
  | .preferHighest => "prefer-highest"
  | .preferRequested => "prefer-requested"
  | .ordered values => "ordered " ++ bracketed (values.map Value.text)
  | .custom label _ => s!"custom({label})"

end DisambiguationRule

end VariantSelection
