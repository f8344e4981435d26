/-
Descriptors: an attribute declared by data instead of by rules.

A descriptor names built-in strategies and lists the values they need.
`Descriptor.rules` turns the names and lists into rules, each value converted to the
attribute's type.
-/
import VariantSelection.Attribute.Registry

namespace VariantSelection

/-- The compatibility strategies that a descriptor can name. -/
inductive CompatibilityKind
  | exact
  | atLeast
  | atMost
  | accepts
  deriving DecidableEq

/-- The disambiguation strategies that a descriptor can name. -/
inductive DisambiguationKind
  | none
  | preferLowest
  | preferHighest
  | preferRequested
  | ordered
  deriving DecidableEq

def CompatibilityKind.text : CompatibilityKind → String
  | .exact => "exact"
  | .atLeast => "at-least"
  | .atMost => "at-most"
  | .accepts => "accepts"

def DisambiguationKind.text : DisambiguationKind → String
  | .none => "none"
  | .preferLowest => "prefer-lowest"
  | .preferHighest => "prefer-highest"
  | .preferRequested => "prefer-requested"
  | .ordered => "ordered"

/-- The strategy with this name. -/
def CompatibilityKind.named? (text : String) : Option CompatibilityKind :=
  [CompatibilityKind.exact, .atLeast, .atMost, .accepts].find? fun kind => kind.text = text

/-- The strategy with this name. -/
def DisambiguationKind.named? (text : String) : Option DisambiguationKind :=
  [DisambiguationKind.none, .preferLowest, .preferHighest, .preferRequested, .ordered].find?
    fun kind => kind.text = text

/-- The rule of a strategy that needs no table. -/
def CompatibilityKind.rule? : CompatibilityKind → Option CompatibilityRule
  | .exact => some .exact
  | .atLeast => some .atLeast
  | .atMost => some .atMost
  | .accepts => Option.none

/-- The rule of a strategy that needs no list. -/
def DisambiguationKind.rule? : DisambiguationKind → Option DisambiguationRule
  | .none => some .noPreference
  | .preferLowest => some .preferLowest
  | .preferHighest => some .preferHighest
  | .preferRequested => some .preferRequested
  | .ordered => Option.none

/-- The declaration of one attribute.  A strategy that is left out is the default
for a new attribute and leaves the rule of a known one as it is. -/
structure Descriptor where
  name : String
  type : ValueType
  compatibility : Option CompatibilityKind := none
  disambiguation : Option DisambiguationKind := none
  /-- For `ordered`: the most preferred value first. -/
  preferred : List Value := []
  /-- For `accepts`: what is accepted for each requested value. -/
  accepts : SortedMap String (List Value) := .empty
  deriving DecidableEq

namespace Descriptor

/-- One entry of the accepts table, laid on what was built so far. -/
def acceptsEntry (d : Descriptor) (table : SortedMap Value (SortedSet Value))
    (entry : String × List Value) : Except AttributeError (SortedMap Value (SortedSet Value)) := do
  let key ← (Value.string entry.1).coerce d.name d.type
  let values ← entry.2.mapM fun (v : Value) => v.coerce d.name d.type
  return table.insert key (.ofList values)

/-- The accepts table with its keys and values converted, in the order of the
keys' texts. -/
def acceptsTable (d : Descriptor) : Except AttributeError (SortedMap Value (SortedSet Value)) :=
  d.accepts.entries.foldlM d.acceptsEntry .empty

/-- The list of preferred values, converted. -/
def preferredValues (d : Descriptor) : Except AttributeError (List Value) :=
  d.preferred.mapM fun (v : Value) => v.coerce d.name d.type

/-- The compatibility rule that the descriptor names. -/
def compatibilityRule (d : Descriptor) : Except AttributeError (Option CompatibilityRule) :=
  match d.compatibility with
  | some .accepts =>
    if d.accepts.isEmpty then .error (.invalidDescriptor d.name .missingAccepts)
    else d.acceptsTable.map fun table => some (.accepts table)
  | kind =>
    if d.accepts.isEmpty then .ok (kind.bind CompatibilityKind.rule?)
    else .error (.invalidDescriptor d.name .strayAccepts)

/-- The disambiguation rule that the descriptor names. -/
def disambiguationRule (d : Descriptor) : Except AttributeError (Option DisambiguationRule) :=
  match d.disambiguation with
  | some .ordered =>
    if d.preferred.isEmpty then .error (.invalidDescriptor d.name .missingPreferred)
    else d.preferredValues.map fun values => some (.ordered values)
  | kind =>
    if d.preferred.isEmpty then .ok (kind.bind DisambiguationKind.rule?)
    else .error (.invalidDescriptor d.name .strayPreferred)

/-- The rules that the descriptor names.  Faults of compatibility come before those
of disambiguation. -/
def rules (d : Descriptor) :
    Except AttributeError (Option CompatibilityRule × Option DisambiguationRule) := do
  let compatibility ← d.compatibilityRule
  let disambiguation ← d.disambiguationRule
  return (compatibility, disambiguation)

end Descriptor

/-- Registers the attribute that `d` declares. -/
def Registry.declare (r : Registry) (d : Descriptor) : Except AttributeError Registry := do
  let (compatibility, disambiguation) ← d.rules
  r.register d.name d.type compatibility disambiguation

/-- Registers the attributes that a list declares, up to the first that is refused:
what was registered by then stays, beside the error. -/
def Registry.declareEach (r : Registry) : List Descriptor → Registry × Option AttributeError
  | [] => (r, none)
  | d :: rest =>
    match r.declare d with
    | .ok r' => r'.declareEach rest
    | .error e => (r, some e)

end VariantSelection
