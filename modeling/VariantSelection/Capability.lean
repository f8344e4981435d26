/-
Capabilities: what a variant can stand in for, and the selectors with which a
consumer asks for them.
-/
import VariantSelection.Text

namespace VariantSelection

/-- A substitutable unit in one version. -/
structure Capability where
  group : String
  name : String
  version : String
  deriving DecidableEq

namespace Capability

/-- Capabilities are ordered by group, then by name, then by version, each by
code point. -/
instance : Ord Capability :=
  ⟨compareLex (compareOn group) (compareLex (compareOn name) (compareOn version))⟩

instance : Std.TransOrd Capability :=
  inferInstanceAs (Std.TransCmp
    (compareLex (compareOn group) (compareLex (compareOn name) (compareOn version))))

instance : Std.LawfulEqOrd Capability where
  compare_self := by
    intro a
    change compareLex (compareOn group) (compareLex (compareOn name) (compareOn version)) a a = .eq
    simp [compareLex, compareOn]
  eq_of_compare := by
    intro a b h
    change compareLex (compareOn group) (compareLex (compareOn name) (compareOn version)) a b
      = .eq at h
    cases a; cases b
    simp_all [compareLex, compareOn, Ordering.then_eq_eq]

/-- The capability as it is written. -/
def text (c : Capability) : String := s!"{c.group}:{c.name}:{c.version}"

end Capability

/-- A requirement of a capability; without a version, any version will do. -/
structure CapabilitySelector where
  group : String
  name : String
  version : Option String
  deriving DecidableEq

/-- Why a text is no selector. -/
inductive SelectorFault
  | emptyPart
  | partCount (parts : Nat)
  deriving DecidableEq

/-- A text that is no selector. -/
structure SelectorError where
  text : String
  fault : SelectorFault
  deriving DecidableEq

def SelectorFault.message : SelectorFault → String
  | .emptyPart => "empty part"
  | .partCount parts => s!"expected group:name or group:name:version, got {parts} part(s)"

def SelectorError.message (e : SelectorError) : String :=
  s!"invalid capability \"{e.text}\": {e.fault.message}"

namespace CapabilitySelector

/-- The selector as it is written. -/
def text (s : CapabilitySelector) : String :=
  match s.version with
  | some version => s!"{s.group}:{s.name}:{version}"
  | none => s!"{s.group}:{s.name}"

/-- Reads a selector: two or three parts, none of them blank.  A blank part is
reported whatever the number of parts is. -/
def parse (text : String) : Except SelectorError CapabilitySelector :=
  let parts := fields ':' text
  if parts.any isBlankText then .error ⟨text, .emptyPart⟩
  else
    match parts with
    | [group, name] => .ok ⟨group, name, none⟩
    | [group, name, version] => .ok ⟨group, name, some version⟩
    | _ => .error ⟨text, .partCount parts.length⟩

/-- Whether the capability is one that the selector asks for. -/
def selects (s : CapabilitySelector) (c : Capability) : Bool :=
  s.group = c.group && s.name = c.name &&
    match s.version with
    | some version => version = c.version
    | none => true

end CapabilitySelector

end VariantSelection
