/-
Attribute descriptors in TOML documents.

What is left out is absent when it is written, too: a strategy that is not named,
and a list or a table that holds nothing.
-/
import VariantSelection.Attribute.Descriptor
import VariantSelection.Toml.Document
import VariantSelection.Toml.Record

namespace VariantSelection

namespace Value

/-- Reads a value of an attribute: a text, an integer or a truth value. -/
def ofToml : TomlReader Value
  | .string s => .ok (.string s)
  | .integer n => .ok (.integer n)
  | .boolean b => .ok (.boolean b)
  | _ => .error .shape

def toToml : Value → TomlValue
  | .string s => .string s
  | .integer n => .integer n
  | .boolean b => .boolean b

end Value

/-- An entry of a table under its name. -/
def tomlEntry (name : String) (v : TomlValue) : List (String × TomlValue) := [(name, v)]

/-- An entry of a table that is left out if there is nothing to write. -/
def optionalTomlEntry {α : Type} (name : String) (write : α → TomlValue) (field : Option α) :
    List (String × TomlValue) :=
  match field with
  | some a => tomlEntry name (write a)
  | none => []

/-- A list under a name, left out if it is empty. -/
def tomlListEntry {α : Type} (name : String) (write : α → TomlValue) (items : List α) :
    List (String × TomlValue) :=
  if items.isEmpty then [] else tomlEntry name (.array (items.map write))

/-- The entries of a map. -/
def tomlMapEntries {V : Type} (write : V → TomlValue) (map : SortedMap String V) :
    List (String × TomlValue) :=
  map.entries.map fun e => (e.1, write e.2)

/-- Reads a map from names. -/
def readMap {V : Type} (value : TomlReader V) : TomlReader (SortedMap String V) := fun v =>
  (v.readEntries value).map SortedMap.ofList

namespace Descriptor

/-- A descriptor that is being read. -/
structure Draft where
  name : Option String := none
  type : Option ValueType := none
  compatibility : Option CompatibilityKind := none
  disambiguation : Option DisambiguationKind := none
  preferred : List Value := []
  accepts : SortedMap String (List Value) := .empty

/-- The fields of a descriptor. -/
def fields : List (TomlField Draft) :=
  [.of "name" TomlValue.readString fun name d => { d with name := some name },
   .of "type" (TomlValue.readChoice ValueType.named?) fun t d => { d with type := some t },
   .of "compatibility" (TomlValue.readChoice CompatibilityKind.named?) fun kind d =>
     { d with compatibility := some kind },
   .of "disambiguation" (TomlValue.readChoice DisambiguationKind.named?) fun kind d =>
     { d with disambiguation := some kind },
   .of "preferred" (TomlValue.readList Value.ofToml) fun values d => { d with preferred := values },
   .of "accepts" (readMap (TomlValue.readList Value.ofToml)) fun table d =>
     { d with accepts := table }]

/-- Reads a descriptor. -/
def ofToml : TomlReader Descriptor := fun v => do
  let d ← v.readFields fields {}
  return {
    name := ← requiredField d.name
    type := ← requiredField d.type
    compatibility := d.compatibility
    disambiguation := d.disambiguation
    preferred := d.preferred
    accepts := d.accepts }

/-- A list of values. -/
def valueList (values : List Value) : TomlValue := .array (values.map Value.toToml)

/-- The entries of a descriptor. -/
def toToml (d : Descriptor) : List (String × TomlValue) :=
  tomlEntry "name" (.string d.name)
    ++ tomlEntry "type" (.string d.type.text)
    ++ optionalTomlEntry "compatibility" (fun kind => .string kind.text) d.compatibility
    ++ optionalTomlEntry "disambiguation" (fun kind => .string kind.text) d.disambiguation
    ++ tomlListEntry "preferred" Value.toToml d.preferred
    ++ if d.accepts.isEmpty then []
      else tomlEntry "accepts" (.table (tomlMapEntries valueList d.accepts))

/-- The descriptor that a document holds. -/
def parse? (text : String) : Option Descriptor :=
  match TomlValue.parse? text with
  | none => none
  | some v => (ofToml v).toOption

end Descriptor

end VariantSelection
