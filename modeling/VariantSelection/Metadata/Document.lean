/-
Module metadata documents: what a component publishes, as its author wrote it.
-/
import VariantSelection.Json.Record
import VariantSelection.Ordered.Map

namespace VariantSelection

namespace Metadata

/-- The value of an attribute as it stands in a document. -/
inductive AttributeEntry
  | string (s : String)
  | number (n : JsonNumber)
  | boolean (b : Bool)
  /-- Null, an array or an object. -/
  | nonScalar
  deriving DecidableEq

structure CapabilityEntry where
  group : String
  name : String
  version : String
  deriving DecidableEq

structure FileEntry where
  name : String
  url : String
  deriving DecidableEq

/-- The version of a dependency, which may leave open what it requires. -/
structure VersionEntry where
  requires : Option String
  deriving DecidableEq

structure DependencyEntry where
  group : String
  name : String
  version : Option VersionEntry
  deriving DecidableEq

structure SecondaryEntry where
  name : String
  attributes : SortedMap String AttributeEntry
  files : List FileEntry
  deriving DecidableEq

structure VariantEntry where
  name : String
  attributes : SortedMap String AttributeEntry
  capabilities : List CapabilityEntry
  files : List FileEntry
  dependencies : List DependencyEntry
  secondary : List SecondaryEntry
  deriving DecidableEq

structure Document where
  formatVersion : String
  group : String
  name : String
  version : String
  variants : List VariantEntry
  deriving DecidableEq

/-! ### Reading a document

A document that has the wrong shape anywhere is not read at all, so the order of the
checks does not matter.
-/

/-- How deep the arrays and objects of a document may be nested. -/
def depthLimit : Nat := 127

/-- Reads an attribute's value that stands inside `depth` arrays and objects. -/
def readAttribute (depth : Nat) (v : JsonValue) : Option AttributeEntry :=
  if v.isStorable (depthLimit - depth) then
    match v with
    | .string s => s.text?.map .string
    | .boolean b => some (.boolean b)
    | .number l => l.number?.map .number
    | _ => some .nonScalar
  else none

/-- Reads attributes; of several entries for one name the last one counts. -/
def readAttributes (depth : Nat) (v : JsonValue) : Option (SortedMap String AttributeEntry) := do
  let members ← v.members?
  let entries ← members.mapM fun m => (readAttribute depth m.2).map fun entry => (m.1, entry)
  return .ofList entries

def readCapability (v : JsonValue) : Option CapabilityEntry := do
  let r ← v.record? ["group", "name", "version"]
  return {
    group := ← r.required "group" JsonValue.text?
    name := ← r.required "name" JsonValue.text?
    version := ← r.required "version" JsonValue.text? }

def readFile (v : JsonValue) : Option FileEntry := do
  let r ← v.record? ["name", "url"]
  return {
    name := ← r.required "name" JsonValue.text?
    url := ← r.required "url" JsonValue.text? }

def readVersion (v : JsonValue) : Option VersionEntry := do
  let r ← v.record? ["requires"]
  return { requires := ← r.nullable "requires" JsonValue.text? }

def readDependency (v : JsonValue) : Option DependencyEntry := do
  let r ← v.record? ["group", "module", "version"]
  return {
    group := ← r.required "group" JsonValue.text?
    name := ← r.required "module" JsonValue.text?
    version := ← r.nullable "version" readVersion }

def readSecondary (v : JsonValue) : Option SecondaryEntry := do
  let r ← v.record? ["name", "attributes", "files"]
  return {
    name := ← r.required "name" JsonValue.text?
    attributes := ← r.withDefault "attributes" .empty (readAttributes 6)
    files := ← r.list "files" readFile }

def readVariant (v : JsonValue) : Option VariantEntry := do
  let r ← v.record?
    ["name", "attributes", "capabilities", "files", "dependencies", "secondaryVariants"]
  return {
    name := ← r.required "name" JsonValue.text?
    attributes := ← r.withDefault "attributes" .empty (readAttributes 4)
    capabilities := ← r.list "capabilities" readCapability
    files := ← r.list "files" readFile
    dependencies := ← r.list "dependencies" readDependency
    secondary := ← r.list "secondaryVariants" readSecondary }

def readComponent (v : JsonValue) : Option (String × String × String) := do
  let r ← v.record? ["group", "module", "version"]
  return (← r.required "group" JsonValue.text?, ← r.required "module" JsonValue.text?,
    ← r.required "version" JsonValue.text?)

/-- Reads a document from its tree. -/
def readDocument (v : JsonValue) : Option Document := do
  let r ← v.record? ["formatVersion", "component", "variants"]
  let (group, name, version) ← r.required "component" readComponent
  return {
    formatVersion := ← r.required "formatVersion" JsonValue.text?
    group, name, version
    variants := ← r.list "variants" readVariant }

/-- Reads a document from its text. -/
def Document.parse? (text : String) : Option Document := do
  readDocument (← JsonValue.parse? text)

end Metadata

end VariantSelection
