/-
Manifests as TOML documents, and manifest files.
-/
import VariantSelection.Files.System
import VariantSelection.Manifest.Schema
import VariantSelection.Manifest.Descriptor
import VariantSelection.Toml.Layout

namespace VariantSelection

/-! ### Reading -/

/-- Reads the coordinate of a component. -/
def Coordinate.ofToml : TomlReader Coordinate := fun v => do
  match Coordinate.parse (← v.readString) with
  | .ok c => return c
  | .error e => throw (.rejected e.message)

namespace Project

/-- A project that is being read. -/
structure Draft where
  name : Option String := none
  catalog : String := "metadata"

def fields : List (TomlField Draft) :=
  [.of "name" TomlValue.readString fun name d => { d with name := some name },
   .of "catalog" TomlValue.readString fun catalog d => { d with catalog }]

def ofToml : TomlReader Project := fun v => do
  let d ← v.readFields fields {}
  return { name := ← requiredField d.name, catalog := d.catalog }

end Project

namespace SchemaSpec

def fields : List (TomlField SchemaSpec) :=
  [.of "standard" TomlValue.readBoolean fun standard s => { s with standard },
   .of "precedence" (TomlValue.readList TomlValue.readString) fun precedence s =>
     { s with precedence },
   .of "attributes" (TomlValue.readList Descriptor.ofToml) fun attributes s =>
     { s with attributes }]

def ofToml : TomlReader SchemaSpec := fun v => v.readFields fields {}

end SchemaSpec

namespace DependencySpec

/-- A dependency that is being read. -/
structure Draft where
  module : Option Coordinate := none
  variant : Option String := none
  capabilities : List String := []

def fields : List (TomlField Draft) :=
  [.of "module" Coordinate.ofToml fun module d => { d with module := some module },
   .of "variant" TomlValue.readString fun variant d => { d with variant := some variant },
   .of "capabilities" (TomlValue.readList TomlValue.readString) fun capabilities d =>
     { d with capabilities }]

def ofToml : TomlReader DependencySpec := fun v => do
  let d ← v.readFields fields {}
  return {
    module := ← requiredField d.module
    variant := d.variant
    capabilities := d.capabilities }

end DependencySpec

namespace ConfigurationSpec

def fields : List (TomlField ConfigurationSpec) :=
  [.of "description" TomlValue.readString fun description c =>
     { c with description := some description },
   .of "attributes" (readMap Value.ofToml) fun attributes c => { c with attributes }]

def ofToml : TomlReader ConfigurationSpec := fun v => v.readFields fields {}

end ConfigurationSpec

namespace Manifest

/-- A manifest that is being read. -/
structure Draft where
  project : Option Project := none
  schema : SchemaSpec := {}
  dependencies : SortedMap String DependencySpec := .empty
  configurations : SortedMap String ConfigurationSpec := .empty

def fields : List (TomlField Draft) :=
  [.of "project" Project.ofToml fun project d => { d with project := some project },
   .of "schema" SchemaSpec.ofToml fun schema d => { d with schema },
   .of "dependencies" (readMap DependencySpec.ofToml) fun dependencies d => { d with dependencies },
   .of "configurations" (readMap ConfigurationSpec.ofToml) fun configurations d =>
     { d with configurations }]

/-- Reads a manifest from the tree of its document. -/
def ofToml : TomlReader Manifest := fun v => do
  let d ← v.readFields fields {}
  return {
    project := ← requiredField d.project
    schema := d.schema
    dependencies := d.dependencies
    configurations := d.configurations }

/-- Reads a manifest from the text of its document. -/
def parse (text : String) : Except TomlMismatch Manifest :=
  match TomlValue.parse? text with
  | some v => ofToml v
  | none => .error .shape

end Manifest

/-! ### Writing -/

def Project.toToml (p : Project) : List (String × TomlValue) :=
  tomlEntry "name" (.string p.name) ++ tomlEntry "catalog" (.string p.catalog)

def SchemaSpec.toToml (s : SchemaSpec) : List (String × TomlValue) :=
  tomlEntry "standard" (.boolean s.standard)
    ++ tomlListEntry "precedence" .string s.precedence
    ++ tomlListEntry "attributes" (fun d => .table d.toToml) s.attributes

def DependencySpec.toToml (d : DependencySpec) : List (String × TomlValue) :=
  tomlEntry "module" (.string d.module.text)
    ++ optionalTomlEntry "variant" .string d.variant
    ++ tomlListEntry "capabilities" .string d.capabilities

def ConfigurationSpec.toToml (c : ConfigurationSpec) : List (String × TomlValue) :=
  optionalTomlEntry "description" .string c.description
    ++ tomlEntry "attributes" (.table (tomlMapEntries Value.toToml c.attributes))

namespace Manifest

/-- The entries of the document of a manifest. -/
def toToml (m : Manifest) : List (String × TomlValue) :=
  tomlEntry "project" (.table m.project.toToml)
    ++ tomlEntry "schema" (.table m.schema.toToml)
    ++ tomlEntry "dependencies" (.table (tomlMapEntries (fun d => .table d.toToml) m.dependencies))
    ++ tomlEntry "configurations"
      (.table (tomlMapEntries (fun c => .table c.toToml) m.configurations))

/-- The text of a manifest. -/
def text (m : Manifest) : String := tomlText m.toToml

/-- The name of a manifest file. -/
def fileName : String := "varsel.toml"

end Manifest

/-! ### Files -/

/-- Why a file gives no manifest. -/
inductive ManifestError
  | unreadable (path : Path) (fault : FileFault)
  /-- The document has not the shape of a manifest; the reason is told where a text
  in it says something wrong. -/
  | malformed (path : Path) (reason : Option String)
  | invalid (path : Path) (fault : ManifestFault)
  deriving DecidableEq

def ManifestError.message : ManifestError → String
  | .unreadable path fault => s!"cannot read {path.text}: {fault.message}"
  | .malformed path reason =>
    let told := reason.getD ""
    s!"invalid {Manifest.fileName} at {path.text}: {told}"
  | .invalid path fault => s!"invalid {Manifest.fileName} at {path.text}: {fault.message}"

/-- The reason that is told for a part that cannot be read. -/
def TomlMismatch.reason? : TomlMismatch → Option String
  | .shape => none
  | .rejected reason => some reason

/-- The manifest in a file, which keeps all rules. -/
def Manifest.read (s : FileSystem) (path : Path) : Except ManifestError Manifest := do
  let text ← (s.text path).mapError (.unreadable path)
  let m ← (Manifest.parse text).mapError fun mismatch => .malformed path mismatch.reason?
  match m.fault? with
  | some fault => throw (.invalid path fault)
  | none => return m

end VariantSelection
