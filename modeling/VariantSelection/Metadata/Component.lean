/-
The component that a module metadata document describes.

The format version is looked at first.  Then the variants are taken in the order of the
document: the attributes of a variant by name, then its secondary variants in order,
then its name, which must be new; the first fault met on the way is the one reported.
`Document.component` is the component of a document, and `readText` that of a text.
-/
import VariantSelection.Attribute.Registry
import VariantSelection.Component
import VariantSelection.Metadata.Document

namespace VariantSelection

/-- Why a module metadata file gives no component. -/
inductive MetadataError
  | malformed (path : String)
  | unsupportedFormat (path version : String)
  | nonScalarAttribute (path variant name : String)
  | illTypedAttribute (path variant : String) (cause : AttributeError)
  | duplicateVariant (cause : DuplicateVariant)
  deriving DecidableEq

/-- The text shown for a fault; what is wrong with a malformed document is not told. -/
def MetadataError.message : MetadataError → String
  | .malformed path => s!"invalid module metadata at {path}: "
  | .unsupportedFormat path version =>
    s!"unsupported module metadata format {version} at {path} — expected 1.x"
  | .nonScalarAttribute path variant name =>
    s!"variant '{variant}' in {path} declares attribute '{name}' with a non-scalar value"
  | .illTypedAttribute path variant cause => s!"variant '{variant}' in {path}: {cause.message}"
  | .duplicateVariant cause => cause.message

namespace Metadata

/-- A number as the value of an attribute: an integer if it is a signed one of 64
bits, and otherwise its text. -/
def numberValue : JsonNumber → Value
  | .integer n => .integer n
  | .large n => .string (toString n.toNat)
  | .real x => .string (doubleText x)

/-- The value that a scalar stands for, before its type is known. -/
def AttributeEntry.value? : AttributeEntry → Option Value
  | .string s => some (.string s)
  | .boolean b => some (.boolean b)
  | .number n => some (numberValue n)
  | .nonScalar => none

/-- The value of an attribute as one of its registered type. -/
def AttributeEntry.typed (path variant : String) (r : Registry) (name : String)
    (entry : AttributeEntry) : Except MetadataError Value :=
  match entry.value? with
  | none => .error (.nonScalarAttribute path variant name)
  | some v => (r.coerce name v).mapError (.illTypedAttribute path variant)

/-- Attributes with their registered types, or the first fault by name. -/
def typedAttributes (path variant : String) (r : Registry)
    (entries : SortedMap String AttributeEntry) : Except MetadataError AttributeSet :=
  entries.traverse (AttributeEntry.typed path variant r)

def FileEntry.artifact (f : FileEntry) : Artifact := ⟨f.name, f.url⟩

def CapabilityEntry.capability (c : CapabilityEntry) : Capability := ⟨c.group, c.name, c.version⟩

/-- A dependency; a version that leaves open what it requires counts as none. -/
def DependencyEntry.dependency (d : DependencyEntry) : Dependency :=
  ⟨d.group, d.name, d.version.bind VersionEntry.requires⟩

/-- A secondary variant; messages name it behind the variant it belongs to. -/
def SecondaryEntry.secondaryVariant (s : SecondaryEntry) (path owner : String) (r : Registry) :
    Except MetadataError SecondaryVariant := do
  let attributes ← typedAttributes path s!"{owner}/{s.name}" r s.attributes
  return ⟨s.name, attributes, s.files.map FileEntry.artifact⟩

/-- A variant with the capabilities it declares. -/
def VariantEntry.variant (v : VariantEntry) (path : String) (r : Registry) :
    Except MetadataError Variant := do
  let attributes ← typedAttributes path v.name r v.attributes
  let secondary ← v.secondary.mapM fun (s : SecondaryEntry) => s.secondaryVariant path v.name r
  return {
    name := v.name
    attributes
    capabilities := .ofList (v.capabilities.map CapabilityEntry.capability)
    artifacts := v.files.map FileEntry.artifact
    dependencies := v.dependencies.map DependencyEntry.dependency
    secondary }

/-- Adds the variant of an entry to a component. -/
def addEntry (path : String) (r : Registry) (c : Component) (v : VariantEntry) :
    Except MetadataError Component := do
  let variant ← v.variant path r
  (c.addVariant variant).mapError .duplicateVariant

/-- Whether documents of a format version are understood: those of version 1. -/
def isSupported (formatVersion : String) : Bool :=
  ['1', '.'].isPrefixOf formatVersion.toList

/-- The component that a document describes. -/
def Document.component (d : Document) (path : String) (r : Registry) :
    Except MetadataError Component :=
  if isSupported d.formatVersion then
    d.variants.foldlM (addEntry path r) (.new ⟨d.group, d.name, d.version⟩ .moduleMetadata)
  else .error (.unsupportedFormat path d.formatVersion)

/-- The component that the text of a metadata file describes; `path` is for
messages only. -/
def readText (text path : String) (r : Registry) : Except MetadataError Component :=
  match Document.parse? text with
  | none => .error (.malformed path)
  | some d => d.component path r

end Metadata

end VariantSelection
