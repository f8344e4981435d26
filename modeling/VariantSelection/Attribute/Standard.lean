/-
The attributes of the JVM ecosystem, as descriptors, and `Registry.standard`, which
registers them.
-/
import VariantSelection.Attribute.Descriptor

namespace VariantSelection

namespace Standard

def usage : String := "org.gradle.usage"
def category : String := "org.gradle.category"
def libraryElements : String := "org.gradle.libraryelements"
def bundling : String := "org.gradle.dependency.bundling"
def jvmVersion : String := "org.gradle.jvm.version"
def jvmEnvironment : String := "org.gradle.jvm.environment"
def status : String := "org.gradle.status"

/-- A list of string values. -/
def strings (texts : List String) : List Value := texts.map .string

/-- The standard attributes, in the order of their registration. -/
def descriptors : List Descriptor :=
  [{ name := usage
     type := .string
     compatibility := some .accepts
     disambiguation := some .ordered
     preferred := strings ["java-api", "java-runtime"]
     accepts := .ofList [("java-api", strings ["java-runtime"])] },
   { name := category
     type := .string
     compatibility := some .exact
     disambiguation := some .ordered
     preferred := strings ["library", "platform"] },
   { name := libraryElements
     type := .string
     compatibility := some .accepts
     disambiguation := some .preferRequested
     accepts := .ofList
       [("classes", strings ["jar"]), ("resources", strings ["jar"]),
        ("classes-and-resources", strings ["jar"])] },
   { name := bundling
     type := .string
     compatibility := some .exact
     disambiguation := some .ordered
     preferred := strings ["external", "embedded", "shadowed"] },
   { name := jvmVersion
     type := .integer
     compatibility := some .atLeast
     disambiguation := some .preferLowest },
   { name := jvmEnvironment
     type := .string
     compatibility := some .exact
     disambiguation := some .preferRequested },
   { name := status
     type := .string
     compatibility := some .exact
     disambiguation := some .ordered
     preferred := strings ["release", "milestone", "integration"] }]

/-- The precedence of the standard attributes; the status has none. -/
def precedence : List String :=
  [usage, category, libraryElements, bundling, jvmVersion, jvmEnvironment]

end Standard

/-- Registers the standard attributes and then declares their precedence.  What was
registered before a refusal stays. -/
def Registry.addStandard (r : Registry) : Registry × Option AttributeError :=
  match r.declareEach Standard.descriptors with
  | (r', some e) => (r', some e)
  | (r', none) =>
    match r'.declarePrecedence Standard.precedence with
    | .ok r'' => (r'', none)
    | .error e => (r', some e)

/-- A registry of the standard attributes alone. -/
def Registry.standard : Except AttributeError Registry :=
  match Registry.empty.addStandard with
  | (r, none) => .ok r
  | (_, some e) => .error e

end VariantSelection
