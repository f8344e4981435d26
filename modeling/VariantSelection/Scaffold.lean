/-
Scaffolding: a project to start from, with one dependency, two configurations, and
the metadata of the component that it depends on.
-/
import VariantSelection.Attribute.Standard
import VariantSelection.Manifest.Document
import VariantSelection.Text

namespace VariantSelection

/-- Why no project is made. -/
inductive ScaffoldError
  | exists (manifest : Path)
  | directory (cause : FileError)
  | file (cause : FileError)
  deriving DecidableEq

def ScaffoldError.message : ScaffoldError → String
  | .exists manifest =>
    s!"{Manifest.fileName} already exists at {manifest.text} — cannot initialize over an existing project"
  | .directory cause => cause.message
  | .file cause => cause.message

namespace Scaffold

/-- The component that the project depends on. -/
def greeter : Coordinate := ⟨"org.example", "greeter", "1.0"⟩

/-- A configuration that requests a usage. -/
def consumer (description usage : String) : ConfigurationSpec where
  description := some description
  attributes := .ofList [(Standard.usage, .string usage), (Standard.jvmVersion, .integer 11)]

/-- The manifest of a new project. -/
def manifest (name : String) : Manifest where
  project := { name }
  dependencies := .ofList [("greeter", { module := greeter })]
  configurations := .ofList
    [("compileClasspath", consumer "Compile classpath" "java-api"),
     ("runtimeClasspath", consumer "Runtime classpath" "java-runtime")]

/-- The lines of a variant in the metadata of the component; commas stand
between variants. -/
def variantLines (name usage separator : String) : List String :=
  ["    \x7b",
   s!"      \"name\": \"{name}\",",
   "      \"attributes\": \x7b",
   "        \"org.gradle.category\": \"library\",",
   "        \"org.gradle.dependency.bundling\": \"external\",",
   "        \"org.gradle.jvm.version\": 11,",
   "        \"org.gradle.libraryelements\": \"jar\",",
   s!"        \"org.gradle.usage\": \"{usage}\"",
   "      \x7d,",
   "      \"files\": [ \x7b \"name\": \"greeter-1.0.jar\", \"url\": \"greeter-1.0.jar\" \x7d ]",
   s!"    \x7d{separator}"]

/-- The metadata of the component. -/
def metadata : String :=
  unlines <|
    ["\x7b",
     "  \"formatVersion\": \"1.1\",",
     "  \"component\": \x7b \"group\": \"org.example\", \"module\": \"greeter\", \"version\": \"1.0\" \x7d,",
     "  \"variants\": ["]
    ++ variantLines "apiElements" "java-api" ","
    ++ variantLines "runtimeElements" "java-runtime" ""
    ++ ["  ]", "\x7d"]

/-- Makes a project called `name` in a directory that has no manifest yet: the
directories that are missing, then the manifest, then the metadata. -/
def create (name : String) (directory : Path) : FileAction ScaffoldError Unit := do
  let path := directory.join Manifest.fileName
  if (← get).contains path then throw (.exists path)
  let m := manifest name
  let catalog := directory.join m.project.catalog
  ExceptT.adapt .directory (FileAction.ensureDirectory catalog)
  ExceptT.adapt .file (FileAction.put path m.text)
  ExceptT.adapt .file (FileAction.put (catalog.join "greeter-1.0.module") metadata)

end Scaffold

end VariantSelection
