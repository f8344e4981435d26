/-
Components described by POM files.

A POM lists dependencies and no variants.  Two variants are derived from it:
`compile` with the dependencies of compile scope, and `runtime` with those of
compile and of runtime scope.  A POM whose packaging is `pom` publishes nothing.
-/
import VariantSelection.Attribute.Standard
import VariantSelection.Component
import VariantSelection.Xml.Tree

namespace VariantSelection

/-- Why a POM file gives no component. -/
inductive PomError
  | malformed (path : String)
  | missingElement (path element : String)
  deriving DecidableEq

/-- The text shown for a fault; what is wrong with a malformed file is not told. -/
def PomError.message : PomError → String
  | .malformed path => s!"invalid POM at {path}: "
  | .missingElement path element => s!"POM at {path} is missing <{element}>"

namespace Pom

/-- The trimmed text of the first child element called `name`, unless it is blank. -/
def childText? (node : XmlNode) (name : String) : Option String := do
  let text := trimBlanks (← (← node.child? name).text?)
  if text.isEmpty then none else some text

/-- Puts `new` in the place of every `old` in a text, from the left. -/
def replaceFrom (old new : List Char) (skip : Nat) : List Char → List Char
  | [] => []
  | c :: rest =>
    if 0 < skip then replaceFrom old new (skip - 1) rest
    else if old.isPrefixOf (c :: rest) then new ++ replaceFrom old new (old.length - 1) rest
    else c :: replaceFrom old new 0 rest

/-- The text in which a version refers to that of the project. -/
def versionReference : List Char := "$\x7bproject.version\x7d".toList

/-- A version with the project's own put in the place of references to it. -/
def resolveVersion (project version : String) : String :=
  String.ofList (replaceFrom versionReference project.toList 0 version.toList)

/-- When a dependency is needed. -/
inductive Scope
  | compile
  | runtime
  deriving DecidableEq

/-- The scope of a dependency, as far as variants publish it; without a scope it is
needed for compilation. -/
def scope? (node : XmlNode) : Option Scope :=
  match childText? node "scope" with
  | none => some .compile
  | some "compile" => some .compile
  | some "runtime" => some .runtime
  | some _ => none

/-- What an element depends on; it has to tell a group and a name. -/
def dependency? (node : XmlNode) (version : String) : Option Dependency := do
  let group ← childText? node "groupId"
  let name ← childText? node "artifactId"
  return ⟨group, name, (childText? node "version").map (resolveVersion version)⟩

/-- A dependency that variants publish, with its scope: it must not be optional. -/
def published? (node : XmlNode) (version : String) : Option (Scope × Dependency) := do
  let dependency ← dependency? node version
  let scope ← scope? node
  if childText? node "optional" = some "true" then none else some (scope, dependency)

/-- The published dependencies of a project, in the order of the document. -/
def publishedDependencies (project : XmlNode) (version : String) : List (Scope × Dependency) :=
  match project.child? "dependencies" with
  | none => []
  | some list => (list.childrenNamed "dependency").filterMap fun node => published? node version

/-- A derived variant. -/
def derivedVariant (component : Component) (name usage : String) (dependencies : List Dependency) :
    Variant where
  name := name
  attributes := .ofList
    [(Standard.category, .string "library"), (Standard.libraryElements, .string "jar"),
     (Standard.usage, .string usage)]
  capabilities := .empty
  artifacts := [⟨component.id.defaultArtifactName, component.id.defaultArtifactName⟩]
  dependencies := dependencies
  secondary := []

/-- The variants of a component with these dependencies. -/
def derivedVariants (component : Component) (dependencies : List (Scope × Dependency)) :
    List Variant :=
  let compile := dependencies.filter fun d => d.1 = .compile
  [derivedVariant component "compile" "java-api" (compile.map Prod.snd),
   derivedVariant component "runtime" "java-runtime" (dependencies.map Prod.snd)]

/-- A text that the project tells itself or takes over from its parent. -/
def inherited (path : String) (project : XmlNode) (name : String) : Except PomError String :=
  let own := childText? project name
  match own.or ((project.child? "parent").bind fun parent => childText? parent name) with
  | some text => .ok text
  | none => .error (.missingElement path name)

/-- The component that the root element of a POM describes. -/
def component (path : String) (project : XmlNode) : Except PomError Component := do
  if project.name? = some "project" then
    let group ← inherited path project "groupId"
    let version ← inherited path project "version"
    match childText? project "artifactId" with
    | none => .error (.missingElement path "artifactId")
    | some name =>
      let bare := Component.new ⟨group, name, version⟩ .pom
      if childText? project "packaging" = some "pom" then .ok bare
      else
        let variants := derivedVariants bare (publishedDependencies project version)
        .ok { bare with variants := variants.map bare.completed }
  else .error (.missingElement path "project")

/-- The component that the text of a POM file describes; `path` is for messages only. -/
def readText (text path : String) : Except PomError Component :=
  match XmlNode.parse? text with
  | none => .error (.malformed path)
  | some project => component path project

end Pom

end VariantSelection
