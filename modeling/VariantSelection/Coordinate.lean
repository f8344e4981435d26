/-
Coordinates of components: group, module name and version, written with
colons between them.
-/
import VariantSelection.Text

namespace VariantSelection

/-- The name of one component in one version. -/
structure Coordinate where
  group : String
  name : String
  version : String
  deriving DecidableEq

/-- The parts of a coordinate, in the order in which they are written. -/
inductive CoordinatePart
  | group
  | name
  | version
  deriving DecidableEq

/-- Why a text is no coordinate. -/
inductive CoordinateFault
  | partCount (parts : Nat)
  | emptyPart (part : CoordinatePart)
  deriving DecidableEq

/-- A text that is no coordinate. -/
structure CoordinateError where
  text : String
  fault : CoordinateFault
  deriving DecidableEq

def CoordinateFault.message : CoordinateFault → String
  | .partCount parts =>
    s!"expected 3 colon-separated parts (group:module:version), got {parts}"
  | .emptyPart .group => "group is empty"
  | .emptyPart .name => "module is empty"
  | .emptyPart .version => "version is empty"

def CoordinateError.message (e : CoordinateError) : String :=
  s!"invalid module coordinate \"{e.text}\": {e.fault.message}"

namespace Coordinate

/-- Coordinates are ordered by group, then by name, then by version, each by
code point. -/
instance : Ord Coordinate :=
  ⟨compareLex (compareOn group) (compareLex (compareOn name) (compareOn version))⟩

instance : Std.TransOrd Coordinate :=
  inferInstanceAs (Std.TransCmp
    (compareLex (compareOn group) (compareLex (compareOn name) (compareOn version))))

instance : Std.LawfulEqOrd Coordinate where
  compare_self := by
    intro a
    change compareLex (compareOn group) (compareLex (compareOn name) (compareOn version)) a a = .eq
    simp [compareLex, compareOn]
  eq_of_compare := by
    intro a b h
    change compareLex (compareOn group) (compareLex (compareOn name) (compareOn version)) a b
      = .eq at h
    cases a; cases b
    simp_all [compareLex, compareOn, Ordering.then_eq_eq]

/-- The coordinate as it is written. -/
def text (c : Coordinate) : String := s!"{c.group}:{c.name}:{c.version}"

/-- Reads a coordinate: three parts, none of them blank.  The first blank part is
the one reported. -/
def parse (text : String) : Except CoordinateError Coordinate :=
  match fields ':' text with
  | [group, name, version] =>
    if isBlankText group then .error ⟨text, .emptyPart .group⟩
    else if isBlankText name then .error ⟨text, .emptyPart .name⟩
    else if isBlankText version then .error ⟨text, .emptyPart .version⟩
    else .ok ⟨group, name, version⟩
  | parts => .error ⟨text, .partCount parts.length⟩

/-- The coordinate without its version. -/
def moduleId (c : Coordinate) : String := s!"{c.group}:{c.name}"

/-- The file name of the artifact that a component without variants has. -/
def defaultArtifactName (c : Coordinate) : String := s!"{c.name}-{c.version}.jar"

/-- Where a file of the component lies in a repository: the dots of the group become
directories. -/
def repositoryPath (c : Coordinate) (file : String) : String :=
  let group := String.ofList (c.group.toList.map fun ch => if ch = '.' then '/' else ch)
  s!"{group}/{c.name}/{c.version}/{file}"

/-- The address of a file of the component in `repository`, whose trailing slashes
do not count. -/
def url (c : Coordinate) (repository file : String) : String :=
  let base := String.ofList (repository.toList.reverse.dropWhile (· = '/')).reverse
  s!"{base}/{c.repositoryPath file}"

end Coordinate

/-- The repository that default artifacts are taken from. -/
def mavenCentral : String := "https://repo1.maven.org/maven2"

end VariantSelection
