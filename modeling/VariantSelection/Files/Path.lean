/-
Paths of files.

A path is a text; a slash ends a step, and neither repeated slashes nor a trailing
one change where it leads.  The text is kept as it was given, because messages show
it; `parts` is what the order of paths looks at, so `a/b` comes before `a.b`
although the texts compare the other way.
-/
import VariantSelection.Text

namespace VariantSelection

/-- A path as it was given. -/
structure Path where
  text : String
  deriving DecidableEq, Inhabited

/-- One part of a path. -/
inductive PathPart
  | root
  | here
  | above
  | name (n : String)
  deriving DecidableEq

namespace PathPart

/-- The place of a part's kind among the kinds. -/
def rank : PathPart → Nat
  | .root => 0
  | .here => 1
  | .above => 2
  | .name _ => 3

/-- What tells parts of one kind apart. -/
def word : PathPart → String
  | .name n => n
  | _ => ""

/-- Parts are ordered by their kind, names by code point. -/
instance : Ord PathPart := ⟨compareLex (compareOn rank) (compareOn word)⟩

instance : Std.TransOrd PathPart :=
  inferInstanceAs (Std.TransCmp (compareLex (compareOn rank) (compareOn word)))

instance : Std.LawfulEqOrd PathPart where
  compare_self := by
    intro a
    change compareLex (compareOn rank) (compareOn word) a a = .eq
    simp [compareLex, compareOn]
  eq_of_compare := by
    intro a b h
    change compareLex (compareOn rank) (compareOn word) a b = .eq at h
    cases a <;> cases b <;> simp_all [compareLex, compareOn, rank, word]

/-- The part that a step of a path is. -/
def ofStep (step : String) : PathPart :=
  if step = "." then .here else if step = ".." then .above else .name step

end PathPart

namespace Path

/-- Whether the path starts at the root. -/
def isAbsolute (p : Path) : Bool := p.text.toList.head? = some '/'

/-- Whether a field between slashes leads nowhere: nothing, or a dot. -/
def isIdle (field : String) : Bool := field = "" || field = "."

/-- The parts of a path.  A dot counts only at the start of a relative path. -/
def parts (p : Path) : List PathPart :=
  match fields '/' p.text with
  | [] => []
  | first :: rest =>
    let start :=
      if p.isAbsolute then [PathPart.root] else if first = "" then [] else [.ofStep first]
    start ++ (rest.filter fun field => !isIdle field).map PathPart.ofStep

/-- Paths are ordered part by part. -/
instance : Ord Path := ⟨compareOn parts⟩

instance : Std.TransOrd Path := inferInstanceAs (Std.TransCmp (compareOn parts))

/-- The path `next` seen from `base`; an absolute path does not depend on the place
it is seen from. -/
def join (base : Path) (next : String) : Path :=
  if (Path.mk next).isAbsolute then ⟨next⟩
  else if base.text = "" || base.text.toList.getLast? = some '/' then ⟨base.text ++ next⟩
  else ⟨base.text ++ "/" ++ next⟩

/-- Fields without the idle ones at the end. -/
def withoutIdleEnd (fs : List String) : List String :=
  (fs.reverse.dropWhile isIdle).reverse

theorem withoutIdleEnd_length_le (fs : List String) : (withoutIdleEnd fs).length ≤ fs.length := by
  have h :=
    (List.dropWhile_sublist isIdle : (fs.reverse.dropWhile isIdle).Sublist fs.reverse).length_le
  simpa [withoutIdleEnd] using h

/-- What is left of `fs` when its last field goes, then the one before it, and so on
to nothing; idle fields go with the field before them. -/
def shortened (fs : List String) : List (List String) :=
  if fs = [] then []
  else
    let shorter := withoutIdleEnd fs.dropLast
    shorter :: shortened shorter
termination_by fs.length
decreasing_by
  have := withoutIdleEnd_length_le fs.dropLast
  have := List.length_pos_iff.2 ‹fs ≠ []›
  simp at this ⊢
  grind

/-- The paths of the directories around a path, from the innermost one to the root
or to the empty path. -/
def ancestors (p : Path) : List Path :=
  match fields '/' p.text with
  | [] => []
  | first :: rest =>
    let outer := shortened (withoutIdleEnd rest)
    if first = "" then outer.map fun fs => ⟨"/" ++ joinWith "/" fs⟩
    else (outer.map fun fs => ⟨joinWith "/" (first :: fs)⟩) ++ [⟨""⟩]

/-- The path without its last part; the root and the empty path have none. -/
def parent? (p : Path) : Option Path := p.ancestors.head?

/-- The name that the path ends with. -/
def fileName? (p : Path) : Option String :=
  match p.parts.getLast? with
  | some (.name name) => some name
  | _ => none

/-- What follows the last dot of a file name, unless it is its first character too. -/
def extensionOf? (name : String) : Option String :=
  match (fieldsOf '.' name.toList).reverse with
  | [] | [_] | [_, []] => none
  | last :: _ => some (String.ofList last)

/-- The extension of the name that the path ends with. -/
def extension? (p : Path) : Option String := p.fileName?.bind extensionOf?

/-- Whether the path ends with a name that has one of the extensions. -/
def hasExtension (p : Path) (extensions : List String) : Bool :=
  match p.extension? with
  | some e => extensions.contains e
  | none => false

/-- Whether the path ends with a slash. -/
def endsWithSlash (p : Path) : Bool := p.text.toList.getLast? = some '/'

/-- The steps in which the path is walked.  A slash at the end asks for a directory,
as a dot does. -/
def steps (p : Path) : List String :=
  (fields '/' p.text).filter (· ≠ "") ++ if p.endsWithSlash then ["."] else []

end Path

end VariantSelection
