/-
The listing of a resolution: under each configuration its dependencies, each with
what was selected for it.
-/
import VariantSelection.Diagnostic
import VariantSelection.Resolution
import VariantSelection.Text

namespace VariantSelection

/-- The lines of what was selected.  Files that do not come from the variant itself
are marked so. -/
def Resolved.lines (r : Resolved) (dependency : String) (module : Coordinate) : List String :=
  let head := s!"+--- {dependency} -> {module.text}"
  let files := r.artifacts.map fun a => s!"|    {a.name}"
  let via (variant : String) : List String :=
    if r.source = variant then [] else [s!"|         via secondary variant {r.source}"]
  match r.outcome with
  | .matched variant => s!"{head} variant {variant}" :: (via variant ++ files)
  | .explicit variant => s!"{head} variant {variant} (explicit)" :: (via variant ++ files)
  | .legacyDefault => s!"{head} (no variants, default artifact)" :: files

namespace ResolutionEntry

/-- The lines of one entry; a failure is explained below it. -/
def lines (e : ResolutionEntry) : List String :=
  match e.outcome with
  | .ok resolved => resolved.lines e.dependency e.module
  | .error cause =>
    s!"+--- {e.dependency} -> {e.module.text} FAILED"
      :: (textLines (DiagnosticReport.ofError cause).text).map fun line => s!"|    {line}"

/-- The heading of an entry behind one of the configuration `previous`: none within
a configuration, and an empty line between two of them. -/
def heading (e : ResolutionEntry) (previous : Option String) : List String :=
  match previous with
  | none => [e.configuration]
  | some name => if name = e.configuration then [] else ["", e.configuration]

/-- The lines of entries behind one of the configuration `previous`. -/
def listing (previous : Option String) : List ResolutionEntry → List String
  | [] => []
  | e :: rest => e.heading previous ++ e.lines ++ listing (some e.configuration) rest

end ResolutionEntry

/-- The listing of a resolution. -/
def Resolution.text (r : Resolution) : String := unlines (ResolutionEntry.listing none r.entries)

end VariantSelection
