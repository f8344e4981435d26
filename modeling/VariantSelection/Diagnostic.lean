/-
Reports on failed selections: a headline, an entry per candidate with its lines in
sections, and notes.  `DiagnosticReport.ofError` makes the report of an error.
-/
import VariantSelection.Selection

namespace VariantSelection

/-- Lines under a heading; a section without heading has the empty one. -/
structure ReportSection where
  heading : String
  lines : List String
  deriving DecidableEq

/-- What is said about one candidate. -/
structure ReportEntry where
  title : String
  sections : List ReportSection
  deriving DecidableEq

/-- What is said about a failed selection. -/
structure DiagnosticReport where
  headline : String
  entries : List ReportEntry := []
  notes : List String := []
  deriving DecidableEq

namespace Diagnostic

/-- The noun for so many things. -/
def plural (count : Nat) (noun : String) : String := if count = 1 then noun else noun ++ "s"

/-- A section with one line for each item, left out when there is none. -/
def sectionOf {α : Type} (noun : String) (line : α → String) (items : List α) :
    List ReportSection :=
  if items.isEmpty then [] else [⟨plural items.length noun, items.map line⟩]

/-- The line for an attribute that stands against a candidate. -/
def incompatibleLine (m : AttributeMatch) : String :=
  match m.provided with
  | some v =>
    s!"Incompatible because this component declares {m.name} with value '{v.text}' "
      ++ s!"and the consumer needed value '{m.requested.text}'"
  | none => s!"Required {m.name} with value '{m.requested.text}' but wasn't found"

/-- The line for an attribute that matches; it names the value found where that is
not the requested one. -/
def compatibleLine (m : AttributeMatch) : String :=
  let required := s!"Required {m.name} with value '{m.requested.text}'"
  match m.provided with
  | some v =>
    if v = m.requested then required else s!"{required} and found compatible value '{v.text}'"
  | none => required

/-- The line for an attribute that nobody asked for. -/
def unmatchedLine (p : ProvidedAttribute) : String :=
  s!"Provides {p.name} with value '{p.value.text}' but the consumer didn't ask for it"

/-- The entry of a candidate that does not match. -/
def incompatibleEntry (m : MatchReport) : ReportEntry where
  title := s!"Variant '{m.candidate}'"
  sections :=
    ⟨"", m.incompatible.map incompatibleLine⟩
      :: sectionOf "Other compatible attribute" compatibleLine m.compatible

/-- The capabilities of a tied candidate, in words. -/
def capabilityPhrase : List String → String
  | [one] => s!"capability {one}"
  | ids => "capabilities " ++ bracketed ids

/-- The entry of a tied candidate. -/
def tiedEntry (t : TiedCandidate) : ReportEntry where
  title := s!"Variant '{t.report.candidate}' {capabilityPhrase t.capabilities}"
  sections :=
    sectionOf "Unmatched attribute" unmatchedLine t.report.unmatched
      ++ sectionOf "Compatible attribute" compatibleLine t.report.compatible

/-- The note on tied candidates with the same capabilities. -/
def conflictNote (group : List String) : String :=
  let names := joinWith ", " group
  s!"Variants {names} provide the same capabilities; request a capability to choose between them."

/-- The note on rules that leave no candidate. -/
def unreducedNote : String :=
  "Disambiguation rules eliminated every candidate, so all compatible variants are listed."

/-- The headline above candidates that do not match. -/
def incompatibleHeadline (component consumer : String) (requested : AttributeSet)
    (capabilities : List String) (reports : List MatchReport) : String :=
  let requirement :=
    if capabilities.isEmpty then s!"attributes {requested.text}"
    else s!"attributes {requested.text} and capabilities {bracketed capabilities}"
  s!"No matching variant of {component} was found. The consumer '{consumer}' was configured to "
    ++ s!"find {requirement} but:"
    ++ if reports.isEmpty then "\n  - None of the variants provide the requested capabilities."
      else ""

/-- The headline above tied candidates. -/
def ambiguousHeadline (component consumer : String) (requested : AttributeSet)
    (candidates : List TiedCandidate) : String :=
  let names := joinWith "\n" (candidates.map fun t => s!"  - {t.report.candidate}")
  let asked := if requested.isEmpty then "" else s!" {requested.text}"
  s!"Cannot choose between the following variants of {component}:\n{names}\n"
    ++ s!"All of them match the consumer attributes of consumer '{consumer}'{asked}:"

/-- A message with its first letter in upper case; messages start with ASCII letters. -/
def capitalized (message : String) : String :=
  match message.toList with
  | [] => ""
  | c :: rest => String.ofList (c.toUpper :: rest)

end Diagnostic

open Diagnostic in
/-- The report on a failed selection. -/
def DiagnosticReport.ofError : SelectionError → DiagnosticReport
  | .incompatible component consumer requested capabilities reports =>
    { headline := incompatibleHeadline component consumer requested capabilities reports
      entries := reports.map incompatibleEntry }
  | .ambiguous component consumer requested candidates unreduced conflicts =>
    { headline := ambiguousHeadline component consumer requested candidates
      entries := candidates.map tiedEntry
      notes := (if unreduced then [unreducedNote] else []) ++ conflicts.map conflictNote }
  | e => { headline := capitalized e.message }

/-- The lines of a section, indented below the title of its entry. -/
def ReportSection.text (s : ReportSection) : String :=
  if s.heading.isEmpty then String.join (s.lines.map fun line => s!"\n      - {line}")
  else s!"\n      - {s.heading}:" ++ String.join (s.lines.map fun line => s!"\n          - {line}")

def ReportEntry.text (e : ReportEntry) : String :=
  s!"\n  - {e.title}:" ++ String.join (e.sections.map ReportSection.text)

/-- The report as it is printed. -/
def DiagnosticReport.text (d : DiagnosticReport) : String :=
  d.headline ++ String.join (d.entries.map ReportEntry.text)
    ++ String.join (d.notes.map fun note => s!"\n{note}")

end VariantSelection
