/-
From the assignments and sections of a TOML document to the table it stands for.

A table comes about in one of three ways: by its own header or braces, by a header
that only passes through it, or by a key with points.  Which `TomlOrigin` it has
decides what may still be added: a header may later open a table that was only
passed through, and a key with points may go on in tables that such keys made.
Nothing is ever set twice.
-/
import VariantSelection.Toml.Value

namespace VariantSelection

/-- How a table came about. -/
inductive TomlOrigin
  | header
  | passage
  | dotted
  deriving DecidableEq

/-- What stands under a name while a table is put together. -/
inductive TomlItem
  | value (v : TomlValue)
  | table (origin : TomlOrigin) (entries : List (String × TomlItem))
  | tables (earlier : List (List (String × TomlItem))) (last : List (String × TomlItem))

abbrev TomlEntries := List (String × TomlItem)

namespace TomlEntries

/-- What stands under a name. -/
def item? (entries : TomlEntries) (name : String) : Option TomlItem :=
  (entries.find? fun e => e.1 = name).map Prod.snd

/-- The entries with another item under a name that has one. -/
def replace (entries : TomlEntries) (name : String) (item : TomlItem) : TomlEntries :=
  entries.map fun e => if e.1 = name then (name, item) else e

/-- The entries without those of a name. -/
def erase (entries : TomlEntries) (name : String) : TomlEntries :=
  entries.filter fun e => e.1 ≠ name

/-- Sets a value, in the tables that a key with points leads through. -/
def assign (name : String) (v : TomlValue) : List String → TomlEntries → Option TomlEntries
  | [], entries =>
    match entries.item? name with
    | some _ => none
    | none => some (entries ++ [(name, .value v)])
  | key :: path, entries =>
    match entries.item? key with
    | none => do
      let made ← assign name v path []
      return entries ++ [(key, .table .dotted made)]
    | some (.value _) => none
    | some (.tables earlier last) =>
      if path.isEmpty then none
      else (assign name v path last).map fun changed =>
        entries.replace key (.tables earlier changed)
    | some (.table origin inner) =>
      if origin = .header || (path.isEmpty && origin = .passage) then none
      else (assign name v path inner).map fun changed => entries.replace key (.table origin changed)

/-- Changes the table that the path of a header leads to; of an array of tables that
is the last one. -/
def enter (change : TomlEntries → Option TomlEntries) :
    List String → TomlEntries → Option TomlEntries
  | [], entries => change entries
  | key :: path, entries =>
    match entries.item? key with
    | none => do
      let made ← enter change path []
      return entries ++ [(key, .table .passage made)]
    | some (.value _) => none
    | some (.tables earlier last) =>
      (enter change path last).map fun changed => entries.replace key (.tables earlier changed)
    | some (.table origin inner) =>
      (enter change path inner).map fun changed => entries.replace key (.table origin changed)

/-- Sets all values of a list, in its order. -/
def assignAll (entries : TomlEntries) (assignments : List TomlAssignment) : Option TomlEntries :=
  assignments.foldlM (fun entries a => assign a.name a.value a.path entries) entries

/-- Opens a table: a new one, or one that was only passed through and that now moves
to the end. -/
def openTable (name : String) (assignments : List TomlAssignment) (entries : TomlEntries) :
    Option TomlEntries :=
  match entries.item? name with
  | none => do
    return entries ++ [(name, .table .header (← assignAll [] assignments))]
  | some (.table .passage inner) => do
    return entries.erase name ++ [(name, .table .header (← assignAll inner assignments))]
  | some _ => none

/-- Opens one more table of an array. -/
def openNext (name : String) (assignments : List TomlAssignment) (entries : TomlEntries) :
    Option TomlEntries :=
  match entries.item? name with
  | none => do
    return entries ++ [(name, .tables [] (← assignAll [] assignments))]
  | some (.tables earlier last) => do
    return entries.replace name (.tables (earlier ++ [last]) (← assignAll [] assignments))
  | some _ => none

/-- Adds a section. -/
def addSection (entries : TomlEntries) (s : TomlSection) : Option TomlEntries :=
  let opening := if s.repeated then openNext else openTable
  enter (opening s.name s.assignments) s.path entries

end TomlEntries

mutual

/-- The value that an item stands for. -/
def TomlItem.toValue : TomlItem → TomlValue
  | .value v => v
  | .table _ entries => .table (entriesToValues entries)
  | .tables earlier last => .array (tablesToValues earlier ++ [.table (entriesToValues last)])

/-- The entries of a table with the values they stand for. -/
def entriesToValues : List (String × TomlItem) → List (String × TomlValue)
  | [] => []
  | (name, item) :: rest => (name, item.toValue) :: entriesToValues rest

/-- The values that the tables of an array stand for. -/
def tablesToValues : List (List (String × TomlItem)) → List TomlValue
  | [] => []
  | entries :: rest => .table (entriesToValues entries) :: tablesToValues rest

end

/-- The table that assignments in braces stand for. -/
def bracedTable? (assignments : List TomlAssignment) : Option TomlValue :=
  (TomlEntries.assignAll [] assignments).map fun entries => .table (entriesToValues entries)

/-- The table that a document stands for. -/
def TomlDocument.table? (d : TomlDocument) : Option TomlValue := do
  let head ← TomlEntries.assignAll [] d.assignments
  let entries ← d.sections.foldlM TomlEntries.addSection head
  return .table (entriesToValues entries)

end VariantSelection
