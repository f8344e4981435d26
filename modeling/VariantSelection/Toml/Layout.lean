/-
Writing TOML documents.

Every table that is no item of a mixed array becomes a section of its own, behind
the assignments of the table around it; a blank line stands in front of
every section but the first.  A table that holds nothing but tables needs no header, so
none is written.  Arrays of two and more items take a line for each.
-/
import VariantSelection.Text
import VariantSelection.Toml.Text
import VariantSelection.Toml.Value

namespace VariantSelection

/-! ### Laying out -/

/-- Whether a value is a table. -/
def TomlValue.isTable : TomlValue → Bool
  | .table _ => true
  | _ => false

/-- Whether a value becomes sections of its own: a table, or an array of nothing
but tables. -/
def TomlValue.isSectioned : TomlValue → Bool
  | .table _ => true
  | .array items => !items.isEmpty && items.all TomlValue.isTable
  | _ => false

/-- The assignments of a table. -/
def ownAssignments (entries : List (String × TomlValue)) : List TomlAssignment :=
  (entries.filter fun e => !e.2.isSectioned).map fun e => ⟨[], e.1, e.2⟩

/-- The section of a table, unless its header may be left out. -/
def ownSection (path : List String) (name : String) (repeated : Bool)
    (entries : List (String × TomlValue)) : List TomlSection :=
  let assignments := ownAssignments entries
  if !repeated && assignments.isEmpty && !entries.isEmpty then []
  else [⟨path, name, repeated, assignments⟩]

mutual

/-- The sections of a value under a name. -/
def sectionsOf (path : List String) (name : String) : TomlValue → List TomlSection
  | .table entries =>
    ownSection path name false entries ++ entrySections (path ++ [name]) entries
  | .array items => if (TomlValue.array items).isSectioned then itemSections path name items else []
  | _ => []

/-- The sections of the tables of an array. -/
def itemSections (path : List String) (name : String) : List TomlValue → List TomlSection
  | [] => []
  | .table entries :: rest =>
    ownSection path name true entries ++ entrySections (path ++ [name]) entries
      ++ itemSections path name rest
  | _ :: rest => itemSections path name rest

/-- The sections below a table. -/
def entrySections (path : List String) : List (String × TomlValue) → List TomlSection
  | [] => []
  | (name, v) :: rest => sectionsOf path name v ++ entrySections path rest

end

/-- The layout of a document that holds these entries. -/
def TomlDocument.ofEntries (entries : List (String × TomlValue)) : TomlDocument :=
  ⟨ownAssignments entries, entrySections [] entries⟩

/-! ### Writing -/

/-- The items of an array between its brackets. -/
def arrayText : List String → String
  | [] => "[]"
  | [item] => "[" ++ item ++ "]"
  | items => "[\n" ++ String.join (items.map fun item => "    " ++ item ++ ",\n") ++ "]"

/-- The entries of a table between its braces. -/
def bracedText (entries : List String) : String :=
  if entries.isEmpty then "\x7b\x7d" else "\x7b " ++ joinWith ", " entries ++ " \x7d"

/-- The written form of a part of a key. -/
def tomlWordText (word : String) : String := String.ofList (writeTomlWord word)

mutual

/-- The written form of a value. -/
def TomlValue.text : TomlValue → String
  | .string s => String.ofList (writeTomlText s.toList)
  | .integer n => toString n.toInt
  | .float text => text
  | .boolean b => if b then "true" else "false"
  | .datetime d => d.text
  | .array items => arrayText (itemTexts items)
  | .table entries => bracedText (entryTexts entries)

/-- The written forms of the items of an array. -/
def itemTexts : List TomlValue → List String
  | [] => []
  | v :: rest => v.text :: itemTexts rest

/-- The written forms of the entries of a table. -/
def entryTexts : List (String × TomlValue) → List String
  | [] => []
  | (name, v) :: rest => (tomlWordText name ++ " = " ++ v.text) :: entryTexts rest

end

/-- The written form of a key. -/
def tomlKeyText (path : List String) (name : String) : String :=
  joinWith "." ((path ++ [name]).map tomlWordText)

def TomlAssignment.text (a : TomlAssignment) : String :=
  tomlKeyText a.path a.name ++ " = " ++ a.value.text ++ "\n"

def TomlSection.text (s : TomlSection) : String :=
  let key := tomlKeyText s.path s.name
  let header := if s.repeated then "[[" ++ key ++ "]]\n" else "[" ++ key ++ "]\n"
  header ++ String.join (s.assignments.map TomlAssignment.text)

/-- The written form of a document. -/
def TomlDocument.text (d : TomlDocument) : String :=
  let head := String.join (d.assignments.map TomlAssignment.text)
  joinWith "\n" ((if head.isEmpty then [] else [head]) ++ d.sections.map TomlSection.text)

/-- The text of the document that holds these entries. -/
def tomlText (entries : List (String × TomlValue)) : String :=
  (TomlDocument.ofEntries entries).text

end VariantSelection
