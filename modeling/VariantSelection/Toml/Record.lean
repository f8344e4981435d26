/-
Reading typed values out of TOML trees.

A document is read in its own order, and the first part that does not fit is the one
that is reported.  A record is a table that names no field it does not have, or an
array of its fields in their order; the items of the array beyond the last field are
not looked at.  Reading a record starts from a draft with the values of absent
fields, which each entry changes through the `TomlField` of its name.
-/
import VariantSelection.Toml.Value

namespace VariantSelection

/-- Why a part of a document cannot be read. -/
inductive TomlMismatch
  /-- It has not the shape that is asked for. -/
  | shape
  /-- A text that does not say what it should. -/
  | rejected (reason : String)
  deriving DecidableEq

abbrev TomlReader (α : Type) : Type := TomlValue → Except TomlMismatch α

/-- A field of a record: its name, and how its value changes a draft. -/
structure TomlField (σ : Type) where
  name : String
  read : TomlValue → σ → Except TomlMismatch σ

namespace TomlValue

/-- The name under which a date-time stands that is asked for as a table. -/
def datetimeKey : String := "$__toml_private_datetime"

/-- The entries of a table.  A date-time is a table of one entry, which holds its text. -/
def entries : TomlReader (List (String × TomlValue))
  | .table entries => .ok entries
  | .datetime d => .ok [(datetimeKey, .string d.text)]
  | _ => .error .shape

def readString : TomlReader String
  | .string s => .ok s
  | _ => .error .shape

def readBoolean : TomlReader Bool
  | .boolean b => .ok b
  | _ => .error .shape

/-- The items of an array, each read by `item`. -/
def readList {α : Type} (item : TomlReader α) : TomlReader (List α)
  | .array items => items.mapM item
  | _ => .error .shape

/-- The entries of a table, the value of each read by `value`. -/
def readEntries {α : Type} (value : TomlReader α) : TomlReader (List (String × α)) := fun v => do
  (← v.entries).mapM fun e => do return (e.1, ← value e.2)

/-- One of several choices by its word: the word itself, or a table of one empty
entry with that name. -/
def readChoice {α : Type} (choice? : String → Option α) : TomlReader α
  | .string word => choiceNamed word
  | .table [(word, .table [])] => choiceNamed word
  | .table [(word, .array [])] => choiceNamed word
  | _ => .error .shape
where
  /-- The choice with this word. -/
  choiceNamed (word : String) : Except TomlMismatch α :=
    match choice? word with
    | some choice => .ok choice
    | none => .error .shape

/-- Changes a draft by one entry of a record. -/
def readField {σ : Type} (fields : List (TomlField σ)) (draft : σ) (entry : String × TomlValue) :
    Except TomlMismatch σ :=
  match fields.find? fun f => f.name = entry.1 with
  | some field => field.read entry.2 draft
  | none => .error .shape

/-- Changes a draft by all fields of a record that are there. -/
def readFields {σ : Type} (fields : List (TomlField σ)) (draft : σ) (v : TomlValue) :
    Except TomlMismatch σ :=
  match v with
  | .array items => ((fields.map TomlField.name).zip items).foldlM (readField fields) draft
  | _ => do (← v.entries).foldlM (readField fields) draft

end TomlValue

/-- A field that has to be there. -/
def requiredField {α : Type} (field : Option α) : Except TomlMismatch α :=
  match field with
  | some a => .ok a
  | none => .error .shape

/-- A field whose value is put into the draft by `set`. -/
def TomlField.of {σ α : Type} (name : String) (value : TomlReader α) (set : α → σ → σ) :
    TomlField σ :=
  ⟨name, fun v draft => (value v).map fun a => set a draft⟩

end VariantSelection
