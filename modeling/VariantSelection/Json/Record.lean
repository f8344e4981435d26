/-
Records in JSON documents.

A record with given fields is an object that names none of them twice, whatever
else it names, or an array of the fields in their order, from which fields at
the end may be missing.
-/
import VariantSelection.Json.Tree

namespace VariantSelection

/-- The fields that a record has, each under its name once. -/
structure JsonRecord where
  present : List (String × JsonValue)

namespace JsonValue

/-- The text of a string. -/
def text? : JsonValue → Option String
  | .string s => s.text?
  | _ => none

/-- The members of an object, their names as texts. -/
def members? : JsonValue → Option (List (String × JsonValue))
  | .object members => members.mapM fun m => m.1.text?.map fun name => (name, m.2)
  | _ => none

/-- The value as a record with the fields `names`. -/
def record? (names : List String) : JsonValue → Option JsonRecord
  | .array items => if items.length ≤ names.length then some ⟨names.zip items⟩ else none
  | v => do
    let members ← v.members?
    let present := members.filter fun m => names.contains m.1
    if (present.map Prod.fst).Nodup then some ⟨present⟩ else none

/-- The items of an array, each read by `item`. -/
def list? {α : Type} (item : JsonValue → Option α) : JsonValue → Option (List α)
  | .array items => items.mapM item
  | _ => none

end JsonValue

namespace JsonRecord

/-- What the record has under `name`. -/
def field? (r : JsonRecord) (name : String) : Option JsonValue :=
  (r.present.find? fun m => m.1 == name).map Prod.snd

/-- A field that has to be there. -/
def required {α : Type} (r : JsonRecord) (name : String) (read : JsonValue → Option α) :
    Option α := do
  read (← r.field? name)

/-- A field in whose place `absent` stands if it is missing. -/
def withDefault {α : Type} (r : JsonRecord) (name : String) (absent : α)
    (read : JsonValue → Option α) : Option α :=
  match r.field? name with
  | none => some absent
  | some v => read v

/-- A list, empty if it is missing. -/
def list {α : Type} (r : JsonRecord) (name : String) (item : JsonValue → Option α) :
    Option (List α) :=
  r.withDefault name [] (JsonValue.list? item)

/-- A field that may be missing or null. -/
def nullable {α : Type} (r : JsonRecord) (name : String) (read : JsonValue → Option α) :
    Option (Option α) :=
  r.withDefault name none fun
    | .null => some none
    | v => (read v).map some

end JsonRecord

end VariantSelection
