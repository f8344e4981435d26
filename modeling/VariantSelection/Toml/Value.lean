/-
The values of TOML documents, and the documents as they are laid out.

A table keeps its entries in the order in which they were set; a document as a whole
is a table.  On the page a document is a list of sections: each opens with a header,
the first one without, and holds assignments.  `TomlDocument` is that list, in
between the text and the tree.
-/
import VariantSelection.Toml.Datetime

namespace VariantSelection

inductive TomlValue
  | string (s : String)
  | integer (n : Int64)
  /-- A number with a fraction or an exponent, as it is written. -/
  | float (text : String)
  | boolean (b : Bool)
  | datetime (d : TomlDatetime)
  | array (items : List TomlValue)
  | table (entries : List (String × TomlValue))

instance : Inhabited TomlValue := ⟨.table []⟩

/-- An assignment: the tables that its key leads through, the name in the last of
them, and the value. -/
structure TomlAssignment where
  path : List String
  name : String
  value : TomlValue

/-- A table with the assignments below its header.  A repeated one is one more item
of an array. -/
structure TomlSection where
  path : List String
  name : String
  repeated : Bool
  assignments : List TomlAssignment

/-- A document on the page: the assignments before the first header, and the sections. -/
structure TomlDocument where
  assignments : List TomlAssignment
  sections : List TomlSection

end VariantSelection
