/-
Attribute values: booleans, 64-bit integers and strings, and sets of them
by attribute name.

Two comparisons live here and must not be confused.  The *order* on values is total
and only says in which sequence a set of values is read: booleans, then integers,
then strings by code point.  The *comparison* `compare?` is what rules consult: it
is defined within one type only, and for strings only when both are dotted numeric
versions, so "10" comes before "9" in the order and after it in the comparison.
-/
import VariantSelection.Ordered.Map
import VariantSelection.Text

namespace VariantSelection

/-- What kind of value an attribute holds. -/
inductive ValueType
  | string
  | integer
  | boolean
  deriving DecidableEq

/-- The word for a type in messages and documents. -/
def ValueType.text : ValueType → String
  | .string => "string"
  | .integer => "integer"
  | .boolean => "boolean"

/-- The type that a word stands for. -/
def ValueType.named? (text : String) : Option ValueType :=
  [ValueType.string, .integer, .boolean].find? fun t => t.text = text

/-- A value of an attribute.  The integer 8 and the string "8" are different values. -/
inductive Value
  | boolean (b : Bool)
  | integer (n : Int64)
  | string (s : String)
  deriving DecidableEq

instance : Inhabited Value := ⟨.boolean false⟩

/-! ### Dotted numeric versions -/

/-- The numbers of a dotted version: one or more of them, each below 2^64. -/
def versionSegments? (s : String) : Option (List Nat) :=
  (fieldsOf '.' s.toList).mapM unsigned?

/-- Compares number lists from the left; the shorter one goes on with zeros. -/
def compareSegments : List Nat → List Nat → Ordering
  | [], [] => .eq
  | a :: as, [] => (compare a 0).then (compareSegments as [])
  | [], b :: bs => (compare 0 b).then (compareSegments [] bs)
  | a :: as, b :: bs => (compare a b).then (compareSegments as bs)

/-- Compares two dotted numeric versions; no answer when one of the texts is not
such a version. -/
def compareVersions? (a b : String) : Option Ordering :=
  match versionSegments? a, versionSegments? b with
  | some as, some bs => some (compareSegments as bs)
  | _, _ => none

namespace Value

/-- The type a value belongs to. -/
def type : Value → ValueType
  | .boolean _ => .boolean
  | .integer _ => .integer
  | .string _ => .string

/-- A value as a text: a string as it is, the others as they are written in a manifest. -/
def text : Value → String
  | .boolean true => "true"
  | .boolean false => "false"
  | .integer n => toString n.toInt
  | .string s => s

/-- The comparison that rules consult. -/
def compare? : Value → Value → Option Ordering
  | .boolean a, .boolean b => some (compare a b)
  | .integer a, .integer b => some (compare a b)
  | .string a, .string b => compareVersions? a b
  | _, _ => none

/-- The order in which values are read: booleans, integers, strings. -/
def order : Value → Value → Ordering
  | .boolean a, .boolean b => compare a b
  | .boolean _, _ => .lt
  | .integer _, .boolean _ => .gt
  | .integer a, .integer b => compare a b
  | .integer _, .string _ => .lt
  | .string a, .string b => compare a b
  | .string _, _ => .gt

instance : Ord Value := ⟨order⟩

instance : Std.OrientedOrd Value where
  eq_swap := by
    intro a b
    change order a b = (order b a).swap
    cases a <;> cases b <;> simp only [order] <;> first | rfl | exact Std.OrientedOrd.eq_swap

instance : Std.TransOrd Value where
  isLE_trans := by
    intro a b c hab hbc
    change (order a b).isLE at hab
    change (order b c).isLE at hbc
    change (order a c).isLE
    cases a <;> cases b <;> cases c <;> simp only [order] at * <;>
      first | exact Std.TransOrd.isLE_trans hab hbc | contradiction | rfl

instance : Std.LawfulEqOrd Value where
  compare_self := by
    intro a
    change order a a = .eq
    cases a <;> simp [order]
  eq_of_compare := by
    intro a b h
    change order a b = .eq at h
    cases a <;> cases b <;> simp_all [order]

/-- The value as one of type `t`: a text is read once its blanks are trimmed, a
number or a truth value is written out, and no number is a truth value. -/
def coerce? (v : Value) (t : ValueType) : Option Value :=
  match v, t with
  | .string s, .integer => (integer? (trimChars s.toList)).map .integer
  | .string s, .boolean =>
    match trimBlanks s with
    | "true" => some (.boolean true)
    | "false" => some (.boolean false)
    | _ => none
  | .integer _, .boolean => none
  | .boolean _, .integer => none
  | .string s, .string => some (.string s)
  | .integer n, .integer => some (.integer n)
  | .boolean b, .boolean => some (.boolean b)
  | .integer n, .string => some (.string (text (.integer n)))
  | .boolean b, .string => some (.string (text (.boolean b)))

end Value

/-! ### Sets of attributes

What a consumer requests and what a variant provides.
-/

/-- Values by attribute name, ascending by name. -/
abbrev AttributeSet := SortedMap String Value

namespace AttributeSet

/-- The set on one line: the entries in braces, each as its name and value. -/
def text (set : AttributeSet) : String :=
  "\x7b" ++ joinWith ", " (set.entries.map fun e => e.1 ++ "=" ++ e.2.text) ++ "\x7d"

end AttributeSet

end VariantSelection
