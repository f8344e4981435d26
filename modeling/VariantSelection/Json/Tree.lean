/-
JSON documents as trees.

The tree of a text is built by a pushdown automaton over its tokens: a `JsonState`
says what may come next and holds the arrays and objects that are still open.  So no
document is too deep to be read; a reader of the tree sets the depth it
accepts where it needs one.
-/
import VariantSelection.Json.Token

namespace VariantSelection

/-- A document.  Members keep their order, and a name may stand twice. -/
inductive JsonValue
  | null
  | boolean (b : Bool)
  | number (l : NumberLiteral)
  | string (s : JsonString)
  | array (items : List JsonValue)
  | object (members : List (JsonString × JsonValue))

/-- An open array or object; what was read of it stands in reverse. -/
inductive JsonFrame
  | array (items : List JsonValue)
  | object (members : List (JsonString × JsonValue)) (name : JsonString)

/-- What may come next, inside the open frames. -/
inductive JsonState
  | value (frames : List JsonFrame)
  /-- An item of an array that was just opened, or its end. -/
  | firstItem (frames : List JsonFrame)
  /-- A name in an object that was just opened, or its end. -/
  | firstName (frames : List JsonFrame)
  | name (members : List (JsonString × JsonValue)) (frames : List JsonFrame)
  | colon (members : List (JsonString × JsonValue)) (name : JsonString) (frames : List JsonFrame)
  /-- A value is complete. -/
  | after (v : JsonValue) (frames : List JsonFrame)

namespace JsonState

/-- The state after a token with which a value starts. -/
def startValue (frames : List JsonFrame) : JsonToken → Option JsonState
  | .openBrace => some (.firstName frames)
  | .openBracket => some (.firstItem frames)
  | .null => some (.after .null frames)
  | .boolean b => some (.after (.boolean b) frames)
  | .number l => some (.after (.number l) frames)
  | .string s => some (.after (.string s) frames)
  | _ => none

/-- The state after a token behind a complete value. -/
def afterValue (v : JsonValue) : List JsonFrame → JsonToken → Option JsonState
  | .array items :: frames, .comma => some (.value (.array (v :: items) :: frames))
  | .array items :: frames, .closeBracket => some (.after (.array (v :: items).reverse) frames)
  | .object members key :: frames, .comma => some (.name ((key, v) :: members) frames)
  | .object members key :: frames, .closeBrace =>
    some (.after (.object ((key, v) :: members).reverse) frames)
  | _, _ => none

/-- The state after a token, if the token may stand there. -/
def step : JsonState → JsonToken → Option JsonState
  | .value frames, t => startValue frames t
  | .firstItem frames, .closeBracket => some (.after (.array []) frames)
  | .firstItem frames, t => startValue (.array [] :: frames) t
  | .firstName frames, .closeBrace => some (.after (.object []) frames)
  | .firstName frames, .string s => some (.colon [] s frames)
  | .name members frames, .string s => some (.colon members s frames)
  | .colon members key frames, .colon => some (.value (.object members key :: frames))
  | .after v frames, t => afterValue v frames t
  | _, _ => none

end JsonState

namespace JsonValue

/-- The document that a text holds: one value, and nothing behind it. -/
def parse? (text : String) : Option JsonValue := do
  let tokens ← jsonTokens? text
  match ← tokens.foldlM JsonState.step (.value []) with
  | .after v [] => some v
  | _ => none

/-- Whether a value can be taken over as it is: its strings are texts, its numbers
are not too large, and its arrays and objects are nested at most `depth` deep. -/
def isStorable : Nat → JsonValue → Bool
  | _, .null => true
  | _, .boolean _ => true
  | _, .number l => l.number?.isSome
  | _, .string s => s.text?.isSome
  | 0, .array _ => false
  | 0, .object _ => false
  | depth + 1, .array items => items.all (isStorable depth)
  | depth + 1, .object members =>
    members.all fun m => m.1.text?.isSome && isStorable depth m.2

end JsonValue

end VariantSelection
