/-
Reading TOML documents.
-/
import VariantSelection.Toml.Number
import VariantSelection.Toml.Table
import VariantSelection.Toml.Text

namespace VariantSelection

/-- A key may have this many parts. -/
def tomlKeyLimit : Nat := 79

/-- Arrays and braces may be nested this deep. -/
def tomlDepthLimit : Nat := 79

/-- The rest of a text without a comment at its start. -/
def afterComment : List Char → List Char
  | '#' :: rest => rest.dropWhile isTomlPlain
  | cs => cs

/-- The rest of a text behind blanks, line breaks and comments; the flag says
whether the text starts inside a comment. -/
def afterTomlSpace (inComment : Bool) : List Char → List Char
  | [] => []
  | '\n' :: rest => afterTomlSpace false rest
  | '\r' :: '\n' :: rest => afterTomlSpace false rest
  | c :: rest =>
    if inComment then if isTomlPlain c then afterTomlSpace true rest else c :: rest
    else if c = '#' then afterTomlSpace true rest
    else if isTomlBlank c then afterTomlSpace false rest
    else c :: rest

/-- The rest of a text behind the end of a line, in front of which blanks and a
comment may stand. -/
def afterLine? (cs : List Char) : Option (List Char) :=
  match afterComment (cs.dropWhile isTomlBlank) with
  | [] => some []
  | rest => afterLineBreak? rest

/-- An assignment with the parts of its key. -/
def assignment? (key : List String) (v : TomlValue) : Option TomlAssignment :=
  key.getLast?.map fun name => ⟨key.dropLast, name, v⟩

mutual

/-- Splits off a value; `room` is how many arrays and braces may still be opened.
Every call takes characters or leads to one that does, so `fuel` need not exceed
three times their number. -/
def scanTomlValue (room : Nat) : Nat → List Char → Option (TomlValue × List Char)
  | 0, _ => none
  | fuel + 1, cs =>
    match cs with
    | '[' :: rest =>
      if room = 0 then none
      else (scanTomlItems (room - 1) fuel rest).map fun r => (.array r.1, r.2)
    | '\x7b' :: rest =>
      if room = 0 then none
      else
        match rest.dropWhile isTomlBlank with
        | '\x7d' :: rest => some (.table [], rest)
        | _ => do
          let (assignments, rest) ← scanTomlPairs (room - 1) fuel rest
          return (← bracedTable? assignments, rest)
    | 't' :: 'r' :: 'u' :: 'e' :: rest => some (.boolean true, rest)
    | 'f' :: 'a' :: 'l' :: 's' :: 'e' :: rest => some (.boolean false, rest)
    | c :: _ =>
      if c = '"' || c = '\'' then
        (scanTomlText cs).map fun r => (.string (String.ofList r.1), r.2)
      else
        match scanTomlDatetime cs with
        | some (d, rest) => some (.datetime d, rest)
        | none =>
          match scanTomlNumber cs with
          | some (.integer n, rest) => some (.integer n, rest)
          | some (.float text, rest) => some (.float text, rest)
          | none => none
    | [] => none

/-- Splits off the items of an array up to its closing bracket; a comma may stand
behind the last one. -/
def scanTomlItems (room : Nat) : Nat → List Char → Option (List TomlValue × List Char)
  | 0, _ => none
  | fuel + 1, cs =>
    match afterTomlSpace false cs with
    | ']' :: rest => some ([], rest)
    | start => do
      let (v, rest) ← scanTomlValue room fuel start
      match afterTomlSpace false rest with
      | ',' :: rest => (scanTomlItems room fuel rest).map fun r => (v :: r.1, r.2)
      | ']' :: rest => some ([v], rest)
      | _ => none

/-- Splits off one or more assignments up to the closing brace. -/
def scanTomlPairs (room : Nat) : Nat → List Char → Option (List TomlAssignment × List Char)
  | 0, _ => none
  | fuel + 1, cs => do
    let (key, rest) ← scanTomlKey tomlKeyLimit cs
    match rest with
    | '=' :: rest =>
      let (v, rest) ← scanTomlValue room fuel (rest.dropWhile isTomlBlank)
      let a ← assignment? key v
      match rest.dropWhile isTomlBlank with
      | ',' :: rest => (scanTomlPairs room fuel rest).map fun r => (a :: r.1, r.2)
      | '\x7d' :: rest => some ([a], rest)
      | _ => none
    | _ => none

end

/-- What a line of a document holds. -/
inductive TomlLine
  | assignment (a : TomlAssignment)
  | header (key : List String) (repeated : Bool)

/-- Splits off an assignment or a header, up to the end of its line. -/
def scanTomlLine (cs : List Char) : Option (TomlLine × List Char) :=
  match cs with
  | '[' :: '[' :: rest => do
    let (key, rest) ← scanTomlKey tomlKeyLimit rest
    match rest with
    | ']' :: ']' :: rest => return (.header key true, ← afterLine? rest)
    | _ => none
  | '[' :: rest => do
    let (key, rest) ← scanTomlKey tomlKeyLimit rest
    match rest with
    | ']' :: rest => return (.header key false, ← afterLine? rest)
    | _ => none
  | _ => do
    let (key, rest) ← scanTomlKey tomlKeyLimit cs
    match rest with
    | '=' :: rest =>
      let value := rest.dropWhile isTomlBlank
      let (v, rest) ← scanTomlValue tomlDepthLimit (3 * value.length + 1) value
      return (.assignment (← assignment? key v), ← afterLine? rest)
    | _ => none

/-- The lines of a text that hold something.  Every line takes characters, so `fuel`
need not exceed their number. -/
def scanTomlLinesFrom : Nat → List Char → Option (List TomlLine)
  | 0, _ => none
  | fuel + 1, cs =>
    match afterTomlSpace false cs with
    | [] => some []
    | start => do
      let (line, rest) ← scanTomlLine start
      return line :: (← scanTomlLinesFrom fuel rest)

/-- Puts a line in front of a document.  Assignments belong to the header before
them, so one that comes before all others belongs to none. -/
def TomlDocument.addFirst (line : TomlLine) (d : TomlDocument) : TomlDocument :=
  match line with
  | .assignment a => { d with assignments := a :: d.assignments }
  | .header key repeated =>
    ⟨[], ⟨key.dropLast, key.getLastD "", repeated, d.assignments⟩ :: d.sections⟩

/-- The document that a text holds.  A byte order mark may stand at its start. -/
def TomlDocument.parse? (text : String) : Option TomlDocument := do
  let cs := match text.toList with
    | '\uFEFF' :: rest => rest
    | cs => cs
  let lines ← scanTomlLinesFrom (cs.length + 1) cs
  return lines.foldr TomlDocument.addFirst ⟨[], []⟩

/-- The table that the document in a text stands for. -/
def TomlValue.parse? (text : String) : Option TomlValue := do
  (← TomlDocument.parse? text).table?

end VariantSelection
