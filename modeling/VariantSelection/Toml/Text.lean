/-
Texts and keys in TOML documents: how they are read, and how they are written.

A text stands between double quotes, where a backslash starts an escape, or
between single quotes, where nothing does.  Tripled quotes enclose texts of
several lines; a line break right behind the opening ones does not count.  What
`writeTomlText` writes takes the plainest form that needs no escape, and escapes
only where no form does without.
-/
import VariantSelection.Text

namespace VariantSelection

/-- The characters that may stand between words of a line. -/
def isTomlBlank (c : Char) : Bool := c = ' ' || c = '\t'

/-- The characters that may stand in texts and comments as they are: no control
character but the tab. -/
def isTomlPlain (c : Char) : Bool := c = '\t' || (' ' ≤ c && c ≠ '\x7f')

/-- The characters of a key that needs no quotes. -/
def isTomlKeyChar (c : Char) : Bool := c.isAlphanum || c = '-' || c = '_'

/-! ### Reading -/

/-- The character that a number in base sixteen stands for. -/
def numberedTomlChar? (digits : List Char) : Option Char := do
  let n ← digitsInBase? 16 digits
  if n.isValidChar then some (Char.ofNat n) else none

/-- Splits off the escape behind a backslash. -/
def scanTomlEscape : List Char → Option (Char × List Char)
  | 'u' :: a :: b :: c :: d :: rest =>
    (numberedTomlChar? [a, b, c, d]).map fun r => (r, rest)
  | 'U' :: a :: b :: c :: d :: e :: f :: g :: h :: rest =>
    (numberedTomlChar? [a, b, c, d, e, f, g, h]).map fun r => (r, rest)
  | 'b' :: rest => some ('\x08', rest)
  | 't' :: rest => some ('\t', rest)
  | 'n' :: rest => some ('\n', rest)
  | 'f' :: rest => some ('\x0c', rest)
  | 'r' :: rest => some ('\r', rest)
  | '"' :: rest => some ('"', rest)
  | '\\' :: rest => some ('\\', rest)
  | _ => none

/-- Reads a text up to its closing double quote.  Every round takes characters, so
`fuel` need not exceed their number. -/
def scanTomlBasic : Nat → List Char → Option (List Char × List Char)
  | 0, _ => none
  | _, [] => none
  | _, '"' :: rest => some ([], rest)
  | fuel + 1, '\\' :: rest => do
    let (c, rest) ← scanTomlEscape rest
    let (text, rest) ← scanTomlBasic fuel rest
    return (c :: text, rest)
  | fuel + 1, c :: rest =>
    if isTomlPlain c then (scanTomlBasic fuel rest).map fun r => (c :: r.1, r.2) else none

/-- Reads a text up to its closing single quote. -/
def scanTomlLiteral (cs : List Char) : Option (List Char × List Char) :=
  let inside (c : Char) : Bool := c ≠ '\'' && isTomlPlain c
  match cs.dropWhile inside with
  | '\'' :: rest => some (cs.takeWhile inside, rest)
  | _ => none

/-- Splits off a line break. -/
def afterLineBreak? : List Char → Option (List Char)
  | '\n' :: rest => some rest
  | '\r' :: '\n' :: rest => some rest
  | _ => none

/-- Splits off three quotes that end a text, and up to two more in front of them
that belong to it. -/
def closingQuotes? (quote : Char) (cs : List Char) : Option (List Char × List Char) :=
  match (cs.takeWhile (· = quote)).length with
  | 0 | 1 | 2 => none
  | 3 => some ([], cs.drop 3)
  | 4 => some ([quote], cs.drop 4)
  | _ => some ([quote, quote], cs.drop 5)

/-- The rest of a text without blanks and line breaks at its start. -/
def afterGap : List Char → List Char
  | '\r' :: '\n' :: rest => afterGap rest
  | c :: rest => if isTomlBlank c || c = '\n' then afterGap rest else c :: rest
  | [] => []

/-- Reads a text of several lines up to its closing double quotes.  A backslash at
the end of a line takes the gap up to the next word away.  Every round takes
characters, so `fuel` need not exceed their number. -/
def scanTomlLines : Nat → List Char → Option (List Char × List Char)
  | 0, _ => none
  | fuel + 1, cs =>
    match closingQuotes? '"' cs with
    | some (quotes, rest) => some (quotes, rest)
    | none =>
      match cs with
      | [] => none
      | '\\' :: rest =>
        match afterLineBreak? (rest.dropWhile isTomlBlank) with
        | some rest => scanTomlLines fuel (afterGap rest)
        | none => do
          let (c, rest) ← scanTomlEscape rest
          let (text, rest) ← scanTomlLines fuel rest
          return (c :: text, rest)
      | c :: rest =>
        match afterLineBreak? cs with
        | some rest => (scanTomlLines fuel rest).map fun r => ('\n' :: r.1, r.2)
        | none =>
          if isTomlPlain c then (scanTomlLines fuel rest).map fun r => (c :: r.1, r.2) else none

/-- Reads a text of several lines up to its closing single quotes. -/
def scanTomlLiteralLines : List Char → Option (List Char × List Char)
  | [] => none
  | '\r' :: '\n' :: rest => (scanTomlLiteralLines rest).map fun r => ('\n' :: r.1, r.2)
  | c :: rest =>
    match closingQuotes? '\'' (c :: rest) with
    | some (quotes, rest) => some (quotes, rest)
    | none =>
      if c = '\n' || isTomlPlain c then (scanTomlLiteralLines rest).map fun r => (c :: r.1, r.2)
      else none

/-- Reads a text in one of the four kinds of quotes. -/
def scanTomlText (cs : List Char) : Option (List Char × List Char) :=
  match cs with
  | '"' :: '"' :: '"' :: rest =>
    scanTomlLines (rest.length + 1) ((afterLineBreak? rest).getD rest)
  | '"' :: rest => scanTomlBasic (rest.length + 1) rest
  | '\'' :: '\'' :: '\'' :: rest => scanTomlLiteralLines ((afterLineBreak? rest).getD rest)
  | '\'' :: rest => scanTomlLiteral rest
  | _ => none

/-- Reads one part of a key: in quotes of one line, or without. -/
def scanTomlWord (cs : List Char) : Option (String × List Char) :=
  match cs with
  | '"' :: rest => (scanTomlBasic (rest.length + 1) rest).map fun r => (String.ofList r.1, r.2)
  | '\'' :: rest => (scanTomlLiteral rest).map fun r => (String.ofList r.1, r.2)
  | _ =>
    match cs.takeWhile isTomlKeyChar with
    | [] => none
    | word => some (String.ofList word, cs.dropWhile isTomlKeyChar)

/-- Reads a key of at most `parts` parts with points between them, and the
blanks around it. -/
def scanTomlKey : Nat → List Char → Option (List String × List Char)
  | 0, _ => none
  | parts + 1, cs => do
    let (word, rest) ← scanTomlWord (cs.dropWhile isTomlBlank)
    match rest.dropWhile isTomlBlank with
    | '.' :: rest => (scanTomlKey parts rest).map fun r => (word :: r.1, r.2)
    | rest => some ([word], rest)

/-! ### Writing -/

/-- How often `c` stands behind itself in a text, at most. -/
def longestRun (c : Char) (cs : List Char) : Nat :=
  (cs.foldl (fun (run : Nat × Nat) d =>
    if d = c then (run.1 + 1, max run.2 (run.1 + 1)) else (0, run.2)) (0, 0)).2

/-- The character as a number of four digits in base sixteen. -/
def hexadecimal (c : Char) : List Char :=
  let digits := (Nat.toDigits 16 c.toNat).map Char.toUpper
  List.replicate (4 - digits.length) '0' ++ digits

/-- A character between double quotes; of the others, only control characters and
backslashes are escaped. -/
def escapeTomlChar (lines : Bool) (c : Char) : List Char :=
  if c = '\x08' then ['\\', 'b']
  else if c = '\t' then ['\\', 't']
  else if c = '\n' then if lines then ['\n'] else ['\\', 'n']
  else if c = '\x0c' then ['\\', 'f']
  else if c = '\r' then ['\\', 'r']
  else if c = '\\' then ['\\', '\\']
  else if c < ' ' || c = '\x7f' then '\\' :: 'u' :: hexadecimal c
  else [c]

/-- A text between double quotes.  Of quotes in a row, `quotes` may stand as they
are before one is escaped; `run` is how many stand in front. -/
def escapeToml (lines : Bool) (quotes : Nat) (run : Nat) : List Char → List Char
  | [] => []
  | '"' :: rest =>
    if run < quotes then '"' :: escapeToml lines quotes (run + 1) rest
    else '\\' :: '"' :: escapeToml lines quotes 0 rest
  | c :: rest => escapeTomlChar lines c ++ escapeToml lines quotes 0 rest

/-- Whether a text needs escapes in any quotes; line breaks are another matter. -/
def hasControl (cs : List Char) : Bool :=
  cs.any fun c => c ≠ '\n' && !isTomlPlain c

/-- A text in quotes of one line. -/
def basicText (cs : List Char) : List Char := '"' :: escapeToml false 0 0 cs ++ ['"']

/-- What stands behind quotes that open a text of several lines. -/
def leadingBreak (cs : List Char) : List Char := if cs.contains '\n' then ['\n'] else []

/-- A text in tripled double quotes. -/
def basicLines (cs : List Char) : List Char :=
  let quotes := ['"', '"', '"']
  quotes ++ leadingBreak cs ++ escapeToml true 2 0 cs ++ quotes

/-- A text in tripled single quotes. -/
def literalLines (cs : List Char) : List Char :=
  let quotes := ['\'', '\'', '\'']
  quotes ++ leadingBreak cs ++ cs ++ quotes

/-- The written form of a text: the first of double quotes, single quotes,
tripled double quotes and tripled single quotes that needs no escape, or else
one with escapes. -/
def writeTomlText (cs : List Char) : List Char :=
  let broken := cs.contains '\n'
  let singles := longestRun '\'' cs
  let doubles := longestRun '"' cs
  if hasControl cs then if broken then basicLines cs else basicText cs
  else if !cs.contains '\\' && doubles = 0 && !broken then basicText cs
  else if singles = 0 && !broken then '\'' :: cs ++ ['\'']
  else if !cs.contains '\\' && doubles ≤ 2 then basicLines cs
  else if singles ≤ 2 then literalLines cs
  else if broken then basicLines cs
  else basicText cs

/-- The written form of a part of a key: without quotes if it can be. -/
def writeTomlWord (word : String) : List Char :=
  let cs := word.toList
  if !cs.isEmpty && cs.all isTomlKeyChar then cs
  else if hasControl cs || cs.contains '\n' then basicText cs
  else if !cs.contains '\\' && !cs.contains '"' then basicText cs
  else if !cs.contains '\'' then '\'' :: cs ++ ['\'']
  else basicText cs

end VariantSelection
