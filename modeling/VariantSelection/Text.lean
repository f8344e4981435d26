/-
Texts: blank characters, fields between separators, lines and numerals.

Everything that reads or prints a text goes through this module.  `trimChars` and
`isBlankText` know which characters are blank, `fields` cuts a text at a separator
and `joinWith` puts it together again, `textLines` and `unlines` do the same for
lines, and `integer?`, `unsigned?` and `digitsInBase?` read digits.
-/

namespace VariantSelection

/-! ### Blanks

A character is blank when Unicode gives it the property `White_Space`.  The property
is a table of ten ranges holding twenty-five code points; core's `Char.isWhitespace`
knows only four of them.  Everything that trims or that asks whether a part is empty
uses `blankRanges`, so one table decides both.
-/

/-- The code points with the property `White_Space`, as inclusive ranges in
ascending order. -/
def blankRanges : List (Nat × Nat) :=
  [(0x9, 0xD), (0x20, 0x20), (0x85, 0x85), (0xA0, 0xA0), (0x1680, 0x1680), (0x2000, 0x200A),
   (0x2028, 0x2029), (0x202F, 0x202F), (0x205F, 0x205F), (0x3000, 0x3000)]

/-- Whether `c` is a blank character. -/
def isBlank (c : Char) : Bool :=
  blankRanges.any fun r => r.1 ≤ c.toNat && c.toNat ≤ r.2

/-- `cs` without the blanks at its two ends. -/
def trimChars (cs : List Char) : List Char :=
  ((cs.dropWhile isBlank).reverse.dropWhile isBlank).reverse

/-- `s` without the blanks at its two ends. -/
def trimBlanks (s : String) : String :=
  String.ofList (trimChars s.toList)

/-- Whether nothing is left of `s` once its blanks are gone. -/
def isBlankText (s : String) : Bool :=
  s.toList.all isBlank

/-! ### Fields

A text with `n` separators has `n + 1` fields, the empty ones at either end
included, so the fields of the empty text are one empty field.  Joining the fields
with the separator gives the text back.
-/

/-- Puts `c` in front of the first field. -/
def consField (c : Char) : List (List Char) → List (List Char)
  | [] => [[c]]
  | f :: fs => (c :: f) :: fs

/-- The fields of `cs` between the separators `sep`. -/
def fieldsOf (sep : Char) : List Char → List (List Char)
  | [] => [[]]
  | c :: cs => if c = sep then [] :: fieldsOf sep cs else consField c (fieldsOf sep cs)

/-- The fields of `s` between the separators `sep`. -/
def fields (sep : Char) (s : String) : List String :=
  (fieldsOf sep s.toList).map String.ofList

theorem fieldsOf_ne_nil (sep : Char) (cs : List Char) : fieldsOf sep cs ≠ [] := by
  cases cs with
  | nil => simp [fieldsOf]
  | cons c cs =>
    by_cases h : c = sep
    · simp [fieldsOf, h]
    · cases hf : fieldsOf sep cs <;> simp [fieldsOf, h, hf, consField]

/-- `items` with `sep` between each two of them. -/
def joinWith (sep : String) : List String → String
  | [] => ""
  | [item] => item
  | item :: items => item ++ sep ++ joinWith sep items

/-- `items` in brackets, with commas between them. -/
def bracketed (items : List String) : String := "[" ++ joinWith ", " items ++ "]"

/-! ### Lines -/

/-- Each line with a line break behind it. -/
def unlines (lines : List String) : String :=
  String.join (lines.map fun line => line ++ "\n")

/-- A line without the carriage return at its end. -/
def withoutReturn (line : String) : String :=
  match line.toList.reverse with
  | '\r' :: rest => String.ofList rest.reverse
  | _ => line

/-- Lines from what stands between the line breaks: nothing behind the last break is
no line, and a carriage return counts as part of the break behind it. -/
def linesOf : List String → List String
  | [] => []
  | [last] => if last.isEmpty then [] else [last]
  | line :: rest => withoutReturn line :: linesOf rest

/-- The lines of a text. -/
def textLines (s : String) : List String := linesOf (fields '\n' s)

/-- `s` with blanks behind it, up to `width` characters. -/
def padRight (width : Nat) (s : String) : String :=
  s ++ String.ofList (List.replicate (width - s.length) ' ')

/-- The width of a column that holds `names`: the most bytes that one of them
takes in UTF-8. -/
def columnWidth (names : List String) : Nat :=
  names.foldl (fun width name => max width name.utf8ByteSize) 0

/-! ### Numerals

Only the ten ASCII digits count.  A natural number may be preceded by a plus sign,
an integer by a plus or a minus sign, and neither by anything else; a numeral that
stands for a number outside its word size is no numeral.
-/

/-- The number that a list of digits stands for, the most significant digit first. -/
def digitsValue (cs : List Char) : Nat :=
  cs.foldl (fun n c => 10 * n + (c.toNat - '0'.toNat)) 0

/-- The number that one or more digits stand for. -/
def natural? (cs : List Char) : Option Nat :=
  if !cs.isEmpty && cs.all Char.isDigit then some (digitsValue cs) else none

/-- The value of a digit, in bases up to sixteen; letters count in either case. -/
def digitValue? (c : Char) : Option Nat :=
  if c.isDigit then some (c.toNat - '0'.toNat)
  else if 'a' ≤ c && c ≤ 'f' then some (c.toNat - 'a'.toNat + 10)
  else if 'A' ≤ c && c ≤ 'F' then some (c.toNat - 'A'.toNat + 10)
  else none

/-- The number that one or more digits of a base stand for. -/
def digitsInBase? (base : Nat) (cs : List Char) : Option Nat :=
  if cs.isEmpty then none
  else
    cs.foldlM (fun n c => ((digitValue? c).filter (· < base)).map (base * n + ·)) 0

/-- Digits with an optional plus sign, for a number below 2^64. -/
def unsigned? (cs : List Char) : Option Nat :=
  let digits := match cs with
    | '+' :: rest => rest
    | _ => cs
  (natural? digits).filter (· < 0x10000000000000000)

/-- Digits with an optional sign, for an integer from -2^63 to 2^63 - 1. -/
def integer? (cs : List Char) : Option Int64 :=
  match cs with
  | '-' :: rest => ((natural? rest).filter (· ≤ 0x8000000000000000)).map fun n =>
      Int64.ofInt (-(n : Int))
  | '+' :: rest => ((natural? rest).filter (· < 0x8000000000000000)).map fun n => Int64.ofInt n
  | _ => ((natural? cs).filter (· < 0x8000000000000000)).map fun n => Int64.ofInt n

end VariantSelection
