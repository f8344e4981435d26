/-
Numbers in TOML documents.

Digits can be grouped by underscores, each of which stands between two digits.
Integers have 64 bits; in bases two, eight and sixteen they have a letter in front
and no sign.  Only the text of a number with a fraction or an exponent is kept, and
one that is too large for a double is no number.
-/
import VariantSelection.Text

namespace VariantSelection

/-- Splits off digits with underscores between them; the underscores are dropped. -/
def splitGrouped (isDigit : Char → Bool) : List Char → List Char × List Char
  | [] => ([], [])
  | '_' :: d :: rest =>
    if isDigit d then
      let r := splitGrouped isDigit rest
      (d :: r.1, r.2)
    else ([], '_' :: d :: rest)
  | c :: rest =>
    if isDigit c then
      let r := splitGrouped isDigit rest
      (c :: r.1, r.2)
    else ([], c :: rest)

/-- Splits off one or more grouped digits; the first character has to be a digit. -/
def scanGrouped (isDigit : Char → Bool) (cs : List Char) : Option (List Char × List Char) :=
  if cs.head?.any isDigit then some (splitGrouped isDigit cs) else none

/-- Splits off a whole number: a zero alone, or digits that do not start with one. -/
def scanGroupedWhole (cs : List Char) : Option (List Char × List Char) :=
  match cs with
  | '0' :: rest => some (['0'], rest)
  | _ => scanGrouped Char.isDigit cs

/-- Splits off a sign; the flag says whether it is a minus. -/
def splitTomlSign : List Char → Option Bool × List Char
  | '-' :: rest => (some true, rest)
  | '+' :: rest => (some false, rest)
  | cs => (none, cs)

/-- Reads a fraction if a point is there; without a digit behind it there is no number. -/
def scanTomlFraction : List Char → Option (List Char × List Char)
  | '.' :: rest => scanGrouped Char.isDigit rest
  | cs => some ([], cs)

/-- Reads an exponent if its letter is there; without a digit behind it
there is no number. -/
def scanTomlExponent : List Char → Option (Option Int × List Char)
  | [] => some (none, [])
  | c :: rest =>
    if c = 'e' || c = 'E' then do
      let (sign, rest) := splitTomlSign rest
      let (digits, rest) ← scanGrouped Char.isDigit rest
      let n : Int := digitsValue digits
      return (some (if sign = some true then -n else n), rest)
    else some (none, c :: rest)

/-- Whether digits times ten to the power of `exponent` are beyond the largest
double, by at least half its last place. -/
def exceedsDoubles (digits : List Char) (exponent : Int) : Bool :=
  let value := digitsValue digits
  let places : Int := (Nat.toDigits 10 value).length + exponent
  if value = 0 || places < 309 then false
  else if 310 < places then true
  else
    let limit := Nat.pow 2 1024 - Nat.pow 2 970
    limit * Nat.pow 10 (-exponent).toNat ≤ value * Nat.pow 10 exponent.toNat

/-- What a number literal stands for. -/
inductive TomlNumber
  | integer (n : Int64)
  | float (text : String)
  deriving DecidableEq

/-- The integer of 64 bits with a sign and digits. -/
def signedInteger? (negative : Bool) (value : Nat) : Option Int64 :=
  if negative then
    if value ≤ 0x8000000000000000 then some (Int64.ofInt (-(value : Int))) else none
  else if value < 0x8000000000000000 then some (Int64.ofInt value)
  else none

/-- The base of a number that starts with a zero and this letter. -/
def literalBase? (c : Char) : Option Nat :=
  if c = 'x' then some 16 else if c = 'o' then some 8 else if c = 'b' then some 2 else none

/-- The text of the first part of `cs`, up to where `rest` starts. -/
def textUpTo (cs rest : List Char) : String := String.ofList (cs.take (cs.length - rest.length))

/-- Splits off a number in base ten. -/
def scanDecimalNumber (cs : List Char) : Option (TomlNumber × List Char) := do
  let (sign, digits) := splitTomlSign cs
  match digits with
  | 'i' :: 'n' :: 'f' :: rest => some (.float (textUpTo cs rest), rest)
  | 'n' :: 'a' :: 'n' :: rest => some (.float (textUpTo cs rest), rest)
  | _ =>
    let negative := sign = some true
    let (whole, rest) ← scanGroupedWhole digits
    let (fraction, rest) ← scanTomlFraction rest
    let (exponent, rest) ← scanTomlExponent rest
    if fraction.isEmpty && exponent.isNone then
      (signedInteger? negative (digitsValue whole)).map fun n => (.integer n, rest)
    else if !negative && exceedsDoubles (whole ++ fraction)
      (exponent.getD 0 - fraction.length) then none
    else some (.float (textUpTo cs rest), rest)

/-- Splits off a number. -/
def scanTomlNumber (cs : List Char) : Option (TomlNumber × List Char) :=
  match cs with
  | '0' :: letter :: rest =>
    match literalBase? letter with
    | none => scanDecimalNumber cs
    | some base => do
      let isDigit (c : Char) : Bool := ((digitValue? c).filter (· < base)).isSome
      let (digits, rest) ← scanGrouped isDigit rest
      let n ← signedInteger? false (← digitsInBase? base digits)
      return (.integer n, rest)
  | _ => scanDecimalNumber cs

end VariantSelection
