/-
Dates and times in TOML documents.

A date, a time of day, or both, and behind both the distance from universal time.
Seconds go up to sixty, for leap seconds, and fractions of a second are cut after
nine digits.  The text of a date-time is the one of the standard notation, however
it was written.
-/
import VariantSelection.Text

namespace VariantSelection

structure TomlDate where
  year : Nat
  month : Nat
  day : Nat
  deriving DecidableEq

structure TomlTime where
  hour : Nat
  minute : Nat
  second : Nat
  nanosecond : Nat
  deriving DecidableEq

/-- The distance of a local time from universal time. -/
inductive TomlOffset
  | universal
  | minutes (n : Int)
  deriving DecidableEq

inductive TomlDatetime
  | date (d : TomlDate)
  | time (t : TomlTime)
  | dateTime (d : TomlDate) (t : TomlTime)
  | instant (d : TomlDate) (t : TomlTime) (o : TomlOffset)
  deriving DecidableEq

/-! ### Writing -/

/-- `n` in at least `width` digits. -/
def paddedNumber (width n : Nat) : String :=
  let digits := Nat.toDigits 10 n
  String.ofList (List.replicate (width - digits.length) '0' ++ digits)

def TomlDate.text (d : TomlDate) : String :=
  paddedNumber 4 d.year ++ "-" ++ paddedNumber 2 d.month ++ "-" ++ paddedNumber 2 d.day

/-- The fraction of a second behind its point, without zeros at the end; nothing for
no fraction. -/
def fractionText (nanosecond : Nat) : String :=
  if nanosecond = 0 then ""
  else
    let digits := (paddedNumber 9 nanosecond).toList.reverse.dropWhile (· = '0')
    "." ++ String.ofList digits.reverse

def TomlTime.text (t : TomlTime) : String :=
  paddedNumber 2 t.hour ++ ":" ++ paddedNumber 2 t.minute ++ ":" ++ paddedNumber 2 t.second
    ++ fractionText t.nanosecond

def TomlOffset.text : TomlOffset → String
  | .universal => "Z"
  | .minutes n =>
    let sign := if n < 0 then "-" else "+"
    sign ++ paddedNumber 2 (n.natAbs / 60) ++ ":" ++ paddedNumber 2 (n.natAbs % 60)

def TomlDatetime.text : TomlDatetime → String
  | .date d => d.text
  | .time t => t.text
  | .dateTime d t => d.text ++ "T" ++ t.text
  | .instant d t o => d.text ++ "T" ++ t.text ++ o.text

/-! ### Reading -/

/-- The number of exactly these digits, if it lies between the bounds. -/
def boundedNumber? (low high : Nat) (digits : List Char) : Option Nat :=
  (natural? digits).filter fun n => low ≤ n && n ≤ high

def isLeapYear (year : Nat) : Bool :=
  year % 4 = 0 && (year % 100 ≠ 0 || year % 400 = 0)

def daysInMonth (year month : Nat) : Nat :=
  if month = 2 then if isLeapYear year then 29 else 28
  else if month = 4 || month = 6 || month = 9 || month = 11 then 30
  else 31

/-- Splits off a date. -/
def scanTomlDate : List Char → Option (TomlDate × List Char)
  | a :: b :: c :: d :: '-' :: e :: f :: '-' :: g :: h :: rest => do
    let year ← natural? [a, b, c, d]
    let month ← boundedNumber? 1 12 [e, f]
    let day ← boundedNumber? 1 (daysInMonth year month) [g, h]
    return (⟨year, month, day⟩, rest)
  | _ => none

/-- Splits off the fraction of a second behind its point. -/
def scanNanosecond (cs : List Char) : Option (Nat × List Char) :=
  match cs.takeWhile Char.isDigit with
  | [] => none
  | digits =>
    let kept := digits.take 9
    some (digitsValue (kept ++ List.replicate (9 - kept.length) '0'), cs.dropWhile Char.isDigit)

/-- Splits off a time of day. -/
def scanTomlTime : List Char → Option (TomlTime × List Char)
  | a :: b :: ':' :: c :: d :: ':' :: e :: f :: rest => do
    let hour ← boundedNumber? 0 23 [a, b]
    let minute ← boundedNumber? 0 59 [c, d]
    let second ← boundedNumber? 0 60 [e, f]
    match rest with
    | '.' :: more =>
      match scanNanosecond more with
      | some (nanosecond, rest) => some (⟨hour, minute, second, nanosecond⟩, rest)
      | none => some (⟨hour, minute, second, 0⟩, rest)
    | _ => some (⟨hour, minute, second, 0⟩, rest)
  | _ => none

/-- Splits off a distance from universal time. -/
def scanTomlOffset : List Char → Option (TomlOffset × List Char)
  | 'Z' :: rest => some (.universal, rest)
  | 'z' :: rest => some (.universal, rest)
  | sign :: a :: b :: ':' :: c :: d :: rest => do
    let hours ← boundedNumber? 0 23 [a, b]
    let minutes ← boundedNumber? 0 59 [c, d]
    let n : Int := (hours * 60 + minutes : Nat)
    if sign = '+' then some (.minutes n, rest)
    else if sign = '-' then some (.minutes (-n), rest)
    else none
  | _ => none

/-- Splits off the time behind a date, which a letter or one blank separates from it. -/
def scanTimePart : List Char → Option (TomlTime × List Char)
  | c :: rest => if c = 'T' || c = 't' || c = ' ' then scanTomlTime rest else none
  | [] => none

/-- Splits off a date, a time, or both. -/
def scanTomlDatetime (cs : List Char) : Option (TomlDatetime × List Char) :=
  match scanTomlDate cs with
  | none => (scanTomlTime cs).map fun r => (.time r.1, r.2)
  | some (d, rest) =>
    match scanTimePart rest with
    | none => some (.date d, rest)
    | some (t, rest) =>
      match scanTomlOffset rest with
      | none => some (.dateTime d t, rest)
      | some (o, rest) => some (.instant d t o, rest)

end VariantSelection
