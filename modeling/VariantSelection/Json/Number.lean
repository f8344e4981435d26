/-
Numbers in JSON documents: how a literal is read, and how the number is written.

A literal without fraction and exponent is an integer as long as it fits 64 bits.
Every other literal is a double, and it is read in one pass: its digits are gathered
in a 64-bit word, digits that no longer fit are dropped, and the word is scaled once
by the power of ten that is left.  The result can therefore differ in its last place
from the double nearest to the literal.
-/
import VariantSelection.Decimal.Shortest
import VariantSelection.Text

namespace VariantSelection

/-- The digits of a number literal, by their place in it. -/
structure NumberLiteral where
  negative : Bool
  whole : List Char
  /-- Empty if there is no point. -/
  fraction : List Char
  /-- Whether the exponent is negative, and its digits. -/
  exponent : Option (Bool × List Char)
  deriving DecidableEq

/-- What a number literal stands for. -/
inductive JsonNumber
  | integer (n : Int64)
  /-- An integer above the signed 64-bit ones and within the unsigned ones. -/
  | large (n : UInt64)
  | real (x : Float)
  deriving DecidableEq

/-- Gathers digits behind `n` while the number fits 64 bits; the rest is what was
not gathered. -/
def gatherDigits (n : Nat) : List Char → Nat × List Char
  | [] => (n, [])
  | c :: rest =>
    let next := 10 * n + (c.toNat - '0'.toNat)
    if next < 0x10000000000000000 then gatherDigits next rest else (n, c :: rest)

/-- The double 10^n. -/
def powerOfTen (n : Nat) : Float := Float.ofScientific 1 false n

/-- `x` times 10^e, a power beyond 10^308 being a fault unless `x` is zero.  A power
below 10^-308 is taken in steps. -/
def scaleByTen? (x : Float) (e : Int) : Option Float :=
  if 308 < e then if x == 0 then some x else none
  else if 0 ≤ e then
    let y := x * powerOfTen e.toNat
    if y.isInf then none else some y
  else if -308 ≤ e then some (x / powerOfTen (-e).toNat)
  else if x == 0 then some x
  else scaleByTen? (x / powerOfTen 308) (e + 308)
termination_by e.natAbs
decreasing_by omega

namespace NumberLiteral

/-- The double that a literal stands for; none if it is too large. -/
def real? (l : NumberLiteral) : Option Float := do
  let (whole, dropped) := gatherDigits 0 l.whole
  let (word, ignored) := gatherDigits whole l.fraction
  let place : Int := dropped.length - (l.fraction.length - ignored.length : Nat)
  let x := (UInt64.ofNat word).toFloat
  let y ← match l.exponent with
    | none => scaleByTen? x place
    | some (negative, digits) =>
      let exponent := digitsValue digits
      if exponent < 0x80000000 then
        scaleByTen? x (if negative then place - exponent else place + exponent)
      else if negative || word = 0 then some 0 else none
  return if l.negative then -y else y

/-- The number that a literal stands for; none if it is too large. -/
def number? (l : NumberLiteral) : Option JsonNumber :=
  if !l.fraction.isEmpty || l.exponent.isSome then l.real?.map .real
  else
    match l.negative, digitsValue l.whole with
    | true, 0 => some (.real (-0))
    | true, n =>
      if n ≤ 0x8000000000000000 then some (.integer (Int64.ofInt (-(n : Int))))
      else l.real?.map .real
    | false, n =>
      if n < 0x8000000000000000 then some (.integer (Int64.ofInt n))
      else if n < 0x10000000000000000 then some (.large (UInt64.ofNat n))
      else l.real?.map .real

end NumberLiteral

/-- The digits of a double whose first digit stands at 10^`power`.  They are written
with a point from 10^-5 up to below 10^16, at least one digit on either side of it,
and otherwise with an exponent, which has a sign. -/
def pointedDigits (digits : List Char) (power : Int) : List Char :=
  if power < -5 || 16 ≤ power then
    let mantissa := match digits with
      | d :: e :: rest => d :: '.' :: e :: rest
      | _ => digits
    let sign := if power < 0 then '-' else '+'
    mantissa ++ 'e' :: sign :: Nat.toDigits 10 power.natAbs
  else if power < 0 then
    '0' :: '.' :: List.replicate ((-power).toNat - 1) '0' ++ digits
  else
    let places := power.toNat + 1
    let whole := digits.take places
    let fraction := digits.drop places
    whole ++ List.replicate (places - whole.length) '0'
      ++ '.' :: if fraction.isEmpty then ['0'] else fraction

/-- A finite double in the fewest digits that read back. -/
def doubleText (x : Float) : String :=
  let bits := x.toBits
  let magnitude := UInt64.ofNat (bits.toNat % 0x8000000000000000)
  let digits :=
    if magnitude = 0 then ['0', '.', '0']
    else
      let (digits, power) := (RoundingInterval.ofBits magnitude).shortest.significant
      pointedDigits digits power
  String.ofList (if 0x8000000000000000 ≤ bits.toNat then '-' :: digits else digits)

end VariantSelection
