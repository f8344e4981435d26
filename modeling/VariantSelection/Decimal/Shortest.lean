/-
The shortest decimal that reads back as a given double.

A double m · 2^q stands for the interval of reals that round to it; the ends belong to
the interval when m is even.  For 1, 2, ... 17 digits the two `neighbours` of the
value on the decimal grid of that many digits are tried, in exact arithmetic on
natural numbers: the first grid with a neighbour in the interval gives the answer, and
of two such neighbours the nearer one, or the even one when both are equally near.
-/

namespace VariantSelection

/-- A positive fraction with the ends of an interval around it, all over one
denominator. -/
structure RoundingInterval where
  low : Nat
  value : Nat
  high : Nat
  denominator : Nat
  /-- Whether the ends belong to the interval. -/
  closed : Bool

/-- A decimal number: `digits` times ten to the power of `exponent`. -/
structure ScaledDecimal where
  digits : Nat
  exponent : Int
  deriving DecidableEq

/-- The reals that round to the positive double with these bits. -/
def RoundingInterval.ofBits (bits : UInt64) : RoundingInterval :=
  let fraction := bits.toNat % 0x10000000000000
  let exponent := bits.toNat / 0x10000000000000 % 0x800
  let m := if exponent = 0 then fraction else fraction + 0x10000000000000
  -- In quarters of the last place, which is 2^(e - 1075) for the biased exponent e.
  let below := if fraction = 0 && 1 < exponent then 1 else 2
  let e := if exponent = 0 then 1 else exponent
  let scale := Nat.pow 2 (e - 1077)
  { low := (4 * m - below) * scale
    value := 4 * m * scale
    high := (4 * m + 2) * scale
    denominator := Nat.pow 2 (1077 - e)
    closed := m % 2 = 0 }

/-- How many decimal digits `n` has. -/
def decimalLength (n : Nat) : Nat := (Nat.toDigits 10 n).length

/-- The power of ten of the first digit of a positive fraction. -/
def leadingPower (value denominator : Nat) : Int :=
  if denominator ≤ value then (decimalLength (value / denominator) : Int) - 1
  else -(decimalLength ((denominator - 1) / value) : Int)

namespace RoundingInterval

/-- Whether `digits` · 10^`power` lies in the interval. -/
def holds (i : RoundingInterval) (power : Int) (digits : Nat) : Bool :=
  let point := digits * Nat.pow 10 power.toNat * i.denominator
  let unit := Nat.pow 10 (-power).toNat
  if i.closed then i.low * unit ≤ point && point ≤ i.high * unit
  else i.low * unit < point && point < i.high * unit

/-- The neighbours of the value on the grid of multiples of 10^`power`, the
preferred one first. -/
def neighbours (i : RoundingInterval) (power : Int) : List Nat :=
  let step := i.denominator * Nat.pow 10 power.toNat
  let scaled := i.value * Nat.pow 10 (-power).toNat
  let below := scaled / step
  let rest := 2 * (scaled % step)
  if rest < step || (rest = step && below % 2 = 0) then [below, below + 1] else [below + 1, below]

/-- The first hit on the grids of `digits` digits and more. -/
def search (i : RoundingInterval) (leading : Int) (digits : Nat) : Nat → ScaledDecimal
  | 0 => ⟨i.value / i.denominator, 0⟩
  | tries + 1 =>
    let power := leading + 1 - digits
    match (i.neighbours power).find? (i.holds power) with
    | some d => ⟨d, power⟩
    | none => i.search leading (digits + 1) tries

/-- The shortest decimal in the interval; seventeen digits always suffice for a double. -/
def shortest (i : RoundingInterval) : ScaledDecimal :=
  i.search (leadingPower i.value i.denominator) 1 17

end RoundingInterval

/-- The significant digits of a decimal without zeros at their end, and the power of
ten of the first one. -/
def ScaledDecimal.significant (d : ScaledDecimal) : List Char × Int :=
  let digits := Nat.toDigits 10 d.digits
  ((digits.reverse.dropWhile (· = '0')).reverse, d.exponent + digits.length - 1)

end VariantSelection
