/-
The tokens of JSON texts.

A string token keeps the code points that its characters and escapes stand for.  An
escape can name one half of a surrogate pair; whether the halves meet is asked only
of strings that are used (`JsonString.text?`), so a lone half does no harm in a part
of a document that nobody reads.
-/
import VariantSelection.Json.Number

namespace VariantSelection

/-- A string as the code points it was written with, halves of surrogate pairs
among them. -/
structure JsonString where
  units : List Nat
  deriving DecidableEq

/-- The characters of code points in which surrogates stand in pairs. -/
def pairSurrogates? : List Nat → Option (List Char)
  | [] => some []
  | [u] => if 0xD800 ≤ u && u < 0xE000 then none else some [Char.ofNat u]
  | u :: v :: rest =>
    if 0xD800 ≤ u && u < 0xDC00 then
      if 0xDC00 ≤ v && v < 0xE000 then
        let c := Char.ofNat (0x10000 + (u - 0xD800) * 0x400 + (v - 0xDC00))
        (pairSurrogates? rest).map (c :: ·)
      else none
    else if 0xDC00 ≤ u && u < 0xE000 then none
    else (pairSurrogates? (v :: rest)).map (Char.ofNat u :: ·)

/-- The text of a string, unless it holds half of a surrogate pair. -/
def JsonString.text? (s : JsonString) : Option String :=
  (pairSurrogates? s.units).map String.ofList

inductive JsonToken
  | openBrace
  | closeBrace
  | openBracket
  | closeBracket
  | comma
  | colon
  | null
  | boolean (b : Bool)
  | number (l : NumberLiteral)
  | string (s : JsonString)
  deriving DecidableEq

/-- The code point of an escape of one letter. -/
def jsonEscape? : Char → Option Nat
  | '"' => some 0x22
  | '\\' => some 0x5C
  | '/' => some 0x2F
  | 'b' => some 0x8
  | 'f' => some 0xC
  | 'n' => some 0xA
  | 'r' => some 0xD
  | 't' => some 0x9
  | _ => none

/-- Reads a string up to its closing quote; control characters have to be escaped. -/
def scanString : List Char → Option (List Nat × List Char)
  | [] => none
  | '"' :: rest => some ([], rest)
  | '\\' :: 'u' :: a :: b :: c :: d :: rest => do
    let unit ← digitsInBase? 16 [a, b, c, d]
    let (units, rest) ← scanString rest
    return (unit :: units, rest)
  | '\\' :: e :: rest => do
    let unit ← jsonEscape? e
    let (units, rest) ← scanString rest
    return (unit :: units, rest)
  | c :: rest =>
    if c.toNat < 0x20 || c = '\\' then none
    else (scanString rest).map fun r => (c.toNat :: r.1, r.2)

/-- Splits off the digits at the front. -/
def splitDigits (cs : List Char) : List Char × List Char :=
  (cs.takeWhile Char.isDigit, cs.dropWhile Char.isDigit)

/-- Reads the whole part of a number: a zero alone, or digits that do not
start with one. -/
def scanWhole (cs : List Char) : Option (List Char × List Char) :=
  match cs with
  | '0' :: rest => some (['0'], rest)
  | _ =>
    let (digits, rest) := splitDigits cs
    if digits.isEmpty then none else some (digits, rest)

/-- Reads what may stand behind the whole part after a point. -/
def scanFraction (cs : List Char) : Option (List Char × List Char) :=
  match cs with
  | '.' :: rest =>
    let (digits, rest) := splitDigits rest
    if digits.isEmpty then none else some (digits, rest)
  | _ => some ([], cs)

/-- Splits off a sign; the flag says whether it is a minus. -/
def splitSign (cs : List Char) : Bool × List Char :=
  match cs with
  | '-' :: rest => (true, rest)
  | '+' :: rest => (false, rest)
  | _ => (false, cs)

/-- Reads an exponent, if there is one. -/
def scanExponent (cs : List Char) : Option (Option (Bool × List Char) × List Char) :=
  match cs with
  | [] => some (none, [])
  | c :: rest =>
    if c = 'e' || c = 'E' then
      let (negative, rest) := splitSign rest
      let (digits, rest) := splitDigits rest
      if digits.isEmpty then none else some (some (negative, digits), rest)
    else some (none, cs)

/-- Reads a number without its minus sign. -/
def scanNumber (negative : Bool) (cs : List Char) : Option (NumberLiteral × List Char) := do
  let (whole, rest) ← scanWhole cs
  let (fraction, rest) ← scanFraction rest
  let (exponent, rest) ← scanExponent rest
  return ({ negative, whole, fraction, exponent }, rest)

/-- Reads the token that starts with `c`. -/
def scanToken (c : Char) (rest : List Char) : Option (JsonToken × List Char) :=
  match c with
  | '\x7b' => some (.openBrace, rest)
  | '\x7d' => some (.closeBrace, rest)
  | '[' => some (.openBracket, rest)
  | ']' => some (.closeBracket, rest)
  | ',' => some (.comma, rest)
  | ':' => some (.colon, rest)
  | '"' => (scanString rest).map fun r => (.string ⟨r.1⟩, r.2)
  | '-' => (scanNumber true rest).map fun r => (.number r.1, r.2)
  | 'n' =>
    match rest with
    | 'u' :: 'l' :: 'l' :: rest => some (.null, rest)
    | _ => none
  | 't' =>
    match rest with
    | 'r' :: 'u' :: 'e' :: rest => some (.boolean true, rest)
    | _ => none
  | 'f' =>
    match rest with
    | 'a' :: 'l' :: 's' :: 'e' :: rest => some (.boolean false, rest)
    | _ => none
  | _ => (scanNumber false (c :: rest)).map fun r => (.number r.1, r.2)

/-! ### A token takes at least one character -/

theorem length_scanString {cs rest : List Char} {units : List Nat}
    (h : scanString cs = some (units, rest)) : rest.length < cs.length := by
  fun_induction scanString cs generalizing units rest with
  | case1 => simp at h
  | case2 r => grind
  | case3 a b c d r ih =>
    simp only [bind, Option.bind_eq_some_iff] at h
    obtain ⟨_, _, ⟨us, r'⟩, hr, heq⟩ := h
    have := ih hr
    cases heq
    simp only [List.length_cons]
    omega
  | case4 e r _ ih =>
    simp only [bind, Option.bind_eq_some_iff] at h
    obtain ⟨_, _, ⟨us, r'⟩, hr, heq⟩ := h
    have := ih hr
    cases heq
    simp only [List.length_cons]
    omega
  | case5 => simp at h
  | case6 c r _ _ _ _ ih =>
    obtain ⟨⟨us, r'⟩, hr, heq⟩ := Option.map_eq_some_iff.1 h
    have := ih hr
    cases heq
    simp only [List.length_cons]
    omega

theorem length_splitDigits (cs : List Char) : (splitDigits cs).2.length ≤ cs.length := by
  simpa [splitDigits] using List.IsSuffix.length_le (List.dropWhile_suffix _)

theorem length_scanWhole {cs digits rest : List Char} (h : scanWhole cs = some (digits, rest)) :
    rest.length < cs.length := by
  unfold scanWhole at h
  split at h
  · grind
  · have whole : cs.takeWhile Char.isDigit ++ cs.dropWhile Char.isDigit = cs :=
      List.takeWhile_append_dropWhile
    have := congrArg List.length whole
    simp only [splitDigits, Option.ite_none_left_eq_some, List.isEmpty_iff_length_eq_zero] at h
    grind

theorem length_scanFraction {cs digits rest : List Char}
    (h : scanFraction cs = some (digits, rest)) : rest.length ≤ cs.length := by
  unfold scanFraction at h
  split at h
  · grind [length_splitDigits]
  · grind

theorem length_splitSign (cs : List Char) : (splitSign cs).2.length ≤ cs.length := by
  unfold splitSign
  split <;> simp

theorem length_scanExponent {cs rest : List Char} {exponent : Option (Bool × List Char)}
    (h : scanExponent cs = some (exponent, rest)) : rest.length ≤ cs.length := by
  unfold scanExponent at h
  split at h
  · grind
  · grind [length_splitDigits, length_splitSign]

theorem length_scanNumber {negative : Bool} {cs rest : List Char} {l : NumberLiteral}
    (h : scanNumber negative cs = some (l, rest)) : rest.length < cs.length := by
  simp only [scanNumber, bind, Option.bind_eq_some_iff, Prod.exists, pure, Option.some.injEq,
    Prod.mk.injEq] at h
  obtain ⟨_, a, ha, _, b, hb, _, c, hc, -, rfl⟩ := h
  have := length_scanWhole ha
  have := length_scanFraction hb
  have := length_scanExponent hc
  omega

theorem length_scanToken {c : Char} {cs rest : List Char} {t : JsonToken}
    (h : scanToken c cs = some (t, rest)) : rest.length < (c :: cs).length := by
  unfold scanToken at h
  split at h
  case h_7 =>
    obtain ⟨⟨us, r⟩, hr, heq⟩ := Option.map_eq_some_iff.1 h
    have := length_scanString hr
    cases heq
    simp only [List.length_cons]
    omega
  case h_8 =>
    obtain ⟨⟨l, r⟩, hr, heq⟩ := Option.map_eq_some_iff.1 h
    have := length_scanNumber hr
    cases heq
    simp only [List.length_cons]
    omega
  case h_12 =>
    obtain ⟨⟨l, r⟩, hr, heq⟩ := Option.map_eq_some_iff.1 h
    cases heq
    exact length_scanNumber hr
  all_goals grind

/-- The four characters that may stand between tokens. -/
def isJsonBlank (c : Char) : Bool := c = ' ' || c = '\t' || c = '\n' || c = '\r'

/-- The tokens of a text behind those that were read before, which stand in reverse. -/
def tokensFrom (before : List JsonToken) (cs : List Char) : Option (List JsonToken) :=
  match cs with
  | [] => some before.reverse
  | c :: rest =>
    if isJsonBlank c then tokensFrom before rest
    else
      match _h : scanToken c rest with
      | none => none
      | some (t, rest') => tokensFrom (t :: before) rest'
termination_by cs.length
decreasing_by
  · simp
  · exact length_scanToken _h

/-- The tokens of a text. -/
def jsonTokens? (text : String) : Option (List JsonToken) := tokensFrom [] text.toList

end VariantSelection
