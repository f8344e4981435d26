/-
Every integer of 64 bits is read back from what is written for it.

Dates and times are tried first, and both start with digits.  What tells an integer
from them is the character behind its digits: a minus or a colon goes on with a date
or a time, and what follows a written value is a comma, a bracket or the end of the
line (`EndsTomlValue`).  The same character shows that the number has no fraction
and no exponent, and that its digits end there.
-/
import VariantSelection.Proofs.Text.Numeral
import VariantSelection.Proofs.Toml.Text
import VariantSelection.Toml.Datetime
import VariantSelection.Toml.Number

namespace VariantSelection

/-- What follows a written value: a comma, the end of an array, or the end of the line. -/
def EndsTomlValue (rest : List Char) : Prop :=
  ∃ c more, rest = c :: more ∧ c ∈ [',', ']', '\n']

section
variable {rest : List Char}

theorem EndsTomlValue.forall_head {p : Char → Prop} (h : EndsTomlValue rest)
    (hcomma : p ',') (hbracket : p ']') (hline : p '\n') : ∀ c ∈ rest.head?, p c := by
  obtain ⟨c, more, rfl, hc⟩ := h
  intro d hd
  have hcd : c = d := by simpa using hd
  rw [← hcd]
  simp only [List.mem_cons, List.not_mem_nil, or_false] at hc
  rcases hc with rfl | rfl | rfl
  · exact hcomma
  · exact hbracket
  · exact hline

theorem EndsTomlValue.head?_ne {c : Char} (h : EndsTomlValue rest) (hc : c ∉ [',', ']', '\n']) :
    rest.head? ≠ some c := by
  obtain ⟨d, more, rfl, hd⟩ := h
  intro heq
  have hdc : d = c := by simpa using heq
  rw [hdc] at hd
  exact hc hd

end

/-! ### The digits of a number

The scanners for dates and times take a run of digits with a mark behind it.  They
give up where there are no digits, or where the digits stop before another character.
-/

section
variable {n : Nat} {c : Char} {cs ds rest : List Char}

/-- Only zero is written with a zero in front. -/
theorem head?_digits_ne_zero : ∀ n, 0 < n → (Nat.toDigits 10 n).head? ≠ some '0' := by
  intro n
  induction n using Nat.strongRecOn with
  | ind n ih =>
      intro hpos
      by_cases hsmall : n < 10
      · rw [Nat.toDigits_of_lt_base hsmall]
        have hdigit : ∀ k < 10, 0 < k → k.digitChar ≠ '0' := by decide
        simpa using hdigit n hsmall hpos
      · have hrest := ih (n / 10) (Nat.div_lt_self hpos (by decide)) (by omega)
        rw [Nat.toDigits_of_base_le (by decide) (by omega), List.head?_append]
        cases hhead : (Nat.toDigits 10 (n / 10)).head? with
        | none => simp [List.head?_eq_none_iff, Nat.toDigits_ne_nil] at hhead
        | some d =>
            rw [hhead] at hrest
            simpa using hrest

theorem digits_append_ne (n : Nat) {mark : Char} (hmark : mark.isDigit = false)
    (rest more : List Char) : Nat.toDigits 10 n ++ rest ≠ mark :: more := by
  intro heq
  obtain ⟨d, ds, hds⟩ := List.exists_cons_of_ne_nil (Nat.toDigits_ne_nil (b := 10) (n := n))
  have hdigit : d.isDigit = true := isDigit_of_mem_digits (n := n) (by simp [hds])
  rw [hds] at heq
  rw [(List.cons.inj heq).1, hmark] at hdigit
  cases hdigit

/-- Where digits of a number stop, a date or a time goes on with the character `c`. -/
theorem dropWhile_of_natural? (rest : List Char) (h : (natural? ds).isSome)
    (hc : c.isDigit = false) :
    ((ds ++ c :: rest).takeWhile Char.isDigit ≠ []) ∧
      (ds ++ c :: rest).dropWhile Char.isDigit = c :: rest := by
  have hdigits : ds ≠ [] ∧ ∀ d ∈ ds, d.isDigit = true := by
    unfold natural? at h
    split at h
    case isTrue hall => simpa using hall
    case isFalse => simp at h
  have hstop : ∀ d ∈ (c :: rest).head?, d.isDigit = false := by
    intro d hd
    have hcd : c = d := by simpa using hd
    rw [← hcd]
    exact hc
  rw [takeWhile_append_of_stop hdigits.2 hstop, dropWhile_append_of_stop hdigits.2 hstop]
  exact ⟨hdigits.1, rfl⟩

theorem boundedNumber?_natural {low high : Nat} (h : (boundedNumber? low high ds).isSome) :
    (natural? ds).isSome := by
  unfold boundedNumber? at h
  cases hn : natural? ds with
  | none => simp [hn] at h
  | some n => rfl

theorem scanTomlDate_eq_none (h : cs.takeWhile Char.isDigit = [] ∨
    (cs.dropWhile Char.isDigit).head? ≠ some '-') : scanTomlDate cs = none := by
  unfold scanTomlDate
  split
  case h_1 a b d e f g k l rest =>
    cases hyear : natural? [a, b, d, e] with
    | none => rfl
    | some year =>
        exfalso
        obtain ⟨hsome, hdrop⟩ := dropWhile_of_natural? (c := '-') (f :: g :: '-' :: k :: l :: rest)
          (Option.isSome_of_eq_some hyear) (by decide)
        rcases h with hnone | hhead
        · exact hsome hnone
        · exact hhead (congrArg List.head? hdrop)
  case h_2 => rfl

theorem scanTomlTime_eq_none (h : cs.takeWhile Char.isDigit = [] ∨
    (cs.dropWhile Char.isDigit).head? ≠ some ':') : scanTomlTime cs = none := by
  unfold scanTomlTime
  split
  case h_1 a b d e f g rest =>
    cases hhour : boundedNumber? 0 23 [a, b] with
    | none => rfl
    | some hour =>
        exfalso
        obtain ⟨hsome, hdrop⟩ := dropWhile_of_natural? (c := ':') (d :: e :: ':' :: f :: g :: rest)
          (boundedNumber?_natural (Option.isSome_of_eq_some hhour)) (by decide)
        rcases h with hnone | hhead
        · exact hsome hnone
        · exact hhead (congrArg List.head? hdrop)
  case h_2 => rfl

theorem scanTomlDatetime_eq_none (h : cs.takeWhile Char.isDigit = [] ∨
    ∀ c ∈ (cs.dropWhile Char.isDigit).head?, c ≠ '-' ∧ c ≠ ':') : scanTomlDatetime cs = none := by
  have hhead : ∀ mark, (mark = '-' ∨ mark = ':') → cs.takeWhile Char.isDigit = [] ∨
      (cs.dropWhile Char.isDigit).head? ≠ some mark := by
    intro mark hmark
    refine h.imp_right fun hstop heq => ?_
    have hne := hstop mark heq
    rcases hmark with rfl | rfl
    · exact hne.1 rfl
    · exact hne.2 rfl
  unfold scanTomlDatetime
  rw [scanTomlDate_eq_none (hhead '-' (Or.inl rfl)), scanTomlTime_eq_none (hhead ':' (Or.inr rfl))]
  rfl

/-! ### Integers

The digits are taken whole, and neither a fraction nor an exponent is found behind them.
-/

theorem splitGrouped_append (hall : ∀ d ∈ ds, d.isDigit = true)
    (hstop : ∀ c ∈ rest.head?, c.isDigit = false ∧ c ≠ '_') :
    splitGrouped Char.isDigit (ds ++ rest) = (ds, rest) := by
  induction ds with
  | nil =>
      cases rest with
      | nil => rfl
      | cons c rest =>
          obtain ⟨hdigit, hgroup⟩ := hstop c rfl
          rw [List.nil_append, splitGrouped.eq_3 _ _ _ (fun _ _ hc _ => hgroup hc),
            if_neg (by simp [hdigit])]
  | cons d ds ih =>
      have hdigit := hall d List.mem_cons_self
      have hgroup : d ≠ '_' := by
        intro hd
        rw [hd] at hdigit
        exact absurd hdigit (by decide)
      have hrest := ih fun e he => hall e (List.mem_cons_of_mem _ he)
      rw [List.cons_append, splitGrouped.eq_3 _ _ _ (fun _ _ hc _ => hgroup hc), if_pos hdigit,
        hrest]

theorem scanGroupedWhole_digits (n : Nat) (hrest : EndsTomlValue rest) :
    scanGroupedWhole (Nat.toDigits 10 n ++ rest) = some (Nat.toDigits 10 n, rest) := by
  have hstop : ∀ c ∈ rest.head?, c.isDigit = false ∧ c ≠ '_' :=
    hrest.forall_head (by decide) (by decide) (by decide)
  have hsplit := splitGrouped_append (fun d hd => isDigit_of_mem_digits (n := n) hd) hstop
  by_cases hzero : n = 0
  · rw [hzero, Nat.toDigits_zero]
    rfl
  · obtain ⟨d, ds, hds⟩ := List.exists_cons_of_ne_nil (Nat.toDigits_ne_nil (b := 10) (n := n))
    have hdigit : d.isDigit = true := isDigit_of_mem_digits (n := n) (by simp [hds])
    have hhead := head?_digits_ne_zero n (Nat.pos_of_ne_zero hzero)
    rw [hds] at hsplit hhead ⊢
    have hne : d ≠ '0' := by simpa using hhead
    rw [List.cons_append] at hsplit ⊢
    rw [scanGroupedWhole.eq_2 _ (fun _ heq => hne (List.cons.inj heq).1), scanGrouped, hsplit]
    simp [hdigit]

theorem scanTomlFraction_of_end (hrest : EndsTomlValue rest) :
    scanTomlFraction rest = some ([], rest) := by
  refine scanTomlFraction.eq_2 rest fun more heq => ?_
  exact hrest.head?_ne (c := '.') (by decide) (by rw [heq]; rfl)

theorem scanTomlExponent_of_end (hrest : EndsTomlValue rest) :
    scanTomlExponent rest = some (none, rest) := by
  have hletter : ∀ c ∈ rest.head?, ¬ (c = 'e' ∨ c = 'E') :=
    hrest.forall_head (by decide) (by decide) (by decide)
  cases rest with
  | nil => rfl
  | cons c rest =>
      rw [scanTomlExponent, if_neg (by simpa using hletter c rfl)]

/-- The digits behind a sign, as the integer with that sign. -/
theorem scanDecimalNumber_digits (sign : Option Bool) (n : Nat) (hrest : EndsTomlValue rest)
    (hsign : splitTomlSign cs = (sign, Nat.toDigits 10 n ++ rest)) :
    scanDecimalNumber cs
      = (signedInteger? (sign = some true) n).map fun k => (.integer k, rest) := by
  have hwhole := scanGroupedWhole_digits n hrest
  have hvalue : digitsValue (Nat.toDigits 10 n) = n := Nat.ofDigitChars_ten_toDigits
  unfold scanDecimalNumber
  rw [hsign]
  simp only
  split
  case h_1 more heq => exact absurd heq (digits_append_ne n (by decide) rest _)
  case h_2 more heq => exact absurd heq (digits_append_ne n (by decide) rest _)
  case h_3 =>
    simp only [hwhole, scanTomlFraction_of_end hrest, scanTomlExponent_of_end hrest,
      Option.bind_eq_bind, Option.bind_some, hvalue]
    rfl

/-- No letter of another base stands behind a zero. -/
theorem scanTomlNumber_digits (n : Nat) (hrest : EndsTomlValue rest) :
    scanTomlNumber (Nat.toDigits 10 n ++ rest)
      = (signedInteger? false n).map fun k => (.integer k, rest) := by
  have hsign : splitTomlSign (Nat.toDigits 10 n ++ rest) = (none, Nat.toDigits 10 n ++ rest) :=
    splitTomlSign.eq_3 _ (digits_append_ne n (by decide) rest) (digits_append_ne n (by decide) rest)
  have hdecimal : scanTomlNumber (Nat.toDigits 10 n ++ rest)
      = scanDecimalNumber (Nat.toDigits 10 n ++ rest) := by
    by_cases hzero : n = 0
    · have hletter : ∀ c ∈ rest.head?, literalBase? c = none :=
        hrest.forall_head (by decide) (by decide) (by decide)
      rw [hzero, Nat.toDigits_zero]
      cases rest with
      | nil => rfl
      | cons c rest =>
          have hbase := hletter c rfl
          simp only [List.singleton_append, scanTomlNumber, hbase]
    · have hhead := head?_digits_ne_zero n (Nat.pos_of_ne_zero hzero)
      obtain ⟨d, ds, hds⟩ := List.exists_cons_of_ne_nil (Nat.toDigits_ne_nil (b := 10) (n := n))
      rw [hds] at hhead ⊢
      refine scanTomlNumber.eq_2 _ fun letter more heq => hhead ?_
      rw [(List.cons.inj heq).1]
      rfl
  rw [hdecimal, scanDecimalNumber_digits none n hrest hsign]
  rfl

/-- **Every integer is read back from what is written for it.** -/
theorem scanTomlNumber_toString (n : Int64) (hrest : EndsTomlValue rest) :
    scanTomlNumber ((toString n.toInt).toList ++ rest) = some (.integer n, rest) := by
  have hleast := n.le_toInt
  have hgreatest := n.toInt_lt
  have hback := Int64.ofInt_toInt n
  cases hn : n.toInt with
  | ofNat m =>
      rw [hn] at hgreatest hback
      have hrange : m < 0x8000000000000000 := by
        rw [Int.ofNat_eq_natCast] at hgreatest
        omega
      rw [toList_toString_ofNat, scanTomlNumber_digits m hrest]
      simp only [signedInteger?, Bool.false_eq_true, if_false, if_pos hrange, Option.map_some]
      show some (TomlNumber.integer (Int64.ofInt (Int.ofNat m)), rest) = _
      rw [hback]
  | negSucc m =>
      rw [hn] at hleast hback
      have hrange : m + 1 ≤ 0x8000000000000000 := by omega
      rw [toList_toString_negSucc, List.cons_append, scanTomlNumber.eq_2 _ (by simp),
        scanDecimalNumber_digits (some true) (m + 1) hrest rfl]
      simp only [signedInteger?, decide_true, if_true, if_pos hrange, Option.map_some]
      show some (TomlNumber.integer (Int64.ofInt (Int.negSucc m)), rest) = _
      rw [hback]

theorem scanTomlDatetime_toString (n : Int64) (hrest : EndsTomlValue rest) :
    scanTomlDatetime ((toString n.toInt).toList ++ rest) = none := by
  apply scanTomlDatetime_eq_none
  cases n.toInt with
  | ofNat m =>
      right
      rw [toList_toString_ofNat, dropWhile_append_of_stop (fun c hc => isDigit_of_mem_digits hc)
        (hrest.forall_head (by decide) (by decide) (by decide))]
      exact hrest.forall_head (by decide) (by decide) (by decide)
  | negSucc m =>
      left
      rw [toList_toString_negSucc]
      rfl

end

end VariantSelection
