/-
Reading back what is written.

An integer is written in decimal digits, with a minus sign in front of them when it
is negative.  None of these characters is blank, so trimming leaves them all
(`trimChars_toString`), and the numeral that is left stands for the integer that was
written (`integer?_toString`).  This is so at both ends of the range: the digits of
the least integer stand for a number that is itself out of range, and only the sign
in front of them admits it.
-/
import VariantSelection.Text

namespace VariantSelection

/-! ### Trimming -/

theorem isBlank_of_isDigit {c : Char} (h : c.isDigit = true) : isBlank c = false := by
  simp only [Char.isDigit, Bool.and_eq_true, decide_eq_true_eq, ge_iff_le,
    UInt32.le_iff_toNat_le] at h
  obtain ⟨hlow, hhigh⟩ := h
  have hlow' : 48 ≤ c.toNat := hlow
  have hhigh' : c.toNat ≤ 57 := hhigh
  simp [isBlank, blankRanges]
  omega

theorem dropWhile_isBlank_of_forall {cs : List Char} (h : ∀ c ∈ cs, isBlank c = false) :
    cs.dropWhile isBlank = cs := by
  cases cs with
  | nil => rfl
  | cons c rest => rw [List.dropWhile_cons, h c List.mem_cons_self]; rfl

/-- Where nothing is blank, nothing is trimmed. -/
theorem trimChars_of_forall {cs : List Char} (h : ∀ c ∈ cs, isBlank c = false) :
    trimChars cs = cs := by
  have hreverse : ∀ c ∈ cs.reverse, isBlank c = false := by
    intro c hc
    exact h c (List.mem_reverse.mp hc)
  rw [trimChars, dropWhile_isBlank_of_forall h, dropWhile_isBlank_of_forall hreverse,
    List.reverse_reverse]

/-! ### Digits -/

theorem isDigit_of_mem_digits {n : Nat} {c : Char} (h : c ∈ Nat.toDigits 10 n) :
    c.isDigit = true :=
  Nat.isDigit_of_mem_toDigits (by decide) (by decide) h

/-- The digits of a number stand for that number. -/
theorem natural?_digits (n : Nat) : natural? (Nat.toDigits 10 n) = some n := by
  have hsome : (Nat.toDigits 10 n).isEmpty = false := by
    simp [Nat.toDigits_ne_nil]
  have hall : (Nat.toDigits 10 n).all Char.isDigit = true := by
    rw [List.all_eq_true]
    intro c hc
    exact isDigit_of_mem_digits hc
  have hvalue : digitsValue (Nat.toDigits 10 n) = n := Nat.ofDigitChars_ten_toDigits
  rw [natural?, hsome, hall, hvalue]
  rfl

theorem natural?_eq_some_iff {cs : List Char} {n : Nat} :
    natural? cs = some n ↔
      cs ≠ [] ∧ (∀ c ∈ cs, c.isDigit = true) ∧ Nat.ofDigitChars 10 cs 0 = n := by
  have hvalue : digitsValue cs = Nat.ofDigitChars 10 cs 0 := rfl
  unfold natural?
  rw [hvalue, Option.ite_none_right_eq_some, Option.some.injEq]
  simp [and_assoc]

/-- Digits without a sign are read as a number that is not negative. -/
theorem integer?_of_digits {cs : List Char} (h : ∀ c ∈ cs, c.isDigit = true) :
    integer? cs
      = ((natural? cs).filter (· < 0x8000000000000000)).map fun n => Int64.ofInt n := by
  unfold integer?
  split
  · have hminus := h '-' List.mem_cons_self
    simp at hminus
  · have hplus := h '+' List.mem_cons_self
    simp at hplus
  · rfl

/-! ### Integers -/

theorem toList_toString_ofNat (m : Nat) :
    (toString (Int.ofNat m)).toList = Nat.toDigits 10 m := by
  show m.repr.toList = _
  exact Nat.toList_repr

theorem toList_toString_negSucc (m : Nat) :
    (toString (Int.negSucc m)).toList = '-' :: Nat.toDigits 10 (m + 1) := by
  show ("-" ++ (m + 1).repr).toList = _
  rw [String.toList_append, Nat.toList_repr]
  rfl

/-- **Every integer is read back from what is written for it.** -/
theorem integer?_toString (n : Int64) : integer? (toString n.toInt).toList = some n := by
  have hleast := n.le_toInt
  have hgreatest := n.toInt_lt
  have hback := Int64.ofInt_toInt n
  cases hn : n.toInt with
  | ofNat m =>
      rw [hn] at hgreatest hback
      have hrange : m < 0x8000000000000000 := by
        rw [Int.ofNat_eq_natCast] at hgreatest
        omega
      rw [toList_toString_ofNat, integer?_of_digits fun c hc => isDigit_of_mem_digits hc,
        natural?_digits, Option.filter_some, if_pos (by simpa using hrange)]
      show some (Int64.ofInt (Int.ofNat m)) = some n
      rw [hback]
  | negSucc m =>
      rw [hn] at hleast hback
      have hrange : m + 1 ≤ 0x8000000000000000 := by omega
      rw [toList_toString_negSucc]
      simp only [integer?]
      rw [natural?_digits, Option.filter_some, if_pos (by simpa using hrange)]
      show some (Int64.ofInt (Int.negSucc m)) = some n
      rw [hback]

/-- What is written for an integer has no blanks around it. -/
theorem trimChars_toString (n : Int64) :
    trimChars (toString n.toInt).toList = (toString n.toInt).toList := by
  refine trimChars_of_forall fun c hc => ?_
  cases hn : n.toInt with
  | ofNat m =>
      rw [hn, toList_toString_ofNat] at hc
      exact isBlank_of_isDigit (isDigit_of_mem_digits hc)
  | negSucc m =>
      rw [hn, toList_toString_negSucc] at hc
      rcases List.mem_cons.mp hc with rfl | hdigit
      · decide
      · exact isBlank_of_isDigit (isDigit_of_mem_digits hdigit)

end VariantSelection
