/-
The laws of the comparison.

It is a preorder on what compares at all: two values that compare with a third
compare with each other, and the answers agree as those of an order do
(`Value.isPartialComparison_compare?`).  All of this is drawn from one fact, that
what wins against a value wins against everything that compares with that value and
does not win.  So the versions are looked into only to say which texts are versions
and at which place two of them part (`Value.comparesVersions_compare?`).
-/
import VariantSelection.Proofs.Except
import VariantSelection.Proofs.Rule
import VariantSelection.Proofs.Text.Fields
import VariantSelection.Proofs.Text.Numeral

namespace VariantSelection

/-! ### Versions

`WritesVersion` says what a version is without reading it, and `ComparesAs` how two
of them compare without walking along them.
-/

/-- A text for a number below 2^64: ASCII digits, with a plus sign in front of them
or without. -/
def WritesUnsigned (s : String) (n : Nat) : Prop :=
  ∃ digits : List Char, (s.toList = digits ∨ s.toList = '+' :: digits) ∧ digits ≠ [] ∧
    (∀ c ∈ digits, c.isDigit = true) ∧ Nat.ofDigitChars 10 digits 0 = n ∧ n < 0x10000000000000000

/-- A text for a list of numbers: a text for each of them, with dots between these. -/
def WritesVersion (s : String) (numbers : List Nat) : Prop :=
  ∃ segments : List String, segments ≠ [] ∧ joinWith "." segments = s ∧
    List.Forall₂ WritesUnsigned segments numbers

/-- The numbers of a version, with zeros behind them. -/
def extended (numbers : List Nat) (place : Nat) : Nat := numbers.getD place 0

/-- How `a` and `b` compare: as their numbers do at the first place where these differ. -/
def ComparesAs (a b : Nat → Nat) : Ordering → Prop
  | .lt => ∃ i, (∀ j < i, a j = b j) ∧ a i < b i
  | .eq => ∀ i, a i = b i
  | .gt => ∃ i, (∀ j < i, a j = b j) ∧ b i < a i

section
variable {s : String} {n : Nat} {numbers : List Nat} {a b : Nat → Nat} {o : Ordering}

theorem filter_natural?_eq_some_iff {digits : List Char} :
    (natural? digits).filter (· < 0x10000000000000000) = some n ↔ digits ≠ [] ∧
      (∀ c ∈ digits, c.isDigit = true) ∧ Nat.ofDigitChars 10 digits 0 = n ∧
        n < 0x10000000000000000 := by
  rw [Option.filter_eq_some_iff, natural?_eq_some_iff, decide_eq_true_iff, and_assoc, and_assoc]

/-- Digits are never a sign, so a text has no more than one reading. -/
theorem unsigned?_eq_some_iff : unsigned? s.toList = some n ↔ WritesUnsigned s n := by
  unfold unsigned? WritesUnsigned
  split
  · rename_i rest hplus
    rw [filter_natural?_eq_some_iff, hplus]
    constructor
    · intro h
      exact ⟨rest, Or.inr rfl, h⟩
    · rintro ⟨digits, heq | heq, h⟩
      · have hsign := h.2.1 '+' (heq ▸ List.mem_cons_self)
        simp at hsign
      · obtain rfl : rest = digits := by simpa using heq
        exact h
  · rename_i hplain
    rw [filter_natural?_eq_some_iff]
    constructor
    · intro h
      exact ⟨s.toList, Or.inl rfl, h⟩
    · rintro ⟨digits, heq | heq, h⟩
      · rwa [heq]
      · exact absurd heq (hplain digits)

theorem WritesUnsigned.dotFree (h : WritesUnsigned s n) : '.' ∉ s.toList := by
  obtain ⟨digits, htext, -, hdigits, -, -⟩ := h
  have hfree : '.' ∉ digits := by
    intro hdot
    have hdigit := hdigits '.' hdot
    simp at hdigit
  rcases htext with htext | htext
  · rwa [htext]
  · rw [htext]
    simpa using hfree

theorem versionSegments?_eq_some_iff :
    versionSegments? s = some numbers ↔ WritesVersion s numbers := by
  have hfields : fieldsOf '.' s.toList = (fields '.' s).map String.toList := by
    simp [fields]
  have hdot : String.singleton '.' = "." := rfl
  unfold versionSegments?
  rw [hfields, mapM_eq_some_iff, List.forall₂_map_left_iff]
  simp only [unsigned?_eq_some_iff]
  constructor
  · intro h
    obtain ⟨hsome, -, htext⟩ := fields_eq_iff.mp (Eq.refl (fields '.' s))
    exact ⟨fields '.' s, hsome, htext, h⟩
  · rintro ⟨segments, hsome, htext, h⟩
    have hfree : ∀ segment ∈ segments, '.' ∉ segment.toList := by
      intro segment hsegment
      obtain ⟨n, -, hn⟩ := exists_of_mem_right h.flip hsegment
      exact WritesUnsigned.dotFree hn
    rwa [fields_eq_iff.mpr ⟨hsome, hfree, htext⟩]

/-- Where the first numbers are the same, the others decide. -/
theorem ComparesAs.then (h : ComparesAs (fun i => a (i + 1)) (fun i => b (i + 1)) o) :
    ComparesAs a b ((compare (a 0) (b 0)).then o) := by
  cases hfirst : compare (a 0) (b 0) with
  | lt => exact ⟨0, by simp, Nat.compare_eq_lt.mp hfirst⟩
  | gt => exact ⟨0, by simp, Nat.compare_eq_gt.mp hfirst⟩
  | eq =>
      have hsame : a 0 = b 0 := Nat.compare_eq_eq.mp hfirst
      have hbelow : ∀ {i}, (∀ j < i, a (j + 1) = b (j + 1)) → ∀ j < i + 1, a j = b j := by
        intro i hi j hj
        cases j with
        | zero => exact hsame
        | succ j => exact hi j (Nat.lt_of_succ_lt_succ hj)
      cases o with
      | lt =>
          obtain ⟨i, hi, hlt⟩ := h
          exact ⟨i + 1, hbelow hi, hlt⟩
      | gt =>
          obtain ⟨i, hi, hlt⟩ := h
          exact ⟨i + 1, hbelow hi, hlt⟩
      | eq =>
          intro i
          cases i with
          | zero => exact hsame
          | succ i => exact h i

/-- **Versions compare as their numbers with zeros behind them.** -/
theorem comparesAs_compareSegments (as bs : List Nat) :
    ComparesAs (extended as) (extended bs) (compareSegments as bs) := by
  induction as, bs using compareSegments.induct with
  | case1 =>
      rw [compareSegments]
      exact fun _ => rfl
  | case2 a as ih =>
      rw [compareSegments]
      exact ComparesAs.then (a := extended (a :: as)) (b := extended []) ih
  | case3 b bs ih =>
      rw [compareSegments]
      exact ComparesAs.then (a := extended []) (b := extended (b :: bs)) ih
  | case4 a as b bs ih =>
      rw [compareSegments]
      exact ComparesAs.then (a := extended (a :: as)) (b := extended (b :: bs)) ih

end

/-! ### The laws -/

/-- The laws of a comparison that need not have an answer. -/
structure IsPartialComparison {α : Type} (cmp : α → α → Option Ordering) : Prop where
  swap : ∀ a b, cmp b a = (cmp a b).map Ordering.swap
  defined : ∀ a b c, (cmp a b).isSome → (cmp b c).isSome → (cmp a c).isSome
  less_trans : ∀ a b c, cmp a b = some .lt → cmp b c = some .lt → cmp a c = some .lt
  /-- What compares with anything is equal to itself. -/
  equal_refl : ∀ a b, (cmp a b).isSome → cmp a a = some .eq
  equal_symm : ∀ a b, cmp a b = some .eq → cmp b a = some .eq
  equal_trans : ∀ a b c, cmp a b = some .eq → cmp b c = some .eq → cmp a c = some .eq
  less_of_equal_of_less : ∀ a b c, cmp a b = some .eq → cmp b c = some .lt → cmp a c = some .lt
  less_of_less_of_equal : ∀ a b c, cmp a b = some .lt → cmp b c = some .eq → cmp a c = some .lt

/-- The comparison of texts, read off the versions that they are. -/
structure ComparesVersions (cmp : String → String → Option Ordering) : Prop where
  isSome_iff : ∀ s t, (cmp s t).isSome ↔ (∃ as, WritesVersion s as) ∧ ∃ bs, WritesVersion t bs
  comparesAs : ∀ s t as bs, WritesVersion s as → WritesVersion t bs →
    ∃ o, cmp s t = some o ∧ ComparesAs (extended as) (extended bs) o

/-- What is accepted for a value that is accepted for a third is accepted for that one. -/
def CompatibilityRule.IsChained (rule : CompatibilityRule) : Prop :=
  ∀ p q r, rule.isCompatible q p = true → rule.isCompatible r q = true →
    rule.isCompatible r p = true

namespace Value

section
variable {wins o p : Ordering} {a b c : Value}

theorem compare?_swap_of_eq_some (h : a.compare? b = some o) : b.compare? a = some o.swap := by
  rw [compare?_swap, h, Option.map_some]

theorem exists_compare?_trans (hab : a.compare? b = some o) (hbc : b.compare? c = some p) :
    ∃ t, a.compare? c = some t :=
  compare?_of_compare? hab (compare?_swap_of_eq_some hbc)

/-- Along a chain in which no value compares as `wins` with the next one, none does
with a later one. -/
theorem compare?_not_wins_trans (hwins : wins ≠ .eq) (hab : a.compare? b = some o) (ho : o ≠ wins)
    (hbc : b.compare? c = some p) (hp : p ≠ wins) : ∃ t, a.compare? c = some t ∧ t ≠ wins := by
  obtain ⟨t, ht⟩ := exists_compare?_trans hab hbc
  refine ⟨t, ht, ?_⟩
  rintro rfl
  have hwon := compare?_wins_of_not_wins hwins ht hbc hp
  rw [hab, Option.some.injEq] at hwon
  exact ho hwon

theorem isPartialComparison_compare? : IsPartialComparison compare? where
  swap a b := compare?_swap b a
  defined a b c hab hbc := by
    obtain ⟨o, ho⟩ := Option.isSome_iff_exists.mp hab
    obtain ⟨p, hp⟩ := Option.isSome_iff_exists.mp hbc
    obtain ⟨t, ht⟩ := exists_compare?_trans ho hp
    rw [ht, Option.isSome_some]
  less_trans a b c hab hbc :=
    compare?_wins_of_not_wins (by decide) hab (compare?_swap_of_eq_some hbc) (by decide)
  equal_refl a b hab := by
    obtain ⟨o, ho⟩ := Option.isSome_iff_exists.mp hab
    obtain ⟨t, ht⟩ := exists_compare?_trans ho (compare?_swap_of_eq_some ho)
    -- An answer that is its own reverse is equality.
    have hswap := compare?_swap_of_eq_some ht
    rw [ht, Option.some.injEq] at hswap
    cases t with
    | lt => cases hswap
    | eq => exact ht
    | gt => cases hswap
  equal_symm a b hab := compare?_swap_of_eq_some hab
  equal_trans a b c hab hbc := by
    have hless : Ordering.lt ≠ .eq := by decide
    have hgreater : Ordering.gt ≠ .eq := by decide
    obtain ⟨t, ht, hlt⟩ := compare?_not_wins_trans hless hab hless.symm hbc hless.symm
    obtain ⟨t', ht', hgt⟩ := compare?_not_wins_trans hgreater hab hgreater.symm hbc hgreater.symm
    rw [ht, Option.some.injEq] at ht'
    subst ht'
    cases t with
    | lt => exact absurd rfl hlt
    | eq => exact ht
    | gt => exact absurd rfl hgt
  less_of_equal_of_less a b c hab hbc := by
    have hca : c.compare? a = some .gt :=
      compare?_wins_of_not_wins (by decide) (compare?_swap_of_eq_some hbc) hab (by decide)
    exact compare?_swap_of_eq_some hca
  less_of_less_of_equal a b c hab hbc :=
    compare?_wins_of_not_wins (by decide) hab (compare?_swap_of_eq_some hbc) (by decide)

theorem comparesVersions_compare? :
    ComparesVersions fun s t => (Value.string s).compare? (.string t) where
  isSome_iff s t := by
    show (compareVersions? s t).isSome = true ↔ _
    simp only [Option.isSome_iff_exists, compareVersions?_eq_some_iff,
      versionSegments?_eq_some_iff]
    constructor
    · rintro ⟨_, as, bs, has, hbs, -⟩
      exact ⟨⟨as, has⟩, bs, hbs⟩
    · rintro ⟨⟨as, has⟩, bs, hbs⟩
      exact ⟨_, as, bs, has, hbs, rfl⟩
  comparesAs s t as bs has hbs := by
    refine ⟨compareSegments as bs, compareVersions?_eq_some_iff.mpr ⟨as, bs, ?_, ?_, rfl⟩,
      comparesAs_compareSegments as bs⟩
    · exact versionSegments?_eq_some_iff.mpr has
    · exact versionSegments?_eq_some_iff.mpr hbs

theorem compare?_eq_none_of_type_ne (h : a.type ≠ b.type) : a.compare? b = none := by
  fun_cases compare? a b with
  | case1 x y => exact absurd rfl h
  | case2 x y => exact absurd rfl h
  | case3 x y => exact absurd rfl h
  | case4 => rfl

end

end Value

/-! ### Chains

Both rules accept the value itself and what does not win against it, so
`isChained_of_not_wins` covers the two.
-/

namespace CompatibilityRule

/-- A rule that accepts the value itself and what does not win against it. -/
theorem isChained_of_not_wins {rule : CompatibilityRule} (accepted : Ordering → Bool)
    (wins : Ordering) (hwins : wins ≠ .eq) (haccepted : ∀ o, accepted o = true ↔ o ≠ wins)
    (h : ∀ requested provided, rule.isCompatible requested provided =
      (decide (requested = provided) || match provided.compare? requested with
        | some o => accepted o
        | none => false)) :
    rule.IsChained := by
  have hrule (requested provided : Value) : rule.isCompatible requested provided = true ↔
      requested = provided ∨ ∃ o, provided.compare? requested = some o ∧ o ≠ wins := by
    rw [h, Bool.or_eq_true, decide_eq_true_eq]
    cases provided.compare? requested with
    | none => simp
    | some o => simp [haccepted]
  intro p q r hpq hqr
  rw [hrule] at hpq hqr ⊢
  rcases hpq with rfl | ⟨o, hpq, ho⟩
  · exact hqr
  · rcases hqr with rfl | ⟨t, hqr, ht⟩
    · exact Or.inr ⟨o, hpq, ho⟩
    · exact Or.inr (Value.compare?_not_wins_trans hwins hpq ho hqr ht)

theorem isChained_atLeast : atLeast.IsChained :=
  isChained_of_not_wins Ordering.isGE .lt (by decide) (fun o => by cases o <;> decide)
    fun _ _ => rfl

theorem isChained_atMost : atMost.IsChained :=
  isChained_of_not_wins Ordering.isLE .gt (by decide) (fun o => by cases o <;> decide)
    fun _ _ => rfl

end CompatibilityRule

/-- **The comparison is lawful.**  It obeys the laws of a partial comparison; texts
compare if both are versions, and then as their numbers do, the shorter list going
on with zeros; values of two types never compare.  So the rules that ask for at
least or at most a value can be followed from one value to the next. -/
theorem compare?_lawful :
    IsPartialComparison Value.compare? ∧
      (ComparesVersions fun s t => (Value.string s).compare? (.string t)) ∧
      (∀ a b : Value, a.type ≠ b.type → a.compare? b = none) ∧
      CompatibilityRule.atLeast.IsChained ∧ CompatibilityRule.atMost.IsChained :=
  ⟨Value.isPartialComparison_compare?, Value.comparesVersions_compare?,
    fun _ _ => Value.compare?_eq_none_of_type_ne, CompatibilityRule.isChained_atLeast,
    CompatibilityRule.isChained_atMost⟩

example : (Value.string "9.10").compare? (.string "+010") = some .lt := by cbv

example : (Value.string "1.").compare? (.string "1.") = none := by cbv

end VariantSelection
