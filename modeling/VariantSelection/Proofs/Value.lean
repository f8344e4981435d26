/-
The comparison that rules consult, and the type that a conversion gives.

It is partial, and where it answers it is an order that ties may occur in: "1" and
"1.0" are different values that compare equal.  What the rules need of it is said of
one direction `wins` at a time, so that the least and the greatest value are one
case: a value that wins against another also wins against everything that does not
win against that other (`Value.compare?_wins_of_not_wins`).
-/
import VariantSelection.Attribute.Value

namespace VariantSelection

/-! ### Dotted versions

Versions of different lengths are compared as if the shorter one went on with zeros,
so `compareSegments` is an order in spite of its uneven cases.
-/

/-- A version goes on with zeros, so `headD 0` and `tail` can be taken whatever
its length is. -/
theorem compareSegments_eq (as bs : List Nat) :
    compareSegments as bs
      = (compare (as.headD 0) (bs.headD 0)).then (compareSegments as.tail bs.tail) := by
  cases as with
  | nil =>
      cases bs with
      | nil => simp [compareSegments]
      | cons b bs => simp [compareSegments]
  | cons a as =>
      cases bs with
      | nil => simp [compareSegments]
      | cons b bs => simp [compareSegments]

theorem compareSegments_swap (as bs : List Nat) :
    compareSegments as bs = (compareSegments bs as).swap := by
  induction as, bs using compareSegments.induct with
  | case1 => simp [compareSegments]
  | case2 a as ih =>
      rw [compareSegments, compareSegments, Ordering.swap_then, ih, Nat.compare_swap]
  | case3 b bs ih =>
      rw [compareSegments, compareSegments, Ordering.swap_then, ih, Nat.compare_swap]
  | case4 a as b bs ih =>
      rw [compareSegments, compareSegments, Ordering.swap_then, ih, Nat.compare_swap]

private theorem isLE_then_trans {a b c : Nat} {x y z : Ordering} (hxyz : x.isLE → y.isLE → z.isLE)
    (hab : ((compare a b).then x).isLE) (hbc : ((compare b c).then y).isLE) :
    ((compare a c).then z).isLE := by
  rw [Ordering.isLE_then_iff_or, Nat.compare_eq_lt, Nat.compare_eq_eq] at *
  rcases hab with hab | ⟨rfl, hx⟩
  · rcases hbc with hbc | ⟨rfl, -⟩
    · exact Or.inl (Nat.lt_trans hab hbc)
    · exact Or.inl hab
  · rcases hbc with hbc | ⟨rfl, hy⟩
    · exact Or.inl hbc
    · exact Or.inr ⟨rfl, hxyz hx hy⟩

/-- The induction is on a bound `n` of the lengths, since the shorter of two
versions ends first. -/
private theorem compareSegments_isLE_trans (n : Nat) :
    ∀ as bs cs : List Nat, as.length ≤ n → bs.length ≤ n → cs.length ≤ n →
      (compareSegments as bs).isLE → (compareSegments bs cs).isLE →
        (compareSegments as cs).isLE := by
  induction n with
  | zero =>
      intro as bs cs has _ hcs _ _
      rw [List.length_eq_zero_iff.mp (Nat.le_zero.mp has),
        List.length_eq_zero_iff.mp (Nat.le_zero.mp hcs)]
      simp [compareSegments]
  | succ n ih =>
      intro as bs cs has hbs hcs hab hbc
      have htail : ∀ l : List Nat, l.length ≤ n + 1 → l.tail.length ≤ n := by
        intro l hl
        rw [List.length_tail]
        omega
      rw [compareSegments_eq] at hab hbc ⊢
      exact isLE_then_trans
        (ih as.tail bs.tail cs.tail (htail as has) (htail bs hbs) (htail cs hcs))
        hab hbc

instance : Std.TransCmp compareSegments where
  eq_swap := compareSegments_swap _ _
  isLE_trans {as bs cs} hab hbc := by
    let n := max as.length (max bs.length cs.length)
    exact compareSegments_isLE_trans n as bs cs (by omega) (by omega) (by omega) hab hbc

theorem compareVersions?_eq_some_iff {a b : String} {o : Ordering} :
    compareVersions? a b = some o ↔
      ∃ as bs, versionSegments? a = some as ∧ versionSegments? b = some bs ∧
        compareSegments as bs = o := by
  unfold compareVersions?
  cases versionSegments? a with
  | none => simp
  | some as =>
      cases versionSegments? b with
      | none => simp
      | some bs => simp

/-! ### Winning a comparison

`wins_of_wins_of_not_wins` is about any order.  Below it the same is said of values,
as far as these compare.
-/

section Wins
variable {α : Type} {cmp : α → α → Ordering} [Std.TransCmp cmp] {wins : Ordering}

theorem wins_of_wins_of_not_wins (hwins : wins ≠ .eq) {a b c : α} (hab : cmp a b = wins)
    (hcb : cmp c b ≠ wins) : cmp a c = wins := by
  cases wins with
  | eq => exact absurd rfl hwins
  | lt =>
      have hbc : (cmp b c).isLE := by
        have hswap : cmp b c = (cmp c b).swap := Std.OrientedCmp.eq_swap
        cases hcb' : cmp c b <;> simp_all
      exact Std.TransCmp.lt_of_lt_of_isLE hab hbc
  | gt =>
      have hbc : (cmp b c).isGE := by
        have hswap : cmp b c = (cmp c b).swap := Std.OrientedCmp.eq_swap
        cases hcb' : cmp c b <;> simp_all
      exact Std.TransCmp.gt_of_gt_of_isGE hab hbc

end Wins

namespace Value

variable {wins : Ordering}

/-- What wins against `b` wins against everything that compares with `b` and
does not win. -/
theorem compare?_wins_of_not_wins (hwins : wins ≠ .eq) {a b c : Value} {o : Ordering}
    (hab : a.compare? b = some wins) (hcb : c.compare? b = some o) (ho : o ≠ wins) :
    a.compare? c = some wins := by
  cases b with
  | boolean b =>
      cases a <;> cases c <;> simp only [compare?, Option.some.injEq, reduceCtorEq] at hab hcb
      rw [compare?, wins_of_wins_of_not_wins hwins hab (hcb ▸ ho)]
  | integer b =>
      cases a <;> cases c <;> simp only [compare?, Option.some.injEq, reduceCtorEq] at hab hcb
      rw [compare?, wins_of_wins_of_not_wins hwins hab (hcb ▸ ho)]
  | string b =>
      cases a <;> cases c <;> simp only [compare?, reduceCtorEq] at hab hcb
      obtain ⟨as, bs, has, hbs, hwon⟩ := compareVersions?_eq_some_iff.mp hab
      obtain ⟨cs, bs', hcs, hbs', hlost⟩ := compareVersions?_eq_some_iff.mp hcb
      rw [hbs, Option.some.injEq] at hbs'
      subst hbs'
      refine compareVersions?_eq_some_iff.mpr ⟨as, cs, has, hcs, ?_⟩
      exact wins_of_wins_of_not_wins hwins hwon (hlost ▸ ho)

theorem compare?_swap (a b : Value) : a.compare? b = (b.compare? a).map Ordering.swap := by
  cases a with
  | boolean a =>
      cases b <;> simp only [compare?, Option.map_none, Option.map_some]
      rw [Std.OrientedOrd.eq_swap]
  | integer a =>
      cases b <;> simp only [compare?, Option.map_none, Option.map_some]
      rw [Std.OrientedOrd.eq_swap]
  | string a =>
      cases b <;> simp only [compare?, Option.map_none]
      unfold compareVersions?
      rename_i b
      cases versionSegments? a with
      | none => cases versionSegments? b <;> rfl
      | some as =>
          cases versionSegments? b with
          | none => rfl
          | some bs => simp only [Option.map_some, ← compareSegments_swap]

/-- Values that compare with one value compare with each other. -/
theorem compare?_of_compare? {a b c : Value} {o p : Ordering} (hac : a.compare? c = some o)
    (hbc : b.compare? c = some p) : ∃ t, a.compare? b = some t := by
  cases c with
  | boolean c =>
      cases a <;> cases b <;> simp only [compare?, reduceCtorEq] at hac hbc
      exact ⟨_, rfl⟩
  | integer c =>
      cases a <;> cases b <;> simp only [compare?, reduceCtorEq] at hac hbc
      exact ⟨_, rfl⟩
  | string c =>
      cases a <;> cases b <;> simp only [compare?, reduceCtorEq] at hac hbc
      obtain ⟨as, cs, has, -, -⟩ := compareVersions?_eq_some_iff.mp hac
      obtain ⟨bs, cs', hbs, -, -⟩ := compareVersions?_eq_some_iff.mp hbc
      exact ⟨_, compareVersions?_eq_some_iff.mpr ⟨as, bs, has, hbs, rfl⟩⟩

theorem compare?_not_wins_of_wins (hwins : wins ≠ .eq) {a b : Value}
    (hab : a.compare? b = some wins) : b.compare? a ≠ some wins := by
  rw [compare?_swap, hab]
  cases wins with
  | eq => exact absurd rfl hwins
  | lt => decide
  | gt => decide

/-! ### Conversion -/

theorem type_of_coerce?_eq_some {v w : Value} {t : ValueType} (h : v.coerce? t = some w) :
    w.type = t := by
  cases t with
  | string => cases v <;> cases h <;> rfl
  | integer =>
      cases v with
      | boolean b => cases h
      | integer n =>
          cases h
          rfl
      | string s =>
          obtain ⟨n, -, rfl⟩ := Option.map_eq_some_iff.mp h
          rfl
  | boolean =>
      cases v with
      | boolean b =>
          cases h
          rfl
      | integer n => cases h
      | string s =>
          simp only [coerce?] at h
          split at h <;> cases h <;> rfl

end Value

end VariantSelection
