/-
Pairs of rules under which the requested value wins.

A compatibility rule and the disambiguation rule beside it may disagree: what the
first lets through, the second may prefer to the value that was asked for.  They
agree about a value when, shown any set of acceptable values that has it, the second
keeps it alone; that is `KeepsExact`.  There are four ways to agree, and each is
about one thing: nothing else is acceptable (`keepsExact_of_only`), the requested
value is preferred by name (`keepsExact_preferRequested`), it stands first in the
list (`keepsExact_ordered_head`), or it is the least of what is at least itself
(`keepsExact_atLeast`).
-/
import VariantSelection.Proofs.Rule

namespace VariantSelection

/-- Among the values that are acceptable for `wanted`, the preferred one is
`wanted` itself. -/
def KeepsExact (compatibility : CompatibilityRule) (disambiguation : DisambiguationRule)
    (wanted : Value) : Prop :=
  ∀ values : SortedSet Value, wanted ∈ values →
    (∀ a ∈ values, compatibility.isCompatible wanted a = true) →
      disambiguation.preferred (some wanted) values = .singleton wanted

section
variable {compatibility : CompatibilityRule} {disambiguation : DisambiguationRule} {wanted : Value}

/-- A value without substitutes needs no preference. -/
theorem keepsExact_of_only (h : disambiguation.BuiltIn)
    (honly : ∀ a, compatibility.isCompatible wanted a = true → a = wanted) :
    KeepsExact compatibility disambiguation wanted := by
  intro values hmem hall
  have hvalues : values = .singleton wanted := by
    refine SortedSet.ext fun a => ?_
    rw [SortedSet.mem_singleton]
    constructor
    · intro ha
      exact honly a (hall a ha)
    · rintro rfl
      exact hmem
  rcases DisambiguationRule.preferred_cases h (some wanted) values with heq | ⟨a, ha, heq⟩
  · rw [heq, hvalues]
  · rw [hvalues, SortedSet.mem_singleton] at ha
    rw [heq, ha]

theorem keepsExact_exact (h : disambiguation.BuiltIn) :
    KeepsExact .exact disambiguation wanted := by
  refine keepsExact_of_only h fun a ha => ?_
  simp only [CompatibilityRule.isCompatible, Bool.or_false, decide_eq_true_eq] at ha
  exact ha.symm

/-- Nothing but the value itself is accepted for a value that the table does not list. -/
theorem keepsExact_accepts_of_unlisted {table : SortedMap Value (SortedSet Value)}
    (h : disambiguation.BuiltIn) (hunlisted : table.get? wanted = none) :
    KeepsExact (.accepts table) disambiguation wanted := by
  refine keepsExact_of_only h fun a ha => ?_
  simp only [CompatibilityRule.isCompatible, hunlisted, Bool.or_false, decide_eq_true_eq] at ha
  exact ha.symm

theorem keepsExact_preferRequested : KeepsExact compatibility .preferRequested wanted := by
  intro values hmem _
  simp only [DisambiguationRule.preferred, if_pos (SortedSet.contains_iff.mpr hmem)]

theorem keepsExact_ordered_head (others : List Value) :
    KeepsExact compatibility (.ordered (wanted :: others)) wanted := by
  intro values hmem _
  have hhead : (wanted :: others).find? values.contains = some wanted :=
    List.find?_cons_of_pos (SortedSet.contains_iff.mpr hmem)
  simp only [DisambiguationRule.preferred, hhead]

/-- **The least of the integers that are at least the requested one is the requested
one.**  This is said of integers only: "1" and "1.0" are different texts that
compare equal, and the one that is read first wins. -/
theorem keepsExact_atLeast (n : Int64) : KeepsExact .atLeast .preferLowest (.integer n) := by
  intro values hmem hall
  have hge : ∀ a ∈ values, ∃ m, a = .integer m ∧ n ≤ m :=
    fun a ha => CompatibilityRule.isCompatible_atLeast_integer_iff.mp (hall a ha)
  obtain ⟨least, hkept, hleast, hle⟩ := exists_extreme_lt_integer
    (fun a ha => (hge a ha).imp fun _ => And.left) (List.ne_nil_of_mem hmem)
  obtain ⟨m, hm, hnm⟩ := hge _ hleast
  rw [Value.integer.injEq] at hm
  have heq : least = n := Int64.le_antisymm (hle n hmem) (hm ▸ hnm)
  rw [← heq]
  exact hkept

end

end VariantSelection
