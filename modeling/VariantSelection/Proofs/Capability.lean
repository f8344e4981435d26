/-
What a selector says, and what it selects.

A selector is written like a coordinate, but its version may be left out.  It is
read as it is written in either form, and so is a coordinate: both are `ReadsParts`,
with three parts or with two or three.  A capability is written like a coordinate
too, so its text is that of a selector, `Capability.exactSelector`, which selects
the one capability; the group and the name alone are that of another,
`Capability.anySelector`, which selects every version of it.
-/
import Mathlib.Data.List.Basic
import VariantSelection.Capability
import VariantSelection.Proofs.Coordinate

namespace VariantSelection

namespace CapabilitySelector

variable {s : CapabilitySelector} {t : String}

/-- The parts of a selector, in the order in which they are written. -/
def parts (s : CapabilitySelector) : List String := s.group :: s.name :: s.version.toList

theorem text_eq (s : CapabilitySelector) : s.text = joinWith ":" s.parts := by
  rw [← String.toList_inj]
  cases hversion : s.version with
  | none => simp [text, parts, joinWith, hversion, toString]
  | some version => simp [text, parts, joinWith, hversion, toString]

theorem parse_eq_ok_iff :
    parse t = .ok s ↔ fields ':' t = s.parts ∧ ∀ p ∈ s.parts, isBlankText p = false := by
  unfold parse
  by_cases hblank : (fields ':' t).any isBlankText = true
  · rw [if_pos hblank]
    constructor
    · intro h
      simp at h
    · intro h
      obtain ⟨hfields, hparts⟩ := h
      obtain ⟨p, hp, hpblank⟩ := List.any_eq_true.mp hblank
      rw [hfields] at hp
      simp [hparts p hp] at hpblank
  · rw [if_neg hblank]
    have hparts : ∀ p ∈ fields ':' t, isBlankText p = false := by
      simpa using hblank
    constructor
    · intro h
      split at h
      case h_1 group name hfields =>
        rw [Except.ok.injEq] at h
        exact ⟨by simp [← h, hfields, parts], by simpa [← h, hfields, parts] using hparts⟩
      case h_2 group name version hfields =>
        rw [Except.ok.injEq] at h
        exact ⟨by simp [← h, hfields, parts], by simpa [← h, hfields, parts] using hparts⟩
      case h_3 => simp at h
    · intro h
      rw [h.1]
      obtain ⟨group, name, version⟩ := s
      cases version with
      | none => rfl
      | some version => rfl

theorem takesFields : TakesFields parse parts where
  parse_eq_ok_iff _ _ := parse_eq_ok_iff
  parts_ne_nil _ := List.cons_ne_nil _ _

theorem exists_parts_eq_iff {ps : List String} :
    ps.length ∈ [2, 3] ↔ ∃ s : CapabilitySelector, s.parts = ps := by
  constructor
  · intro h
    simp only [List.mem_cons, List.not_mem_nil, or_false] at h
    rcases h with h | h
    · obtain ⟨group, name, rfl⟩ := List.length_eq_two.mp h
      exact ⟨⟨group, name, none⟩, rfl⟩
    · obtain ⟨group, name, version, rfl⟩ := List.length_eq_three.mp h
      exact ⟨⟨group, name, some version⟩, rfl⟩
  · intro h
    obtain ⟨s, rfl⟩ := h
    cases hversion : s.version with
    | none => simp [parts, hversion]
    | some version => simp [parts, hversion]

theorem readsParts : ReadsParts parse text parts [2, 3] :=
  takesFields.readsParts text_eq fun _ => exists_parts_eq_iff

/-! ### Selecting

A selector without a version says nothing about it.  `selects_iff` spells out what
is left to say, and the two selectors of a capability are instances of it.
-/

theorem selects_iff {c : Capability} :
    s.selects c = true ↔
      s.group = c.group ∧ s.name = c.name ∧
        ∀ version, s.version = some version → version = c.version := by
  unfold selects
  cases s.version with
  | none => simp
  | some version => simp [and_assoc]

end CapabilitySelector

namespace Capability

variable (c : Capability)

/-- The selector of one version of a capability. -/
def exactSelector : CapabilitySelector := ⟨c.group, c.name, some c.version⟩

/-- The selector of all versions of a capability. -/
def anySelector : CapabilitySelector := ⟨c.group, c.name, none⟩

theorem selects_exactSelector {other : Capability} :
    c.exactSelector.selects other = true ↔ other = c := by
  rw [CapabilitySelector.selects_iff, eq_comm (a := other)]
  cases c
  cases other
  simp [exactSelector]

theorem selects_anySelector {other : Capability} :
    c.anySelector.selects other = true ↔ other.group = c.group ∧ other.name = c.name := by
  rw [CapabilitySelector.selects_iff, eq_comm (a := other.group), eq_comm (a := other.name)]
  simp [anySelector]

end Capability

/-- **Coordinates and selectors are read exactly as they are written.**  Three parts
are a coordinate, two or three parts a selector; and what is written of a capability
is read as the selector of it. -/
theorem parts_read_exactly :
    ReadsParts Coordinate.parse Coordinate.text Coordinate.parts [3] ∧
    ReadsParts CapabilitySelector.parse CapabilitySelector.text CapabilitySelector.parts [2, 3] ∧
    ∀ c : Capability, IsPart c.group → IsPart c.name → IsPart c.version →
      (∃ s, CapabilitySelector.parse c.text = .ok s ∧ ∀ other, s.selects other = true ↔ other = c) ∧
      ∃ s, CapabilitySelector.parse (c.group ++ ":" ++ c.name) = .ok s ∧
        ∀ other, s.selects other = true ↔ other.group = c.group ∧ other.name = c.name := by
  refine ⟨Coordinate.readsParts, CapabilitySelector.readsParts, ?_⟩
  intro c hgroup hname hversion
  have hexact : CapabilitySelector.parse c.exactSelector.text = .ok c.exactSelector :=
    CapabilitySelector.readsParts.parse_text _
      (by simp [CapabilitySelector.parts, Capability.exactSelector, hgroup, hname, hversion])
  have hany : CapabilitySelector.parse c.anySelector.text = .ok c.anySelector :=
    CapabilitySelector.readsParts.parse_text _
      (by simp [CapabilitySelector.parts, Capability.anySelector, hgroup, hname])
  exact ⟨⟨c.exactSelector, hexact, fun _ => c.selects_exactSelector⟩,
    c.anySelector, hany, fun _ => c.selects_anySelector⟩

/-- Blanks within a part or at its ends belong to it. -/
theorem parts_read_exactly_fixtures :
    IsPart "org.example" ∧ IsPart "test fixtures" ∧ IsPart " 1.0" ∧
    (∃ s, CapabilitySelector.parse "org.example:test fixtures: 1.0" = .ok s ∧
      ∀ other, s.selects other = true ↔ other = ⟨"org.example", "test fixtures", " 1.0"⟩) ∧
    ∃ s, CapabilitySelector.parse "org.example:test fixtures" = .ok s ∧
      ∀ other, s.selects other = true ↔
        other.group = "org.example" ∧ other.name = "test fixtures" := by
  have hgroup : IsPart "org.example" := ⟨by decide, isBlankText_eq_false_iff.mp (by decide)⟩
  have hname : IsPart "test fixtures" := ⟨by decide, isBlankText_eq_false_iff.mp (by decide)⟩
  have hversion : IsPart " 1.0" := ⟨by decide, isBlankText_eq_false_iff.mp (by decide)⟩
  obtain ⟨-, -, hselectors⟩ := parts_read_exactly
  obtain ⟨hexact, hany⟩ :=
    hselectors ⟨"org.example", "test fixtures", " 1.0"⟩ hgroup hname hversion
  exact ⟨hgroup, hname, hversion, hexact, hany⟩

end VariantSelection
