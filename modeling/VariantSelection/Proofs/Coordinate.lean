/-
Coordinates are read as they are written.

A coordinate is read from the three fields of its text, and they are its parts
(`takesFields`).  So a text that is read is the text of what was read, and a
coordinate whose parts have no colons and are not blank is read back: it is one of
the kinds of text that `ReadsParts` is about.
-/
import Mathlib.Data.List.Basic
import VariantSelection.Coordinate
import VariantSelection.Proofs.Text.Parts

namespace VariantSelection

namespace Coordinate

variable {c : Coordinate} {s : String}

def parts (c : Coordinate) : List String := [c.group, c.name, c.version]

theorem text_eq (c : Coordinate) : c.text = joinWith ":" c.parts := by
  rw [← String.toList_inj]
  simp [text, parts, joinWith, toString]

theorem parse_eq_ok_iff :
    parse s = .ok c ↔ fields ':' s = c.parts ∧ ∀ p ∈ c.parts, isBlankText p = false := by
  constructor
  · intro h
    unfold parse at h
    split at h
    case h_1 group name version hfields =>
      by_cases hgroup : isBlankText group = true
      · simp [hgroup] at h
      by_cases hname : isBlankText name = true
      · simp [hgroup, hname] at h
      by_cases hversion : isBlankText version = true
      · simp [hgroup, hname, hversion] at h
      rw [if_neg hgroup, if_neg hname, if_neg hversion, Except.ok.injEq] at h
      simp [← h, parts, hfields, hgroup, hname, hversion]
    case h_2 => simp at h
  · intro h
    obtain ⟨hfields, hblank⟩ := h
    simp only [parts, List.forall_mem_cons] at hblank
    obtain ⟨hgroup, hname, hversion, -⟩ := hblank
    rw [parse, hfields]
    simp [parts, hgroup, hname, hversion]

theorem takesFields : TakesFields parse parts where
  parse_eq_ok_iff _ _ := parse_eq_ok_iff
  parts_ne_nil _ := List.cons_ne_nil _ _

theorem exists_parts_eq_iff {ps : List String} :
    ps.length ∈ [3] ↔ ∃ c : Coordinate, c.parts = ps := by
  constructor
  · intro h
    obtain ⟨group, name, version, rfl⟩ := List.length_eq_three.mp (List.mem_singleton.mp h)
    exact ⟨⟨group, name, version⟩, rfl⟩
  · intro h
    obtain ⟨c, rfl⟩ := h
    simp [parts]

theorem readsParts : ReadsParts parse text parts [3] :=
  takesFields.readsParts text_eq fun _ => exists_parts_eq_iff

/-- **A coordinate that was read is read back from its text.** -/
theorem parse_text (h : parse s = .ok c) : parse c.text = .ok c := by
  rwa [readsParts.text_of_parse s c h]

end Coordinate

end VariantSelection
