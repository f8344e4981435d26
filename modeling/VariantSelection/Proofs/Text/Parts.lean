/-
Texts of parts with colons between them.

Coordinates and capability selectors are written this way, with their own numbers of
parts.  What is said of either follows from one fact about its reader, `TakesFields`:
a text is read as something exactly where its fields are the parts of that, none of
them blank.  A reader of this kind loses nothing (`TakesFields.readsParts`), since the
fields of a text joined with colons are that text.
-/
import VariantSelection.Proofs.Text.Fields
import VariantSelection.Text

namespace VariantSelection

/-- What may stand between colons: there is no colon in it, and something else
than blanks. -/
structure IsPart (part : String) : Prop where
  colonFree : ':' ∉ part.toList
  notBlank : ∃ c ∈ part.toList, isBlank c = false

theorem isBlankText_eq_false_iff {part : String} :
    isBlankText part = false ↔ ∃ c ∈ part.toList, isBlank c = false := by
  simp [isBlankText]

section
variable {ε α : Type} {parse : String → Except ε α} {text : α → String}
  {parts : α → List String} {counts : List Nat}

/-- A reader of texts of parts and the printer beside it. -/
structure ReadsParts (parse : String → Except ε α) (text : α → String) (parts : α → List String)
    (counts : List Nat) : Prop where
  /-- What is read are the texts with a right number of parts. -/
  succeeds_iff : ∀ s, (∃ a, parse s = .ok a) ↔
    ∃ ps : List String, ps.length ∈ counts ∧ (∀ p ∈ ps, IsPart p) ∧ s = joinWith ":" ps
  text_of_parse : ∀ s a, parse s = .ok a → text a = s
  parse_text : ∀ a, (∀ p ∈ parts a, IsPart p) → parse (text a) = .ok a

/-- `parse` takes the fields of a text for the parts, unless one of them is blank. -/
structure TakesFields (parse : String → Except ε α) (parts : α → List String) : Prop where
  parse_eq_ok_iff : ∀ s a, parse s = .ok a ↔
    fields ':' s = parts a ∧ ∀ p ∈ parts a, isBlankText p = false
  parts_ne_nil : ∀ a, parts a ≠ []

theorem TakesFields.parse_eq_ok_iff_join (h : TakesFields parse parts) {s : String} {a : α} :
    parse s = .ok a ↔ (∀ p ∈ parts a, IsPart p) ∧ joinWith ":" (parts a) = s := by
  have hcolon : String.singleton ':' = ":" := rfl
  rw [h.parse_eq_ok_iff, fields_eq_iff, hcolon]
  simp only [isBlankText_eq_false_iff]
  constructor
  · intro hs
    obtain ⟨⟨-, hfree, htext⟩, hblank⟩ := hs
    exact ⟨fun p hp => ⟨hfree p hp, hblank p hp⟩, htext⟩
  · intro hs
    obtain ⟨hparts, htext⟩ := hs
    exact ⟨⟨h.parts_ne_nil a, fun p hp => (hparts p hp).colonFree, htext⟩,
      fun p hp => (hparts p hp).notBlank⟩

/-- **A reader that takes the fields for the parts reads what is written, and
nothing else.** -/
theorem TakesFields.readsParts (h : TakesFields parse parts)
    (htext : ∀ a, text a = joinWith ":" (parts a))
    (hcounts : ∀ ps : List String, ps.length ∈ counts ↔ ∃ a, parts a = ps) :
    ReadsParts parse text parts counts where
  succeeds_iff s := by
    constructor
    · intro hs
      obtain ⟨a, ha⟩ := hs
      obtain ⟨hparts, hjoin⟩ := h.parse_eq_ok_iff_join.mp ha
      exact ⟨parts a, (hcounts _).mpr ⟨a, rfl⟩, hparts, hjoin.symm⟩
    · intro hs
      obtain ⟨ps, hlength, hparts, hjoin⟩ := hs
      obtain ⟨a, rfl⟩ := (hcounts ps).mp hlength
      exact ⟨a, h.parse_eq_ok_iff_join.mpr ⟨hparts, hjoin.symm⟩⟩
  text_of_parse s a hs := by
    rw [htext]
    exact (h.parse_eq_ok_iff_join.mp hs).2
  parse_text a hparts := h.parse_eq_ok_iff_join.mpr ⟨hparts, (htext a).symm⟩

end

end VariantSelection
