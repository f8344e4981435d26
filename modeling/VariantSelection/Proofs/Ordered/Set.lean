/-
What a sorted set holds.

The order of the elements is part of the type, so a set is nothing but its members:
two sets with the same members are equal (`ext`).  Whatever is collected into a set
from a list is therefore blind to the order of that list, and to how often an
element stood in it (`mem_ofList`).
-/
import VariantSelection.Ordered.Set

namespace VariantSelection

section Elements
variable {α : Type} [Ord α]

theorem ne_of_compare_lt [Std.LawfulEqOrd α] {a b : α} (h : compare a b = .lt) : a ≠ b := by
  intro hab
  have heq : compare a b = .eq := Std.LawfulEqCmp.compare_eq_iff_eq.mpr hab
  rw [heq] at h
  exact absurd h (by decide)

theorem mem_insertElement_iff [Std.LawfulEqOrd α] {a b : α} {elements : List α} :
    b ∈ insertElement a elements ↔ b = a ∨ b ∈ elements := by
  refine ⟨mem_insertElement, fun h => ?_⟩
  induction elements with
  | nil => simpa [insertElement] using h
  | cons c rest ih =>
      unfold insertElement
      split
      · simpa using h
      · -- The element is there already, under a name that compares equal.
        rename_i heq
        have hac : a = c := Std.LawfulEqCmp.eq_of_compare heq
        rcases h with rfl | h
        · simp [hac]
        · exact h
      · rcases h with rfl | h
        · exact List.mem_cons_of_mem _ (ih (Or.inl rfl))
        · rcases List.mem_cons.mp h with rfl | h
          · exact List.mem_cons_self
          · exact List.mem_cons_of_mem _ (ih (Or.inr h))

/-- A list that ascends by a key has its elements in the one order in which it
can have them. -/
theorem eq_of_ascending {β : Type} [Std.TransOrd α] [Std.LawfulEqOrd α] (key : β → α)
    {l l' : List β} (h : l.Pairwise fun a b => compare (key a) (key b) = .lt)
    (h' : l'.Pairwise fun a b => compare (key a) (key b) = .lt) (hmem : ∀ b, b ∈ l ↔ b ∈ l') :
    l = l' := by
  have hne : ∀ {a b : β}, compare (key a) (key b) = .lt → a ≠ b :=
    fun hlt hab => ne_of_compare_lt hlt (congrArg key hab)
  have hperm : l.Perm l' := (List.perm_ext_iff_of_nodup (h.imp hne) (h'.imp hne)).mpr hmem
  refine List.Perm.eq_of_pairwise (fun a b _ _ hab hba => ?_) h h' hperm
  exact absurd hba (Std.OrientedCmp.not_lt_of_lt hab)

end Elements

theorem compare_text_eq_lt_iff (s t : String) : compare s t = .lt ↔ s < t := by
  show compareOfLessAndEq s t = .lt ↔ _
  exact compareOfLessAndEq_eq_lt

namespace SortedSet

variable {α : Type} [Ord α]

theorem mem_elements {s : SortedSet α} {a : α} : a ∈ s.elements ↔ a ∈ s := Iff.rfl

theorem nodup_elements [Std.LawfulEqOrd α] (s : SortedSet α) : s.elements.Nodup :=
  s.ascending.imp ne_of_compare_lt

/-- **Sets with the same members are equal.** -/
theorem ext [Std.TransOrd α] [Std.LawfulEqOrd α] {s t : SortedSet α} (h : ∀ a, a ∈ s ↔ a ∈ t) :
    s = t := by
  have heq : s.elements = t.elements := eq_of_ascending id s.ascending t.ascending h
  cases s
  cases t
  simpa using heq

theorem eq_of_size_le {s : SortedSet α} (h : s.size ≤ 1) {a b : α} (ha : a ∈ s) (hb : b ∈ s) :
    a = b := by
  rw [← mem_elements] at ha hb
  match helements : s.elements with
  | [] =>
      rw [helements] at ha
      exact absurd ha List.not_mem_nil
  | [c] =>
      rw [helements, List.mem_singleton] at ha hb
      rw [ha, hb]
  | _ :: _ :: _ => simp [size, helements] at h

theorem isEmpty_iff {s : SortedSet α} : s.isEmpty = true ↔ ∀ a, a ∉ s := by
  rw [isEmpty, List.isEmpty_iff]
  exact List.eq_nil_iff_forall_not_mem

@[simp] theorem mem_singleton {a b : α} : b ∈ singleton a ↔ b = a := List.mem_singleton

@[simp] theorem contains_iff [Std.LawfulEqOrd α] {s : SortedSet α} {a : α} :
    s.contains a = true ↔ a ∈ s := by
  simp only [contains, List.any_eq_true, beq_iff_eq, Std.LawfulEqCmp.compare_eq_iff_eq]
  constructor
  · rintro ⟨b, hb, rfl⟩
    exact hb
  · intro h
    exact ⟨a, h, rfl⟩

section Insert
variable [Std.TransOrd α] [Std.LawfulEqOrd α]

theorem mem_insert {s : SortedSet α} {a b : α} : b ∈ s.insert a ↔ b = a ∨ b ∈ s :=
  mem_insertElement_iff

private theorem mem_foldl_insert (l : List α) :
    ∀ (s : SortedSet α) (b : α), b ∈ l.foldl insert s ↔ b ∈ s ∨ b ∈ l := by
  induction l with
  | nil => intro s b; simp
  | cons a rest ih =>
      intro s b
      rw [List.foldl_cons, ih, mem_insert, List.mem_cons]
      constructor
      · rintro ((h | h) | h)
        · exact Or.inr (Or.inl h)
        · exact Or.inl h
        · exact Or.inr (Or.inr h)
      · rintro (h | h | h)
        · exact Or.inl (Or.inr h)
        · exact Or.inl (Or.inl h)
        · exact Or.inr h

@[simp] theorem mem_ofList {l : List α} {a : α} : a ∈ ofList l ↔ a ∈ l := by
  have hempty : a ∉ (empty : SortedSet α) := List.not_mem_nil
  rw [ofList, mem_foldl_insert]
  exact ⟨fun h => h.resolve_left hempty, Or.inr⟩

end Insert

end SortedSet

end VariantSelection
