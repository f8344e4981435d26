/-
Finite sets as strictly ascending lists, beside the maps of `Ordered/Map.lean`:
equal sets are equal lists, and the order of the elements is the order in which they
are read and printed.
-/

namespace VariantSelection

/-- A set of finitely many elements of `α`. -/
structure SortedSet (α : Type) [Ord α] where
  elements : List α
  ascending : elements.Pairwise fun a b => compare a b = .lt

/-- Puts `a` in its place, unless it is there already. -/
def insertElement {α : Type} [Ord α] (a : α) : List α → List α
  | [] => [a]
  | b :: rest =>
    match compare a b with
    | .lt => a :: b :: rest
    | .eq => b :: rest
    | .gt => b :: insertElement a rest

section Elements
variable {α : Type} [Ord α]

theorem mem_insertElement {a b : α} {elements : List α} (h : b ∈ insertElement a elements) :
    b = a ∨ b ∈ elements := by
  induction elements with
  | nil => simpa [insertElement] using h
  | cons c rest ih =>
    unfold insertElement at h
    split at h <;> grind

theorem ascending_insertElement [Std.TransOrd α] (a : α) {elements : List α}
    (h : elements.Pairwise fun a b => compare a b = .lt) :
    (insertElement a elements).Pairwise fun a b => compare a b = .lt := by
  induction elements with
  | nil => simp [insertElement]
  | cons b rest ih =>
    obtain ⟨first, tail⟩ := List.pairwise_cons.1 h
    unfold insertElement
    split
    case _ hlt =>
      refine List.pairwise_cons.2 ⟨fun c hc => ?_, h⟩
      rcases List.mem_cons.1 hc with rfl | hc
      · exact hlt
      · exact Std.TransCmp.lt_trans hlt (first c hc)
    case _ => exact h
    case _ hgt =>
      refine List.pairwise_cons.2 ⟨fun c hc => ?_, ih tail⟩
      rcases mem_insertElement hc with rfl | hc
      · exact Std.OrientedCmp.lt_of_gt hgt
      · exact first c hc

end Elements

namespace SortedSet

variable {α : Type} [Ord α]

instance [DecidableEq α] : DecidableEq (SortedSet α) := fun a b =>
  decidable_of_iff (a.elements = b.elements) <| by
    cases a; cases b; simp

instance : Membership α (SortedSet α) := ⟨fun s a => a ∈ s.elements⟩

/-- The set without elements. -/
def empty : SortedSet α := ⟨[], List.Pairwise.nil⟩

instance : Inhabited (SortedSet α) := ⟨empty⟩

/-- The set with the one element `a`. -/
def singleton (a : α) : SortedSet α := ⟨[a], List.pairwise_singleton _ _⟩

/-- Whether there is no element. -/
def isEmpty (s : SortedSet α) : Bool := s.elements.isEmpty

/-- How many elements there are. -/
def size (s : SortedSet α) : Nat := s.elements.length

/-- Whether `a` is an element. -/
def contains (s : SortedSet α) (a : α) : Bool := s.elements.any fun b => compare a b == .eq

section Insert
variable [Std.TransOrd α]

/-- The set with `a` added. -/
def insert (s : SortedSet α) (a : α) : SortedSet α :=
  ⟨insertElement a s.elements, ascending_insertElement a s.ascending⟩

/-- The set of the elements of a list. -/
def ofList (elements : List α) : SortedSet α :=
  elements.foldl insert empty

end Insert

end SortedSet

end VariantSelection
