/-
An attribute set is nothing but the values that it has for names.

A set comes about by changes of the empty set: a value is given to a name or taken
from it, or a set is laid on another one, which has come about in the same way.  Such
a `History` says by itself what a name ends up with, `History.value?`: what was said
of the name last counts, and of two sets the upper one was said last.  The set has
just these values (`History.get?_set`, by induction over the history), and sets with
the same values are equal.  So nothing else of its history can be told from a set:
neither the order of the insertions, nor what was replaced or removed on the way.
-/
import VariantSelection.Attribute.Value
import VariantSelection.Proofs.Ordered.Overlay

namespace VariantSelection

namespace AttributeSet

/-! ### Histories

A history is read twice: `History.set` performs it, and `History.value?` looks
through it backwards, without any set.  The two agree on every name.
-/

/-- How a set came about. -/
inductive History
  | empty
  | insert (before : History) (name : String) (value : Value)
  | remove (before : History) (name : String)
  | overlay (below top : History)

namespace History

/-- The set that came about. -/
def set : History → AttributeSet
  | empty => .empty
  | insert before name value => before.set.insert name value
  | remove before name => before.set.erase name
  | overlay below top => below.set.overlay top.set

/-- The value that was given to `name` last, if it was not taken away since. -/
def value? (name : String) : History → Option Value
  | empty => none
  | insert before changed value => if name = changed then some value else before.value? name
  | remove before changed => if name = changed then none else before.value? name
  | overlay below top =>
    match top.value? name with
    | some value => some value
    | none => below.value? name

/-- **A set gives for a name what was said of it last.** -/
theorem get?_set (h : History) (name : String) : h.set.get? name = h.value? name := by
  induction h with
  | empty => rfl
  | insert before changed value ih => rw [set, SortedMap.get?_insert, ih, value?]
  | remove before changed ih => rw [set, SortedMap.get?_erase, ih, value?]
  | overlay below top ihBelow ihTop =>
      rw [set, SortedMap.get?_overlay, ihBelow, ihTop, value?]
      cases top.value? name <;> rfl

theorem set_eq_of_value?_eq {h j : History} (hsame : ∀ name, h.value? name = j.value? name) :
    h.set = j.set := by
  refine SortedMap.ext fun name => ?_
  rw [get?_set, get?_set, hsame name]

theorem set_foldl_insert (l : List (String × Value)) :
    ∀ h : History, (l.foldl (fun h e => h.insert e.1 e.2) h).set
      = l.foldl (fun s e => s.insert e.1 e.2) h.set := by
  induction l with
  | nil =>
      intro h
      rfl
  | cons e rest ih =>
      intro h
      exact ih (h.insert e.1 e.2)

/-- Every set comes about, if not otherwise then by `insert` of its entries. -/
theorem exists_set_eq (s : AttributeSet) : ∃ h : History, h.set = s := by
  refine ⟨s.entries.foldl (fun h e => h.insert e.1 e.2) empty, ?_⟩
  rw [set_foldl_insert]
  exact SortedMap.ofList_entries s

end History

/-! ### What a set has, and what an overlay has

`Lists` and `IsLaid` are said of a set by its values and its entries, so they hold
however it came about: `lists_set` and `isLaid_overlay` read them off `get?_set` and
the laws of ordered maps.
-/

/-- The entries of the set are the names with the values that `value?` gives them,
in the order of the names. -/
structure Lists (s : AttributeSet) (value? : String → Option Value) : Prop where
  get : ∀ name, s.get? name = value? name
  entry_iff : ∀ name value, (name, value) ∈ s.entries ↔ value? name = some value
  ascending : s.keys.Pairwise (· < ·)

/-- The set has the values of `top`, and those of `below` for the other names. -/
structure IsLaid (top below s : AttributeSet) : Prop where
  get : ∀ name, s.get? name =
    match top.get? name with
    | some value => some value
    | none => below.get? name
  /-- A name that both sets have is counted once. -/
  size : s.size = (below.keys.toFinset ∪ top.keys.toFinset).card

theorem lists_set (h : History) : h.set.Lists fun name => h.value? name where
  get := h.get?_set
  entry_iff name value := by rw [← SortedMap.get?_eq_some_iff, h.get?_set]
  ascending := h.set.ascending_keys.imp (compare_text_eq_lt_iff _ _).mp

theorem isLaid_overlay (below top : AttributeSet) : IsLaid top below (below.overlay top) where
  get name := by
    rw [SortedMap.get?_overlay]
    cases top.get? name <;> rfl
  size := SortedMap.size_overlay below top

/-- **An attribute set is a canonical finite map.**  After every history it lists
the values of the names in ascending order, and histories that leave the same values
leave the same set; overlays are the unions in which the upper set prevails. -/
theorem canonical_of_history :
    (∀ s : AttributeSet, ∃ h : History, h.set = s) ∧
    (∀ h : History, h.set.Lists fun name => h.value? name) ∧
    (∀ h j : History, (∀ name, h.value? name = j.value? name) →
      h.set = j.set ∧ h.set.entries = j.set.entries ∧ h.set.text = j.set.text) ∧
    (∀ l l' : List (String × Value), l.Perm l' → (l.map Prod.fst).Nodup →
      SortedMap.ofList l = SortedMap.ofList l') ∧
    (∀ below top : AttributeSet, IsLaid top below (below.overlay top)) ∧
    (∀ s t u : AttributeSet, (s.overlay t).overlay u = s.overlay (t.overlay u)) ∧
    (∀ s : AttributeSet, SortedMap.empty.overlay s = s ∧ s.overlay .empty = s) ∧
    ∀ s t : AttributeSet, (s.overlay t).overlay t = s.overlay t := by
  refine ⟨History.exists_set_eq, lists_set, fun h j hsame => ?_, fun l l' => SortedMap.ofList_perm,
    isLaid_overlay, SortedMap.overlay_assoc,
    fun s => ⟨SortedMap.empty_overlay s, SortedMap.overlay_empty s⟩, SortedMap.overlay_overlay_self⟩
  have hset : h.set = j.set := History.set_eq_of_value?_eq hsame
  exact ⟨hset, congrArg SortedMap.entries hset, congrArg text hset⟩

namespace Sample

/-- Three attributes, the last name first. -/
def plain : History :=
  ((History.empty.insert "zeta" (.string "z")).insert "alpha" (.integer 1)).insert "mid"
    (.boolean true)

/-- The same three, where one has replaced a value, and a fourth one came and went. -/
def roundabout : History :=
  ((History.empty.insert "mid" (.string "low")).insert "zeta" (.string "z")).overlay
    ((((History.empty.insert "spare" (.integer 7)).insert "mid" (.boolean true)).remove "spare")
      |>.insert "alpha" (.integer 1))

end Sample

/-- Neither the detour nor the order of the insertions shows. -/
theorem canonical_of_history_roundabout :
    (∀ name, Sample.plain.value? name = Sample.roundabout.value? name) ∧
    Sample.plain.set = Sample.roundabout.set ∧
    Sample.roundabout.set.text = "\x7balpha=1, mid=true, zeta=z\x7d" ∧
    (SortedMap.ofList [("zeta", .integer 3), ("alpha", .integer 1)] : AttributeSet)
      = .ofList [("alpha", .integer 1), ("zeta", .integer 3)] := by
  obtain ⟨-, -, hsame, hperm, -⟩ := canonical_of_history
  have hvalues : ∀ name, Sample.plain.value? name = Sample.roundabout.value? name := by
    intro name
    simp only [Sample.plain, Sample.roundabout, History.value?]
    grind
  have htext : Sample.plain.set.text = "\x7balpha=1, mid=true, zeta=z\x7d" := by decide +kernel
  obtain ⟨hset, -, hsameText⟩ := hsame _ _ hvalues
  exact ⟨hvalues, hset, hsameText ▸ htext, hperm _ _ (List.Perm.swap _ _ _) (by decide)⟩

end AttributeSet

end VariantSelection
