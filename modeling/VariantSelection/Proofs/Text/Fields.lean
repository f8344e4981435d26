/-
The fields of a text.

A text is cut at every separator, so no field holds one, and joining the fields with
the separator gives the text back.  These are the two halves of one statement,
`fields_eq_iff`: the fields of a text are the one list of parts without separators
that the text is joined from.  Two texts with a separator between them have the
fields of both.
-/
import VariantSelection.Text

namespace VariantSelection

/-! ### Where a class of characters stops

A scanner takes characters of one class as long as there are any.  What stands
behind them is not looked at, as long as it starts with none of that class.
-/

section
variable {p : Char → Bool} {cs rest : List Char}

theorem takeWhile_append_of_stop (hall : ∀ c ∈ cs, p c = true)
    (hstop : ∀ c ∈ rest.head?, p c = false) : (cs ++ rest).takeWhile p = cs := by
  rw [List.takeWhile_append_of_pos hall]
  cases rest with
  | nil => simp
  | cons c rest => simp [hstop c rfl]

theorem dropWhile_append_of_stop (hall : ∀ c ∈ cs, p c = true)
    (hstop : ∀ c ∈ rest.head?, p c = false) : (cs ++ rest).dropWhile p = rest := by
  rw [List.dropWhile_append_of_pos hall]
  cases rest with
  | nil => rfl
  | cons c rest => simp [hstop c rfl]

end

/-! ### Fields

Each character goes to the front of the first field of what stands behind it, and a
separator is a new field.  This is how a list is split at an element, so the lemmas
on `List.splitOn` apply.
-/

section
variable {sep : Char} {f : List Char}

theorem consField_eq_modifyHead {c : Char} {fs : List (List Char)} (h : fs ≠ []) :
    consField c fs = fs.modifyHead (List.cons c) := by
  match fs, h with
  | _ :: _, _ => rfl

theorem fieldsOf_eq_splitOn (sep : Char) (cs : List Char) : fieldsOf sep cs = cs.splitOn sep := by
  induction cs with
  | nil => rw [fieldsOf, List.splitOn_nil]
  | cons c cs ih =>
      rw [fieldsOf, List.splitOn_cons_eq_if_modifyHead, ih]
      by_cases hc : c = sep
      · rw [if_pos hc, if_pos (beq_iff_eq.mpr hc)]
      · rw [if_neg hc, if_neg (by simpa using hc),
          consField_eq_modifyHead (List.splitOn_ne_nil sep cs)]

theorem not_mem_of_mem_fieldsOf (cs : List Char) : ∀ f ∈ fieldsOf sep cs, sep ∉ f := by
  induction cs with
  | nil => simp [fieldsOf]
  | cons c cs ih =>
      by_cases hc : c = sep
      · rw [fieldsOf, if_pos hc]
        simpa using ih
      · obtain ⟨first, rest, hfields⟩ := List.exists_cons_of_ne_nil (fieldsOf_ne_nil sep cs)
        rw [fieldsOf, if_neg hc, hfields, consField]
        rw [hfields] at ih
        intro f hf
        rcases List.mem_cons.mp hf with rfl | hf
        · intro hmem
          rcases List.mem_cons.mp hmem with heq | hmem
          · exact hc heq.symm
          · exact ih first List.mem_cons_self hmem
        · exact ih f (List.mem_cons_of_mem _ hf)

theorem fieldsOf_of_not_mem (h : sep ∉ f) : fieldsOf sep f = [f] := by
  rw [fieldsOf_eq_splitOn, List.splitOn_eq_singleton h]

theorem fieldsOf_append (cs rest : List Char) :
    fieldsOf sep (cs ++ sep :: rest) = fieldsOf sep cs ++ fieldsOf sep rest := by
  rw [fieldsOf_eq_splitOn, fieldsOf_eq_splitOn, fieldsOf_eq_splitOn,
    List.splitOn_append_cons_self]

theorem fieldsOf_inj {cs ds : List Char} : fieldsOf sep cs = fieldsOf sep ds ↔ cs = ds := by
  refine ⟨fun h => ?_, congrArg (fieldsOf sep)⟩
  rw [fieldsOf_eq_splitOn, fieldsOf_eq_splitOn] at h
  have hjoin := congrArg (List.intercalate [sep]) h
  rwa [List.intercalate_splitOn, List.intercalate_splitOn] at hjoin

end

/-! ### Cutting and joining -/

theorem joinWith_eq_intercalate (sep : String) (items : List String) :
    joinWith sep items = sep.intercalate items := by
  induction items with
  | nil => rfl
  | cons item rest ih =>
      cases rest with
      | nil => rw [joinWith, String.intercalate_singleton]
      | cons next others =>
          rw [joinWith, ih, String.intercalate_cons_cons]
          exact List.cons_ne_nil next others

theorem toList_joinWith (sep : String) (items : List String) :
    (joinWith sep items).toList = sep.toList.intercalate (items.map String.toList) := by
  rw [joinWith_eq_intercalate, String.toList_intercalate]

/-- **The fields of a text are the parts without separators that it is joined from.** -/
theorem fields_eq_iff {sep : Char} {s : String} {parts : List String} :
    fields sep s = parts ↔
      parts ≠ [] ∧ (∀ part ∈ parts, sep ∉ part.toList) ∧
        joinWith (String.singleton sep) parts = s := by
  rw [fields, fieldsOf_eq_splitOn, ← String.toList_inj, toList_joinWith, String.toList_singleton]
  constructor
  · intro h
    have hparts : parts.map String.toList = s.toList.splitOn sep := by
      simp [← h]
    refine ⟨?_, ?_, ?_⟩
    · intro hnone
      rw [hnone] at hparts
      exact List.splitOn_ne_nil sep s.toList hparts.symm
    · intro part hpart
      have hmem : part.toList ∈ parts.map String.toList := List.mem_map_of_mem hpart
      rw [hparts, ← fieldsOf_eq_splitOn] at hmem
      exact not_mem_of_mem_fieldsOf s.toList _ hmem
    · rw [hparts, List.intercalate_splitOn]
  · intro h
    obtain ⟨hsome, hfree, htext⟩ := h
    have hfree' : ∀ f ∈ parts.map String.toList, sep ∉ f := by
      simpa using hfree
    rw [← htext, List.splitOn_intercalate sep hfree' (by simpa using hsome)]
    simp

end VariantSelection
