/-
Lines of a text, and the columns in them.

A column is counted in characters from the last line break, so what stands above a
line does not count.  The width of a column of names is counted in bytes.  No name
has more characters than bytes, so none is too long for its column
(`length_padRight_columnWidth`).
-/
import VariantSelection.Text

namespace VariantSelection

theorem unlines_append (front back : List String) :
    unlines (front ++ back) = unlines front ++ unlines back := by
  unfold unlines
  rw [List.map_append, String.join_append]

theorem unlines_flatMap {α : Type} (lines : α → List String) (items : List α) :
    unlines (items.flatMap lines) = String.join (items.map fun a => unlines (lines a)) := by
  induction items with
  | nil => rfl
  | cons a rest ih => rw [List.flatMap_cons, unlines_append, ih, List.map_cons, String.join_cons]

/-- Every line takes a line break, so only no lines are nothing. -/
theorem unlines_eq_empty_iff {lines : List String} : unlines lines = "" ↔ lines = [] := by
  cases lines with
  | nil => exact iff_of_true rfl rfl
  | cons line rest =>
      refine iff_of_false (fun h => ?_) (List.cons_ne_nil line rest)
      have hchars := congrArg String.toList h
      simp [unlines] at hchars

/-! ### Columns -/

/-- The column that a text ends in: how many characters stand behind its last
line break. -/
def column (s : String) : Nat := (s.toList.reverse.takeWhile (· ≠ '\n')).length

theorem column_append (s : String) {t : String} (h : '\n' ∉ t.toList) :
    column (s ++ t) = column s + t.length := by
  have hall : ∀ c ∈ t.toList.reverse, decide (c ≠ '\n') = true := by
    intro c hc
    rw [decide_eq_true_iff]
    rintro rfl
    exact h (List.mem_reverse.mp hc)
  unfold column
  rw [String.toList_append, List.reverse_append, List.takeWhile_append_of_pos hall,
    List.length_append, List.length_reverse, String.length_toList, Nat.add_comm]

@[simp] theorem column_lineBreak (s : String) : column (s ++ "\n") = 0 := by
  simp [column]

/-- Nothing of the lines above a line counts. -/
theorem column_join_of_lineBreak {α : Type} (text : α → String) (items : List α) :
    column (String.join (items.map fun a => text a ++ "\n")) = 0 := by
  rcases List.eq_nil_or_concat items with rfl | ⟨above, last, rfl⟩
  · rfl
  · rw [List.concat_eq_append, List.map_append, String.join_append, List.map_singleton,
      String.join_cons, String.join_nil, String.append_empty, ← String.append_assoc,
      column_lineBreak]

/-! ### Widths -/

theorem length_le_utf8ByteSize (s : String) : s.length ≤ s.utf8ByteSize := by
  have hchars : ∀ cs : List Char, cs.length ≤ (String.ofList cs).utf8ByteSize := by
    intro cs
    induction cs with
    | nil => simp
    | cons c cs ih =>
        have hsplit : String.ofList (c :: cs) = String.singleton c ++ String.ofList cs := by
          rw [← String.toList_inj]
          simp
        have hpos := c.utf8Size_pos
        rw [hsplit, String.utf8ByteSize_append, String.utf8ByteSize_singleton, List.length_cons]
        omega
  have hs := hchars s.toList
  rwa [String.ofList_toList, String.length_toList] at hs

theorem length_padRight {width : Nat} {s : String} (h : s.length ≤ width) :
    (padRight width s).length = width := by
  simp [padRight, h]

theorem exists_padRight_eq (width : Nat) (s : String) :
    ∃ blanks : String, (∀ c ∈ blanks.toList, c = ' ') ∧ padRight width s = s ++ blanks := by
  refine ⟨_, fun c hc => ?_, rfl⟩
  rw [String.toList_ofList] at hc
  exact List.eq_of_mem_replicate hc

theorem utf8ByteSize_le_columnWidth {names : List String} {name : String} (h : name ∈ names) :
    name.utf8ByteSize ≤ columnWidth names := by
  have hfold : ∀ (names : List String) (width : Nat),
      width ≤ names.foldl (fun width name => max width name.utf8ByteSize) width ∧
        ∀ name ∈ names, name.utf8ByteSize
          ≤ names.foldl (fun width name => max width name.utf8ByteSize) width := by
    intro names
    induction names with
    | nil => simp
    | cons first rest ih =>
        intro width
        obtain ⟨hwidth, hrest⟩ := ih (max width first.utf8ByteSize)
        refine ⟨Nat.le_trans (Nat.le_max_left _ _) hwidth, fun name hname => ?_⟩
        rcases List.mem_cons.mp hname with rfl | hname
        · exact Nat.le_trans (Nat.le_max_right _ _) hwidth
        · exact hrest name hname
  exact (hfold names 0).2 name h

/-- **A name fills its column**, in whatever characters it is written. -/
theorem length_padRight_columnWidth {names : List String} {name : String} (h : name ∈ names) :
    (padRight (columnWidth names) name).length = columnWidth names :=
  length_padRight (Nat.le_trans (length_le_utf8ByteSize name) (utf8ByteSize_le_columnWidth h))

/-! ### Blanks

Blanks end at the first character that is none, so a text says how many it starts with.
-/

/-- The blanks `p` in front of `u` are all that there are, if `u` starts with no blank. -/
theorem blanks_append_inj {p q u v : List Char} (hp : ∀ c ∈ p, c = ' ') (hq : ∀ c ∈ q, c = ' ')
    (hu : u.head? ≠ some ' ') (hv : v.head? ≠ some ' ') (h : p ++ u = q ++ v) : p = q ∧ u = v := by
  have htake : ∀ {p u : List Char}, (∀ c ∈ p, c = ' ') → u.head? ≠ some ' ' →
      (p ++ u).takeWhile (· = ' ') = p := by
    intro p u hp hu
    rw [List.takeWhile_append_of_pos (by simpa using hp)]
    cases u with
    | nil => simp
    | cons c u => simp_all
  have heq : p = q := by
    rw [← htake hp hu, h, htake hq hv]
  subst heq
  exact ⟨rfl, List.append_cancel_left h⟩

end VariantSelection
