/-
Which columns of the schema listing are aligned.

The types start in one column: a name is padded to its column, and fits in it
whatever its characters are.  A type is not padded, it takes the room that its word
needs.  So the rules behind the types start in one column just when these words have
one length, and of the three words only that for a string is shorter than the others
(`length_typeText`).

A column is said of the listing itself.  A definition starts a line, with blanks
behind its name and behind its type, and there is only one way to find these blanks
in a listing (`Layout.blanks_eq`).
-/
import VariantSelection.Proofs.Text.Lines
import VariantSelection.Report.Schema

namespace VariantSelection

/-- The lines of a definition, with blanks behind its name and behind its type. -/
def Definition.shown (padding gap : String) (d : Definition) : String :=
  d.name ++ padding ++ d.type.text ++ gap ++ "compatibility: " ++ d.compatibility.text
    ++ ", disambiguation: " ++ d.disambiguation.text ++ "\n"

namespace Registry

/-- The blanks in the listing of a registry, and what stands below the definitions. -/
structure Layout (r : Registry) where
  padding : Definition → String
  gap : Definition → String
  below : String
  padding_blank : ∀ d, ∀ c ∈ (padding d).toList, c = ' '
  gap_blank : ∀ d, ∀ c ∈ (gap d).toList, c = ' '
  listing : r.describeSchema
    = String.join (r.definitions.map fun d => d.shown (padding d) (gap d)) ++ below

/-- The definition has a line of its own below those of the definitions `above`. -/
def IsLined (r : Registry) (above : List Definition) (d : Definition) : Prop :=
  (∃ others, r.definitions = above ++ d :: others) ∧ '\n' ∉ d.name.toList

namespace Layout

variable {r : Registry}

/-- What stands in front of the type of a definition, when `above` are the
definitions above it. -/
def beforeType (l : r.Layout) (above : List Definition) (d : Definition) : String :=
  String.join (above.map fun e => e.shown (l.padding e) (l.gap e)) ++ d.name ++ l.padding d

/-- What stands in front of the rules of a definition. -/
def beforeRules (l : r.Layout) (above : List Definition) (d : Definition) : String :=
  l.beforeType above d ++ d.type.text ++ l.gap d

end Layout

/-! ### The blanks of the listing

Types and rules start with letters.  So the blanks before them end where the letters
begin, and two layouts of one listing have to agree from the first definition on.
-/

/-- The blanks behind a name, up to the column of the types. -/
def namePadding (r : Registry) (d : Definition) : String :=
  String.ofList (List.replicate (columnWidth r.names - d.name.length) ' ') ++ "  "

theorem schemaLine_eq_shown (r : Registry) (d : Definition) :
    schemaLine (columnWidth r.names) d ++ "\n" = d.shown (r.namePadding d) "  " := by
  rw [← String.toList_inj]
  simp [schemaLine, Definition.shown, namePadding, padRight, toString]

/-- The layout that the listing is made with. -/
def layout (r : Registry) : r.Layout where
  padding := r.namePadding
  gap _ := "  "
  below := if r.definitions.isEmpty then r.describeSchema else unlines r.precedenceLines
  padding_blank d c hc := by
    simp only [namePadding, String.toList_append, String.toList_ofList, List.mem_append,
      List.mem_replicate] at hc
    rcases hc with ⟨-, hc⟩ | hc
    · exact hc
    · simpa using hc
  gap_blank _ c hc := by simpa using hc
  listing := by
    unfold describeSchema
    cases hempty : r.definitions.isEmpty with
    | true =>
        rw [List.isEmpty_iff] at hempty
        simp [hempty]
    | false =>
        rw [if_neg (by simp), if_neg (by simp), unlines_append]
        simp only [unlines, schemaLines, List.map_map, Function.comp_def, schemaLine_eq_shown]

theorem head?_typeText (t : ValueType) (rest : List Char) :
    (t.text.toList ++ rest).head? ≠ some ' ' := by
  cases t with
  | string => simp [ValueType.text]
  | integer => simp [ValueType.text]
  | boolean => simp [ValueType.text]

/-- What a definition shows is told from its blanks by the letters that the type and
the rules start with. -/
theorem blanks_of_shown_append_eq {d : Definition} {padding padding' gap gap' rest rest' : String}
    (hpadding : ∀ c ∈ padding.toList, c = ' ') (hpadding' : ∀ c ∈ padding'.toList, c = ' ')
    (hgap : ∀ c ∈ gap.toList, c = ' ') (hgap' : ∀ c ∈ gap'.toList, c = ' ')
    (h : d.shown padding gap ++ rest = d.shown padding' gap' ++ rest') :
    padding = padding' ∧ gap = gap' ∧ rest = rest' := by
  rw [← String.toList_inj] at h
  simp only [Definition.shown, String.toList_append, List.append_assoc] at h
  obtain ⟨hpad, htype⟩ := blanks_append_inj hpadding hpadding' (head?_typeText d.type _)
    (head?_typeText d.type _) (List.append_cancel_left h)
  obtain ⟨hgaps, hrules⟩ := blanks_append_inj hgap hgap' (by simp) (by simp)
    (List.append_cancel_left htype)
  refine ⟨String.toList_inj.mp hpad, String.toList_inj.mp hgaps, String.toList_inj.mp ?_⟩
  simpa using hrules

theorem blanks_of_join_append_eq {padding padding' gap gap' : Definition → String}
    (hpadding : ∀ d, ∀ c ∈ (padding d).toList, c = ' ')
    (hpadding' : ∀ d, ∀ c ∈ (padding' d).toList, c = ' ')
    (hgap : ∀ d, ∀ c ∈ (gap d).toList, c = ' ') (hgap' : ∀ d, ∀ c ∈ (gap' d).toList, c = ' ')
    {definitions : List Definition} {rest rest' : String}
    (h : String.join (definitions.map fun d => d.shown (padding d) (gap d)) ++ rest
      = String.join (definitions.map fun d => d.shown (padding' d) (gap' d)) ++ rest') :
    ∀ d ∈ definitions, padding d = padding' d ∧ gap d = gap' d := by
  induction definitions with
  | nil => simp
  | cons first others ih =>
      simp only [List.map_cons, String.join_cons, String.append_assoc] at h
      obtain ⟨hpad, hgaps, hothers⟩ := blanks_of_shown_append_eq (hpadding first) (hpadding' first)
        (hgap first) (hgap' first) h
      intro d hd
      rcases List.mem_cons.mp hd with rfl | hd
      · exact ⟨hpad, hgaps⟩
      · exact ih hothers d hd

/-- **A listing has one layout**, so far as its definitions go. -/
theorem Layout.blanks_eq {r : Registry} (l : r.Layout) {d : Definition} (hd : d ∈ r.definitions) :
    l.padding d = r.namePadding d ∧ l.gap d = "  " :=
  blanks_of_join_append_eq l.padding_blank r.layout.padding_blank l.gap_blank r.layout.gap_blank
    (l.listing.symm.trans r.layout.listing) d hd

/-! ### The columns

A column is counted from the last line break, so a name with a line break in it has
no column of its own; `IsLined` leaves such definitions out.
-/

section
variable {r : Registry} {above : List Definition} {d : Definition}

theorem IsLined.mem (h : r.IsLined above d) : d ∈ r.definitions := by
  obtain ⟨⟨others, hsplit⟩, -⟩ := h
  rw [hsplit]
  simp

theorem not_lineBreak_of_blank {s : String} (h : ∀ c ∈ s.toList, c = ' ') : '\n' ∉ s.toList := by
  intro hmem
  exact absurd (h _ hmem) (by decide)

theorem not_lineBreak_typeText (t : ValueType) : '\n' ∉ t.text.toList := by
  cases t with
  | string => simp [ValueType.text]
  | integer => simp [ValueType.text]
  | boolean => simp [ValueType.text]

/-- The types start behind the column of the names. -/
theorem IsLined.column_beforeType (h : r.IsLined above d) (l : r.Layout) :
    column (l.beforeType above d) = columnWidth r.names + 2 := by
  have hname : d.name ∈ r.names := List.mem_map_of_mem h.mem
  have hblank : '\n' ∉ (r.namePadding d).toList :=
    not_lineBreak_of_blank (r.layout.padding_blank d)
  have hwidth := length_padRight_columnWidth hname
  unfold padRight at hwidth
  rw [String.length_append] at hwidth
  unfold Layout.beforeType
  simp only [Definition.shown]
  rw [(l.blanks_eq h.mem).1, column_append _ hblank, column_append _ h.2, column_join_of_lineBreak,
    namePadding, String.length_append, Nat.zero_add, ← Nat.add_assoc, hwidth]
  rfl

/-- The rules start where the word of the type lets them. -/
theorem IsLined.column_beforeRules (h : r.IsLined above d) (l : r.Layout) :
    column (l.beforeRules above d) = columnWidth r.names + 4 + d.type.text.length := by
  unfold Layout.beforeRules
  rw [(l.blanks_eq h.mem).2, column_append _ (by simp),
    column_append _ (not_lineBreak_typeText d.type), h.column_beforeType l]
  have hgap : "  ".length = 2 := rfl
  omega

end

theorem length_typeText (t : ValueType) : t.text.length = if t = .string then 6 else 7 := by
  cases t with
  | string => rfl
  | integer => rfl
  | boolean => rfl

theorem string_iff_of_length_eq {t t' : ValueType} (h : t.text.length = t'.text.length) :
    t = .string ↔ t' = .string := by
  rw [length_typeText, length_typeText] at h
  by_cases ht : t = .string
  · by_cases ht' : t' = .string
    · exact iff_of_true ht ht'
    · simp [ht, ht'] at h
  · by_cases ht' : t' = .string
    · simp [ht, ht'] at h
    · exact iff_of_false ht ht'

/-- **The types of a listing are aligned; its rules are aligned just when all types
are strings or none is.**  This holds for each way to find the blanks in the
listing, and there is one.  Only definitions whose names keep to their line count,
in whatever characters they are written. -/
theorem describeSchema_columns (r : Registry) :
    Nonempty r.Layout ∧ ∀ l : r.Layout,
      (∃ place, ∀ above d, r.IsLined above d → column (l.beforeType above d) = place) ∧
      ((∃ place, ∀ above d, r.IsLined above d → column (l.beforeRules above d) = place) ↔
        (∀ above d, r.IsLined above d → d.type = .string) ∨
          ∀ above d, r.IsLined above d → d.type ≠ .string) := by
  refine ⟨⟨r.layout⟩, fun l => ⟨⟨_, fun above d h => h.column_beforeType l⟩, ?_⟩⟩
  constructor
  · rintro ⟨place, hplace⟩
    by_cases hsome : ∃ above d, r.IsLined above d ∧ d.type = .string
    · obtain ⟨above, d, h, hstring⟩ := hsome
      refine Or.inl fun above' d' h' => ?_
      have hcolumn := (hplace above' d' h').trans (hplace above d h).symm
      rw [h'.column_beforeRules, h.column_beforeRules, Nat.add_left_cancel_iff] at hcolumn
      exact (string_iff_of_length_eq hcolumn).mpr hstring
    · exact Or.inr fun above d h hstring => hsome ⟨above, d, h, hstring⟩
  · rintro (hall | hall)
    · refine ⟨columnWidth r.names + 4 + 6, fun above d h => ?_⟩
      rw [h.column_beforeRules, length_typeText, if_pos (hall above d h)]
    · refine ⟨columnWidth r.names + 4 + 7, fun above d h => ?_⟩
      rw [h.column_beforeRules, length_typeText, if_neg (hall above d h)]

namespace Sample

/-- Two attributes, with types whose words differ in length. -/
def sized : Registry where
  definitions :=
    [⟨"colour", .string, .exact, .noPreference⟩, ⟨"size", .integer, .exact, .noPreference⟩]
  precedence := []
  names_nodup := by decide
  precedence_nodup := List.nodup_nil
  precedence_registered := by simp

end Sample

/-- With a string and an integer on lines of their own, the rules do not start in
one column. -/
theorem describeSchema_not_aligned_sized :
    Sample.sized.definitions ≠ [] ∧ (∀ d ∈ Sample.sized.definitions, '\n' ∉ d.name.toList) ∧
    ∀ l : Sample.sized.Layout, ¬ ∃ place, ∀ above d, Sample.sized.IsLined above d →
      column (l.beforeRules above d) = place := by
  refine ⟨by decide, by decide, ?_⟩
  rintro l ⟨place, hplace⟩
  have hcolour : Sample.sized.IsLined [] ⟨"colour", .string, .exact, .noPreference⟩ :=
    ⟨⟨_, rfl⟩, by decide⟩
  have hsize : Sample.sized.IsLined [⟨"colour", .string, .exact, .noPreference⟩]
      ⟨"size", .integer, .exact, .noPreference⟩ :=
    ⟨⟨_, rfl⟩, by decide⟩
  have hcolumn := (hplace _ _ hcolour).trans (hplace _ _ hsize).symm
  rw [hcolour.column_beforeRules, hsize.column_beforeRules] at hcolumn
  simp [length_typeText] at hcolumn

end Registry

end VariantSelection
