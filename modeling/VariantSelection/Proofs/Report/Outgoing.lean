/-
The listing of what components offer leaves nothing out.

A line shows a text where the text stands in it, and `Variant.IsShown` says which
lines a variant must have: for its name, each of its capabilities, attributes, files
and dependencies, and for its secondary variants with what they have of their own.
`Variant.isShown_lines` proves it of the lines of a variant, and
`Catalog.isShown_outgoingVariants` of the listing of a catalog.  The listing of the
whole catalog is nothing but the listings of its components, one behind another
(`Catalog.outgoingVariants_eq_join`), so asking for one component shows exactly what
the whole says of it.
-/
import VariantSelection.Proofs.Ordered.Map
import VariantSelection.Proofs.Text.Lines
import VariantSelection.Report.Outgoing

namespace VariantSelection

/-! ### Lines that show something

`ShowsText` does not say where in the line the text stands, and `mono` lets lines be
added: what a part of a listing shows, the listing shows.
-/

/-- The text stands in the line. -/
def ShowsText (line text : String) : Prop := ∃ front back, line = front ++ text ++ back

/-- Some line shows the attribute: its name with blanks up to the column,
and its value. -/
def ShowsValue (lines : List String) (column : Nat) (name : String) (v : Value) : Prop :=
  ∃ front blanks, (∀ c ∈ blanks.toList, c = ' ') ∧ (front ++ name ++ blanks).length = column ∧
    front ++ name ++ blanks ++ " = " ++ v.text ∈ lines

/-- Every attribute is shown, the values in one column, and every file with its name
and its address. -/
structure ShowsContent (lines : List String) (attributes : AttributeSet)
    (artifacts : List Artifact) :
    Prop where
  attributes : ∃ column, ∀ name v, attributes.get? name = some v → ShowsValue lines column name v
  artifacts : ∀ a ∈ artifacts, ∃ line ∈ lines, ShowsText line a.name ∧ ShowsText line a.url

/-- Nothing of the variant is left out of the lines. -/
structure Variant.IsShown (v : Variant) (lines : List String) : Prop where
  name : ∃ line ∈ lines, ShowsText line v.name
  capabilities : ∀ capability ∈ v.capabilities.elements, ∃ line ∈ lines,
    ShowsText line capability.text
  content : ShowsContent lines v.attributes v.artifacts
  dependencies : ∀ d ∈ v.dependencies, ∃ line ∈ lines, ShowsText line d.text
  secondary : ∀ s ∈ v.secondary, (∃ line ∈ lines, ShowsText line s.name) ∧
    ShowsContent lines s.attributes s.artifacts

section
variable {lines more : List String} {attributes : AttributeSet} {artifacts : List Artifact}

theorem ShowsContent.mono (h : ShowsContent lines attributes artifacts) (hmore : lines ⊆ more) :
    ShowsContent more attributes artifacts where
  attributes := by
    obtain ⟨column, hcolumn⟩ := h.attributes
    refine ⟨column, fun name v hv => ?_⟩
    obtain ⟨front, blanks, hblanks, hlength, hmem⟩ := hcolumn name v hv
    exact ⟨front, blanks, hblanks, hlength, hmore hmem⟩
  artifacts a ha := by
    obtain ⟨line, hline, hshows⟩ := h.artifacts a ha
    exact ⟨line, hmore hline, hshows⟩

theorem Variant.IsShown.mono {v : Variant} (h : v.IsShown lines) (hmore : lines ⊆ more) :
    v.IsShown more where
  name := h.name.imp fun _ hline => ⟨hmore hline.1, hline.2⟩
  capabilities c hc := (h.capabilities c hc).imp fun _ hline => ⟨hmore hline.1, hline.2⟩
  content := h.content.mono hmore
  dependencies d hd := (h.dependencies d hd).imp fun _ hline => ⟨hmore hline.1, hline.2⟩
  secondary s hs :=
    ⟨(h.secondary s hs).1.imp fun _ hline => ⟨hmore hline.1, hline.2⟩,
      (h.secondary s hs).2.mono hmore⟩

end

/-! ### The lines of a variant

One lemma for each block of lines: what is in the list has its line in the block.
-/

theorem mem_attributeLines (indent : String) {attributes : AttributeSet} {e : String × Value}
    (he : e ∈ attributes.entries) :
    s!"{indent}    - {padRight (columnWidth attributes.keys) e.1} = {e.2.text}"
      ∈ attributeLines indent attributes := by
  have hsome : ¬attributes.isEmpty = true := by
    rw [SortedMap.isEmpty, List.isEmpty_iff]
    exact List.ne_nil_of_mem he
  rw [attributeLines, if_neg hsome]
  exact List.mem_cons_of_mem _ (List.mem_map_of_mem he)

theorem mem_artifactLines (indent : String) {artifacts : List Artifact} {a : Artifact}
    (ha : a ∈ artifacts) :
    (if a.url = a.name then s!"{indent}    - {a.name}" else s!"{indent}    - {a.name} ({a.url})")
      ∈ artifactLines indent artifacts := by
  have hsome : ¬artifacts.isEmpty = true := by
    rw [List.isEmpty_iff]
    exact List.ne_nil_of_mem ha
  rw [artifactLines, if_neg hsome]
  exact List.mem_cons_of_mem _ (List.mem_map_of_mem ha)

/-- Attributes and files are listed in the same way for a variant and for a
secondary one, with an `indent` that differs. -/
theorem showsContent_lines (indent : String) (attributes : AttributeSet)
    (artifacts : List Artifact) :
    ShowsContent (attributeLines indent attributes ++ artifactLines indent artifacts) attributes
      artifacts where
  attributes := by
    refine ⟨(indent ++ "    - ").length + columnWidth attributes.keys, fun name v hv => ?_⟩
    have hname : name ∈ attributes.keys := SortedMap.mem_keys.mpr ⟨v, hv⟩
    have hmem := mem_attributeLines indent (SortedMap.get?_eq_some_iff.mp hv)
    obtain ⟨blanks, hblanks, hpad⟩ := exists_padRight_eq (columnWidth attributes.keys) name
    have hfront : indent ++ "    - " ++ name ++ blanks
        = indent ++ "    - " ++ padRight (columnWidth attributes.keys) name := by
      rw [hpad]
      simp only [String.append_assoc]
    refine ⟨indent ++ "    - ", blanks, hblanks, ?_, List.mem_append_left _ ?_⟩
    · rw [hfront, String.length_append, length_padRight_columnWidth hname]
    · rw [hfront]
      exact hmem
  artifacts a ha := by
    refine ⟨_, List.mem_append_right _ (mem_artifactLines indent ha), ?_⟩
    by_cases hname : a.url = a.name
    · rw [if_pos hname, hname]
      have hshows : ShowsText s!"{indent}    - {a.name}" a.name :=
        ⟨indent ++ "    - ", "", by simp [toString]⟩
      exact ⟨hshows, hshows⟩
    · rw [if_neg hname]
      exact ⟨⟨indent ++ "    - ", " (" ++ a.url ++ ")", by simp [toString, String.append_assoc]⟩,
        ⟨indent ++ "    - " ++ a.name ++ " (", ")", by simp [toString, String.append_assoc]⟩⟩

theorem showsText_capabilityLine (c : Component) (capability : Capability) :
    ShowsText (capabilityLine c capability) capability.text := by
  unfold capabilityLine
  split
  · exact ⟨"        - ", " (default capability)", rfl⟩
  · exact ⟨"        - ", "", by simp [toString]⟩

theorem mem_dependencyLines {dependencies : List Dependency} {d : Dependency}
    (hd : d ∈ dependencies) :
    s!"        - {d.text}" ∈ dependencyLines dependencies := by
  have hsome : ¬dependencies.isEmpty = true := by
    rw [List.isEmpty_iff]
    exact List.ne_nil_of_mem hd
  rw [dependencyLines, if_neg hsome]
  exact List.mem_cons_of_mem _ (List.mem_map_of_mem hd)

theorem subset_secondaryLines {secondary : List SecondaryVariant} {s : SecondaryVariant}
    (hs : s ∈ secondary) : s.lines ⊆ secondaryLines secondary := by
  have hsome : ¬secondary.isEmpty = true := by
    rw [List.isEmpty_iff]
    exact List.ne_nil_of_mem hs
  rw [secondaryLines, if_neg hsome]
  exact fun line hline => List.mem_cons_of_mem _ (List.mem_flatMap.mpr ⟨s, hs, hline⟩)

/-- **The lines of a variant show everything that it offers.** -/
theorem Variant.isShown_lines (v : Variant) (c : Component) : v.IsShown (v.lines c) where
  name := ⟨s!"Variant {v.name}", by simp [lines], "Variant ", "", by simp [toString]⟩
  capabilities capability h :=
    ⟨capabilityLine c capability, by simp [lines, List.mem_map_of_mem h],
      showsText_capabilityLine c _⟩
  content := by
    refine (showsContent_lines "    " v.attributes v.artifacts).mono fun line hline => ?_
    simp only [lines, List.mem_append] at hline ⊢
    tauto
  dependencies d hd :=
    ⟨s!"        - {d.text}", by simp [lines, mem_dependencyLines hd], "        - ",
      "", by simp [toString]⟩
  secondary s hs := by
    have hlines : s.lines ⊆ v.lines c := by
      intro line hline
      simp [lines, subset_secondaryLines hs hline]
    constructor
    · exact ⟨s!"        - {s.name}", hlines List.mem_cons_self, "        - ",
        "", by simp [toString]⟩
    · exact (showsContent_lines _ s.attributes s.artifacts).mono
        fun line hline => hlines (List.mem_cons_of_mem _ hline)

/-! ### Components -/

/-- Nothing of the component is left out of the lines: its coordinate, and each of
its variants or else the file that stands for it. -/
structure Component.IsShown (c : Component) (lines : List String) : Prop where
  id : ∃ line ∈ lines, ShowsText line c.id.text
  variants : ∀ v ∈ c.variants, v.IsShown lines
  bare : c.variants = [] → ∃ line ∈ lines, ShowsText line c.defaultArtifact.name

theorem Component.IsShown.mono {c : Component} {lines more : List String} (h : c.IsShown lines)
    (hmore : lines ⊆ more) : c.IsShown more where
  id := h.id.imp fun _ hline => ⟨hmore hline.1, hline.2⟩
  variants v hv := (h.variants v hv).mono hmore
  bare hnone := (h.bare hnone).imp fun _ hline => ⟨hmore hline.1, hline.2⟩

theorem Component.isShown_lines (c : Component) : c.IsShown c.lines where
  id := by
    refine ⟨s!"Component {c.id.text} ({c.source.text})", by simp [lines, titleLines], "Component ",
      s!" ({c.source.text})", by simp [toString, String.append_assoc]⟩
  variants v hv := by
    refine (v.isShown_lines c).mono fun line hline => ?_
    have hsome : ¬c.variants.isEmpty = true := by
      rw [List.isEmpty_iff]
      exact List.ne_nil_of_mem hv
    rw [lines, if_neg hsome]
    exact List.mem_append_right _ (List.mem_flatMap.mpr ⟨v, hv, hline⟩)
  bare hnone := by
    refine ⟨s!"No variants published; consumers receive {c.defaultArtifact.name}",
      by simp [lines, hnone], "No variants published; consumers receive ", "", by simp [toString]⟩

/-! ### The catalog

A catalog is listed by coordinate, and only the component that is asked for
can be missing.
-/

namespace Catalog

variable {c : Catalog} {only : Option Coordinate} {text : String}

theorem outgoingVariants_eq (c : Catalog) (only : Option Coordinate) :
    c.outgoingVariants only = (c.listed only).map fun components =>
      unlines (components.flatMap Component.lines) := rfl

theorem listed_of_get? {id : Coordinate} {component : Component} (h : c.get? id = some component) :
    c.listed (some id) = .ok [component] := by
  rw [listed, h]

/-- What is listed is what is asked for: all components, or the one with the
coordinate. -/
theorem mem_listed_of_get? {components : List Component} (h : c.listed only = .ok components)
    {id : Coordinate} {component : Component} (hfound : c.get? id = some component)
    (hid : only.all (id = ·) = true) : component ∈ components := by
  cases only with
  | none =>
      cases h
      exact List.mem_map_of_mem (SortedMap.get?_eq_some_iff.mp hfound)
  | some asked =>
      obtain rfl : id = asked := by simpa using hid
      rw [listed_of_get? hfound] at h
      cases h
      exact List.mem_cons_self

/-- **The listing fails only for a component that is not there.** -/
theorem outgoingVariants_eq_error_iff {e : SelectionError} : c.outgoingVariants only = .error e ↔
    ∃ id, only = some id ∧ c.get? id = none ∧ e = .componentNotFound id.text := by
  rw [outgoingVariants_eq, map_eq_error]
  cases only with
  | none => simp [listed]
  | some id =>
      cases hfound : c.get? id with
      | none => simp [listed, hfound, eq_comm]
      | some component => simp [listed, hfound]

/-- **Nothing is left out** of the components that a listing is about. -/
theorem isShown_outgoingVariants (h : c.outgoingVariants only = .ok text) :
    ∃ lines, text = unlines lines ∧ ∀ id component, c.get? id = some component →
      only.all (id = ·) = true → component.IsShown lines := by
  rw [outgoingVariants_eq, map_eq_ok] at h
  obtain ⟨components, hlisted, rfl⟩ := h
  refine ⟨_, rfl, fun id component hfound hid => ?_⟩
  have hmem := mem_listed_of_get? hlisted hfound hid
  exact component.isShown_lines.mono fun line hline => List.mem_flatMap.mpr ⟨component, hmem, hline⟩

/-- **The listing of the catalog is that of its components**, one behind another by
coordinate. -/
theorem outgoingVariants_eq_join (c : Catalog) : ∃ parts,
    List.Forall₂ (fun id part => c.outgoingVariants (some id) = .ok part)
      c.byCoordinate.keys parts ∧
      c.outgoingVariants none = .ok (String.join parts) := by
  refine ⟨c.byCoordinate.entries.map fun e => unlines e.2.lines, ?_, ?_⟩
  · rw [SortedMap.keys, List.forall₂_map_left_iff]
    refine forall₂_map_of_forall fun e he => ?_
    rw [outgoingVariants_eq, listed_of_get? (SortedMap.get?_eq_some_iff.mpr he), Except.map,
      List.flatMap_singleton]
  · show Except.ok (unlines ((c.byCoordinate.entries.map Prod.snd).flatMap Component.lines)) = _
    rw [List.flatMap_map, unlines_flatMap]

/-- The listing of the whole catalog is empty just where the catalog is. -/
theorem outgoingVariants_eq_empty_iff (c : Catalog) :
    c.outgoingVariants none = .ok "" ↔ c.isEmpty = true := by
  have hlines : ∀ component : Component, component.lines ≠ [] := by
    intro component
    simp [Component.lines, titleLines]
  have hall : c.outgoingVariants none = .ok (unlines (c.components.flatMap Component.lines)) := rfl
  rw [hall, Except.ok.injEq, unlines_eq_empty_iff, List.flatMap_eq_nil_iff]
  simp only [hlines, imp_false, ← List.eq_nil_iff_forall_not_mem, components, SortedMap.values,
    List.map_eq_nil_iff, isEmpty, SortedMap.isEmpty, List.isEmpty_iff]

end Catalog

end VariantSelection
