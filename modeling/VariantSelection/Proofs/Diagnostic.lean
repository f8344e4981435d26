/-
A report on a failed selection accounts for every attribute of every candidate.

The lines of an entry are made from the lists of a match report, and these have
each attribute in one place.  So nothing is lost on the way from the candidate to the
lines: a refused candidate has a line for each attribute that is requested
(`ReportEntry.Refuses`), a tied one for each attribute that it provides
(`ReportEntry.Ties`).  What a line says is read off its form, and the forms are told
apart by their first and last characters whatever the names and values in between
are.  A tied candidate has nothing against it, so none of its lines has a form of
the refused ones.
-/
import VariantSelection.Diagnostic
import VariantSelection.Proofs.Match.Partition
import VariantSelection.Proofs.Selection.Justified

namespace VariantSelection

/-! ### The end of a text -/

theorem getLast?_toList_append {front back : String} {c : Char}
    (h : back.toList.getLast? = some c) :
    (front ++ back).toList.getLast? = some c := by
  rw [String.toList_append, List.getLast?_append, h]
  rfl

namespace Diagnostic

/-! ### What a line says

`ArguesAgainst`, `ArguesFor` and `MentionsUnasked` tie a line to the values that it is
about.  `IsMismatch` and `IsMissing` look at the line alone, as a reader of the report
does, and two of its characters are enough to tell them from every other form.
-/

/-- The line is of the form that names two values of an attribute, the provided and
the needed one. -/
def IsMismatch (line : String) : Prop :=
  ∃ name found wanted : String,
    line = s!"Incompatible because this component declares {name} with value '{found}' "
      ++ s!"and the consumer needed value '{wanted}'"

/-- The line is of the form that tells of an attribute that was not found. -/
def IsMissing (line : String) : Prop :=
  ∃ name wanted : String, line = s!"Required {name} with value '{wanted}' but wasn't found"

/-- The line says why the attribute stands against a candidate that has these: there
is another value, or none. -/
inductive ArguesAgainst (requested provided : AttributeSet) (name : String) : String → Prop
  | mismatch {wanted found : Value} (hwanted : requested.get? name = some wanted)
      (hfound : provided.get? name = some found) :
      ArguesAgainst requested provided name
        (s!"Incompatible because this component declares {name} with value '{found.text}' "
          ++ s!"and the consumer needed value '{wanted.text}'")
  | missing {wanted : Value} (hwanted : requested.get? name = some wanted)
      (hnone : provided.get? name = none) :
      ArguesAgainst requested provided name
        s!"Required {name} with value '{wanted.text}' but wasn't found"

/-- The line says that the attribute matches, and with which value where that is not
the requested one. -/
inductive ArguesFor (requested provided : AttributeSet) (name : String) : String → Prop
  | same {wanted : Value} (hwanted : requested.get? name = some wanted)
      (hfound : provided.get? name = some wanted) :
      ArguesFor requested provided name s!"Required {name} with value '{wanted.text}'"
  | other {wanted found : Value} (hwanted : requested.get? name = some wanted)
      (hfound : provided.get? name = some found) (hne : found ≠ wanted) :
      ArguesFor requested provided name
        (s!"Required {name} with value '{wanted.text}'"
          ++ s!" and found compatible value '{found.text}'")

/-- The line says that the candidate has the attribute, and with which value, though
nobody asked for it. -/
inductive MentionsUnasked (requested provided : AttributeSet) (name : String) : String → Prop
  | unasked {found : Value} (hunasked : requested.contains name = false)
      (hfound : provided.get? name = some found) :
      MentionsUnasked requested provided name
        s!"Provides {name} with value '{found.text}' but the consumer didn't ask for it"

section
variable {requested provided : AttributeSet} {name line : String}

theorem IsMismatch.first (h : IsMismatch line) : line.toList.head? = some 'I' := by
  obtain ⟨name, found, wanted, rfl⟩ := h
  simp [toString]

theorem IsMissing.first (h : IsMissing line) : line.toList.head? = some 'R' := by
  obtain ⟨name, wanted, rfl⟩ := h
  simp [toString]

theorem IsMissing.last (h : IsMissing line) : line.toList.getLast? = some 'd' := by
  obtain ⟨name, wanted, rfl⟩ := h
  exact getLast?_toList_append rfl

theorem not_isMismatch {c : Char} (hfirst : line.toList.head? = some c) (hc : c ≠ 'I') :
    ¬IsMismatch line := by
  intro hmismatch
  have hsame : some c = some 'I' := hfirst.symm.trans hmismatch.first
  exact hc (Option.some.inj hsame)

theorem not_isMissing_of_first {c : Char} (hfirst : line.toList.head? = some c) (hc : c ≠ 'R') :
    ¬IsMissing line := by
  intro hmissing
  have hsame : some c = some 'R' := hfirst.symm.trans hmissing.first
  exact hc (Option.some.inj hsame)

theorem not_isMissing_of_last {c : Char} (hlast : line.toList.getLast? = some c) (hc : c ≠ 'd') :
    ¬IsMissing line := by
  intro hmissing
  have hsame : some c = some 'd' := hlast.symm.trans hmissing.last
  exact hc (Option.some.inj hsame)

/-- Of the lines against a candidate those tell of a missing attribute that
are about one. -/
theorem ArguesAgainst.isMissing_iff (h : ArguesAgainst requested provided name line) :
    IsMissing line ↔ provided.get? name = none := by
  cases h with
  | @mismatch wanted found _ hfound =>
      have hmismatch := IsMismatch.first ⟨name, found.text, wanted.text, rfl⟩
      rw [hfound]
      exact iff_of_false (not_isMissing_of_first hmismatch (by decide)) nofun
  | @missing wanted _ hnone => exact iff_of_true ⟨name, wanted.text, rfl⟩ hnone

/-- A line for a candidate begins like one on a missing attribute, but it ends
with a value. -/
theorem ArguesFor.harmless (h : ArguesFor requested provided name line) :
    ¬IsMismatch line ∧ ¬IsMissing line := by
  have hfirst : line.toList.head? = some 'R' := by
    cases h with
    | same => simp [toString]
    | other => simp [toString]
  have hlast : line.toList.getLast? = some '\'' := by
    cases h with
    | same => exact getLast?_toList_append rfl
    | other => exact getLast?_toList_append (getLast?_toList_append rfl)
  exact ⟨not_isMismatch hfirst (by decide), not_isMissing_of_last hlast (by decide)⟩

theorem MentionsUnasked.harmless (h : MentionsUnasked requested provided name line) :
    ¬IsMismatch line ∧ ¬IsMissing line := by
  have hfirst : line.toList.head? = some 'P' := by
    obtain ⟨-, -⟩ := h
    simp [toString]
  exact ⟨not_isMismatch hfirst (by decide), not_isMissing_of_first hfirst (by decide)⟩

end

/-! ### The lines of a match report

Each list of a report gives lines of one kind.  The values that a line names are
those of the sets that were compared.
-/

section
variable {r : Registry} {requested provided : AttributeSet} {candidate : String}

theorem arguesAgainst_evaluate {a : AttributeMatch}
    (ha : a ∈ (evaluate r requested candidate provided).incompatible) :
    ArguesAgainst requested provided a.name (incompatibleLine a) := by
  obtain ⟨hwanted, hprovided⟩ := mem_attributeMatches.mp (List.mem_filter.mp ha).1
  unfold incompatibleLine
  rw [hprovided]
  cases hfound : provided.get? a.name with
  | none => exact .missing hwanted hfound
  | some found => exact .mismatch hwanted hfound

theorem arguesFor_evaluate {a : AttributeMatch}
    (ha : a ∈ (evaluate r requested candidate provided).compatible) :
    ArguesFor requested provided a.name (compatibleLine a) := by
  obtain ⟨hmem, hsatisfied⟩ := List.mem_filter.mp ha
  obtain ⟨hwanted, hprovided⟩ := mem_attributeMatches.mp hmem
  obtain ⟨found, hfound, -⟩ := AttributeMatch.isSatisfied_iff.mp hsatisfied
  rw [hprovided] at hfound
  unfold compatibleLine
  rw [hprovided, hfound]
  dsimp only
  by_cases hsame : found = a.requested
  · rw [if_pos hsame]
    rw [hsame] at hfound
    exact .same hwanted hfound
  · rw [if_neg hsame]
    have hother := ArguesFor.other hwanted hfound hsame
    simp only [toString, String.append_assoc] at hother ⊢
    exact hother

theorem mentionsUnasked_evaluate {a : ProvidedAttribute}
    (ha : a ∈ (evaluate r requested candidate provided).unmatched) :
    MentionsUnasked requested provided a.name (unmatchedLine a) := by
  obtain ⟨hfound, hunasked⟩ := mem_evaluate_unmatched.mp ha
  exact .unasked hunasked hfound

end

/-! ### Sections

Sections are a matter of layout: all lines of an entry are there whether or not
a section is left out for want of lines.
-/

theorem lines_sectionOf {α : Type} (noun : String) (line : α → String) (items : List α) :
    (sectionOf noun line items).flatMap ReportSection.lines = items.map line := by
  unfold sectionOf
  cases items <;> simp

/-- A section without lines is left out. -/
theorem lines_ne_nil_of_mem_sectionOf {α : Type} {noun : String} {line : α → String}
    {items : List α} {s : ReportSection} (hs : s ∈ sectionOf noun line items) : s.lines ≠ [] := by
  unfold sectionOf at hs
  by_cases hempty : items.isEmpty = true
  · rw [if_pos hempty] at hs
    exact absurd hs List.not_mem_nil
  · rw [if_neg hempty, List.mem_singleton] at hs
    rw [hs]
    simpa using hempty

end Diagnostic

/-! ### Entries

An entry of either kind has its lines in the order of the report's lists, and these
lists together have every attribute once.
-/

namespace ReportEntry

open Diagnostic

/-- All lines of an entry, one section after another. -/
def lines (e : ReportEntry) : List String := e.sections.flatMap ReportSection.lines

/-- The entry accounts for a variant that is refused with the report `m` on it. -/
structure Refuses (e : ReportEntry) (requested : AttributeSet) (v : Variant) (m : MatchReport) :
    Prop where
  title : e.title = s!"Variant '{v.name}'"
  /-- What stands against the variant comes first, then what does not.  A line tells
  of a missing attribute where the variant has none of that name, and only there. -/
  lines : ∃ against agreeing, e.lines = against ++ agreeing ∧
    List.Forall₂ (fun a line => ArguesAgainst requested v.attributes a.name line ∧
      (IsMissing line ↔ v.attributes.get? a.name = none)) m.incompatible against ∧
    List.Forall₂ (fun a line => ArguesFor requested v.attributes a.name line) m.compatible agreeing
  /-- Every attribute that is requested has its line, and only one. -/
  once : ∀ name, ((m.incompatible ++ m.compatible).map AttributeMatch.name).count name
    = if requested.contains name then 1 else 0
  size : e.lines.length = requested.size
  ascending : m.Ascending
  sections : ∀ s ∈ e.sections, s.lines ≠ []

/-- The entry accounts for a variant that is tied with others, with the
report `m` on it. -/
structure Ties (e : ReportEntry) (requested : AttributeSet) (v : Variant) (m : MatchReport) :
    Prop where
  title : e.title = s!"Variant '{v.name}' {capabilityPhrase v.capabilityIds}"
  /-- What nobody asked for comes first, then what matches. -/
  lines : ∃ unasked agreeing, e.lines = unasked ++ agreeing ∧
    List.Forall₂ (fun a line => MentionsUnasked requested v.attributes a.name line) m.unmatched
      unasked ∧
    List.Forall₂ (fun a line => ArguesFor requested v.attributes a.name line) m.compatible agreeing
  /-- Every attribute that the variant provides has its line, and only one. -/
  once : ∀ name,
    (m.unmatched.map ProvidedAttribute.name ++ m.compatible.map AttributeMatch.name).count name
    = if v.attributes.contains name then 1 else 0
  size : e.lines.length = v.attributes.size
  ascending : m.Ascending
  sections : ∀ s ∈ e.sections, s.lines ≠ []
  /-- No line speaks against the variant. -/
  harmless : ∀ line ∈ e.lines, ¬IsMismatch line ∧ ¬IsMissing line

theorem lines_incompatibleEntry (m : MatchReport) : (incompatibleEntry m).lines
    = m.incompatible.map incompatibleLine ++ m.compatible.map compatibleLine := by
  unfold lines incompatibleEntry
  rw [List.flatMap_cons, lines_sectionOf]

theorem lines_tiedEntry (t : TiedCandidate) : (tiedEntry t).lines
    = t.report.unmatched.map unmatchedLine ++ t.report.compatible.map compatibleLine := by
  unfold lines tiedEntry
  rw [List.flatMap_append, lines_sectionOf, lines_sectionOf]

section
variable {r : Registry} {requested : AttributeSet} {v : Variant}

theorem perm_matches_report (r : Registry) (requested : AttributeSet) (v : Variant) :
    ((v.report r requested).incompatible ++ (v.report r requested).compatible).Perm
      (attributeMatches requested v.attributes) :=
  List.perm_append_comm.trans (perm_evaluate_matches r requested v.attributes v.name)

/-- What nobody asked for and what matches make up all that a variant has, if
nothing stands against it. -/
theorem perm_names_report (hnone : (v.report r requested).incompatible = []) :
    ((v.report r requested).unmatched.map ProvidedAttribute.name
      ++ (v.report r requested).compatible.map AttributeMatch.name).Perm v.attributes.keys := by
  have hmatches := perm_matches_report r requested v
  rw [hnone, List.nil_append] at hmatches
  have hnames := hmatches.map AttributeMatch.name
  rw [map_name_attributeMatches] at hnames
  have hprovided : ∀ name, requested.contains name = true → v.attributes.contains name = true := by
    intro name hname
    obtain ⟨wanted, hwanted⟩ := SortedMap.contains_iff.mp hname
    obtain ⟨found, hfound, -⟩ :=
      evaluate_isCompatible_iff.mp (MatchReport.isCompatible_iff.mpr hnone) name wanted hwanted
    exact SortedMap.contains_iff.mpr ⟨found, hfound⟩
  have hrequested : requested.keys.Perm (v.attributes.keys.filter requested.contains) := by
    refine (List.perm_ext_iff_of_nodup requested.nodup_keys
      (v.attributes.nodup_keys.sublist List.filter_sublist)).mpr fun name => ?_
    rw [List.mem_filter, SortedMap.mem_keys_iff_contains, SortedMap.mem_keys_iff_contains]
    exact ⟨fun hname => ⟨hprovided name hname, hname⟩, And.right⟩
  have hunmatched : (v.report r requested).unmatched.map ProvidedAttribute.name
      = v.attributes.keys.filter fun name => !requested.contains name :=
    map_name_evaluate_unmatched r requested v.attributes v.name
  rw [hunmatched]
  refine (List.Perm.append_left _ (hnames.trans hrequested)).trans ?_
  exact List.perm_append_comm.trans (List.filter_append_perm requested.contains _)

/-- **The entry of a refused variant accounts for every attribute that is requested.** -/
theorem refuses_incompatibleEntry (hsome : (v.report r requested).incompatible ≠ []) :
    (incompatibleEntry (v.report r requested)).Refuses requested v (v.report r requested) where
  title := rfl
  lines := by
    refine ⟨_, _, lines_incompatibleEntry _, forall₂_map_of_forall fun a ha => ?_,
      forall₂_map_of_forall fun a ha => arguesFor_evaluate ha⟩
    have hagainst := arguesAgainst_evaluate ha
    exact ⟨hagainst, hagainst.isMissing_iff⟩
  once := by
    intro name
    rw [((perm_matches_report r requested v).map _).count_eq, map_name_attributeMatches,
      SortedMap.count_keys]
  size := by
    have hlength := (perm_matches_report r requested v).length_eq
    rw [List.length_append, attributeMatches, List.length_map] at hlength
    rw [lines_incompatibleEntry, List.length_append, List.length_map, List.length_map]
    exact hlength
  ascending := ascending_evaluate r requested v.name v.attributes
  sections := by
    intro s hs
    rcases List.mem_cons.mp hs with rfl | hs
    · simpa using hsome
    · exact lines_ne_nil_of_mem_sectionOf hs

/-- **The entry of a tied variant accounts for every attribute that the variant
provides.** -/
theorem ties_tiedEntry (hnone : (v.report r requested).incompatible = []) :
    (tiedEntry ⟨v.report r requested, v.capabilityIds⟩).Ties requested v
      (v.report r requested) where
  title := rfl
  lines := ⟨_, _, lines_tiedEntry _, forall₂_map_of_forall fun a ha => mentionsUnasked_evaluate ha,
    forall₂_map_of_forall fun a ha => arguesFor_evaluate ha⟩
  once := by
    intro name
    rw [(perm_names_report hnone).count_eq, SortedMap.count_keys]
  size := by
    have hlength := (perm_names_report hnone).length_eq
    rw [List.length_append, List.length_map, List.length_map, SortedMap.keys, List.length_map]
      at hlength
    rw [lines_tiedEntry, List.length_append, List.length_map, List.length_map]
    exact hlength
  ascending := ascending_evaluate r requested v.name v.attributes
  sections := by
    intro s hs
    rcases List.mem_append.mp hs with hs | hs
    · exact lines_ne_nil_of_mem_sectionOf hs
    · exact lines_ne_nil_of_mem_sectionOf hs
  harmless := by
    intro line hline
    rw [lines_tiedEntry] at hline
    rcases List.mem_append.mp hline with hline | hline
    · obtain ⟨a, ha, rfl⟩ := List.mem_map.mp hline
      exact (mentionsUnasked_evaluate ha).harmless
    · obtain ⟨a, ha, rfl⟩ := List.mem_map.mp hline
      exact (arguesFor_evaluate ha).harmless

end

end ReportEntry

/-! ### Reports

`AccountsFor` goes through the errors of a selection.  What is left to say beside
the entries is the headline, and whether it denies the capabilities.
-/

namespace DiagnosticReport

open Diagnostic

/-- The note names the variants of a group with the same capabilities. -/
def NotesGroup (group : List String) (note : String) : Prop :=
  ∃ names, names = joinWith ", " group ∧
    note = s!"Variants {names} provide the same capabilities; request a capability to choose between them."

/-- The report accounts for the error that nothing matches, with `reports` on the
candidates. -/
structure AccountsForRefusal (d : DiagnosticReport) (r : Registry) (c : Component) (q : Request)
    (reports : List MatchReport) : Prop where
  /-- The candidates are the variants that provide what is requested as capabilities. -/
  candidates : reports = (c.candidates q).map fun v => v.report r q.attributes
  entries : List.Forall₂ (fun v e => ReportEntry.Refuses e q.attributes v (v.report r q.attributes))
    (c.candidates q) d.entries
  notes : d.notes = []

/-- The report accounts for the error that these candidates are tied. -/
structure AccountsForTie (d : DiagnosticReport) (r : Registry) (c : Component) (q : Request)
    (candidates : List TiedCandidate) (unreduced : Bool) (conflicts : List (List String)) :
    Prop where
  entries : ∃ tied : List Variant, tied.Sublist c.variants ∧
    candidates = tied.map (fun v => ⟨v.report r q.attributes, v.capabilityIds⟩) ∧
    conflicts = conflictingGroups tied ∧
    List.Forall₂ (fun v e => ReportEntry.Ties e q.attributes v (v.report r q.attributes)) tied
      d.entries
  unreduced_iff : unreduced = true ↔ c.survivors r q = []
  /-- The note on rules that leave nothing comes before those on the groups, of
  which each has one. -/
  notes : ∃ unreducedNotes groupNotes, d.notes = unreducedNotes ++ groupNotes ∧
    unreducedNotes = (if unreduced then
      ["Disambiguation rules eliminated every candidate, so all compatible variants are listed."]
        else []) ∧
    List.Forall₂ NotesGroup conflicts groupNotes

/-- The report accounts for every candidate of the error. -/
inductive AccountsFor (d : DiagnosticReport) (r : Registry) (c : Component) (q : Request) :
    SelectionError → Prop
  | refusal {component consumer : String} {requested : AttributeSet} {capabilities : List String}
      {reports : List MatchReport} (h : d.AccountsForRefusal r c q reports) :
      AccountsFor d r c q (.incompatible component consumer requested capabilities reports)
  | tie {component consumer : String} {requested : AttributeSet} {candidates : List TiedCandidate}
      {unreduced : Bool} {conflicts : List (List String)}
      (h : d.AccountsForTie r c q candidates unreduced conflicts) :
      AccountsFor d r c q (.ambiguous component consumer requested candidates unreduced conflicts)

/-- The headline ends with a line that says that no variant provides the requested
capabilities. -/
def DeniesCapabilities (d : DiagnosticReport) : Prop :=
  ∃ before, d.headline = before ++ "\n  - None of the variants provide the requested capabilities."

section
variable {r : Registry} {c : Component} {q : Request}

theorem not_deniesCapabilities {d : DiagnosticReport} (h : d.headline.toList.getLast? = some ':') :
    ¬d.DeniesCapabilities := by
  rintro ⟨before, hheadline⟩
  have hlast : d.headline.toList.getLast? = some '.' := by
    rw [hheadline]
    exact getLast?_toList_append rfl
  rw [h] at hlast
  exact absurd hlast (by decide)

theorem accountsForRefusal_ofError (h : c.qualified r q = []) :
    (ofError (incompatibility r c q)).AccountsForRefusal r c q
      ((c.candidates q).map fun v => v.report r q.attributes) where
  candidates := rfl
  entries := by
    show List.Forall₂ _ _
      (((c.candidates q).map fun v => v.report r q.attributes).map incompatibleEntry)
    rw [List.map_map]
    exact forall₂_map_of_forall fun v hv =>
      ReportEntry.refuses_incompatibleEntry (report_incompatible_ne_nil h v hv)
  notes := rfl

theorem accountsForTie_ofError {tied : List Variant} {unreduced : Bool}
    (htied : tied.Sublist (c.qualified r q))
    (hunreduced : unreduced = true ↔ c.survivors r q = []) :
    (ofError (ambiguity r c q tied unreduced)).AccountsForTie r c q
      (tied.map fun v => ⟨v.report r q.attributes, v.capabilityIds⟩) unreduced
      (conflictingGroups tied) where
  entries := by
    refine ⟨tied, htied.trans List.filter_sublist, rfl, rfl, ?_⟩
    show List.Forall₂ _ _ ((tied.map fun v => TiedCandidate.mk _ _).map tiedEntry)
    rw [List.map_map]
    refine forall₂_map_of_forall fun v hv => ReportEntry.ties_tiedEntry ?_
    exact (Component.mem_qualified.mp (htied.subset hv)).2.2
  unreduced_iff := hunreduced
  notes := ⟨_, _, rfl, rfl, forall₂_map_of_forall fun group _ => ⟨_, rfl, rfl⟩⟩

/-- The line on the capabilities stands behind a colon, which otherwise is the end. -/
theorem incompatibleHeadline_eq (component consumer : String) (requested : AttributeSet)
    (capabilities : List String) (reports : List MatchReport) :
    ∃ before : String, before.toList.getLast? = some ':' ∧
      incompatibleHeadline component consumer requested capabilities reports = before
        ++ if reports.isEmpty then "\n  - None of the variants provide the requested capabilities."
          else "" :=
  ⟨_, getLast?_toList_append (getLast?_toList_append rfl), rfl⟩

theorem deniesCapabilities_incompatibility_iff :
    (ofError (incompatibility r c q)).DeniesCapabilities ↔ c.candidates q = [] := by
  obtain ⟨before, hcolon, heq⟩ := incompatibleHeadline_eq c.id.text q.consumer q.attributes
    (q.capabilities.map CapabilitySelector.text)
      ((c.candidates q).map fun v => v.report r q.attributes)
  constructor
  · intro hdenies
    by_contra hsome
    refine not_deniesCapabilities ?_ hdenies
    show (incompatibleHeadline _ _ _ _ _).toList.getLast? = _
    rw [heq, if_neg (by simpa using hsome), String.append_empty]
    exact hcolon
  · intro hnone
    rw [if_pos (by simpa using hnone)] at heq
    exact ⟨before, heq⟩

theorem not_deniesCapabilities_ambiguity {tied : List Variant} {unreduced : Bool} :
    ¬(ofError (ambiguity r c q tied unreduced)).DeniesCapabilities :=
  not_deniesCapabilities (getLast?_toList_append (getLast?_toList_append rfl))

end

end DiagnosticReport

/-- **A report on a failed selection accounts for every attribute of every candidate.**
An entry for a refused variant has a line for each attribute that is requested, one for
a tied variant a line for each that it provides; and that no variant provides the
requested capabilities is said where it is so, and nowhere else. -/
theorem ofError_accountsFor {r : Registry} {c : Component} {q : Request} {e : SelectionError}
    (hunnamed : q.variant = none) (h : selectVariant r c q = .error e) :
    (DiagnosticReport.ofError e).AccountsFor r c q e ∧
    ((DiagnosticReport.ofError e).DeniesCapabilities ↔ ∀ v ∈ c.variants,
      ¬∀ s ∈ q.capabilities, ∃ capability ∈ v.capabilities, s.selects capability = true) := by
  have hvariants : c.variants ≠ [] := by
    intro hnone
    rw [selectVariant, if_pos (by simpa using hnone)] at h
    cases h
  rw [selectVariant_of_unnamed hvariants hunnamed] at h
  rw [← Component.candidates_eq_nil_iff]
  rcases matchVariant_eq_error h with
    ⟨hnone, rfl⟩ | ⟨tied, unreduced, rfl, hsome, htied, hunreduced⟩
  · exact ⟨.refusal (DiagnosticReport.accountsForRefusal_ofError hnone),
      DiagnosticReport.deniesCapabilities_incompatibility_iff⟩
  · refine ⟨.tie (DiagnosticReport.accountsForTie_ofError htied hunreduced),
      iff_of_false DiagnosticReport.not_deniesCapabilities_ambiguity fun hcandidates => ?_⟩
    obtain ⟨v, hv⟩ := List.exists_mem_of_ne_nil _ hsome
    have hcandidate : v ∈ c.candidates q :=
      List.mem_filter.mpr ⟨(Component.mem_qualified.mp hv).1, Component.qualified_provides v hv⟩
    rw [hcandidates] at hcandidate
    exact absurd hcandidate List.not_mem_nil

/-- Two variants that are tied, one that is refused for its usage, and one without
the capability. -/
theorem ofError_accountsFor_library :
    (∃ e, selectVariant .empty (Sample.library [Sample.api, Sample.shaded]) Sample.request
      = .error e ∧
      (DiagnosticReport.ofError e).AccountsFor .empty (Sample.library [Sample.api, Sample.shaded])
        Sample.request e) ∧
    (∃ e, selectVariant .empty (Sample.library [Sample.runtime]) Sample.request = .error e ∧
      (DiagnosticReport.ofError e).AccountsFor .empty (Sample.library [Sample.runtime])
        Sample.request e) ∧
    ∃ e, selectVariant .empty (Sample.library [Sample.api])
        { Sample.request with capabilities := [⟨"org.example", "other", none⟩] } = .error e ∧
      (DiagnosticReport.ofError e).DeniesCapabilities := by
  obtain ⟨tie, htie⟩ : ∃ e, selectVariant .empty (Sample.library [Sample.api, Sample.shaded])
      Sample.request = .error e := ⟨_, rfl⟩
  obtain ⟨refusal, hrefusal⟩ : ∃ e, selectVariant .empty (Sample.library [Sample.runtime])
      Sample.request = .error e := ⟨_, rfl⟩
  obtain ⟨denial, hdenial⟩ : ∃ e, selectVariant .empty (Sample.library [Sample.api])
      { Sample.request with capabilities := [⟨"org.example", "other", none⟩] } = .error e :=
        ⟨_, rfl⟩
  refine ⟨⟨tie, htie, (ofError_accountsFor rfl htie).1⟩,
    ⟨refusal, hrefusal, (ofError_accountsFor rfl hrefusal).1⟩, denial, hdenial, ?_⟩
  exact (ofError_accountsFor rfl hdenial).2.mpr (Component.candidates_eq_nil_iff.mp rfl)

end VariantSelection
