/-
How the listing of a resolution is laid out.

The lines of a listing are made entry by entry, each with a look at the
configuration of the one before it.  What comes of it is said here without looking
back: entries that follow one another within a configuration stand below one
heading, and an empty line keeps two configurations apart.  `listing_flatMap` is the
induction over the sections of a listing, `Resolution.text_eq` what follows for the
text, and every resolution has sections (`exists_isDivision`).  The resolver goes
through the configurations one after another, so in what it gives no heading stands
twice; that is `Session.text_of_resolveAll`.
-/
import Mathlib.Data.List.Chain
import VariantSelection.Proofs.Resolution
import VariantSelection.Report.Resolution

namespace VariantSelection

/-! ### Entries

An entry opens with a line of its own, and what stands below it is set off
from such lines.
-/

/-- Whether the line opens an entry. -/
def opensEntry (line : String) : Bool := ['+', '-', '-', '-', ' '].isPrefixOf line.toList

/-- The line belongs to the entry that was opened above it. -/
def ContinuesEntry (line : String) : Prop := ∃ rest, line = "|    " ++ rest

theorem ContinuesEntry.opensEntry_eq_false {line : String} (h : ContinuesEntry line) :
    opensEntry line = false := by
  obtain ⟨rest, rfl⟩ := h
  simp [opensEntry, List.isPrefixOf]

/-- The line that opens an entry, with a mark behind the component. -/
def openingLine (dependency : String) (module : Coordinate) (mark : String) : String :=
  s!"+--- {dependency} -> {module.text}{mark}"

theorem opensEntry_openingLine (dependency : String) (module : Coordinate) (mark : String) :
    opensEntry (openingLine dependency module mark) = true := by
  simp [opensEntry, openingLine, toString]

/-- The files of a resolution are listed in their order, below a line on the
secondary variant just where they come from one. -/
theorem Resolved.lines_eq (r : Resolved) (dependency : String) (module : Coordinate) :
    ∃ mark, r.lines dependency module = openingLine dependency module mark
      :: ((if r.outcome.variant?.all (r.source = ·) then []
          else [s!"|         via secondary variant {r.source}"])
        ++ r.artifacts.map fun a => s!"|    {a.name}") := by
  unfold lines
  cases r.outcome with
  | matched variant =>
      refine ⟨s!" variant {variant}", ?_⟩
      simp [openingLine, ResolvedOutcome.variant?, toString, String.append_assoc]
  | explicit variant =>
      refine ⟨s!" variant {variant} (explicit)", ?_⟩
      simp [openingLine, ResolvedOutcome.variant?, toString, String.append_assoc]
  | legacyDefault =>
      refine ⟨" (no variants, default artifact)", ?_⟩
      simp [openingLine, ResolvedOutcome.variant?, toString, String.append_assoc]

/-- **An entry opens with its dependency and its component**, and every other line
continues it. -/
theorem ResolutionEntry.lines_eq_cons (e : ResolutionEntry) : ∃ mark rest,
    e.lines = openingLine e.dependency e.module mark :: rest ∧
      ∀ line ∈ rest, ContinuesEntry line := by
  unfold lines
  cases e.outcome with
  | error cause =>
      refine ⟨" FAILED", _, rfl, fun line hline => ?_⟩
      obtain ⟨text, -, rfl⟩ := List.mem_map.mp hline
      exact ⟨text, rfl⟩
  | ok r =>
      obtain ⟨mark, hlines⟩ := r.lines_eq e.dependency e.module
      refine ⟨mark, _, hlines, fun line hline => ?_⟩
      rcases List.mem_append.mp hline with hline | hline
      · split at hline
        · cases hline
        · rw [List.mem_singleton.mp hline]
          exact ⟨"     via secondary variant " ++ r.source, by rw [← String.append_assoc]; rfl⟩
      · obtain ⟨a, -, rfl⟩ := List.mem_map.mp hline
        exact ⟨a.name, rfl⟩

/-! ### Sections

The induction for the listing is on the sections.  Between two of them the heading
depends on the entry before, which is where `IsDivision` is needed.
-/

/-- A configuration of a listing, with entries that follow one another. -/
structure ListingSection where
  configuration : String
  entries : List ResolutionEntry

def ListingSection.lines (g : ListingSection) : List String :=
  g.configuration :: g.entries.flatMap ResolutionEntry.lines

/-- Below its heading, a section has one opening line for each of its entries. -/
theorem ListingSection.openings (g : ListingSection) :
    List.Forall₂ (fun e line => ∃ mark, line = openingLine e.dependency e.module mark) g.entries
      (g.lines.tail.filter opensEntry) := by
  have hentries : ∀ entries : List ResolutionEntry,
      List.Forall₂ (fun e line => ∃ mark, line = openingLine e.dependency e.module mark) entries
        ((entries.flatMap ResolutionEntry.lines).filter opensEntry) := by
    intro entries
    induction entries with
    | nil => exact .nil
    | cons e others ih =>
        obtain ⟨mark, rest, hlines, hrest⟩ := e.lines_eq_cons
        have hnone : rest.filter opensEntry = [] :=
          List.filter_eq_nil_iff.mpr
            fun line hline => by simp [(hrest line hline).opensEntry_eq_false]
        rw [List.flatMap_cons, hlines, List.cons_append,
          List.filter_cons_of_pos (opensEntry_openingLine _ _ _), List.filter_append, hnone,
          List.nil_append]
        exact .cons ⟨mark, rfl⟩ ih
  exact hentries g.entries

/-- Each section has entries, all of its own configuration, and no two neighbours
are of the same one. -/
structure IsDivision (sections : List ListingSection) : Prop where
  nonempty : ∀ g ∈ sections, g.entries ≠ []
  configuration : ∀ g ∈ sections, ∀ e ∈ g.entries, e.configuration = g.configuration
  adjacent : sections.IsChain fun g h => g.configuration ≠ h.configuration

theorem IsDivision.tail {g : ListingSection} {rest : List ListingSection}
    (h : IsDivision (g :: rest)) :
    IsDivision rest where
  nonempty := (List.forall_mem_cons.mp h.nonempty).2
  configuration := (List.forall_mem_cons.mp h.configuration).2
  adjacent := h.adjacent.tail

namespace ResolutionEntry

/-- Within a configuration there is no heading. -/
theorem listing_append_of_configuration {name : String} {entries : List ResolutionEntry}
    (h : ∀ e ∈ entries, e.configuration = name) (rest : List ResolutionEntry) :
    listing (some name) (entries ++ rest) = entries.flatMap lines ++ listing (some name) rest := by
  induction entries with
  | nil => rfl
  | cons e others ih =>
      obtain ⟨hfirst, hothers⟩ := List.forall_mem_cons.mp h
      simp [listing, heading, hfirst, ih hothers]

/-- A section starts with a heading, behind an empty line where another section
stands before it. -/
theorem listing_append_section {g : ListingSection} {sections : List ListingSection}
    (h : IsDivision (g :: sections)) (rest : List ResolutionEntry) :
    listing none (g.entries ++ rest) = g.lines ++ listing (some g.configuration) rest ∧
      ∀ name, name ≠ g.configuration → listing (some name) (g.entries ++ rest)
        = "" :: g.lines ++ listing (some g.configuration) rest := by
  obtain ⟨hnonempty, -⟩ := List.forall_mem_cons.mp h.nonempty
  obtain ⟨hconfiguration, -⟩ := List.forall_mem_cons.mp h.configuration
  cases hentries : g.entries with
  | nil => exact absurd hentries hnonempty
  | cons e others =>
      rw [hentries] at hconfiguration
      obtain ⟨hfirst, hothers⟩ := List.forall_mem_cons.mp hconfiguration
      have hbelow := listing_append_of_configuration hothers rest
      constructor
      · simp [listing, heading, ListingSection.lines, hentries, hfirst, hbelow]
      · intro name hname
        simp [listing, heading, ListingSection.lines, hentries, hfirst, hbelow, hname]

theorem listing_flatMap {sections : List ListingSection} :
    ∀ {name : String}, IsDivision sections → (∀ g ∈ sections.head?, name ≠ g.configuration) →
      listing (some name) (sections.flatMap ListingSection.entries)
        = sections.flatMap fun g => "" :: g.lines := by
  induction sections with
  | nil => intro _ _ _; rfl
  | cons g rest ih =>
      intro name h hname
      rw [List.flatMap_cons, List.flatMap_cons,
        (listing_append_section h _).2 name (hname g rfl), ih h.tail]
      intro next hnext
      exact (List.isChain_cons.mp h.adjacent).1 next hnext

end ResolutionEntry

theorem intercalate_lines (g : ListingSection) (rest : List ListingSection) :
    List.intercalate [""] ((g :: rest).map ListingSection.lines)
      = g.lines ++ rest.flatMap fun h => "" :: h.lines := by
  induction rest generalizing g with
  | nil => simp
  | cons h rest ih =>
      rw [List.map_cons, List.map_cons, List.intercalate_cons_cons, ← List.map_cons, ih]
      simp

/-- **A listing is its sections with an empty line between them.** -/
theorem Resolution.text_eq {r : Resolution} {sections : List ListingSection}
    (h : IsDivision sections) (hentries : r.entries = sections.flatMap ListingSection.entries) :
    r.text = unlines (List.intercalate [""] (sections.map ListingSection.lines)) := by
  rw [Resolution.text, hentries]
  cases sections with
  | nil => rfl
  | cons g rest =>
      rw [intercalate_lines, List.flatMap_cons, (ResolutionEntry.listing_append_section h _).1,
        ResolutionEntry.listing_flatMap h.tail]
      intro next hnext
      exact (List.isChain_cons.mp h.adjacent).1 next hnext

/-- An entry of another configuration than the first section starts one of its own. -/
theorem IsDivision.cons_own {sections : List ListingSection} (h : IsDivision sections)
    (e : ResolutionEntry) (hother : ∀ g ∈ sections.head?, e.configuration ≠ g.configuration) :
    IsDivision (⟨e.configuration, [e]⟩ :: sections) where
  nonempty := List.forall_mem_cons.mpr ⟨List.cons_ne_nil e [], h.nonempty⟩
  configuration := List.forall_mem_cons.mpr ⟨by simp, h.configuration⟩
  adjacent := List.isChain_cons.mpr ⟨hother, h.adjacent⟩

theorem IsDivision.cons_first {g : ListingSection} {rest : List ListingSection}
    (h : IsDivision (g :: rest)) (e : ResolutionEntry) (hsame : e.configuration = g.configuration) :
    IsDivision (⟨g.configuration, e :: g.entries⟩ :: rest) where
  nonempty := List.forall_mem_cons.mpr ⟨List.cons_ne_nil e _, h.tail.nonempty⟩
  configuration := by
    obtain ⟨hfirst, hrest⟩ := List.forall_mem_cons.mp h.configuration
    exact List.forall_mem_cons.mpr ⟨List.forall_mem_cons.mpr ⟨hsame, hfirst⟩, hrest⟩
  adjacent := List.isChain_cons.mpr (List.isChain_cons.mp h.adjacent)

/-- Every list of entries has sections. -/
theorem exists_isDivision (entries : List ResolutionEntry) :
    ∃ sections, IsDivision sections ∧ entries = sections.flatMap ListingSection.entries := by
  induction entries with
  | nil => exact ⟨[], ⟨nofun, nofun, .nil⟩, rfl⟩
  | cons e others ih =>
      obtain ⟨sections, h, rfl⟩ := ih
      cases sections with
      | nil => exact ⟨_, h.cons_own e nofun, rfl⟩
      | cons g rest =>
          by_cases hsame : e.configuration = g.configuration
          · exact ⟨_, h.cons_first e hsame, rfl⟩
          · refine ⟨_, h.cons_own e fun next hnext => ?_, rfl⟩
            rw [← Option.some.inj hnext]
            exact hsame

/-! ### What the resolver gives

Each configuration that is asked for becomes one section, and `isDivision_of_pairs`
says that these divide the entries.
-/

section
variable {s : Session} {m : Manifest} {only : Option String} {all : Resolution}

theorem Manifest.nodup_selected {configurations : List (String × ConfigurationSpec)}
    (h : m.selected only = .ok configurations) : (configurations.map Prod.fst).Nodup := by
  unfold selected at h
  cases only with
  | none =>
      cases h
      exact m.configurations.nodup_keys
  | some name =>
      cases hfound : m.configurations.get? name with
      | none => simp [hfound] at h
      | some spec =>
          simp only [hfound, Except.ok.injEq] at h
          rw [← h]
          exact List.nodup_cons.mpr ⟨List.not_mem_nil, List.nodup_nil⟩

/-- Each configuration has a section with what its jobs come to. -/
theorem Session.exists_sections {configurations : List (String × ConfigurationSpec)}
    {lists : List (List ResolutionJob)}
    (h : List.Forall₂ (fun c jobs => m.configurationJobs s.registry c = .ok jobs)
      configurations lists) :
    ∃ sections : List ListingSection,
      sections.map ListingSection.configuration = configurations.map Prod.fst ∧
      (∀ g ∈ sections, g.entries.map ResolutionEntry.pair
        = m.dependencies.keys.map fun d => (g.configuration, d)) ∧
      lists.flatten.map s.run = sections.flatMap ListingSection.entries := by
  induction h with
  | nil => exact ⟨[], rfl, nofun, rfl⟩
  | @cons c jobs _ _ hjobs _ ih =>
      obtain ⟨sections, hnames, hpairs, hentries⟩ := ih
      refine ⟨⟨c.1, jobs.map s.run⟩ :: sections, by simp [hnames],
        List.forall_mem_cons.mpr ⟨?_, hpairs⟩, by simp [hentries]⟩
      rw [← Manifest.pairs_configurationJobs hjobs, List.map_map]
      rfl

/-- With a dependency in each of them, and one for each configuration, these are the
sections of a listing. -/
theorem isDivision_of_pairs {sections : List ListingSection}
    (hnames : (sections.map ListingSection.configuration).Nodup) {names : List String}
    (hnonempty : names ≠ []) (hpairs : ∀ g ∈ sections, g.entries.map ResolutionEntry.pair
      = names.map fun d => (g.configuration, d)) : IsDivision sections where
  nonempty g hg hempty := by
    have hnone := hpairs g hg
    rw [hempty, List.map_nil, eq_comm, List.map_eq_nil_iff] at hnone
    exact hnonempty hnone
  configuration g hg e he := by
    have hpair : e.pair ∈ names.map fun d => (g.configuration, d) :=
      hpairs g hg ▸ List.mem_map_of_mem he
    obtain ⟨d, -, hd⟩ := List.mem_map.mp hpair
    exact (congrArg Prod.fst hd).symm
  adjacent := (List.pairwise_map.mp hnames).isChain

/-- **The listing has one section for each configuration that is asked for**, and in
it one entry for each dependency, both by name.  Without dependencies there is
nothing to list. -/
theorem Session.text_of_resolveAll (h : s.resolveAll m only = .ok all) :
    (m.dependencies.isEmpty = true → all.text = "") ∧
    (m.dependencies.isEmpty = false →
      ∃ (configurations : List (String × ConfigurationSpec)) (sections : List ListingSection),
        m.selected only = .ok configurations ∧
        sections.map ListingSection.configuration = configurations.map Prod.fst ∧
        (∀ g ∈ sections, g.entries.map ResolutionEntry.pair
          = m.dependencies.keys.map fun d => (g.configuration, d)) ∧
        all.entries = sections.flatMap ListingSection.entries ∧
        all.text = unlines (List.intercalate [""] (sections.map ListingSection.lines))) := by
  obtain ⟨jobs, hjobs, rfl⟩ := resolveAll_eq_ok_iff.mp h
  obtain ⟨configurations, lists, hselected, hlists, rfl⟩ := Manifest.jobs_eq_ok_iff.mp hjobs
  obtain ⟨sections, hnames, hpairs, hentries⟩ := Session.exists_sections hlists
  constructor
  · intro hempty
    have hnone : ∀ g ∈ sections, g.entries = [] := by
      intro g hg
      have hpair := hpairs g hg
      rw [SortedMap.eq_empty hempty] at hpair
      exact List.map_eq_nil_iff.mp hpair
    rw [Resolution.text, hentries, List.flatMap_eq_nil_iff.mpr hnone]
    rfl
  · intro hsome
    have hkeys : m.dependencies.keys ≠ [] := by
      intro hnone
      rw [SortedMap.isEmpty, List.map_eq_nil_iff.mp hnone] at hsome
      cases hsome
    have hnodup : (sections.map ListingSection.configuration).Nodup := by
      rw [hnames]
      exact Manifest.nodup_selected hselected
    exact ⟨configurations, sections, hselected, hnames, hpairs, hentries,
      Resolution.text_eq (isDivision_of_pairs hnodup hkeys hpairs) hentries⟩

end

end VariantSelection
