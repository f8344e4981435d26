/-
The listing of the configurations tells what the resolver asks for.

The listing and the resolver go through the configurations that are asked for, and
both convert the attributes of each.  The resolver reads the selectors of the
dependencies in between.  Where these can all be read nothing else goes wrong there,
and then the two are one computation, the list of the converted requests
(`jobs_eq_map_listed`), followed by something that cannot fail: by printing in the
one case and by resolving in the other.  So they fail together, with the first fault
of the configurations in their order (`reports_listed`), and what they do afterwards
they do for the same attributes.
-/
import VariantSelection.Proofs.Distinct
import VariantSelection.Proofs.Registry
import VariantSelection.Proofs.Resolution
import VariantSelection.Proofs.Text.Lines
import VariantSelection.Report.Configurations

namespace VariantSelection

/-! ### Selectors -/

namespace DependencySpec

/-- Every selector of the dependency can be read. -/
def SelectorsReadable (d : DependencySpec) : Prop :=
  ∀ text ∈ d.capabilities, ∃ selector, CapabilitySelector.parse text = .ok selector

/-- The selectors that can be read. -/
def selectors (d : DependencySpec) : List CapabilitySelector :=
  d.capabilities.filterMap fun text => (CapabilitySelector.parse text).toOption

theorem SelectorsReadable.request_eq {d : DependencySpec} (h : d.SelectorsReadable)
    (consumer : String) (attributes : AttributeSet) :
    d.request consumer attributes
      = .ok { consumer, attributes, capabilities := d.selectors, variant := d.variant } := by
  rw [request, selectors, mapM_eq_ok_filterMap h]
  rfl

end DependencySpec

/-! ### Values that do not fit -/

namespace Registry

/-- What is wrong with the values of a set, by name. -/
def misfits (r : Registry) (set : AttributeSet) : List AttributeError :=
  set.entries.filterMap fun e => r.misfit? e.1 e.2

theorem reports_coerceSet (r : Registry) (set : AttributeSet) :
    Reports (r.misfits set) (r.coerceSet set) := by
  unfold misfits
  rw [List.filterMap_eq_flatMap_toList]
  exact SortedMap.reports_traverse r.reports_coerce set

end Registry

/-! ### Requests

What is asked for is written once more as lists that cannot fail, so that the
listing and the jobs can both be measured by them.
-/

namespace Manifest

/-- The configurations that are asked for: all of them, or those of the name that
`only` gives. -/
def asked (m : Manifest) (only : Option String) : List (String × ConfigurationSpec) :=
  m.configurations.entries.filter fun c => only.all fun name => c.1 = name

/-- The jobs of a consumer with these attributes, one for each dependency. -/
def jobsFor (m : Manifest) (consumer : String) (attributes : AttributeSet) : List ResolutionJob :=
  m.dependencies.entries.map fun d =>
    ⟨consumer, d.1, d.2.module,
      { consumer, attributes, capabilities := d.2.selectors, variant := d.2.variant }⟩

/-- The fault of a name that no configuration has. -/
def undeclared (m : Manifest) (only : Option String) : List UnknownConfiguration :=
  match only with
  | none => []
  | some name =>
    match m.configurations.get? name with
    | none => [⟨name, m.configurations.keys⟩]
    | some _ => []

/-- What is wrong with the configurations that are asked for: there is none of the
name, or values do not fit. -/
def requestFaults (m : Manifest) (r : Registry) (only : Option String) : List RequestError :=
  (m.undeclared only).map .configuration
    ++ (m.asked only).flatMap fun c => (r.misfits c.2.attributes).map .attribute

/-- The configuration as it is listed, if its attributes can be converted. -/
def listedAs (r : Registry) (c : String × ConfigurationSpec) :
    Except RequestError ListedConfiguration := do
  let attributes ← (r.coerceSet c.2.attributes).mapError .attribute
  return ⟨c.1, c.2.description, attributes⟩

section
variable {m : Manifest} {r : Registry} {only : Option String}

theorem listed_eq (m : Manifest) (r : Registry) (only : Option String) :
    m.listed r only = (m.selected only).mapError .configuration >>= fun configurations =>
      configurations.mapM (listedAs r) := rfl

theorem asked_of_declared {name : String} {spec : ConfigurationSpec}
    (h : m.configurations.get? name = some spec) : m.asked (some name) = [(name, spec)] := by
  have hentries : m.configurations.entries.Nodup :=
    List.Nodup.of_map Prod.fst m.configurations.nodup_keys
  refine List.perm_singleton.mp ((List.perm_ext_iff_of_nodup
    (hentries.sublist List.filter_sublist) (List.nodup_singleton _)).mpr fun c => ?_)
  simp only [List.mem_filter, Option.all_some, decide_eq_true_eq, List.mem_singleton]
  constructor
  · rintro ⟨hc, hname⟩
    have hspec : m.configurations.get? c.1 = some c.2 := SortedMap.get?_eq_some_iff.mpr hc
    rw [hname, h, Option.some.injEq] at hspec
    exact Prod.ext hname hspec.symm
  · rintro rfl
    exact ⟨SortedMap.get?_eq_some_iff.mp h, rfl⟩

theorem selected_eq_ok {configurations : List (String × ConfigurationSpec)}
    (h : m.selected only = .ok configurations) : configurations = m.asked only := by
  unfold selected at h
  cases only with
  | none =>
      cases h
      simp [asked]
  | some name =>
      cases hfound : m.configurations.get? name with
      | none => simp [hfound] at h
      | some spec =>
          simp only [hfound, Except.ok.injEq] at h
          rw [← h, asked_of_declared hfound]

/-- **Where the selectors can be read, jobs are made of what `listedAs` gives**, and
nothing else can fail. -/
theorem configurationJobs_eq (hreadable : ∀ d ∈ m.dependencies.values, d.SelectorsReadable)
    (c : String × ConfigurationSpec) :
    m.configurationJobs r c = (listedAs r c).map fun l => m.jobsFor l.name l.attributes := by
  unfold configurationJobs listedAs
  cases (r.coerceSet c.2.attributes).mapError RequestError.attribute with
  | error e => rfl
  | ok attributes =>
      rw [ok_bind, ok_bind]
      refine mapM_eq_ok_iff.mpr ?_
      refine forall₂_map_of_forall fun d hd => ?_
      rw [(hreadable d.2 (List.mem_map_of_mem hd)).request_eq]
      rfl

theorem jobs_eq_map_listed (hreadable : ∀ d ∈ m.dependencies.values, d.SelectorsReadable) :
    m.jobs r only = (m.listed r only).map fun listed =>
      listed.flatMap fun l => m.jobsFor l.name l.attributes := by
  have hjobs : m.configurationJobs r
      = fun c => (listedAs r c).map fun l => m.jobsFor l.name l.attributes :=
    funext (configurationJobs_eq hreadable)
  unfold Manifest.jobs
  rw [listed_eq, hjobs]
  cases (m.selected only).mapError RequestError.configuration with
  | error e => rfl
  | ok configurations =>
      rw [ok_bind, ok_bind, mapM_map_eq]
      cases configurations.mapM (listedAs r) with
      | error e => rfl
      | ok listed => rfl

/-! ### Faults

A computation made of steps that report their faults reports those of the first step
that has any; `Reports.bind` and `Reports.mapM` say so.
-/

theorem reports_selected (m : Manifest) (only : Option String) :
    Reports (m.undeclared only) (m.selected only) := by
  unfold undeclared selected
  cases only with
  | none => exact reports_ok _
  | some name =>
      dsimp only
      cases m.configurations.get? name with
      | none => exact reports_error _ []
      | some spec => exact reports_ok _

theorem reports_listedAs (r : Registry) (c : String × ConfigurationSpec) :
    Reports ((r.misfits c.2.attributes).map .attribute) (listedAs r c) :=
  ((r.reports_coerceSet c.2.attributes).mapError RequestError.attribute).bind_pure _

/-- **The listing is refused with the first fault**, of the name that is given or of
an attribute. -/
theorem reports_listed (m : Manifest) (r : Registry) (only : Option String) :
    Reports (m.requestFaults r only) (m.listed r only) := by
  rw [listed_eq]
  refine ((reports_selected m only).mapError RequestError.configuration).bind
    fun configurations h => ?_
  rw [selected_eq_ok (mapError_eq_ok.mp h)]
  exact Reports.mapM (reports_listedAs r) (m.asked only)

end

end Manifest

/-! ### Lines -/

/-- The line shows the attribute: its name, blanks up to the column of the values,
and its value. -/
def ShowsAttribute (e : String × Value) (line : String) : Prop :=
  ∃ blanks : String, (∀ c ∈ blanks.toList, c = ' ') ∧ line = s!"    - {e.1}{blanks} = {e.2.text}"

theorem showsAttribute_padRight (width : Nat) (e : String × Value) :
    ShowsAttribute e s!"    - {padRight width e.1} = {e.2.text}" := by
  obtain ⟨blanks, hblanks, hpad⟩ := exists_padRight_eq width e.1
  refine ⟨blanks, hblanks, ?_⟩
  simp only [hpad, toString, String.append_assoc]

namespace ListedConfiguration

/-- The lines above the attributes. -/
def heading (l : ListedConfiguration) : List String :=
  titleLines s!"Configuration {l.name}" ++ l.description.elim [] fun text => [text, ""]

/-- The lines show the configuration, with a line for each attribute by name or with
one that says that there are none. -/
inductive ShownAs (l : ListedConfiguration) : List String → Prop
  | bare (h : l.attributes = .empty) :
      ShownAs l (l.heading ++ ["    No attributes requested", ""])
  | attributes {rows : List String} (h : l.attributes ≠ .empty)
      (hrows : List.Forall₂ ShowsAttribute l.attributes.entries rows) :
      ShownAs l (l.heading ++ ("Attributes" :: rows ++ [""]))

theorem shownAs_lines (l : ListedConfiguration) : l.ShownAs l.lines := by
  have hlines : l.lines
      = l.heading ++ ((if l.attributes.isEmpty then ["    No attributes requested"]
      else attributeLines "" l.attributes) ++ [""]) := by
    unfold lines heading
    cases l.description with
    | none => simp
    | some text => simp
  rw [hlines]
  by_cases hempty : l.attributes.isEmpty = true
  · rw [if_pos hempty]
    exact ShownAs.bare (SortedMap.eq_empty hempty)
  · rw [if_neg hempty, attributeLines, if_neg hempty]
    exact ShownAs.attributes (fun h => hempty (h ▸ rfl))
      (forall₂_map_of_forall fun e _ => showsAttribute_padRight _ e)

end ListedConfiguration

/-! ### The listing and the resolver

With `jobs_eq_map_listed` both are a map over the listed configurations, and an
error of the one is an error of the other.
-/

/-- What is listed is what is resolved: the text shows the configurations, each with
its attributes converted, and the resolution is that of the jobs with these
attributes. -/
structure Session.ShowsRequests (s : Session) (m : Manifest) (only : Option String)
    (listed : List ListedConfiguration) (text : String) (all : Resolution) : Prop where
  /-- All configurations that are asked for are listed, with their
  attributes converted. -/
  converted : List.Forall₂ (fun c l => l.name = c.1 ∧ l.description = c.2.description ∧
    s.registry.coerceSet c.2.attributes = .ok l.attributes) (m.asked only) listed
  /-- The text shows the converted attributes of each. -/
  shown : ∃ sections, List.Forall₂ ListedConfiguration.ShownAs listed sections ∧
    text = unlines (sections.flatten ++ s.registry.orderLines)
  /-- The resolver makes its requests with the same attributes. -/
  requested : m.jobs s.registry only
    = .ok (listed.flatMap fun l => m.jobsFor l.name l.attributes)
  resolved : all.entries = (listed.flatMap fun l => m.jobsFor l.name l.attributes).map s.run

section
variable {s : Session} {m : Manifest} {only : Option String}

theorem Manifest.resolvableConfigurations_eq (m : Manifest) (r : Registry) (only : Option String) :
    m.resolvableConfigurations r only = (m.listed r only).map fun listed =>
      unlines (listed.flatMap ListedConfiguration.lines ++ r.orderLines) := rfl

theorem Session.resolveAll_eq (s : Session) (only : Option String)
    (hreadable : ∀ d ∈ m.dependencies.values, d.SelectorsReadable) :
    s.resolveAll m only = (m.listed s.registry only).map fun listed =>
      ⟨(listed.flatMap fun l => m.jobsFor l.name l.attributes).map s.run⟩ := by
  unfold Session.resolveAll
  rw [Manifest.jobs_eq_map_listed hreadable]
  cases m.listed s.registry only with
  | error e => rfl
  | ok listed => rfl

theorem Manifest.converted_of_listed {r : Registry} {listed : List ListedConfiguration}
    (h : m.listed r only = .ok listed) :
    List.Forall₂ (fun c l => l.name = c.1 ∧ l.description = c.2.description ∧
      r.coerceSet c.2.attributes = .ok l.attributes) (m.asked only) listed := by
  rw [listed_eq, bind_eq_ok] at h
  obtain ⟨configurations, hselected, hlisted⟩ := h
  rw [← selected_eq_ok (mapError_eq_ok.mp hselected)]
  refine (mapM_eq_ok_iff.mp hlisted).imp fun c l hl => ?_
  simp only [listedAs, bind_eq_ok, mapError_eq_ok, pure_eq_ok] at hl
  obtain ⟨attributes, hattributes, rfl⟩ := hl
  exact ⟨rfl, rfl, hattributes⟩

theorem Session.showsRequests_of_listed
    (hreadable : ∀ d ∈ m.dependencies.values, d.SelectorsReadable)
    {listed : List ListedConfiguration} (h : m.listed s.registry only = .ok listed) :
    s.ShowsRequests m only listed
      (unlines (listed.flatMap ListedConfiguration.lines ++ s.registry.orderLines))
      ⟨(listed.flatMap fun l => m.jobsFor l.name l.attributes).map s.run⟩ where
  converted := Manifest.converted_of_listed h
  shown := by
    refine ⟨listed.map ListedConfiguration.lines,
      forall₂_map_of_forall fun l _ => l.shownAs_lines, ?_⟩
    rw [List.flatMap_def]
  requested := by
    rw [Manifest.jobs_eq_map_listed hreadable, h]
    rfl
  resolved := rfl

end

/-- **The listing shows what the resolver asks for.**  Where all selectors can be
read, the two fail together and with the same error, the first fault of the
configurations that are asked for; and when they succeed, the attributes that are
shown for a configuration are those that are requested for it. -/
theorem resolvableConfigurations_resolveAll (s : Session) (m : Manifest) (only : Option String)
    (hreadable : ∀ d ∈ m.dependencies.values, d.SelectorsReadable) :
    (∀ e, m.resolvableConfigurations s.registry only = .error e ↔ s.resolveAll m only = .error e) ∧
    (∀ e, s.resolveAll m only = .error e ↔ (m.requestFaults s.registry only).head? = some e) ∧
    ∀ text all, m.resolvableConfigurations s.registry only = .ok text →
      s.resolveAll m only = .ok all →
      ∃ listed, s.ShowsRequests m only listed text all := by
  have hlisting := m.resolvableConfigurations_eq s.registry only
  have hresolver := s.resolveAll_eq only hreadable
  refine ⟨fun e => ?_, fun e => ?_, fun text all htext hall => ?_⟩
  · rw [hlisting, hresolver, map_eq_error, map_eq_error]
  · rw [hresolver, map_eq_error]
    exact m.reports_listed s.registry only e
  · rw [hlisting, map_eq_ok] at htext
    rw [hresolver, map_eq_ok] at hall
    obtain ⟨listed, hlisted, rfl⟩ := htext
    obtain ⟨listed', hlisted', rfl⟩ := hall
    have hsame : listed' = listed := by
      rw [hlisted, Except.ok.injEq] at hlisted'
      exact hlisted'.symm
    rw [hsame]
    exact ⟨listed, Session.showsRequests_of_listed hreadable hlisted⟩

namespace Sample

/-- A dependency with a selector, and two configurations: the version of one is
written as a text, that of the other is no number. -/
def written : Manifest where
  project := { name := "app" }
  dependencies := .ofList
    [("library",
      { module := ⟨"org.example", "library", "1.0"⟩, capabilities := ["org.example:library"] })]
  configurations := .ofList
    [("main", { attributes := .ofList [(Standard.jvmVersion, .string " 8")] }),
     ("tests", { attributes := .ofList [(Standard.jvmVersion, .string "eight")] })]

end Sample

/-- One configuration alone is listed and resolved; with the other one both are
refused for its version. -/
theorem resolvableConfigurations_resolveAll_written : ∃ r text all, Registry.standard = .ok r ∧
    (∀ d ∈ Sample.written.dependencies.values, d.SelectorsReadable) ∧
    Sample.written.resolvableConfigurations r (some "main") = .ok text ∧
    (Sample.session r).resolveAll Sample.written (some "main") = .ok all ∧
    (∃ listed, (Sample.session r).ShowsRequests Sample.written (some "main") listed text all) ∧
    Sample.written.resolvableConfigurations r none
      = .error (.attribute (.coercion Standard.jvmVersion "eight" .integer)) := by
  have hreadable : ∀ d ∈ Sample.written.dependencies.values, d.SelectorsReadable := by
    intro d hd
    obtain rfl := List.mem_singleton.mp hd
    intro text htext
    obtain rfl := List.mem_singleton.mp htext
    exact ⟨⟨"org.example", "library", none⟩, rfl⟩
  obtain ⟨r, text, all, hr, htext, hall, hfaults⟩ : ∃ r text all, Registry.standard = .ok r ∧
      Sample.written.resolvableConfigurations r (some "main") = .ok text ∧
      (Sample.session r).resolveAll Sample.written (some "main") = .ok all ∧
      (Sample.written.requestFaults r none).head?
        = some (.attribute (.coercion Standard.jvmVersion "eight" .integer)) :=
    ⟨_, _, _, rfl, rfl, rfl, rfl⟩
  obtain ⟨-, -, hshows⟩ :=
    resolvableConfigurations_resolveAll (Sample.session r) Sample.written (some "main") hreadable
  obtain ⟨hlisting, hresolver, -⟩ :=
    resolvableConfigurations_resolveAll (Sample.session r) Sample.written none hreadable
  exact ⟨r, text, all, hr, hreadable, htext, hall, hshows text all htext hall,
    (hlisting _).mpr ((hresolver _).mpr hfaults)⟩

end VariantSelection
