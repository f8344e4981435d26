/-
Every pair of a configuration and a dependency is resolved once, and for itself.

All jobs are made before the first of them runs, and the entries are their outcomes,
one by one (`resolveAll_eq_ok_iff`).  So there is an entry for each pair, in the
order of the jobs; a configuration alone has the entries that it has among all; and
an entry is the same wherever its configuration and its dependency are.
-/
import VariantSelection.Proofs.Resolution.Jobs
import VariantSelection.Proofs.Selection

namespace VariantSelection

/-! ### Entries

`ResolvesAlone` has nothing of the other pairs in it: an entry is told by its own
configuration and its own dependency.
-/

/-- The configuration and the dependency that an entry is about. -/
def ResolutionEntry.pair (e : ResolutionEntry) : String × String := (e.configuration, e.dependency)

/-- The entry is what resolving its dependency by itself gives: the component that
the dependency names, for the converted attributes of the configuration and for the
selectors and the named variant of the dependency. -/
def Session.ResolvesAlone (s : Session) (m : Manifest) (e : ResolutionEntry) : Prop :=
  ∃ spec d attributes selectors,
    m.configurations.get? e.configuration = some spec ∧
    m.dependencies.get? e.dependency = some d ∧
    s.registry.coerceSet spec.attributes = .ok attributes ∧
    d.capabilities.mapM CapabilitySelector.parse = .ok selectors ∧
    e.module = d.module ∧
    e.outcome = s.resolve d.module
      { consumer := e.configuration, attributes, capabilities := selectors, variant := d.variant }

/-- What the entries for all configurations of a manifest are. -/
structure Session.ResolvesEachPair (s : Session) (m : Manifest) (all : Resolution) : Prop where
  /-- There is one entry for each pair, and no other. -/
  pairs : all.entries.map ResolutionEntry.pair
    = m.configurations.keys.flatMap fun c => m.dependencies.keys.map fun d => (c, d)
  /-- They ascend by configuration and then by dependency, so no pair has two. -/
  ordered : all.entries.Pairwise fun a b =>
    (compare a.configuration b.configuration).then (compare a.dependency b.dependency) = .lt
  outcomes : ∀ e ∈ all.entries, s.ResolvesAlone m e
  /-- A configuration alone gives the entries that it has among all. -/
  restricted : ∀ name, m.configurations.contains name = true →
    s.resolveAll m (some name) = .ok ⟨all.entries.filter fun e => e.configuration = name⟩
  /-- Where another manifest has the same configuration and the same dependency, it
  has the same entry. -/
  independent : ∀ other only rest, s.resolveAll other only = .ok rest →
    ∀ e ∈ all.entries, ∀ e' ∈ rest.entries, e.pair = e'.pair →
      m.configurations.get? e.configuration = other.configurations.get? e.configuration →
      m.dependencies.get? e.dependency = other.dependencies.get? e.dependency → e = e'

section
variable {s : Session} {m : Manifest} {only : Option String} {all : Resolution}

theorem resolveAll_eq_ok_iff :
    s.resolveAll m only = .ok all ↔
      ∃ jobs, m.jobs s.registry only = .ok jobs ∧ (⟨jobs.map s.run⟩ : Resolution) = all := by
  unfold Session.resolveAll
  simp only [bind_eq_ok, pure_eq_ok]

theorem resolveAll_fails_iff :
    (∃ e, s.resolveAll m only = .error e) ↔ ∃ e, m.jobs s.registry only = .error e := by
  unfold Session.resolveAll
  simp only [bind_fails_iff, pure_not_fails, and_false, exists_false, or_false]

/-- The entry of a job is what the job asks for, resolved. -/
theorem resolvesAlone_run {jobs : List ResolutionJob} (h : m.jobs s.registry only = .ok jobs) :
    ∀ job ∈ jobs, s.ResolvesAlone m (s.run job) := by
  intro job hjob
  obtain ⟨spec, d, ⟨-, hspec⟩, hd, attributes, selectors, hattributes, hselectors, hmade⟩ :=
    Manifest.serves_of_mem_jobs h job hjob
  refine ⟨spec, d, attributes, selectors, hspec, hd, hattributes, hselectors, ?_, ?_⟩
  · show job.module = d.module
    rw [hmade]
  · show s.resolve job.module job.request = _
    rw [hmade]
    rfl

theorem resolvesEachPair (h : s.resolveAll m none = .ok all) : s.ResolvesEachPair m all := by
  obtain ⟨jobs, hjobs, rfl⟩ := resolveAll_eq_ok_iff.mp h
  have hpairs : (jobs.map s.run).map ResolutionEntry.pair
      = m.configurations.keys.flatMap fun c => m.dependencies.keys.map fun d => (c, d) := by
    rw [← Manifest.pairs_jobs hjobs, List.map_map]
    rfl
  refine ⟨hpairs, ?_, ?_, ?_, ?_⟩
  · have hascending := pairwise_pairs m.configurations.ascending_keys m.dependencies.ascending_keys
    rw [← hpairs, List.pairwise_map] at hascending
    exact hascending
  · intro e he
    obtain ⟨job, hjob, rfl⟩ := List.mem_map.mp he
    exact resolvesAlone_run hjobs job hjob
  · intro name hname
    refine resolveAll_eq_ok_iff.mpr ⟨_, Manifest.jobs_of_contains hjobs hname, ?_⟩
    rw [List.filter_map]
    rfl
  · intro other only rest hrest e he e' he' hpair hconfiguration hdependency
    obtain ⟨others, hothers, rfl⟩ := resolveAll_eq_ok_iff.mp hrest
    obtain ⟨job, hjob, rfl⟩ := List.mem_map.mp he
    obtain ⟨job', hjob', rfl⟩ := List.mem_map.mp he'
    rw [Manifest.job_eq_of_agree hjobs hothers hjob hjob' hpair hconfiguration hdependency]

end

/-- **Every pair is resolved once, and for itself.**  Nothing that happens while a pair
is resolved makes the whole fail: that takes a configuration that is not declared, a
value that does not fit its attribute, or a selector that cannot be read. -/
theorem resolveAll_each_pair (s : Session) (m : Manifest) :
    (∀ all, s.resolveAll m none = .ok all → s.ResolvesEachPair m all) ∧
    ∀ only, (∃ e, s.resolveAll m only = .error e) ↔
      (∃ name, only = some name ∧ m.configurations.contains name = false) ∨
      (∃ name spec, m.Selects only name spec ∧
        ∃ key v, spec.attributes.get? key = some v ∧
          ∃ e, s.registry.coerce key v = .error e) ∨
      ((∃ name spec, m.Selects only name spec) ∧
        ∃ name d, m.dependencies.get? name = some d ∧
          ∃ text ∈ d.capabilities, ∃ e, CapabilitySelector.parse text = .error e) := by
  refine ⟨fun all => resolvesEachPair, fun only => ?_⟩
  rw [resolveAll_fails_iff, Manifest.jobs_fails_iff]

namespace Sample

/-- A session whose catalog knows the library. -/
def session (r : Registry) : Session :=
  ⟨r, ⟨.ofList [(⟨"org.example", "library", "1.0"⟩, library [api, newer, runtime])]⟩⟩

/-- Two configurations, and two dependencies of which the session knows one. -/
def manifest : Manifest where
  project := { name := "app" }
  dependencies := .ofList
    [("missing", { module := ⟨"org.example", "missing", "1.0"⟩ }),
     ("library", { module := ⟨"org.example", "library", "1.0"⟩ })]
  configurations := .ofList
    [("tests", { attributes := .ofList [(Standard.usage, .string "java-runtime")] }),
     ("main", { attributes := request.attributes })]

end Sample

/-- The failures stay in their entries, and a configuration that is not declared
fails the whole. -/
theorem resolveAll_each_pair_missing : ∃ r all, Registry.standard = .ok r ∧
    (Sample.session r).resolveAll Sample.manifest none = .ok all ∧
    all.entries.map ResolutionEntry.isFailure = [false, true, false, true] ∧
    (Sample.session r).ResolvesEachPair Sample.manifest all ∧
    ∃ e, (Sample.session r).resolveAll Sample.manifest (some "runtime") = .error e := by
  have hresolved : ∃ r all, Registry.standard = .ok r ∧
      (Sample.session r).resolveAll Sample.manifest none = .ok all ∧
      all.entries.map ResolutionEntry.isFailure = [false, true, false, true] :=
    ⟨_, _, rfl, rfl, rfl⟩
  obtain ⟨r, all, hr, hall, hfailures⟩ := hresolved
  obtain ⟨heach, hfails⟩ := resolveAll_each_pair (Sample.session r) Sample.manifest
  exact ⟨r, all, hr, hall, hfailures, heach all hall,
    (hfails (some "runtime")).mpr (Or.inl ⟨"runtime", rfl, by decide⟩)⟩

end VariantSelection
