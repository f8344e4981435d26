/-
The jobs that a manifest is resolved by.

Making them is all that can fail (`jobs_fails_iff`).  The jobs of one configuration
bear its name, and no two configurations have one name.  So the jobs of a
configuration can be told from all others by that name, and they are what is made
when only this configuration is asked for (`jobs_of_contains`).  What is in a job
comes from its own configuration and its own dependency, so nothing else in a
manifest can change it.
-/
import VariantSelection.Proofs.Ordered.Map
import VariantSelection.Resolution

namespace VariantSelection

/-! ### Lists put together from lists

`made a bs` relates an element to the list that was made for it, and what was made
for all of them is put together by `flatten`.
-/

section Collected
variable {α β κ : Type} {made : α → List β → Prop} {l : List α} {lists : List (List β)}

theorem exists_of_mem_flatten (h : List.Forall₂ made l lists) {b : β} (hb : b ∈ lists.flatten) :
    ∃ a ∈ l, ∃ bs, made a bs ∧ b ∈ bs := by
  obtain ⟨bs, hbs, hmem⟩ := List.mem_flatten.mp hb
  obtain ⟨a, ha, hmade⟩ := exists_of_mem_right h hbs
  exact ⟨a, ha, bs, hmade, hmem⟩

theorem map_flatten_of_forall₂ (key : β → κ) {keysOf : α → List κ}
    (hkeys : ∀ a bs, made a bs → bs.map key = keysOf a) (h : List.Forall₂ made l lists) :
    lists.flatten.map key = l.flatMap keysOf := by
  induction h with
  | nil => rfl
  | cons hfirst _ ih =>
      rw [List.flatten_cons, List.map_append, hkeys _ _ hfirst, ih, List.flatMap_cons]

/-- What was made for one element is told from the rest by a `tag` that no other
element has. -/
theorem made_filter_flatten [DecidableEq κ] (tag : α → κ) {key : β → κ}
    (htag : ∀ a bs, made a bs → ∀ b ∈ bs, key b = tag a) (h : List.Forall₂ made l lists)
    (hnodup : (l.map tag).Nodup) {a : α} (ha : a ∈ l) :
    made a (lists.flatten.filter fun b => key b = tag a) := by
  induction h with
  | nil => simp at ha
  | @cons first bs rest lists hfirst hrest ih =>
      rw [List.map_cons, List.nodup_cons] at hnodup
      obtain ⟨hfresh, hnodup⟩ := hnodup
      rw [List.flatten_cons, List.filter_append]
      rcases List.mem_cons.mp ha with rfl | ha
      · have hown : (bs.filter fun b => key b = tag a) = bs :=
          List.filter_eq_self.mpr fun b hb => by simpa using htag a bs hfirst b hb
        have hothers : (lists.flatten.filter fun b => key b = tag a) = [] := by
          rw [List.filter_eq_nil_iff]
          intro b hb hkey
          obtain ⟨other, hother, cs, hmade, hmem⟩ := exists_of_mem_flatten hrest hb
          have htags : tag other = tag a := by
            rw [← htag other cs hmade b hmem]
            exact of_decide_eq_true hkey
          exact hfresh (htags ▸ List.mem_map_of_mem hother)
        rw [hown, hothers, List.append_nil]
        exact hfirst
      · have hothers : (bs.filter fun b => key b = tag a) = [] := by
          rw [List.filter_eq_nil_iff]
          intro b hb hkey
          have htags : tag a = tag first := by
            rw [← htag first bs hfirst b hb]
            exact (of_decide_eq_true hkey).symm
          exact hfresh (htags ▸ List.mem_map_of_mem ha)
        rw [hothers, List.nil_append]
        exact ih hnodup ha

end Collected

/-- All pairs of two ascending lists, the first parts before the second parts, ascend. -/
theorem pairwise_pairs {firsts seconds : List String}
    (hfirsts : firsts.Pairwise fun a b => compare a b = .lt)
    (hseconds : seconds.Pairwise fun a b => compare a b = .lt) :
    (firsts.flatMap fun a => seconds.map fun b => (a, b)).Pairwise
      fun p q => (compare p.1 q.1).then (compare p.2 q.2) = .lt := by
  rw [List.pairwise_flatMap]
  refine ⟨fun a _ => ?_, hfirsts.imp fun hlt => ?_⟩
  · rw [List.pairwise_map]
    refine hseconds.imp fun hlt => ?_
    show (compare a a).then _ = .lt
    rw [show compare a a = .eq from Std.ReflCmp.compare_self]
    exact hlt
  · intro p hp q hq
    obtain ⟨_, -, rfl⟩ := List.mem_map.mp hp
    obtain ⟨_, -, rfl⟩ := List.mem_map.mp hq
    rw [hlt]
    rfl

namespace Manifest

variable {m : Manifest} {only : Option String}

/-! ### The configurations that are asked for -/

/-- The manifest declares the configuration, and it is asked for. -/
def Selects (m : Manifest) (only : Option String) (name : String) (spec : ConfigurationSpec) :
    Prop :=
  (only = none ∨ only = some name) ∧ m.configurations.get? name = some spec

theorem mem_selected_iff {configurations : List (String × ConfigurationSpec)}
    (h : m.selected only = .ok configurations) {c : String × ConfigurationSpec} :
    c ∈ configurations ↔ m.Selects only c.1 c.2 := by
  unfold selected at h
  unfold Selects
  cases only with
  | none =>
      cases h
      rw [← SortedMap.get?_eq_some_iff]
      simp
  | some name =>
      cases hfound : m.configurations.get? name with
      | none => simp [hfound] at h
      | some spec =>
          simp only [hfound, Except.ok.injEq] at h
          rw [← h, List.mem_singleton]
          constructor
          · rintro rfl
            exact ⟨Or.inr rfl, hfound⟩
          · rintro ⟨hname, hspec⟩
            have hsame : name = c.1 := by simpa using hname
            rw [← hsame, hfound, Option.some.injEq] at hspec
            exact Prod.ext hsame.symm hspec.symm

/-- What `selected` gives is all that the manifest selects; where nothing is
declared, nothing is. -/
theorem exists_selected_iff {p : String × ConfigurationSpec → Prop} :
    (∃ configurations, m.selected only = .ok configurations ∧ ∃ c ∈ configurations, p c) ↔
      ∃ name spec, m.Selects only name spec ∧ p (name, spec) := by
  constructor
  · rintro ⟨configurations, hselected, c, hc, hp⟩
    exact ⟨c.1, c.2, (mem_selected_iff hselected).mp hc, hp⟩
  · rintro ⟨name, spec, hselects, hp⟩
    have hselected : ∃ configurations, m.selected only = .ok configurations := by
      unfold selected
      rcases hselects with ⟨rfl | rfl, hspec⟩
      · exact ⟨_, rfl⟩
      · exact ⟨[(name, spec)], by simp only [hspec]⟩
    obtain ⟨configurations, hselected⟩ := hselected
    exact ⟨configurations, hselected, (name, spec), (mem_selected_iff hselected).mpr hselects, hp⟩

theorem selected_fails_iff :
    (∃ e, m.selected only = .error e) ↔
      ∃ name, only = some name ∧ m.configurations.contains name = false := by
  unfold selected
  cases only with
  | none => simp
  | some name => cases hfound : m.configurations.get? name <;> simp [SortedMap.contains, hfound]

end Manifest

/-! ### Jobs

`Serves` says what a job has to be without saying how it is made, and
`Serves.unique` that there is only one such job.
-/

/-- The job is for a dependency in a configuration: it asks for the dependency's
component, with the attributes of the configuration and with the selectors and the
named variant of the dependency. -/
def ResolutionJob.Serves (job : ResolutionJob) (r : Registry) (c : String × ConfigurationSpec)
    (d : String × DependencySpec) : Prop :=
  ∃ attributes selectors, r.coerceSet c.2.attributes = .ok attributes ∧
    d.2.capabilities.mapM CapabilitySelector.parse = .ok selectors ∧
    job = ⟨c.1, d.1, d.2.module, ⟨c.1, attributes, selectors, d.2.variant⟩⟩

/-- The configuration and the dependency that a job is for. -/
def ResolutionJob.pair (job : ResolutionJob) : String × String :=
  (job.configuration, job.dependency)

section
variable {m : Manifest} {r : Registry} {only : Option String} {c : String × ConfigurationSpec}
  {d : String × DependencySpec} {job other : ResolutionJob} {jobs : List ResolutionJob}

theorem ResolutionJob.Serves.pair_eq (h : job.Serves r c d) : job.pair = (c.1, d.1) := by
  obtain ⟨_, _, -, -, rfl⟩ := h
  rfl

/-- Nothing but the configuration and the dependency decides what the job is. -/
theorem ResolutionJob.Serves.unique (h : job.Serves r c d) (hother : other.Serves r c d) :
    job = other := by
  obtain ⟨attributes, selectors, hattributes, hselectors, rfl⟩ := h
  obtain ⟨attributes', selectors', hattributes', hselectors', rfl⟩ := hother
  rw [hattributes, Except.ok.injEq] at hattributes'
  rw [hselectors, Except.ok.injEq] at hselectors'
  rw [hattributes', hselectors']

namespace Manifest

theorem forall₂_serves (h : m.configurationJobs r c = .ok jobs) :
    List.Forall₂ (fun d job => ResolutionJob.Serves job r c d) m.dependencies.entries jobs := by
  unfold configurationJobs DependencySpec.request at h
  simp only [bind_eq_ok, mapError_eq_ok] at h
  obtain ⟨attributes, hattributes, hjobs⟩ := h
  refine (mapM_eq_ok_iff.mp hjobs).imp fun d job hjob => ?_
  simp only [bind_eq_ok, mapError_eq_ok, pure_eq_ok] at hjob
  obtain ⟨_, ⟨selectors, hselectors, rfl⟩, rfl⟩ := hjob
  exact ⟨attributes, selectors, hattributes, hselectors, rfl⟩

/-- One job for each dependency, in their order. -/
theorem pairs_configurationJobs (h : m.configurationJobs r c = .ok jobs) :
    jobs.map ResolutionJob.pair = m.dependencies.keys.map fun d => (c.1, d) := by
  have hpairs : List.Forall₂ (fun d job => (c.1, d.1) = ResolutionJob.pair job)
      m.dependencies.entries jobs :=
    (forall₂_serves h).imp fun _ _ hserves => hserves.pair_eq.symm
  rw [← List.forall₂_map_right_iff, ← List.forall₂_map_left_iff, List.forall₂_eq_eq_eq] at hpairs
  rw [← hpairs, SortedMap.keys, List.map_map]
  rfl

theorem configuration_of_mem (h : m.configurationJobs r c = .ok jobs) :
    ∀ job ∈ jobs, job.configuration = c.1 := by
  intro job hjob
  have hpair : job.pair ∈ m.dependencies.keys.map fun d => (c.1, d) := by
    rw [← pairs_configurationJobs h]
    exact List.mem_map_of_mem hjob
  obtain ⟨d, -, hd⟩ := List.mem_map.mp hpair
  exact (congrArg Prod.fst hd).symm

theorem configurationJobs_fails_iff :
    (∃ e, m.configurationJobs r c = .error e) ↔
      (∃ name v, c.2.attributes.get? name = some v ∧ ∃ e, r.coerce name v = .error e) ∨
      ∃ name d, m.dependencies.get? name = some d ∧
        ∃ text ∈ d.capabilities, ∃ e, CapabilitySelector.parse text = .error e := by
  unfold configurationJobs DependencySpec.request
  simp only [bind_fails_iff, mapError_fails_iff, mapError_eq_ok, mapM_fails_iff, pure_not_fails,
    and_false, exists_false, or_false]
  rw [fails_or_iff, Registry.coerceSet, SortedMap.traverse_fails_iff]
  simp only [SortedMap.get?_eq_some_iff, Prod.exists]

/-! ### The jobs of a manifest

The lists of the configurations are put together, and told apart again by the name
that each job bears.
-/

theorem jobs_eq_ok_iff :
    m.jobs r only = .ok jobs ↔
      ∃ configurations lists, m.selected only = .ok configurations ∧
        List.Forall₂ (fun c jobs => m.configurationJobs r c = .ok jobs) configurations lists ∧
        lists.flatten = jobs := by
  unfold Manifest.jobs
  simp only [bind_eq_ok, mapError_eq_ok, mapM_eq_ok_iff, pure_eq_ok, exists_and_left]

theorem serves_of_mem_jobs (h : m.jobs r only = .ok jobs) :
    ∀ job ∈ jobs, ∃ spec d, m.Selects only job.configuration spec ∧
      m.dependencies.get? job.dependency = some d ∧
      job.Serves r (job.configuration, spec) (job.dependency, d) := by
  intro job hjob
  obtain ⟨configurations, lists, hselected, hlists, rfl⟩ := jobs_eq_ok_iff.mp h
  obtain ⟨c, hc, jobs, hjobs, hmem⟩ := exists_of_mem_flatten hlists hjob
  obtain ⟨d, hd, hserves⟩ := exists_of_mem_right (forall₂_serves hjobs) hmem
  have hpair := hserves.pair_eq
  rw [ResolutionJob.pair, Prod.mk.injEq] at hpair
  obtain ⟨hconfiguration, hdependency⟩ := hpair
  rw [hconfiguration, hdependency]
  exact ⟨c.2, d.2, (mem_selected_iff hselected).mp hc, SortedMap.get?_eq_some_iff.mpr hd, hserves⟩

/-- The jobs of the one configuration that is asked for. -/
theorem jobs_of_declared {name : String} {spec : ConfigurationSpec}
    (h : m.configurations.get? name = some spec) :
    m.jobs r (some name) = m.configurationJobs r (name, spec) := by
  unfold Manifest.jobs selected
  simp only [h, mapError_ok, ok_bind, List.mapM_cons, List.mapM_nil]
  cases m.configurationJobs r (name, spec) with
  | error e => rfl
  | ok jobs => exact congrArg Except.ok (List.append_nil jobs)

theorem pairs_jobs (h : m.jobs r none = .ok jobs) :
    jobs.map ResolutionJob.pair
      = m.configurations.keys.flatMap fun c => m.dependencies.keys.map fun d => (c, d) := by
  obtain ⟨_, lists, ⟨⟩, hlists, rfl⟩ := jobs_eq_ok_iff.mp h
  have hpairs := map_flatten_of_forall₂ ResolutionJob.pair
    (fun c _ => pairs_configurationJobs (c := c)) hlists
  rw [hpairs]
  show _ = (m.configurations.entries.map Prod.fst).flatMap _
  rw [List.flatMap_map]

/-- The jobs of one configuration are those of all jobs that bear its name. -/
theorem jobs_of_contains (h : m.jobs r none = .ok jobs) {name : String}
    (hname : m.configurations.contains name = true) :
    m.jobs r (some name) = .ok (jobs.filter fun job => job.configuration = name) := by
  obtain ⟨spec, hspec⟩ := SortedMap.contains_iff.mp hname
  obtain ⟨_, lists, ⟨⟩, hlists, rfl⟩ := jobs_eq_ok_iff.mp h
  rw [jobs_of_declared hspec]
  exact made_filter_flatten Prod.fst (fun c _ => configuration_of_mem (c := c)) hlists
    m.configurations.nodup_keys (SortedMap.get?_eq_some_iff.mp hspec)

/-- Jobs of two manifests are the same where these agree. -/
theorem job_eq_of_agree {n : Manifest} {only' : Option String} {others : List ResolutionJob}
    (h : m.jobs r only = .ok jobs) (hothers : n.jobs r only' = .ok others) (hjob : job ∈ jobs)
    (hother : other ∈ others) (hpair : job.pair = other.pair)
    (hconfiguration : m.configurations.get? job.configuration
      = n.configurations.get? job.configuration)
    (hdependency : m.dependencies.get? job.dependency = n.dependencies.get? job.dependency) :
    job = other := by
  obtain ⟨spec, d, ⟨-, hspec⟩, hd, hserves⟩ := serves_of_mem_jobs h job hjob
  obtain ⟨spec', d', ⟨-, hspec'⟩, hd', hserves'⟩ := serves_of_mem_jobs hothers other hother
  obtain ⟨hc, hn⟩ := Prod.mk.inj hpair
  rw [← hc, ← hconfiguration, hspec, Option.some.injEq] at hspec'
  rw [← hn, ← hdependency, hd, Option.some.injEq] at hd'
  rw [← hspec', ← hd', ← hc, ← hn] at hserves'
  exact hserves.unique hserves'

/-- **What keeps jobs from being made**: a configuration that is not declared, a
value that does not fit, or a selector that cannot be read. -/
theorem jobs_fails_iff :
    (∃ e, m.jobs r only = .error e) ↔
      (∃ name, only = some name ∧ m.configurations.contains name = false) ∨
      (∃ name spec, m.Selects only name spec ∧
        ∃ key v, spec.attributes.get? key = some v ∧
          ∃ e, r.coerce key v = .error e) ∨
      ((∃ name spec, m.Selects only name spec) ∧
        ∃ name d, m.dependencies.get? name = some d ∧
          ∃ text ∈ d.capabilities, ∃ e, CapabilitySelector.parse text = .error e) := by
  unfold Manifest.jobs
  simp only [bind_fails_iff, mapError_fails_iff, mapError_eq_ok, mapM_fails_iff, pure_not_fails,
    and_false, exists_false, or_false, configurationJobs_fails_iff, selected_fails_iff,
    exists_selected_iff]
  simp only [and_or_left, exists_or, exists_and_right]

end Manifest

end

end VariantSelection
