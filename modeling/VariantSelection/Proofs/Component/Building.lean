/-
Components are built by adding one variant after another.

A call changes the component at hand or is refused, and a run goes on whatever its
calls answer.  Since the name is looked for before anything is changed, a refused
call leaves the component as it was (`run_addInPlace`).  So the component holds,
after every run, the variants of the calls that succeeded, in their order and
completed in their capabilities, and no two of them have one name.  That is the
invariant of the induction, `Holds`; all that can be asked of a component, `Keeps`,
follows from it.

The readers of files build their components in the same way, and none of their calls
is refused (`BuiltOf`).
-/
import VariantSelection.Proofs.Metadata.Component
import VariantSelection.Proofs.Pom

namespace VariantSelection

namespace Component

/-! ### Calls

`addInPlace` looks for the name first and changes the component afterwards, step by
step.  `addVariant`, which knows of no steps, answers the same.
-/

/-- Adds a variant to the component at hand: its name is looked for among the
others, then it gets the implicit capability if it has none, and then it is put
behind them. -/
def addInPlace (v : Variant) : EStateM DuplicateVariant Component Unit := do
  let c ← get
  if c.variants.any fun w => w.name == v.name then
    throw ⟨c.id, v.name⟩
  else
    let capabilities :=
      if v.capabilities.isEmpty then v.capabilities.insert c.implicitCapability else v.capabilities
    set { c with variants := c.variants ++ [{ v with capabilities }] }

/-- What its owner holds of a component after a call, and the error if it was refused. -/
def offer (c : Component) (v : Variant) : Component × Option DuplicateVariant :=
  match (addInPlace v).run c with
  | .ok _ d => (d, none)
  | .error e d => (d, some e)

/-- The component after a run of calls. -/
def after (c : Component) (calls : List Variant) : Component :=
  calls.foldl (fun c v => (c.offer v).1) c

/-- The variants of those calls that succeed. -/
def accepted (c : Component) : List Variant → List Variant
  | [] => []
  | v :: rest =>
    match c.offer v with
    | (d, none) => v :: d.accepted rest
    | (d, some _) => d.accepted rest

section
variable {c : Component} {v : Variant}

/-- **What a call does in place is what `addVariant` answers**, and where that is an
error it does nothing. -/
theorem run_addInPlace (c : Component) (v : Variant) :
    (addInPlace v).run c = match c.addVariant v with
      | .ok d => .ok () d
      | .error e => .error e c := by
  have htaken : (c.variants.any fun w => w.name == v.name) = true ↔ v.name ∈ c.variantNames := by
    simp [variantNames]
  have hcompleted : { v with capabilities := if v.capabilities.isEmpty
      then v.capabilities.insert c.implicitCapability else v.capabilities } = c.completed v := by
    unfold completed
    by_cases hnone : v.capabilities.isEmpty = true
    · have hempty : v.capabilities = .empty := SortedSet.ext fun a =>
        iff_of_false (SortedSet.isEmpty_iff.mp hnone a) List.not_mem_nil
      rw [if_pos hnone, if_pos hnone, hempty]
      rfl
    · rw [if_neg hnone, if_neg hnone]
  have hrun : (addInPlace v).run c = (if c.variants.any fun w => w.name == v.name then
      (throw ⟨c.id, v.name⟩ : EStateM DuplicateVariant Component Unit)
      else set { c with variants := c.variants ++ [c.completed v] }).run c := by
    rw [← hcompleted]
    rfl
  rw [hrun, addVariant]
  by_cases hname : v.name ∈ c.variantNames
  · rw [if_pos (htaken.mpr hname), if_pos hname]
    rfl
  · rw [if_neg (mt htaken.mp hname), if_neg hname]
    rfl

theorem offer_of_taken (h : v.name ∈ c.variantNames) : c.offer v = (c, some ⟨c.id, v.name⟩) := by
  rw [offer, run_addInPlace, addVariant, if_pos h]

theorem offer_of_free (h : v.name ∉ c.variantNames) :
    c.offer v = ({ c with variants := c.variants ++ [c.completed v] }, none) := by
  rw [offer, run_addInPlace, addVariant, if_neg h]

end

/-! ### What a component holds

`Completes` and `Keeps` say what a component shows to whoever asks it; `Holds` is
stronger, since it tells the variants exactly, and is what a run carries along.
-/

/-- The variant `v` is the one that was given, except that it has the implicit
capability alone where none was declared. -/
structure Completes (c : Component) (given v : Variant) : Prop where
  same : v = { given with capabilities := v.capabilities }
  declared : (∃ capability, capability ∈ given.capabilities) → v.capabilities = given.capabilities
  undeclared : (∀ capability, capability ∉ given.capabilities) →
    v.capabilities = .singleton ⟨c.id.group, c.id.name, c.id.version⟩

/-- The component holds the variants that were given to it: one for each, in
their order. -/
structure Keeps (c : Component) (given : List Variant) : Prop where
  names_nodup : c.variantNames.Nodup
  variants : List.Forall₂ c.Completes given c.variants
  capable : ∀ v ∈ c.variants, ∃ capability, capability ∈ v.capabilities
  /-- A name leads to the variant that was given under it, and nowhere if none was. -/
  variant?_eq_some_iff : ∀ name v,
    c.variant? name = some v ↔ ∃ w ∈ given, w.name = name ∧ c.Completes w v
  variant?_eq_none_iff : ∀ name, c.variant? name = none ↔ ∀ w ∈ given, w.name ≠ name
  refused_iff : ∀ v, (c.offer v).2 = some ⟨c.id, v.name⟩ ↔ v.name ∈ c.variantNames
  added_iff : ∀ v, (c.offer v).2 = none ↔ v.name ∉ c.variantNames
  unchanged : ∀ v, (c.offer v).2 ≠ none → (c.offer v).1 = c

/-- The invariant of a run: the variants are the given ones, completed, and these
have distinct names. -/
structure Holds (c : Component) (given : List Variant) : Prop where
  variants : c.variants = given.map c.completed
  names_nodup : (given.map Variant.name).Nodup

section
variable {c : Component} {given : List Variant} {v w : Variant}

theorem completed_of_isEmpty (h : v.capabilities.isEmpty = true) :
    (c.completed v).capabilities = .singleton c.implicitCapability := by
  rw [completed, if_pos h]

theorem completed_of_declared (h : ¬v.capabilities.isEmpty = true) : c.completed v = v := by
  rw [completed, if_neg h]

theorem isEmpty_capabilities_eq_false : ¬v.capabilities.isEmpty = true ↔
    ∃ capability, capability ∈ v.capabilities := by
  rw [SortedSet.isEmpty_iff, not_forall]
  simp only [not_not]

theorem completes_iff : c.Completes w v ↔ v = c.completed w := by
  by_cases hnone : w.capabilities.isEmpty = true
  · have hno := SortedSet.isEmpty_iff.mp hnone
    have hcapabilities : (c.completed w).capabilities
        = .singleton ⟨c.id.group, c.id.name, c.id.version⟩ := completed_of_isEmpty hnone
    constructor
    · intro h
      rw [h.same, completed_eq, hcapabilities, h.undeclared hno]
    · rintro rfl
      exact ⟨c.completed_eq w, fun ⟨a, ha⟩ => absurd ha (hno a), fun _ => hcapabilities⟩
  · have hsome := isEmpty_capabilities_eq_false.mp hnone
    rw [completed_of_declared hnone]
    constructor
    · intro h
      rw [h.same, h.declared hsome]
    · rintro rfl
      exact ⟨rfl, fun _ => rfl, fun hno => hsome.elim fun a ha => absurd ha (hno a)⟩

theorem capable_completed (c : Component) (v : Variant) :
    ∃ capability, capability ∈ (c.completed v).capabilities := by
  by_cases hnone : v.capabilities.isEmpty = true
  · rw [completed_of_isEmpty hnone]
    exact ⟨_, SortedSet.mem_singleton.mpr rfl⟩
  · rw [completed_of_declared hnone]
    exact isEmpty_capabilities_eq_false.mp hnone

theorem Holds.variantNames_eq (h : c.Holds given) : c.variantNames = given.map Variant.name := by
  rw [variantNames, h.variants, List.map_map]
  exact List.map_congr_left fun v _ => c.name_completed v

theorem Holds.variant?_eq_some_iff (h : c.Holds given) {name : String} :
    c.variant? name = some v ↔ ∃ w ∈ given, w.name = name ∧ c.Completes w v := by
  have hnames : c.variantNames.Nodup := by
    rw [h.variantNames_eq]
    exact h.names_nodup
  refine (find?_key_eq_some_iff hnames).trans ?_
  rw [h.variants, List.mem_map]
  constructor
  · rintro ⟨⟨w, hw, rfl⟩, hname⟩
    exact ⟨w, hw, by rwa [name_completed] at hname, completes_iff.mpr rfl⟩
  · rintro ⟨w, hw, hname, hcompletes⟩
    rw [completes_iff.mp hcompletes, name_completed]
    exact ⟨⟨w, hw, rfl⟩, hname⟩

/-- **All that can be asked of a component follows from the invariant.** -/
theorem Holds.keeps (h : c.Holds given) : c.Keeps given where
  names_nodup := by
    rw [h.variantNames_eq]
    exact h.names_nodup
  variants := by
    rw [h.variants]
    exact forall₂_map_of_forall fun w _ => completes_iff.mpr rfl
  capable := by
    rw [h.variants, List.forall_mem_map]
    exact fun w _ => c.capable_completed w
  variant?_eq_some_iff := fun name v => h.variant?_eq_some_iff
  variant?_eq_none_iff := by
    intro name
    rw [Option.eq_none_iff_forall_ne_some]
    simp only [ne_eq, h.variant?_eq_some_iff, not_exists, not_and]
    exact ⟨fun hnone w hw hname => hnone _ w hw hname (completes_iff.mpr rfl),
      fun hnone v w hw hname => absurd hname (hnone w hw)⟩
  refused_iff := by
    intro v
    by_cases hname : v.name ∈ c.variantNames
    · simp [offer_of_taken hname, hname]
    · simp [offer_of_free hname, hname]
  added_iff := by
    intro v
    by_cases hname : v.name ∈ c.variantNames
    · simp [offer_of_taken hname, hname]
    · simp [offer_of_free hname, hname]
  unchanged := by
    intro v hrefused
    by_cases hname : v.name ∈ c.variantNames
    · rw [offer_of_taken hname]
    · rw [offer_of_free hname] at hrefused
      exact absurd rfl hrefused

/-! ### Runs of calls

One call keeps `Holds` (`Holds.offer_of_free`), and `Holds.after` is the induction
over the calls.  The remaining lemmas describe which calls are `accepted`.
-/

theorem holds_new (id : Coordinate) (source : ComponentSource) : (new id source).Holds [] :=
  ⟨rfl, List.nodup_nil⟩

theorem after_cons (c : Component) (v : Variant) (rest : List Variant) :
    c.after (v :: rest) = (c.offer v).1.after rest := rfl

theorem accepted_cons_of_taken (h : v.name ∈ c.variantNames) (rest : List Variant) :
    c.accepted (v :: rest) = c.accepted rest := by
  rw [accepted, offer_of_taken h]

theorem accepted_cons_of_free (h : v.name ∉ c.variantNames) (rest : List Variant) :
    c.accepted (v :: rest) = v :: (c.offer v).1.accepted rest := by
  rw [accepted, offer_of_free h]

theorem Holds.offer_of_free (h : c.Holds given) (hname : v.name ∉ c.variantNames) :
    (c.offer v).1.Holds (given ++ [v]) := by
  rw [Component.offer_of_free hname]
  refine ⟨?_, ?_⟩
  · rw [h.variants, List.map_append]
    rfl
  · rw [h.variantNames_eq] at hname
    rw [List.map_append, List.map_singleton]
    exact List.nodup_append.mpr ⟨h.names_nodup, List.nodup_singleton _,
      fun a ha b hb hab => hname (List.mem_singleton.mp hb ▸ hab ▸ ha)⟩

/-- **A run of calls keeps `Holds`**, and what was given by then are the variants of
the calls that succeeded. -/
theorem Holds.after (calls : List Variant) :
    ∀ {c : Component} {given : List Variant}, c.Holds given →
      (c.after calls).Holds (given ++ c.accepted calls) := by
  induction calls with
  | nil =>
      intro c given h
      rw [accepted, List.append_nil]
      exact h
  | cons v rest ih =>
      intro c given h
      rw [after_cons]
      by_cases hname : v.name ∈ c.variantNames
      · rw [accepted_cons_of_taken hname, offer_of_taken hname]
        exact ih h
      · rw [accepted_cons_of_free hname, List.append_cons]
        exact ih (h.offer_of_free hname)

theorem sublist_accepted (calls : List Variant) :
    ∀ c : Component, (c.accepted calls).Sublist calls := by
  induction calls with
  | nil => exact fun c => List.Sublist.refl []
  | cons v rest ih =>
      intro c
      by_cases hname : v.name ∈ c.variantNames
      · rw [accepted_cons_of_taken hname]
        exact (ih c).cons v
      · rw [accepted_cons_of_free hname]
        exact (ih _).cons_cons v

theorem mem_variantNames_after (calls : List Variant) :
    ∀ {c : Component} {name : String}, name ∈ (c.after calls).variantNames ↔
      name ∈ c.variantNames ∨ ∃ v ∈ calls, v.name = name := by
  induction calls with
  | nil => simp [after]
  | cons v rest ih =>
      intro c name
      rw [after_cons, ih]
      by_cases hname : v.name ∈ c.variantNames
      · rw [offer_of_taken hname]
        grind
      · rw [offer_of_free hname]
        simp only [variantNames, List.map_append, List.mem_append]
        grind [name_completed]

/-- A run adds variants behind the others and changes nothing else. -/
theorem exists_added (calls : List Variant) :
    ∀ c : Component, ∃ added, c.after calls = { c with variants := c.variants ++ added } := by
  induction calls with
  | nil => exact fun c => ⟨[], by rw [List.append_nil]; rfl⟩
  | cons v rest ih =>
      intro c
      rw [after_cons]
      by_cases hname : v.name ∈ c.variantNames
      · rw [offer_of_taken hname]
        exact ih c
      · rw [offer_of_free hname]
        obtain ⟨added, hadded⟩ := ih { c with variants := c.variants ++ [c.completed v] }
        exact ⟨c.completed v :: added, by rw [hadded, List.append_assoc]; rfl⟩

theorem id_after (c : Component) (calls : List Variant) : (c.after calls).id = c.id := by
  obtain ⟨added, hadded⟩ := exists_added calls c
  rw [hadded]

/-! ### Readers

A reader that succeeds has made a run in which all calls were accepted.
-/

/-- The component is what a run of calls makes of an empty one, and each of the
calls succeeds. -/
structure BuiltOf (c : Component) (source : ComponentSource) (given : List Variant) : Prop where
  after : (new c.id source).after given = c
  accepted : (new c.id source).accepted given = given

theorem BuiltOf.keeps {source : ComponentSource} (h : c.BuiltOf source given) : c.Keeps given := by
  have hholds := Holds.after given (holds_new c.id source)
  rw [h.accepted, h.after, List.nil_append] at hholds
  exact hholds.keeps

end

end Component

open Component

/-- `addEntry` adds the variants of a document one after another, each as it is read. -/
theorem Metadata.exists_calls {path : String} {r : Registry} (entries : List VariantEntry) :
    ∀ {c d : Component}, entries.foldlM (addEntry path r) c = .ok d → ∃ given,
      List.Forall₂ (fun e v => e.variant path r = .ok v) entries given ∧
        c.after given = d ∧ c.accepted given = given := by
  induction entries with
  | nil =>
      intro c d h
      cases h
      exact ⟨[], List.Forall₂.nil, rfl, rfl⟩
  | cons e rest ih =>
      intro c d h
      rw [List.foldlM_cons, bind_eq_ok] at h
      obtain ⟨next, hnext, hd⟩ := h
      simp only [addEntry, bind_eq_ok, mapError_eq_ok] at hnext
      obtain ⟨v, hv, hadd⟩ := hnext
      have hfree : v.name ∉ c.variantNames := by
        intro htaken
        rw [addVariant, if_pos htaken] at hadd
        cases hadd
      have hoffer : (c.offer v).1 = next := by
        rw [offer_of_free hfree, addVariant_eq_ok hadd]
      obtain ⟨given, hgiven, hafter, haccepted⟩ := ih hd
      refine ⟨v :: given, List.Forall₂.cons hv hgiven, ?_, ?_⟩
      · rw [after_cons, hoffer, hafter]
      · rw [accepted_cons_of_free hfree, hoffer, haccepted]

theorem Metadata.builtOf_readText {text path : String} {r : Registry} {c : Component}
    (h : readText text path r = .ok c) : ∃ d given, Document.parse? text = some d ∧
      List.Forall₂ (fun e v => e.variant path r = .ok v) d.variants given ∧
      c.BuiltOf .moduleMetadata given := by
  unfold readText at h
  cases hparsed : Document.parse? text with
  | none => simp [hparsed] at h
  | some d =>
      simp only [hparsed] at h
      have hid := (Document.describes_component h).id
      unfold Document.component at h
      by_cases hformat : isSupported d.formatVersion = true
      · rw [if_pos hformat] at h
        obtain ⟨given, hgiven, hafter, haccepted⟩ := exists_calls d.variants h
        rw [← hid] at hafter haccepted
        exact ⟨d, given, rfl, hgiven, hafter, haccepted⟩
      · rw [if_neg hformat] at h
        cases h

/-- The two variants that are derived from a project have two names. -/
theorem Pom.builtOf_derivedVariants (id : Coordinate) (dependencies : List (Scope × Dependency)) :
    let bare := Component.new id .pom
    let variants := derivedVariants bare dependencies
    BuiltOf { bare with variants := variants.map bare.completed } .pom variants := by
  intro bare variants
  obtain ⟨compile, runtime, hvariants, hcompile, hruntime⟩ : ∃ compile runtime,
      variants = [compile, runtime] ∧ compile.name = "compile" ∧ runtime.name = "runtime" :=
    ⟨_, _, rfl, rfl, rfl⟩
  have hfirst : bare.offer compile
      = ({ bare with variants := [bare.completed compile] }, none) :=
    offer_of_free List.not_mem_nil
  have hsecond : ({ bare with variants := [bare.completed compile] } : Component).offer runtime
      = ({ bare with variants := [bare.completed compile, bare.completed runtime] }, none) :=
    offer_of_free (by simp [variantNames, hcompile, hruntime])
  rw [hvariants]
  constructor
  · show (bare.after [compile, runtime]) = _
    rw [after_cons, hfirst, after_cons, hsecond]
    rfl
  · show bare.accepted [compile, runtime] = _
    simp only [accepted, hfirst, hsecond]

theorem Pom.builtOf_readText {text path : String} {c : Component} (h : readText text path = .ok c) :
    ∃ given, (given = [] ∨ ∃ dependencies, given = derivedVariants (.new c.id .pom) dependencies) ∧
      c.BuiltOf .pom given := by
  unfold readText at h
  cases hparsed : XmlNode.parse? text with
  | none => simp [hparsed] at h
  | some project =>
      simp only [hparsed] at h
      obtain ⟨-, -, -, -, hdescribed⟩ := component_eq_ok_iff.mp h
      rw [← hdescribed, describedAs]
      by_cases hpackaging : project.Tells "packaging" "pom"
      · rw [if_pos hpackaging]
        exact ⟨[], Or.inl rfl, rfl, rfl⟩
      · rw [if_neg hpackaging]
        exact ⟨_, Or.inr ⟨_, rfl⟩, builtOf_derivedVariants c.id _⟩

namespace Component

/-- **A component holds what was given to it, whatever calls it is built by.**
After every run of calls, refused ones included, it has the variants of the calls
that succeeded, in their order and completed; and a call succeeds exactly where no
variant of the name is there, that is where no call for the name came before it.
What the readers of module metadata and of POMs give is built by runs in which every
call succeeds. -/
theorem keeps_of_building :
    (∀ (id : Coordinate) (source : ComponentSource) (calls : List Variant),
      ((new id source).after calls).id = id ∧
      ((new id source).after calls).Keeps ((new id source).accepted calls) ∧
      ((new id source).accepted calls).Sublist calls ∧
      ∀ v, (((new id source).after calls).offer v).2 ≠ none ↔ ∃ w ∈ calls, w.name = v.name) ∧
    (∀ text path r c, Metadata.readText text path r = .ok c →
      ∃ d given, Metadata.Document.parse? text = some d ∧
        List.Forall₂ (fun e v => e.variant path r = .ok v) d.variants given ∧
        c.BuiltOf .moduleMetadata given ∧ c.Keeps given) ∧
    (∀ text path c, Pom.readText text path = .ok c →
      ∃ given, (given = [] ∨
          ∃ dependencies, given = Pom.derivedVariants (new c.id .pom) dependencies) ∧
        c.BuiltOf .pom given ∧ c.Keeps given) := by
  refine ⟨fun id source calls => ?_, fun text path r c h => ?_, fun text path c h => ?_⟩
  · have hkeeps := (Holds.after calls (holds_new id source)).keeps
    refine ⟨id_after _ calls, hkeeps, sublist_accepted calls _, fun v => ?_⟩
    rw [ne_eq, hkeeps.added_iff, not_not, mem_variantNames_after]
    exact or_iff_right List.not_mem_nil
  · obtain ⟨d, given, hparsed, hgiven, hbuilt⟩ := Metadata.builtOf_readText h
    exact ⟨d, given, hparsed, hgiven, hbuilt, hbuilt.keeps⟩
  · obtain ⟨given, hgiven, hbuilt⟩ := Pom.builtOf_readText h
    exact ⟨given, hgiven, hbuilt, hbuilt.keeps⟩

namespace Sample

/-- A variant with nothing but a name and capabilities. -/
def named (name : String) (capabilities : SortedSet Capability) : Variant :=
  ⟨name, .empty, capabilities, [], [], []⟩

/-- Calls for two names, the first of them twice. -/
def calls : List Variant :=
  [named "api" .empty, named "api" (.singleton ⟨"g", "fixtures", "1"⟩),
    named "runtime" (.singleton ⟨"g", "fixtures", "1"⟩)]

end Sample

/-- The second variant of a name is refused.  A document and a POM are read as what
their own variants make. -/
theorem keeps_of_building_samples :
    ((new ⟨"g", "m", "1"⟩ .declared).accepted Sample.calls).map Variant.name = ["api", "runtime"] ∧
    ((new ⟨"g", "m", "1"⟩ .declared).after Sample.calls).Keeps
      ((new ⟨"g", "m", "1"⟩ .declared).accepted Sample.calls) ∧
    (∃ c given,
      Metadata.readText (Metadata.Sample.document Metadata.Sample.plain) "lib.module"
        Metadata.Sample.sized = .ok c ∧
      c.BuiltOf .moduleMetadata given ∧ c.Keeps given) ∧
    ∃ given, Pom.readText Pom.Sample.siblingPom "a.pom" = .ok Pom.Sample.sibling ∧
      Pom.Sample.sibling.BuiltOf .pom given ∧ Pom.Sample.sibling.Keeps given := by
  obtain ⟨hruns, hmetadata, hpom⟩ := keeps_of_building
  have hread : (Metadata.readText (Metadata.Sample.document Metadata.Sample.plain) "lib.module"
      Metadata.Sample.sized).isOk = true := by
    decide +kernel
  obtain ⟨c, hc⟩ := isOk_iff.mp hread
  obtain ⟨-, given, -, -, hbuilt, hkeeps⟩ := hmetadata _ _ _ c hc
  obtain ⟨-, -, hsibling, -⟩ := Pom.Sample.readText_siblingPom
  obtain ⟨derived, -, hderived, hkeepsDerived⟩ := hpom _ _ _ hsibling
  exact ⟨by decide, (hruns _ _ Sample.calls).2.1, ⟨c, given, hc, hbuilt, hkeeps⟩,
    derived, hsibling, hderived, hkeepsDerived⟩

end Component

end VariantSelection
