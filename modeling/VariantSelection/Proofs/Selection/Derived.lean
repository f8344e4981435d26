/-
A component that is derived from a POM is never ambiguous for a usage.

Its two variants differ in their usage and in nothing else that is compared.  So
beside the usage a request fits both of them or neither, and what it has to ask for
is the same whatever the precedence is.  For the runtime, the variant for
compilation is no substitute, and one variant qualifies at most.  For the API both
of them do, but the attributes that they share leave the rounds nothing to choose,
and the round of the usage, whenever it comes, keeps what was asked for.
-/
import VariantSelection.Proofs.Pom
import VariantSelection.Proofs.Selection.Exact
import VariantSelection.Proofs.Selection.Justified

namespace VariantSelection

/-! ### Candidates that differ in one attribute

A round of an attribute in which the candidates do not differ keeps them all.  So of
the rounds only one is left to look at, and its place in the order does not matter.
-/

section
variable {r : Registry} {requested : AttributeSet} {candidates : List Variant} {name key : String}

/-- No two of the candidates differ in the attribute. -/
def Uniform (name : String) (candidates : List Variant) : Prop :=
  ∀ v ∈ candidates, ∀ w ∈ candidates, v.attributes.get? name = w.attributes.get? name

theorem Uniform.sublist {kept : List Variant} (h : Uniform name candidates)
    (hsub : kept.Sublist candidates) : Uniform name kept :=
  fun v hv w hw => h v (hsub.subset hv) w (hsub.subset hw)

theorem Uniform.round (h : Uniform name candidates) :
    disambiguationRound r requested candidates name = candidates := by
  have hsize : (valuesOf name candidates).size ≤ 1 := by
    refine Nat.le_of_not_lt fun htwo => ?_
    have hsome := List.length_pos_iff.mp (Nat.lt_trans Nat.zero_lt_one htwo)
    obtain ⟨a, ha⟩ := List.exists_mem_of_ne_nil _ hsome
    obtain ⟨b, hb, hne⟩ := (one_lt_length_iff_of_nodup (SortedSet.nodup_elements _) ha).mp htwo
    obtain ⟨v, hv, hva⟩ := mem_valuesOf.mp ha
    obtain ⟨w, hw, hwb⟩ := mem_valuesOf.mp hb
    have heq := h w hw v hv
    rw [hva, hwb, Option.some.injEq] at heq
    exact hne heq
  unfold disambiguationRound
  rw [if_pos hsize]

/-- **The one attribute that candidates differ in decides alone**, at whatever place
of `names` it is consulted. -/
theorem disambiguationRounds_of_single {names : List String} (hnames : names.Nodup)
    (hkey : key ∈ names) (h : ∀ name ∈ names, name ≠ key → Uniform name candidates) :
    disambiguationRounds r requested names candidates
      = disambiguationRound r requested candidates key := by
  induction names with
  | nil => cases hkey
  | cons name rest ih =>
      obtain ⟨hname, hrest⟩ := List.nodup_cons.mp hnames
      rw [disambiguationRounds_cons]
      by_cases heq : name = key
      · rw [heq]
        refine disambiguationRounds_of_fixed r requested rest fun other hother => ?_
        have hne : other ≠ key := by
          intro hsame
          rw [hsame, ← heq] at hother
          exact hname hother
        have huniform := h other (List.mem_cons_of_mem name hother) hne
        exact (huniform.sublist (disambiguationRound_sublist r requested candidates key)).round
      · rw [(h name List.mem_cons_self heq).round]
        have hlater : key ∈ rest := (List.mem_cons.mp hkey).resolve_left (Ne.symm heq)
        exact ih hrest hlater fun other hother => h other (List.mem_cons_of_mem name hother)

end

/-! ### The standard rules

What the standard rules make of a usage, of a library and of a jar.
-/

namespace Registry.Standardized

variable {r : Registry}

theorem compatibilityRule_usage (h : r.Standardized) :
    r.compatibilityRule Standard.usage = Standard.accepting [("java-api", "java-runtime")] :=
  h.compatibilityRule_eq (d := ⟨Standard.usage, _, _, _⟩) List.mem_cons_self

theorem keepsExact_usage (h : r.Standardized) (wanted : Value) :
    KeepsExact (r.compatibilityRule Standard.usage) (r.disambiguationRule Standard.usage)
      wanted := by
  have hfound := h.find?_eq (d := ⟨Standard.usage, _, _, _⟩) List.mem_cons_self
  rw [compatibilityRule, disambiguationRule, hfound]
  exact Standard.keepsExact_usage wanted

theorem isCompatible_library_iff (h : r.Standardized) {wanted : Value} :
    (r.compatibilityRule Standard.category).isCompatible wanted (.string "library") = true ↔
      wanted = .string "library" := by
  have hrule : r.compatibilityRule Standard.category = .exact :=
    h.compatibilityRule_eq (d := ⟨Standard.category, _, _, _⟩)
      (List.mem_cons_of_mem _ List.mem_cons_self)
  simp [hrule, CompatibilityRule.isCompatible]

theorem isCompatible_jar_iff (h : r.Standardized) {wanted : Value} :
    (r.compatibilityRule Standard.libraryElements).isCompatible wanted (.string "jar") = true ↔
      wanted ∈ Standard.strings ["jar", "classes", "resources", "classes-and-resources"] := by
  have hrule : r.compatibilityRule Standard.libraryElements = Standard.accepting
      [("classes", "jar"), ("resources", "jar"), ("classes-and-resources", "jar")] :=
    h.compatibilityRule_eq (d := ⟨Standard.libraryElements, _, _, _⟩)
      (List.mem_cons_of_mem _ (List.mem_cons_of_mem _ List.mem_cons_self))
  rw [hrule, Standard.isCompatible_accepting_iff (by decide)]
  simp [Standard.strings]

end Registry.Standardized

/-! ### What a derived component can be asked for

Both variants come with the same condition on the request, `FitsDerived`, since the
usage is left out of it.
-/

/-- Beside the usage, the request asks for what a library in a jar is acceptable
for, and for no capability but the component's own. -/
structure Request.FitsDerived (q : Request) (r : Registry) (c : Component) : Prop where
  attributes : ∀ name wanted, name ≠ Standard.usage → q.attributes.get? name = some wanted →
    ∃ a, (name, a) ∈ [(Standard.category, Value.string "library"),
        (Standard.libraryElements, .string "jar")] ∧
      (r.compatibilityRule name).isCompatible wanted a = true
  capabilities : ∀ s ∈ q.capabilities, s.selects c.implicitCapability = true

/-- Under the standard rules a library is for libraries only, and a jar is taken for
what can be read out of it. -/
theorem Request.fitsDerived_iff {r : Registry} {c : Component} {q : Request} (hr : r.Standardized) :
    q.FitsDerived r c ↔
      (∀ name wanted, name ≠ Standard.usage → q.attributes.get? name = some wanted →
        name = Standard.category ∧ wanted = .string "library" ∨
        name = Standard.libraryElements ∧
          wanted ∈ Standard.strings ["jar", "classes", "resources", "classes-and-resources"]) ∧
      ∀ s ∈ q.capabilities, s.selects c.implicitCapability = true := by
  constructor
  · intro h
    refine ⟨fun name wanted hname hwanted => ?_, h.capabilities⟩
    obtain ⟨a, ha, hok⟩ := h.attributes name wanted hname hwanted
    simp only [List.mem_cons, Prod.mk.injEq, List.not_mem_nil, or_false] at ha
    rcases ha with ⟨rfl, rfl⟩ | ⟨rfl, rfl⟩
    · exact .inl ⟨rfl, hr.isCompatible_library_iff.mp hok⟩
    · exact .inr ⟨rfl, hr.isCompatible_jar_iff.mp hok⟩
  · intro h
    refine ⟨fun name wanted hname hwanted => ?_, h.2⟩
    rcases h.1 name wanted hname hwanted with ⟨rfl, hok⟩ | ⟨rfl, hok⟩
    · exact ⟨_, List.mem_cons_self, hr.isCompatible_library_iff.mpr hok⟩
    · exact ⟨_, List.mem_cons_of_mem _ List.mem_cons_self, hr.isCompatible_jar_iff.mpr hok⟩

/-- The request is answered with the variant if it fits, and refused otherwise. -/
structure Request.SelectsOrRefuses (q : Request) (r : Registry) (c : Component) (v : Variant) :
    Prop where
  answer : selectVariant r c q = .ok (.matched v) ∨ IsIncompatible (selectVariant r c q)
  matched_iff : selectVariant r c q = .ok (.matched v) ↔ q.FitsDerived r c

section
variable {r : Registry} {c : Component} {q : Request} {v compile runtime : Variant}
  {name usage : String} {wanted : Value}

theorem Variant.DerivedFor.get?_usage (h : v.DerivedFor c name usage) :
    v.attributes.get? Standard.usage = some (.string usage) :=
  (h.attributes _ _).mpr (by simp)

theorem Variant.DerivedFor.get?_iff (h : v.DerivedFor c name usage) {key : String} {a : Value}
    (hkey : key ≠ Standard.usage) : v.attributes.get? key = some a ↔
      (key, a) ∈ [(Standard.category, .string "library"),
        (Standard.libraryElements, .string "jar")] := by
  rw [h.attributes]
  simp [hkey]

theorem Variant.DerivedFor.exists_capability_iff (h : v.DerivedFor c name usage)
    {s : CapabilitySelector} : (∃ capability ∈ v.capabilities, s.selects capability = true) ↔
      s.selects c.implicitCapability = true := by
  simp only [← SortedSet.mem_elements, h.capabilities, List.mem_singleton, exists_eq_left]

/-- **A derived variant qualifies when its usage is acceptable and
`FitsDerived` holds.** -/
theorem Variant.DerivedFor.qualifies_iff (h : v.DerivedFor c name usage)
    (hwanted : q.attributes.get? Standard.usage = some wanted) :
    v.Qualifies r q ↔
      (r.compatibilityRule Standard.usage).isCompatible wanted (.string usage) = true ∧
        q.FitsDerived r c := by
  rw [Variant.qualifies_iff, Variant.provides_iff, Variant.report, evaluate_isCompatible_iff]
  simp only [h.exists_capability_iff]
  constructor
  · intro hqualifies
    obtain ⟨hprovides, hmeets⟩ := hqualifies
    obtain ⟨a, ha, hok⟩ := hmeets Standard.usage wanted hwanted
    rw [h.get?_usage, Option.some.injEq] at ha
    rw [ha]
    refine ⟨hok, fun key value hkey hvalue => ?_, hprovides⟩
    obtain ⟨b, hb, hokay⟩ := hmeets key value hvalue
    exact ⟨b, (h.get?_iff hkey).mp hb, hokay⟩
  · intro hfits
    obtain ⟨hok, hfits⟩ := hfits
    refine ⟨hfits.capabilities, fun key value hvalue => ?_⟩
    by_cases hkey : key = Standard.usage
    · rw [hkey, hwanted, Option.some.injEq] at hvalue
      rw [hkey, ← hvalue]
      exact ⟨.string usage, h.get?_usage, hok⟩
    · obtain ⟨a, ha, hokay⟩ := hfits.attributes key value hkey hvalue
      exact ⟨a, (h.get?_iff hkey).mpr ha, hokay⟩

/-- The two variants differ in their usage only. -/
theorem uniform_derived (hcompile : compile.DerivedFor c "compile" "java-api")
    (hruntime : runtime.DerivedFor c "runtime" "java-runtime") {key : String}
    (hkey : key ≠ Standard.usage) : Uniform key [compile, runtime] := by
  have hsame : compile.attributes.get? key = runtime.attributes.get? key := by
    refine Option.ext fun a => ?_
    rw [hcompile.get?_iff hkey, hruntime.get?_iff hkey]
  simp [Uniform, hsame]

/-- The answers where what qualifies is known in both cases. -/
theorem Request.selectsOrRefuses (hunnamed : q.variant = none) (hvariants : c.variants ≠ [])
    (hfits : q.FitsDerived r c → c.survivors r q = [v])
    (hnot : ¬q.FitsDerived r c → c.qualified r q = []) : q.SelectsOrRefuses r c v := by
  by_cases h : q.FitsDerived r c
  · have hmatched := (selectVariant_eq_matched_iff hunnamed).mpr (hfits h)
    exact ⟨.inl hmatched, iff_of_true hmatched h⟩
  · have hnone := (isIncompatible_selectVariant_iff hunnamed).mpr ⟨hvariants, hnot h⟩
    refine ⟨.inr hnone, iff_of_false (fun hmatched => ?_) h⟩
    obtain ⟨_, _, _, _, _, hrefused⟩ := hnone
    rw [hmatched] at hrefused
    cases hrefused

/-- Nothing qualifies for a request that does not fit. -/
theorem qualified_of_not_fits {usage' name' : String} (hvariants : c.variants = [compile, runtime])
    (hcompile : compile.DerivedFor c name usage) (hruntime : runtime.DerivedFor c name' usage')
    (hwanted : q.attributes.get? Standard.usage = some wanted) (hnot : ¬q.FitsDerived r c) :
    c.qualified r q = [] := by
  have hnone : ∀ v ∈ [compile, runtime], ¬v.Qualifies r q := by
    simp [hcompile.qualifies_iff hwanted, hruntime.qualifies_iff hwanted, hnot]
  rw [Component.qualified, hvariants, List.filter_eq_nil_iff]
  simpa using hnone

/-! ### The two usages

The two requests are kept apart here for the first time: one usage has a substitute
and the other has none.
-/

section
variable (hr : r.Standardized) (hvariants : c.variants = [compile, runtime])
  (hcompile : compile.DerivedFor c "compile" "java-api")
  (hruntime : runtime.DerivedFor c "runtime" "java-runtime") (hunnamed : q.variant = none)
include hr hvariants hcompile hruntime hunnamed

/-- Nothing but the runtime is acceptable for the runtime. -/
theorem selectsOrRefuses_runtime
    (hwanted : q.attributes.get? Standard.usage = some (.string "java-runtime")) :
    q.SelectsOrRefuses r c runtime := by
  refine Request.selectsOrRefuses hunnamed (by simp [hvariants]) (fun hfits => ?_)
    (qualified_of_not_fits hvariants hcompile hruntime hwanted)
  have hno : ¬compile.Qualifies r q := by
    rw [hcompile.qualifies_iff hwanted, hr.compatibilityRule_usage]
    exact fun h => absurd h.1 (by decide)
  have hyes : runtime.Qualifies r q := by
    rw [hruntime.qualifies_iff hwanted]
    exact ⟨CompatibilityRule.isCompatible_self _ _, hfits⟩
  have hqualified : c.qualified r q = [runtime] := by
    simp [Component.qualified, hvariants, hno, hyes]
  rw [Component.survivors, hqualified, disambiguate_of_length_le]
  exact Nat.le_refl 1

/-- Both are acceptable for the API, and the round of the usage keeps the one for
compilation. -/
theorem selectsOrRefuses_compile
    (hwanted : q.attributes.get? Standard.usage = some (.string "java-api")) :
    q.SelectsOrRefuses r c compile := by
  refine Request.selectsOrRefuses hunnamed (by simp [hvariants]) (fun hfits => ?_)
    (qualified_of_not_fits hvariants hcompile hruntime hwanted)
  have hboth : ∀ v ∈ [compile, runtime], v.Qualifies r q := by
    simp only [List.forall_mem_cons, List.not_mem_nil, false_implies, implies_true, and_true,
      hcompile.qualifies_iff hwanted, hruntime.qualifies_iff hwanted, hr.compatibilityRule_usage]
    exact ⟨⟨by decide, hfits⟩, by decide, hfits⟩
  have hqualified : c.qualified r q = [compile, runtime] := by
    rw [Component.qualified, hvariants]
    exact List.filter_eq_self.mpr (by simpa using hboth)
  have hround := disambiguationRound_of_held (hr.choosesBuiltIn.disambiguationRule Standard.usage)
    (hr.keepsExact_usage _) hwanted hboth ⟨compile, List.mem_cons_self, hcompile.get?_usage⟩
  have hother : runtime.attributes.get? Standard.usage ≠ some (.string "java-api") := by
    rw [hruntime.get?_usage]
    decide
  rw [Component.survivors_eq_rounds, hqualified,
    disambiguationRounds_of_single (r.nodup_disambiguationOrder q.attributes)
      (Registry.mem_disambiguationOrder.mpr (SortedMap.contains_iff.mpr ⟨_, hwanted⟩))
      fun _ _ hkey => uniform_derived hcompile hruntime hkey,
    hround]
  simp [hcompile.get?_usage, hother]

end

/-- **A component that is derived from a POM is never ambiguous for a usage**,
whatever else is requested and in whatever order the attributes are consulted. -/
theorem selectVariant_derivedFrom (hr : r.Standardized) {text path : String} {project : XmlNode}
    (hread : Pom.readText text path = .ok c) (hparsed : XmlNode.parse? text = some project)
    (hpackaging : ¬project.Tells "packaging" "pom") (hunnamed : q.variant = none) :
    ∃ compile runtime, c.variants = [compile, runtime] ∧
      compile.name = "compile" ∧ runtime.name = "runtime" ∧
      (q.attributes.get? Standard.usage = some (.string "java-api") →
        q.SelectsOrRefuses r c compile) ∧
      (q.attributes.get? Standard.usage = some (.string "java-runtime") →
        q.SelectsOrRefuses r c runtime) := by
  rw [Pom.readText, hparsed] at hread
  obtain ⟨compile, runtime, hvariants, hcompile, hruntime, -⟩ :=
    (Pom.derivedFrom_component hread hpackaging).variants
  exact ⟨compile, runtime, hvariants, hcompile.name, hruntime.name,
    selectsOrRefuses_compile hr hvariants hcompile hruntime hunnamed,
    selectsOrRefuses_runtime hr hvariants hcompile hruntime hunnamed⟩

end

namespace Sample

/-- A request for a usage and for library elements, of any version of the sample's
own capability. -/
def usageRequest (usage elements : String) : Request where
  consumer := "app"
  attributes :=
    .ofList [(Standard.libraryElements, .string elements), (Standard.usage, .string usage)]
  capabilities := [⟨"g", "a", none⟩]

theorem get?_usageRequest {usage elements name : String} {wanted : Value} :
    (usageRequest usage elements).attributes.get? name = some wanted ↔
      name = Standard.libraryElements ∧ wanted = .string elements ∨
        name = Standard.usage ∧ wanted = .string usage := by
  unfold usageRequest
  rw [SortedMap.get?_ofList_eq_some_iff]
  · simp
  · show [Standard.libraryElements, Standard.usage].Nodup
    decide

end Sample

/-- With the library elements consulted before the usage, the jar is taken for
classes, and it is not for headers. -/
theorem selectVariant_derivedFrom_sibling : ∃ s r project, Registry.standard = .ok s ∧
    s.declarePrecedence [Standard.libraryElements, Standard.usage] = .ok r ∧
    XmlNode.parse? Pom.Sample.siblingPom = some project ∧ ¬project.Tells "packaging" "pom" ∧
    Pom.readText Pom.Sample.siblingPom "a.pom" = .ok Pom.Sample.sibling ∧
    (∃ compile ∈ Pom.Sample.sibling.variants, compile.name = "compile" ∧
      selectVariant r Pom.Sample.sibling (Sample.usageRequest "java-api" "classes")
        = .ok (.matched compile)) ∧
    IsIncompatible
      (selectVariant r Pom.Sample.sibling (Sample.usageRequest "java-runtime" "headers")) := by
  have hdeclared : ∃ s r, Registry.standard = .ok s ∧
      s.declarePrecedence [Standard.libraryElements, Standard.usage] = .ok r :=
    ⟨_, _, rfl, rfl⟩
  obtain ⟨s, r, hs, hdeclare⟩ := hdeclared
  have hr : r.Standardized := .redeclared (.standard hs) hdeclare
  obtain ⟨project, hparsed, hread, hpackaging⟩ := Pom.Sample.readText_siblingPom
  refine ⟨s, r, project, hs, hdeclare, hparsed, hpackaging, hread, ?_, ?_⟩
  · obtain ⟨compile, runtime, hvariants, hname, -, hapi, -⟩ := selectVariant_derivedFrom
      (q := Sample.usageRequest "java-api" "classes") hr hread hparsed hpackaging rfl
    have hfits : (Sample.usageRequest "java-api" "classes").FitsDerived r Pom.Sample.sibling := by
      refine (Request.fitsDerived_iff hr).mpr ⟨fun name wanted hname hwanted => ?_, by decide⟩
      rcases Sample.get?_usageRequest.mp hwanted with ⟨rfl, rfl⟩ | ⟨husage, -⟩
      · exact .inr ⟨rfl, by decide⟩
      · exact absurd husage hname
    refine ⟨compile, by simp [hvariants], hname, ?_⟩
    exact (hapi (Sample.get?_usageRequest.mpr (.inr ⟨rfl, rfl⟩))).matched_iff.mpr hfits
  · obtain ⟨_, _, -, -, -, -, hruntime⟩ := selectVariant_derivedFrom
      (q := Sample.usageRequest "java-runtime" "headers") hr hread hparsed hpackaging rfl
    have hanswer := hruntime (Sample.get?_usageRequest.mpr (.inr ⟨rfl, rfl⟩))
    refine hanswer.answer.resolve_left fun hmatched => ?_
    have hfits := (Request.fitsDerived_iff hr).mp (hanswer.matched_iff.mp hmatched)
    have hheaders := hfits.1 Standard.libraryElements (.string "headers") (by decide)
      (Sample.get?_usageRequest.mpr (.inl ⟨rfl, rfl⟩))
    exact absurd hheaders (by decide)

end VariantSelection
