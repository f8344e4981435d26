/-
What is derived from a POM file.

An element tells a text under a name when its first child of that name starts with a
text that is not blank (`XmlNode.Tells`).  All that a POM says is said in this way:
the coordinate, which may be the parent's in part (`XmlNode.Inherits`), and for each
dependency what it is, when it is needed and whether it is optional.  A dependency
is published or skipped as a whole (`XmlNode.Published`).  Both variants list the
published ones in the order of the document, and the variant for compilation leaves
those out that are needed at run time only.
-/
import Mathlib.Data.List.Forall2
import VariantSelection.Proofs.Component
import VariantSelection.Proofs.Except
import VariantSelection.Proofs.Ordered.Map
import VariantSelection.Proofs.Text.Replacement

namespace VariantSelection

/-! ### What an element tells

The relations of this section look at the tree alone and know nothing of how it is read.
-/

namespace XmlNode

variable {node : XmlNode} {name text : String}

/-- The first child called `name` starts with a text, and `text` is what is left of
it without the blanks at its ends. -/
def Tells (node : XmlNode) (name text : String) : Prop :=
  ∃ child content rest, node.child? name = some child ∧ child.children = .text content :: rest ∧
    trimBlanks content = text ∧ text ≠ ""

theorem text?_eq_some_iff {content : String} :
    node.text? = some content ↔ ∃ rest, node.children = .text content :: rest := by
  unfold text?
  split
  · next first rest hchildren => simp [hchildren, eq_comm]
  · next hother => exact iff_of_false nofun fun ⟨rest, hchildren⟩ => hother content rest hchildren

theorem tells_iff : node.Tells name text ↔ Pom.childText? node name = some text := by
  unfold Tells Pom.childText?
  simp only [Option.bind_eq_bind, Option.bind_eq_some_iff, text?_eq_some_iff]
  constructor
  · rintro ⟨child, content, rest, hchild, hchildren, rfl, hsome⟩
    refine ⟨child, hchild, content, ⟨rest, hchildren⟩, ?_⟩
    simpa using hsome
  · rintro ⟨child, hchild, content, ⟨rest, hchildren⟩, htext⟩
    by_cases hnone : (trimBlanks content).isEmpty = true
    · simp [hnone] at htext
    · rw [if_neg hnone, Option.some.injEq] at htext
      refine ⟨child, content, rest, hchild, hchildren, htext, ?_⟩
      rw [← htext]
      simpa using hnone

instance : Decidable (node.Tells name text) := decidable_of_iff _ tells_iff.symm

theorem not_tells_iff : (¬∃ text, node.Tells name text) ↔ Pom.childText? node name = none := by
  simp only [tells_iff, Option.eq_none_iff_forall_ne_some, not_exists, ne_eq]

/-- The project tells the text itself under `name`, or it tells none and its
parent does. -/
def Inherits (project : XmlNode) (name text : String) : Prop :=
  project.Tells name text ∨
    (¬∃ own, project.Tells name own) ∧
      ∃ parent, project.child? "parent" = some parent ∧ parent.Tells name text

/-- What is written as a dependency: the elements of that name in the first
`dependencies`. -/
def dependencyElements (project : XmlNode) : List XmlNode :=
  match project.child? "dependencies" with
  | none => []
  | some list => list.childrenNamed "dependency"

/-- A dependency that variants publish. -/
structure Published (element : XmlNode) : Prop where
  group : ∃ text, element.Tells "groupId" text
  name : ∃ text, element.Tells "artifactId" text
  required : ¬element.Tells "optional" "true"
  scope : ∀ text, element.Tells "scope" text → text = "compile" ∨ text = "runtime"

/-- The element is a dependency of a project with this version. -/
structure Describes (element : XmlNode) (version : String) (d : Dependency) : Prop where
  group : element.Tells "groupId" d.group
  name : element.Tells "artifactId" d.name
  /-- Every reference to the project's version is replaced by it. -/
  version : ∀ text, d.version = some text ↔
    ∃ told, element.Tells "version" told ∧ ReplacesEach "$\x7bproject.version\x7d" version told text

end XmlNode

/-! ### Reading a dependency

Each reader of a part is matched with what the element tells, and `published?` is
what they come to for a whole dependency.
-/

namespace Pom

variable {node : XmlNode} {version : String}

theorem replacesEach_version_iff {told text : String} :
    ReplacesEach "$\x7bproject.version\x7d" version told text ↔
      resolveVersion version told = text := by
  have hreference : "$\x7bproject.version\x7d".toList = '$' :: versionReference.tail := by
    decide
  exact replacesEach_iff (by decide) hreference

theorem dependency?_eq_some_iff {d : Dependency} :
    dependency? node version = some d ↔ node.Describes version d := by
  unfold dependency?
  simp only [Option.bind_eq_bind, Option.bind_eq_some_iff, Option.pure_def, Option.some.injEq,
    ← XmlNode.tells_iff]
  constructor
  · rintro ⟨group, hgroup, name, hname, rfl⟩
    refine ⟨hgroup, hname, fun text => ?_⟩
    simp only [Option.map_eq_some_iff, ← XmlNode.tells_iff, replacesEach_version_iff]
  · intro h
    refine ⟨d.group, h.group, d.name, h.name, ?_⟩
    have hversion : (childText? node "version").map (resolveVersion version) = d.version := by
      refine Option.ext fun text => ?_
      rw [h.version text, Option.map_eq_some_iff]
      simp only [← XmlNode.tells_iff, replacesEach_version_iff]
    rw [hversion]

theorem scope?_eq_runtime_iff : scope? node = some .runtime ↔ node.Tells "scope" "runtime" := by
  rw [XmlNode.tells_iff]
  unfold scope?
  split <;> simp_all

theorem scope?_isSome_iff : (∃ s, scope? node = some s) ↔
    ∀ text, node.Tells "scope" text → text = "compile" ∨ text = "runtime" := by
  simp only [XmlNode.tells_iff]
  unfold scope?
  split <;> simp_all

theorem published?_eq_some_iff {s : Scope} {d : Dependency} :
    published? node version = some (s, d) ↔
      node.Describes version d ∧ scope? node = some s ∧ ¬node.Tells "optional" "true" := by
  unfold published?
  simp only [Option.bind_eq_bind, Option.bind_eq_some_iff, dependency?_eq_some_iff,
    XmlNode.tells_iff]
  constructor
  · rintro ⟨d', hd, s', hs, hresult⟩
    by_cases hoptional : childText? node "optional" = some "true"
    · simp [hoptional] at hresult
    · rw [if_neg hoptional] at hresult
      cases hresult
      exact ⟨hd, hs, hoptional⟩
  · rintro ⟨hd, hs, hoptional⟩
    exact ⟨d, hd, s, hs, if_neg hoptional⟩

end Pom

/-! ### The published ones

Whether an element is published does not depend on the version that its texts
mention, so the published elements can be chosen before they are read.
-/

namespace XmlNode

theorem published_iff_isSome (element : XmlNode) (version : String) :
    element.Published ↔ (Pom.published? element version).isSome = true := by
  rw [Option.isSome_iff_exists]
  constructor
  · intro h
    obtain ⟨group, hgroup⟩ := h.group
    obtain ⟨name, hname⟩ := h.name
    obtain ⟨s, hs⟩ := Pom.scope?_isSome_iff.mpr h.scope
    have hd : Pom.dependency? element version = some
        ⟨group, name, (Pom.childText? element "version").map (Pom.resolveVersion version)⟩ := by
      rw [tells_iff] at hgroup hname
      simp [Pom.dependency?, hgroup, hname]
    exact ⟨_, Pom.published?_eq_some_iff.mpr ⟨Pom.dependency?_eq_some_iff.mp hd, hs, h.required⟩⟩
  · rintro ⟨⟨s, d⟩, hpublished⟩
    obtain ⟨hd, hs, hrequired⟩ := Pom.published?_eq_some_iff.mp hpublished
    exact ⟨⟨_, hd.group⟩, ⟨_, hd.name⟩, hrequired, Pom.scope?_isSome_iff.mp ⟨s, hs⟩⟩

instance : DecidablePred Published := fun _ =>
  decidable_of_iff _ (published_iff_isSome _ "").symm

/-- The dependencies that a project publishes, as they are written. -/
def publishedElements (project : XmlNode) : List XmlNode :=
  project.dependencyElements.filter fun element => element.Published

/-- Two lists hold what a project with this version publishes, each published element
once and in order; one of them leaves out what is needed at run time only. -/
structure Lists (project : XmlNode) (version : String) (compile runtime : List Dependency) :
    Prop where
  running : List.Forall₂ (fun element d => element.Describes version d)
    project.publishedElements runtime
  compiling : List.Forall₂ (fun element d => element.Describes version d)
    (project.publishedElements.filter fun element => ¬element.Tells "scope" "runtime") compile
  sublist : compile.Sublist runtime

end XmlNode

namespace Pom

theorem publishedDependencies_eq (project : XmlNode) (version : String) :
    publishedDependencies project version
      = project.dependencyElements.filterMap fun element => published? element version := by
  unfold publishedDependencies XmlNode.dependencyElements
  cases project.child? "dependencies" with
  | none => rfl
  | some list => rfl

theorem forall₂_filter_filterMap {α β : Type} {R : α → β → Prop} {p : α → Bool} {f : α → Option β}
    (hp : ∀ a, p a = (f a).isSome) (hR : ∀ a b, f a = some b → R a b) (l : List α) :
    List.Forall₂ R (l.filter p) (l.filterMap f) := by
  induction l with
  | nil => exact List.Forall₂.nil
  | cons a l ih =>
      rw [List.filter_cons, List.filterMap_cons, hp a]
      cases hfa : f a with
      | none => exact ih
      | some b => exact List.Forall₂.cons (hR a b hfa) ih

/-- Each published element has become one dependency, at the same place. -/
theorem forall₂_publishedDependencies (project : XmlNode) (version : String) :
    List.Forall₂ (fun element (entry : Scope × Dependency) =>
        element.Describes version entry.2 ∧
          (entry.1 = .compile ↔ ¬element.Tells "scope" "runtime"))
      project.publishedElements (publishedDependencies project version) := by
  rw [publishedDependencies_eq, XmlNode.publishedElements]
  refine forall₂_filter_filterMap (fun element => ?_) (fun element entry hentry => ?_) _
  · rw [Bool.eq_iff_iff, decide_eq_true_iff]
    exact XmlNode.published_iff_isSome element version
  · obtain ⟨hd, hs, -⟩ := published?_eq_some_iff.mp hentry
    refine ⟨hd, ?_⟩
    rw [← scope?_eq_runtime_iff, hs]
    cases entry.1 <;> simp

theorem lists_publishedDependencies (project : XmlNode) (version : String) :
    project.Lists version
      (((publishedDependencies project version).filter fun d => d.1 = .compile).map Prod.snd)
      ((publishedDependencies project version).map Prod.snd) := by
  have hentries := forall₂_publishedDependencies project version
  refine ⟨?_, ?_, List.Sublist.map Prod.snd List.filter_sublist⟩
  · rw [List.forall₂_map_right_iff]
    exact hentries.imp fun _ _ hentry => hentry.1
  · rw [List.forall₂_map_right_iff]
    have hkept := List.rel_filter (p := fun element => ¬element.Tells "scope" "runtime")
      (q := fun entry : Scope × Dependency => entry.1 = .compile)
      (fun _ _ hentry => by simpa using hentry.2.symm) hentries
    exact hkept.imp fun _ _ hentry => hentry.1

end Pom

/-! ### Reading a project

`component_eq_ok_iff` says what a project has to tell to be read, and that nothing
but the component `describedAs` by it comes of that.
-/

/-- A variant that is derived from a POM. -/
structure Variant.DerivedFor (v : Variant) (c : Component) (name usage : String) : Prop where
  name : v.name = name
  attributes : ∀ key value, v.attributes.get? key = some value ↔
    (key, value) ∈ [(Standard.category, .string "library"),
      (Standard.libraryElements, .string "jar"), (Standard.usage, .string usage)]
  capabilities : v.capabilities.elements = [c.implicitCapability]
  artifacts : v.artifacts = [⟨c.id.defaultArtifactName, c.id.defaultArtifactName⟩]
  secondary : v.secondary = []

/-- The component publishes what the project lists, in a variant for compilation and
one for running. -/
structure Component.DerivedFrom (c : Component) (project : XmlNode) : Prop where
  group : project.Inherits "groupId" c.id.group
  name : project.Tells "artifactId" c.id.name
  version : project.Inherits "version" c.id.version
  source : c.source = .pom
  variants : ∃ compile runtime, c.variants = [compile, runtime] ∧
    compile.DerivedFor c "compile" "java-api" ∧ runtime.DerivedFor c "runtime" "java-runtime" ∧
    project.Lists c.id.version compile.dependencies runtime.dependencies

namespace Pom

variable {path name text : String} {project : XmlNode} {c : Component}

theorem inherited_eq_ok : inherited path project name = .ok text ↔ project.Inherits name text := by
  unfold inherited XmlNode.Inherits
  rw [XmlNode.not_tells_iff]
  simp only [XmlNode.tells_iff]
  cases hown : childText? project name with
  | some own => simp
  | none =>
      cases hparent : project.child? "parent" with
      | none => simp
      | some parent => cases htext : childText? parent name <;> simp [htext]

theorem derivedFor_completed {bare : Component} (h : c.id = bare.id) (name usage : String)
    (dependencies : List Dependency) :
    (bare.completed (derivedVariant bare name usage dependencies)).DerivedFor c name usage where
  name := Component.name_completed bare _
  attributes := by
    intro key value
    rw [Component.attributes_completed]
    refine SortedMap.get?_ofList_eq_some_iff ?_
    show [Standard.category, Standard.libraryElements, Standard.usage].Nodup
    decide
  capabilities := by
    rw [Component.implicitCapability, h]
    rfl
  artifacts := by
    rw [Component.artifacts_completed, h]
    rfl
  secondary := Component.secondary_completed bare _

/-- The component with this coordinate that a project describes: only its packaging
decides whether variants are published. -/
def describedAs (project : XmlNode) (id : Coordinate) : Component :=
  let bare := Component.new id .pom
  if project.Tells "packaging" "pom" then bare
  else
    let variants := derivedVariants bare (publishedDependencies project id.version)
    { bare with variants := variants.map bare.completed }

theorem id_describedAs (project : XmlNode) (id : Coordinate) :
    (describedAs project id).id = id := by
  unfold describedAs
  split <;> rfl

theorem component_of_tells (id : Coordinate) (hproject : project.name? = some "project")
    (hgroup : project.Inherits "groupId" id.group) (hname : project.Tells "artifactId" id.name)
    (hversion : project.Inherits "version" id.version) :
    component path project = .ok (describedAs project id) := by
  unfold component describedAs
  rw [if_pos hproject, inherited_eq_ok.mpr hgroup, inherited_eq_ok.mpr hversion, ok_bind, ok_bind,
    XmlNode.tells_iff.mp hname]
  by_cases hpackaging : project.Tells "packaging" "pom"
  · rw [if_pos hpackaging]
    exact if_pos (XmlNode.tells_iff.mp hpackaging)
  · rw [if_neg hpackaging]
    exact if_neg (mt XmlNode.tells_iff.mpr hpackaging)

/-- **A project is read as the component with the coordinate that it tells.** -/
theorem component_eq_ok_iff : component path project = .ok c ↔
    project.name? = some "project" ∧ project.Inherits "groupId" c.id.group ∧
      project.Tells "artifactId" c.id.name ∧ project.Inherits "version" c.id.version ∧
      describedAs project c.id = c := by
  constructor
  · intro h
    have hread := h
    unfold component at hread
    by_cases hproject : project.name? = some "project"
    · rw [if_pos hproject] at hread
      simp only [bind_eq_ok, inherited_eq_ok] at hread
      obtain ⟨group, hgroup, version, hversion, hread⟩ := hread
      cases hname : childText? project "artifactId" with
      | none => simp [hname] at hread
      | some name =>
          rw [← XmlNode.tells_iff] at hname
          rw [component_of_tells ⟨group, name, version⟩ hproject hgroup hname hversion,
            Except.ok.injEq] at h
          rw [← h, id_describedAs]
          exact ⟨hproject, hgroup, hname, hversion, rfl⟩
    · rw [if_neg hproject] at hread
      cases hread
  · intro h
    obtain ⟨hproject, hgroup, hname, hversion, hdescribed⟩ := h
    rw [component_of_tells c.id hproject hgroup hname hversion, hdescribed]

/-- What a POM has to tell. -/
theorem component_succeeds_iff : (∃ c, component path project = .ok c) ↔
    project.name? = some "project" ∧ (∃ group, project.Inherits "groupId" group) ∧
      (∃ name, project.Tells "artifactId" name) ∧
        ∃ version, project.Inherits "version" version := by
  constructor
  · intro h
    obtain ⟨c, hc⟩ := h
    obtain ⟨hproject, hgroup, hname, hversion, -⟩ := component_eq_ok_iff.mp hc
    exact ⟨hproject, ⟨_, hgroup⟩, ⟨_, hname⟩, _, hversion⟩
  · intro h
    obtain ⟨hproject, ⟨group, hgroup⟩, ⟨name, hname⟩, version, hversion⟩ := h
    exact ⟨_, component_of_tells ⟨group, name, version⟩ hproject hgroup hname hversion⟩

/-- Every project with another packaging, not only those that a document can hold. -/
theorem derivedFrom_component (h : component path project = .ok c)
    (hpackaging : ¬project.Tells "packaging" "pom") : c.DerivedFrom project := by
  obtain ⟨-, hgroup, hname, hversion, hdescribed⟩ := component_eq_ok_iff.mp h
  have hlists := lists_publishedDependencies project c.id.version
  rw [describedAs, if_neg hpackaging] at hdescribed
  refine ⟨hgroup, hname, hversion, by rw [← hdescribed]; rfl, _, _, by rw [← hdescribed]; rfl,
    derivedFor_completed rfl _ _ _, derivedFor_completed rfl _ _ _, ?_⟩
  rw [Component.dependencies_completed, Component.dependencies_completed]
  exact hlists

/-- **The dependencies derived from a POM are exactly the published ones.** -/
theorem derivedFrom_readText {text : String} (h : readText text path = .ok c)
    (hparsed : XmlNode.parse? text = some project) (hpackaging : ¬project.Tells "packaging" "pom") :
    c.DerivedFrom project := by
  rw [readText, hparsed] at h
  exact derivedFrom_component h hpackaging

namespace Sample

/-- A POM with its version from the parent, and a dependency on another component of
that version. -/
def siblingPom : String :=
  "<project><groupId>g</groupId><artifactId>a</artifactId><parent><version>1</version></parent>"
    ++ "<dependencies><dependency><groupId>g</groupId><artifactId>b</artifactId>"
    ++ "<version>$\x7bproject.version\x7d</version><scope>runtime</scope></dependency>"
    ++ "</dependencies></project>"

/-- The component that it describes. -/
def sibling : Component :=
  let bare := Component.new ⟨"g", "a", "1"⟩ .pom
  { bare with
    variants := (derivedVariants bare [(.runtime, ⟨"g", "b", some "1"⟩)]).map bare.completed }

theorem component_siblingPom : ∃ project ∈ XmlNode.parse? siblingPom,
    ¬project.Tells "packaging" "pom" ∧ component "a.pom" project = .ok sibling := by
  decide +kernel

theorem readText_siblingPom : ∃ project, XmlNode.parse? siblingPom = some project ∧
    readText siblingPom "a.pom" = .ok sibling ∧ ¬project.Tells "packaging" "pom" := by
  obtain ⟨project, hparsed, hpackaging, hcomponent⟩ := component_siblingPom
  refine ⟨project, hparsed, ?_, hpackaging⟩
  rw [readText, Option.mem_def.mp hparsed]
  exact hcomponent

end Sample

/-- A dependency that is needed at run time only, in the version that the project
has from its parent. -/
theorem derivedFrom_readText_siblingPom : ∃ project,
    XmlNode.parse? Sample.siblingPom = some project ∧
    readText Sample.siblingPom "a.pom" = .ok Sample.sibling ∧
    ¬project.Tells "packaging" "pom" ∧ Sample.sibling.DerivedFrom project ∧
    Sample.sibling.variants.map Variant.dependencies = [[], [⟨"g", "b", some "1"⟩]] := by
  obtain ⟨project, hparsed, hread, hpackaging⟩ := Sample.readText_siblingPom
  exact ⟨project, hparsed, hread, hpackaging, derivedFrom_readText hread hparsed hpackaging, rfl⟩

end Pom

end VariantSelection
