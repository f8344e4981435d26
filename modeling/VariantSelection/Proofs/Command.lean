/-
What a command answers, and what it leaves behind.

A run ends in one of two ways, `CommandResult.IsSuccess` or
`CommandResult.IsFailure`: the exit code is zero, or it is one and the error is told
(`Command.ends_on`).  Commands that list or resolve leave the files alone, and
`init` touches no file but the two that make a project (`Command.files_on`).  Where
there is a project already `init` does nothing at all, so it is never done twice
(`Command.on_init_twice`).  What `resolve` answers is the resolution itself: the
listing is printed also where it ends in failure, and the exit code tells whether
something was selected for every dependency (`Command.exitCode_resolve_iff`).
-/
import VariantSelection.Command
import VariantSelection.Proofs.Report.Configurations
import VariantSelection.Proofs.Report.Outgoing
import VariantSelection.Proofs.Scaffold

namespace VariantSelection

open FileAction FileSystem

/-! ### Results

What is printed as an error starts with a word of its own, so a result cannot be both.
-/

namespace CommandResult

/-- The error is told, and the exit code is one. -/
structure IsFailure (r : CommandResult) : Prop where
  exitCode : r.exitCode = 1
  told : ∃ message : String, r.diagnostics = s!"error: {message}\n"

/-- No error is told, and the exit code is zero. -/
structure IsSuccess (r : CommandResult) : Prop where
  exitCode : r.exitCode = 0
  untold : ∀ message : String, r.diagnostics ≠ s!"error: {message}\n"

/-- A result of one of the two kinds. -/
def Ends (r : CommandResult) : Prop := r.IsSuccess ∨ r.IsFailure

theorem ends_failure (message output : String) : (failure message output).Ends :=
  Or.inr ⟨rfl, message, rfl⟩

/-- What does not begin like an error tells of none. -/
theorem ends_of_head? {r : CommandResult} (hcode : r.exitCode = 0)
    (hhead : r.diagnostics.toList.head? ≠ some 'e') : r.Ends := by
  refine Or.inl ⟨hcode, fun message h => hhead ?_⟩
  rw [h]
  simp [toString]

theorem ends_ofExcept {result : Except String CommandResult} (h : ∀ r, result = .ok r → r.Ends) :
    (ofExcept result).Ends := by
  cases result with
  | ok r => exact h r rfl
  | error message => exact ends_failure message ""

end CommandResult

namespace Command

/-- The result of a command in a file system, and the file system it leaves. -/
def on (c : Command) (s : FileSystem) : CommandResult × FileSystem := c.run.run s

/-! ### Commands that only read

Four of the five commands compute an answer from the files, and `answer?` is that
answer.  What is said of all of them is said of it once.
-/

/-- What a command answers that only reads files. -/
def answer? : Command → Option (FileSystem → Except String CommandResult)
  | .init _ => none
  | .resolve configuration => some (resolveAll configuration)
  | .outgoingVariants module => some (listOutgoing module)
  | .resolvableConfigurations configuration => some (listConfigurations configuration)
  | .attributes => some listAttributes

theorem on_of_answer? {c : Command} {answer : FileSystem → Except String CommandResult}
    (h : c.answer? = some answer) (s : FileSystem) : c.on s = (.ofExcept (answer s), s) := by
  cases c with
  | init name => cases h
  | resolve | outgoingVariants | resolvableConfigurations | attributes => cases h; rfl

theorem ends_resolutionResult (r : Resolution) : (resolutionResult r).Ends := by
  unfold resolutionResult
  dsimp only
  split
  · exact CommandResult.ends_of_head? rfl (by simp [toString])
  · exact CommandResult.ends_failure _ _

theorem ends_answer {c : Command} {answer : FileSystem → Except String CommandResult}
    (h : c.answer? = some answer) (s : FileSystem) {r : CommandResult} (hr : answer s = .ok r) :
    r.Ends := by
  cases c with
  | init name => cases h
  | resolve configuration =>
      cases h
      simp only [resolveAll, bind_eq_ok, pure_eq_ok] at hr
      obtain ⟨_, -, _, -, _, -, rfl⟩ := hr
      exact ends_resolutionResult _
  | outgoingVariants module =>
      cases h
      simp only [listOutgoing, bind_eq_ok, pure_eq_ok] at hr
      obtain ⟨_, -, _, -, _, -, output, -, rfl⟩ := hr
      refine CommandResult.ends_of_head? rfl ?_
      dsimp only
      split <;> simp
  | resolvableConfigurations configuration =>
      cases h
      simp only [listConfigurations, bind_eq_ok, pure_eq_ok] at hr
      obtain ⟨_, -, _, -, _, -, rfl⟩ := hr
      exact CommandResult.ends_of_head? rfl (by simp)
  | attributes =>
      cases h
      simp only [listAttributes, bind_eq_ok, pure_eq_ok] at hr
      obtain ⟨_, -, _, -, rfl⟩ := hr
      exact CommandResult.ends_of_head? rfl (by simp)

/-! ### Making a project

`on_init` is the run of `init` in one equation; whatever is said of it below follows
from `Scaffold.create`.
-/

/-- The name of the project that `init` makes. -/
def projectName (name : Option String) (s : FileSystem) : String := name.getD (defaultName s)

/-- The directory of that project. -/
def projectDirectory (name : Option String) (s : FileSystem) : Path :=
  s.currentPath.join (projectName name s)

/-- What is said of a project that was made. -/
def createdMessage (name : String) (directory : Path) : String :=
  unlines
    [s!"    Created project `{name}` at {directory.text}", "", "  To get started:",
      s!"    cd {name}", "    varsel resolve"]

/-- What `init` does is to make the project, and it tells what came of that. -/
theorem on_init (name : Option String) (s : FileSystem) : (Command.init name).on s =
    match FileAction.on (Scaffold.create (projectName name s) (projectDirectory name s)) s with
    | (.ok _, t) =>
        ({ diagnostics := createdMessage (projectName name s) (projectDirectory name s) }, t)
    | (.error e, t) => (.failure e.message "", t) := by
  unfold on run scaffold FileAction.on
  simp only [StateT.run_bind, StateT.run_get, pure_bind]
  show (StateT.run (ExceptT.run (Scaffold.create (projectName name s) (projectDirectory name s))) s
    >>= _) = _
  cases StateT.run (ExceptT.run (Scaffold.create (projectName name s) (projectDirectory name s)))
    s with
  | mk result t => cases result <;> rfl

theorem ends_on_init (name : Option String) (s : FileSystem) :
    ((Command.init name).on s).1.Ends := by
  rw [on_init]
  cases FileAction.on (Scaffold.create (projectName name s) (projectDirectory name s)) s with
  | mk result t =>
      cases result with
      | error e => exact CommandResult.ends_failure _ _
      | ok _ =>
          refine CommandResult.ends_of_head? rfl ?_
          simp [createdMessage, unlines, toString]

theorem state_on_init (name : Option String) (s : FileSystem) : ((Command.init name).on s).2
    = (FileAction.on (Scaffold.create (projectName name s) (projectDirectory name s)) s).2 := by
  rw [on_init]
  cases FileAction.on (Scaffold.create (projectName name s) (projectDirectory name s)) s with
  | mk result t => cases result <;> rfl

theorem create_of_isSuccess {name : Option String} {s : FileSystem}
    (h : ((Command.init name).on s).1.exitCode = 0) :
    FileAction.on (Scaffold.create (projectName name s) (projectDirectory name s)) s
      = (.ok (), ((Command.init name).on s).2) := by
  rw [on_init] at h ⊢
  cases hcreate :
      FileAction.on (Scaffold.create (projectName name s) (projectDirectory name s)) s with
  | mk result t =>
      rw [hcreate] at h
      cases result with
      | error e => cases h
      | ok _ => rfl

/-- **A project is made once.**  Where `init` succeeded, doing it again fails and
changes nothing. -/
theorem on_init_twice {name : Option String} {s : FileSystem}
    (h : ((Command.init name).on s).1.exitCode = 0) :
    (Command.init name).on ((Command.init name).on s).2
      = (.failure
          (ScaffoldError.exists (Scaffold.manifestPath (projectDirectory name s))).message "",
        ((Command.init name).on s).2) := by
  have hcreated := create_of_isSuccess h
  have hcurrent : ((Command.init name).on s).2.current = s.current := by
    rw [state_on_init]
    exact (Scaffold.touchesOnly_create _ _ s).current
  have hname : projectName name ((Command.init name).on s).2 = projectName name s := by
    rw [projectName, projectName, defaultName, defaultName, hcurrent]
  have hdirectory : projectDirectory name ((Command.init name).on s).2
      = projectDirectory name s := by
    rw [projectDirectory, projectDirectory, hname, FileSystem.currentPath, FileSystem.currentPath,
      hcurrent]
  rw [on_init _ ((Command.init name).on s).2, hname, hdirectory,
    Scaffold.on_create_of_contains (Scaffold.contains_of_create hcreated)]

/-! ### Every command -/

/-- **Every command succeeds or fails**, and says which. -/
theorem ends_on (c : Command) (s : FileSystem) : (c.on s).1.Ends := by
  cases hanswer : c.answer? with
  | some answer =>
      rw [on_of_answer? hanswer]
      exact CommandResult.ends_ofExcept fun r => ends_answer hanswer s
  | none =>
      cases c with
      | init name => exact ends_on_init name s
      | resolve | outgoingVariants | resolvableConfigurations | attributes => cases hanswer

/-- **Commands leave files alone**: `init` all but the two that make a project, and
the others all of them. -/
theorem files_on (c : Command) (s : FileSystem) :
    (∀ answer, c.answer? = some answer → (c.on s).2 = s) ∧
    ∀ name, c = .init name →
      Scaffold.TouchesOnly (s.place (projectDirectory name s)) s (c.on s).2 := by
  constructor
  · intro answer hanswer
    rw [on_of_answer? hanswer]
  · rintro name rfl
    rw [state_on_init]
    exact Scaffold.touchesOnly_create _ _ s

/-! ### Projects

`Opens` keeps apart what a command does with a project from how the project is found.
-/

/-- The current directory holds a project, which is loaded as this. -/
structure Opens (s : FileSystem) (session : Session) (m : Manifest) : Prop where
  contains : s.contains (s.currentPath.join Manifest.fileName) = true
  load : Session.load s s.currentPath = .ok (session, m)

section
variable {s : FileSystem} {configuration : Option String}

/-- Where there is no project, this is all that a command tells. -/
theorem on_of_missing {c : Command} {answer : FileSystem → Except String CommandResult}
    (h : c.answer? = some answer)
    (hmissing : s.contains (s.currentPath.join Manifest.fileName) = false) :
    c.on s = (.failure noProject "", s) := by
  have hroot : projectRoot s = .error noProject := by
    rw [projectRoot, hmissing]
    rfl
  rw [on_of_answer? h]
  cases c with
  | init name => cases h
  | resolve configuration =>
      cases h
      rw [resolveAll, hroot]
      rfl
  | outgoingVariants module =>
      cases h
      rw [listOutgoing, hroot]
      rfl
  | resolvableConfigurations configuration =>
      cases h
      rw [listConfigurations, hroot]
      rfl
  | attributes =>
      cases h
      rw [listAttributes, hroot]
      rfl

theorem opens_of_openProject {root : Path} {project : Session × Manifest}
    (hroot : projectRoot s = .ok root)
    (hproject : openProject s root = .ok project) : Opens s project.1 project.2 := by
  unfold projectRoot at hroot
  split at hroot
  · rename_i hthere
    cases hroot
    exact ⟨hthere, mapError_eq_ok.mp hproject⟩
  · cases hroot

theorem Opens.projectRoot {session : Session} {m : Manifest} (h : Opens s session m) :
    projectRoot s = .ok s.currentPath := by
  rw [Command.projectRoot, if_pos h.contains]

theorem Opens.openProject {session : Session} {m : Manifest} (h : Opens s session m) :
    openProject s s.currentPath = .ok (session, m) :=
  mapError_eq_ok.mpr h.load

/-- Most commands that read begin by opening the project. -/
theorem bind_openProject_eq_ok_iff {α : Type} {next : Session × Manifest → Except String α}
    {a : α} :
    (Command.projectRoot s >>= fun root => Command.openProject s root >>= next) = .ok a ↔
      ∃ session m, Opens s session m ∧ next (session, m) = .ok a := by
  simp only [bind_eq_ok]
  constructor
  · rintro ⟨root, hroot, project, hproject, ha⟩
    exact ⟨project.1, project.2, opens_of_openProject hroot hproject, ha⟩
  · rintro ⟨session, m, hopens, ha⟩
    exact ⟨_, hopens.projectRoot, _, hopens.openProject, ha⟩

/-- A command that reads ends with zero just where its `answer?` is a result that does. -/
theorem exitCode_on_iff {c : Command} {answer : FileSystem → Except String CommandResult}
    (h : c.answer? = some answer) :
    (c.on s).1.exitCode = 0 ↔ ∃ r, answer s = .ok r ∧ r.exitCode = 0 := by
  rw [on_of_answer? h]
  cases answer s with
  | ok r => simp [CommandResult.ofExcept]
  | error message => simp [CommandResult.ofExcept, CommandResult.failure]

/-! ### Resolving

The exit code is read off the entries of the resolution, and the output is its listing.
-/

theorem exitCode_resolutionResult (all : Resolution) :
    (resolutionResult all).exitCode = 0 ↔
      ∀ e ∈ all.entries, ∃ resolved, e.outcome = .ok resolved := by
  have hentry : ∀ e : ResolutionEntry, ¬e.isFailure = true ↔
      ∃ resolved, e.outcome = .ok resolved := by
    intro e
    unfold ResolutionEntry.isFailure
    cases e.outcome <;> simp
  have hsuccess : all.isSuccess = true ↔
      ∀ e ∈ all.entries, ∃ resolved, e.outcome = .ok resolved := by
    rw [Resolution.isSuccess, List.isEmpty_iff, Resolution.failures, List.filter_eq_nil_iff]
    simp only [hentry]
  rw [← hsuccess]
  unfold resolutionResult
  by_cases h : all.isSuccess = true
  · simp [h]
  · simp [h, CommandResult.failure]

/-- The listing is printed whatever was selected. -/
theorem output_resolutionResult (all : Resolution) : (resolutionResult all).output = all.text := by
  unfold resolutionResult
  dsimp only
  split <;> rfl

theorem resolveAll_eq_ok_iff {r : CommandResult} : resolveAll configuration s = .ok r ↔
    ∃ session m, Opens s session m ∧
      ∃ all, session.resolveAll m configuration = .ok all ∧ resolutionResult all = r := by
  rw [resolveAll, bind_openProject_eq_ok_iff]
  simp only [bind_eq_ok, mapError_eq_ok, pure_eq_ok]

/-- **`resolve` ends with zero where something is selected for every dependency** in
every configuration that is asked for. -/
theorem exitCode_resolve_iff : ((Command.resolve configuration).on s).1.exitCode = 0 ↔
    ∃ session m, Opens s session m ∧ ∃ all, session.resolveAll m configuration = .ok all ∧
      ∀ e ∈ all.entries, ∃ resolved, e.outcome = .ok resolved := by
  rw [exitCode_on_iff rfl]
  simp only [resolveAll_eq_ok_iff]
  constructor
  · rintro ⟨_, ⟨session, m, hopens, all, hall, rfl⟩, hcode⟩
    exact ⟨session, m, hopens, all, hall, (exitCode_resolutionResult all).mp hcode⟩
  · rintro ⟨session, m, hopens, all, hall, hentries⟩
    exact ⟨_, ⟨session, m, hopens, all, hall, rfl⟩, (exitCode_resolutionResult all).mpr hentries⟩

/-- And whatever `resolve` ends with, the whole listing is printed once the
requests are made. -/
theorem output_on_resolve {session : Session} {m : Manifest} {all : Resolution}
    (h : Opens s session m) (hall : session.resolveAll m configuration = .ok all) :
    ((Command.resolve configuration).on s).1.output = all.text := by
  have hanswer : resolveAll configuration s = .ok (resolutionResult all) :=
    resolveAll_eq_ok_iff.mpr ⟨session, m, h, all, hall, rfl⟩
  rw [on_of_answer? rfl, hanswer]
  exact output_resolutionResult all

/-! ### Listing

The three listings are refused for different reasons, one lemma for each.
-/

/-- What is listed: the components that are asked for, by a coordinate that can be
read or all of them. -/
theorem listOutgoing_eq_ok_iff {module : Option String} {r : CommandResult} :
    listOutgoing module s = .ok r ↔
    ∃ session m, Opens s session m ∧ ∃ only output,
      Option.Rel (fun text id => Coordinate.parse text = .ok id) module only ∧
      session.catalog.outgoingVariants only = .ok output ∧
      { output, diagnostics := if output.isEmpty then "The catalog is empty\n" else "" } = r := by
  simp only [listOutgoing, bind_eq_ok, optionMapM_eq_ok_iff, mapError_eq_ok, pure_eq_ok]
  constructor
  · rintro ⟨root, hroot, only, honly, project, hproject, output, houtput, hr⟩
    exact ⟨project.1, project.2, opens_of_openProject hroot hproject, only, output, honly, houtput,
      hr⟩
  · rintro ⟨session, m, hopens, only, output, honly, houtput, hr⟩
    exact ⟨_, hopens.projectRoot, only, honly, _, hopens.openProject, output, houtput, hr⟩

/-- **A component is listed if it can be found**: its coordinate can be read, and
the catalog has it. -/
theorem exitCode_outgoingVariants_iff {module : Option String} :
    ((Command.outgoingVariants module).on s).1.exitCode = 0 ↔
      ∃ session m, Opens s session m ∧ ∀ text, module = some text →
        ∃ id component, Coordinate.parse text = .ok id ∧
          session.catalog.get? id = some component := by
  rw [exitCode_on_iff rfl]
  simp only [listOutgoing_eq_ok_iff]
  constructor
  · rintro ⟨_, ⟨session, m, hopens, only, output, honly, houtput, rfl⟩, -⟩
    refine ⟨session, m, hopens, ?_⟩
    rintro text rfl
    obtain ⟨hid⟩ := honly
    rename_i id
    refine ⟨id, ?_⟩
    cases hfound : session.catalog.get? id with
    | some component => exact ⟨component, hid, rfl⟩
    | none =>
        have hfails := Catalog.outgoingVariants_eq_error_iff.mpr ⟨id, rfl, hfound, rfl⟩
        rw [houtput] at hfails
        cases hfails
  · rintro ⟨session, m, hopens, hmodule⟩
    cases module with
    | none => exact ⟨_, ⟨session, m, hopens, none, _, .none, rfl, rfl⟩, rfl⟩
    | some text =>
        obtain ⟨id, component, hid, hfound⟩ := hmodule text rfl
        have houtput : session.catalog.outgoingVariants (some id)
            = .ok (unlines ([component].flatMap Component.lines)) := by
          rw [Catalog.outgoingVariants_eq, Catalog.listed_of_get? hfound, Except.map]
        exact ⟨_, ⟨session, m, hopens, some id, _, .some hid, houtput, rfl⟩, rfl⟩

/-- An empty listing is explained, and it is the listing of an empty catalog. -/
theorem on_outgoingVariants_none {session : Session} {m : Manifest} (h : Opens s session m) :
    ∃ text, session.catalog.outgoingVariants none = .ok text ∧
      ((Command.outgoingVariants none).on s).1 =
        { output := text
          diagnostics := if session.catalog.isEmpty then "The catalog is empty\n" else "" } := by
  obtain ⟨parts, -, hall⟩ := session.catalog.outgoingVariants_eq_join
  have hempty : (String.join parts).isEmpty = session.catalog.isEmpty := by
    rw [Bool.eq_iff_iff, String.isEmpty_iff, ← Catalog.outgoingVariants_eq_empty_iff, hall,
      Except.ok.injEq]
  have hanswer : listOutgoing none s = .ok
      { output := String.join parts
        diagnostics := if (String.join parts).isEmpty then "The catalog is empty\n" else "" } :=
    listOutgoing_eq_ok_iff.mpr ⟨session, m, h, none, _, .none, hall, rfl⟩
  refine ⟨_, hall, ?_⟩
  rw [on_of_answer? rfl, hanswer, ← hempty]
  rfl

/-- **Configurations are listed if nothing is wrong with those that are asked for.** -/
theorem exitCode_resolvableConfigurations_iff :
    ((Command.resolvableConfigurations configuration).on s).1.exitCode = 0 ↔
      ∃ session m, Opens s session m ∧ m.requestFaults session.registry configuration = [] := by
  rw [exitCode_on_iff rfl]
  simp only [listConfigurations, bind_openProject_eq_ok_iff]
  simp only [bind_eq_ok, mapError_eq_ok, pure_eq_ok, Manifest.resolvableConfigurations_eq,
    map_eq_ok, ← (Manifest.reports_listed _ _ configuration).succeeds_iff]
  constructor
  · rintro ⟨_, ⟨session, m, hopens, _, ⟨listed, hlisted, rfl⟩, rfl⟩, -⟩
    exact ⟨session, m, hopens, listed, hlisted⟩
  · rintro ⟨session, m, hopens, listed, hlisted⟩
    exact ⟨_, ⟨session, m, hopens, _, ⟨listed, hlisted, rfl⟩, rfl⟩, rfl⟩

/-- The attributes of a project are listed where there is one. -/
theorem exitCode_attributes_iff :
    (Command.attributes.on s).1.exitCode = 0 ↔ ∃ session m, Opens s session m := by
  rw [exitCode_on_iff rfl]
  simp only [listAttributes, bind_openProject_eq_ok_iff, pure_eq_ok]
  constructor
  · rintro ⟨_, ⟨session, m, hopens, rfl⟩, -⟩
    exact ⟨session, m, hopens⟩
  · rintro ⟨session, m, hopens⟩
    exact ⟨_, ⟨session, m, hopens, rfl⟩, rfl⟩

end

end Command

end VariantSelection
