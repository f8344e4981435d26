/-
What making a project does to the files that are there.

A call makes the directories that are missing, then the manifest, then the metadata
of the component.  Directories harm no file, so all that counts is what lies at the
places of the two files once the directories are there (`Prepared`, `Writable`).
Only a manifest that the path leads to at the start is looked for.  A file at the
other place is replaced, and a directory there is met when the manifest has been
written already.
-/
import VariantSelection.Proofs.Files.Action
import VariantSelection.Scaffold

namespace VariantSelection

namespace FileSystem

/-- Every file of `s` is in `t`, with the same content. -/
def KeepsFiles (s t : FileSystem) : Prop :=
  ∀ place content, s.root.kind? place = some (.file content) →
    t.root.kind? place = some (.file content)

/-- Whether a path leads to a file whose content is not this text. -/
def HoldsOther (s : FileSystem) (p : Path) (text : String) : Prop :=
  ∃ content, s.node p = .ok (.file content) ∧ content ≠ text.toUTF8

/-- A call that ends in another system has added files and changed none; or else it
has failed and left the files as they were. -/
def AllOrNothing {ε : Type} (s : FileSystem) (outcome : Except ε Unit × FileSystem) : Prop :=
  match outcome.1 with
  | .ok _ => KeepsFiles s outcome.2
  | .error _ => SameFiles s outcome.2

section
variable {s t : FileSystem} {place : List String} {name : String} {content : ByteArray}

theorem SameFiles.keepsFiles_iff (h : SameFiles s t) {u : FileSystem} :
    KeepsFiles s u ↔ KeepsFiles t u := by
  unfold KeepsFiles
  simp only [h _ _]

theorem SameFiles.sameFiles_iff (h : SameFiles s t) {u : FileSystem} :
    SameFiles s u ↔ SameFiles t u := by
  unfold SameFiles
  simp only [h _ _]

/-- What was done to directories before does not count. -/
theorem SameFiles.allOrNothing_iff {ε : Type} (h : SameFiles s t)
    (outcome : Except ε Unit × FileSystem) : AllOrNothing s outcome ↔ AllOrNothing t outcome := by
  unfold AllOrNothing
  cases outcome.1 with
  | ok _ => exact h.keepsFiles_iff
  | error _ => exact h.sameFiles_iff

theorem Reaches.holdsOther_join_iff {base : Path} (hname : Path.IsName name)
    (h : s.Reaches base place) (text : String) : s.HoldsOther (base.join name) text ↔
      ∃ content, s.root.kind? (place ++ [name]) = some (.file content) ∧ content ≠ text.toUTF8 := by
  simp only [HoldsOther, h.node_join_eq_file_iff hname]

theorem sameFiles_withFile_iff (hparent : s.root.kind? place = some .directory)
    (hplace : s.root.kind? (place ++ [name]) ≠ some .directory) :
    SameFiles s (s.withFile (place ++ [name]) content)
      ↔ s.root.kind? (place ++ [name]) = some (.file content) := by
  have hkind : ∀ q, (s.withFile (place ++ [name]) content).root.kind? q
      = if q = place ++ [name] then some (.file content) else s.root.kind? q :=
    kind?_withFile hparent hplace
  constructor
  · intro h
    refine (h _ _).mp ?_
    rw [hkind, if_pos rfl]
  · intro h q other
    rw [hkind]
    by_cases hq : q = place ++ [name]
    · rw [if_pos hq, hq, h]
    · rw [if_neg hq]

end

end FileSystem

namespace Scaffold

open FileAction FileSystem

/-! ### The paths -/

/-- Where the manifest of a project lies. -/
def manifestPath (directory : Path) : Path := directory.join Manifest.fileName

/-- Where the metadata files of a project lie. -/
def catalogPath (directory : Path) : Path := directory.join "metadata"

/-- Where the metadata of the component lies. -/
def modulePath (directory : Path) : Path := (catalogPath directory).join "greeter-1.0.module"

theorem isName_fileName : Path.IsName Manifest.fileName := ⟨by decide, by decide, by decide⟩

theorem isName_metadata : Path.IsName "metadata" := ⟨by decide, by decide, by decide⟩

theorem isName_module : Path.IsName "greeter-1.0.module" := ⟨by decide, by decide, by decide⟩

/-! ### The run

The run is followed to the state in which the directories are there, and from it the
two files are written: `on_writeFiles` is what can come of that.
-/

/-- The part of a call that writes files. -/
def writeFiles (name : String) (directory : Path) : FileAction ScaffoldError Unit := do
  ExceptT.adapt .file (put (manifestPath directory) (manifest name).text)
  ExceptT.adapt .file (put (modulePath directory) metadata)

theorem create_eq (name : String) (directory : Path) : create name directory = (do
    if (← get).contains (manifestPath directory) then throw (.exists (manifestPath directory))
    ExceptT.adapt .directory (ensureDirectory (catalogPath directory))
    writeFiles name directory) := rfl

section
variable {name : String} {directory : Path} {s t : FileSystem}

theorem on_create_of_contains (h : s.contains (manifestPath directory) = true) :
    on (create name directory) s = (.error (.exists (manifestPath directory)), s) := by
  rw [create_eq, on_bind, on_get]
  simp only [h, if_true]
  rfl

/-- With no manifest there, the directories are made; and then `writeFiles` runs, if
that succeeds. -/
theorem on_create_of_free (h : s.contains (manifestPath directory) = false) :
    on (create name directory) s = match on (ensureDirectory (catalogPath directory)) s with
      | (.ok _, t) => on (writeFiles name directory) t
      | (.error e, t) => (.error (.directory e), t) := by
  rw [create_eq, on_bind, on_get]
  simp only [h, Bool.false_eq_true, if_false, on_bind, on_adapt]
  cases on (ensureDirectory (catalogPath directory)) s with
  | mk result t => cases result <;> rfl

end

/-- The path of a project leads to a directory with a directory of metadata files. -/
structure Prepared (directory : Path) (t : FileSystem) (place : List String) : Prop where
  reaches : t.Reaches directory place
  catalog : t.root.kind? (place ++ ["metadata"]) = some .directory

/-- The place of the manifest. -/
def manifestPlace (place : List String) : List String := place ++ [Manifest.fileName]

/-- The place of the metadata of the component. -/
def modulePlace (place : List String) : List String :=
  place ++ ["metadata"] ++ ["greeter-1.0.module"]

theorem Prepared.reaches_catalog {directory : Path} {t : FileSystem} {place : List String}
    (h : Prepared directory t place) : t.Reaches (catalogPath directory) (place ++ ["metadata"]) :=
  h.reaches.join isName_metadata h.catalog

/-- And no directory lies in the way of the two files. -/
structure Writable (directory : Path) (t : FileSystem) (place : List String) : Prop
    extends Prepared directory t place where
  manifest : t.root.kind? (manifestPlace place) ≠ some .directory
  module : t.root.kind? (modulePlace place) ≠ some .directory

theorem modulePlace_ne_manifestPlace (place : List String) :
    modulePlace place ≠ manifestPlace place := by
  intro h
  have hlength := congrArg List.length h
  simp [modulePlace, manifestPlace] at hlength

section
variable {name : String} {directory : Path} {s t : FileSystem} {place : List String}

theorem exists_prepared (h : on (ensureDirectory (catalogPath directory)) s = (.ok (), t)) :
    AddsDirectories s t ∧ ∃ place, Prepared directory t place := by
  obtain ⟨hadds, hmade⟩ := on_ensureDirectory (catalogPath directory) s
  rw [h] at hadds hmade
  have hdirectory := hmade rfl (isName_metadata.join_ne_empty directory)
  obtain ⟨place, hreaches, hcatalog⟩ := exists_reaches_of_isDirectory isName_metadata hdirectory
  exact ⟨hadds, place, hreaches, hcatalog⟩

/-- The system with the manifest of a project. -/
def withManifest (name : String) (place : List String) (t : FileSystem) : FileSystem :=
  t.withFile (manifestPlace place) (manifest name).text.toUTF8

/-- The system with the manifest of a project, and with the metadata of the component. -/
def withFiles (name : String) (place : List String) (t : FileSystem) : FileSystem :=
  (withManifest name place t).withFile (modulePlace place) metadata.toUTF8

/-- Nothing but the manifest is new. -/
theorem kind?_withManifest (h : Prepared directory t place)
    (hmanifest : t.root.kind? (manifestPlace place) ≠ some .directory) (q : List String) :
    (withManifest name place t).root.kind? q
      = if q = manifestPlace place then some (.file (manifest name).text.toUTF8)
        else t.root.kind? q :=
  kind?_withFile h.reaches.directory hmanifest q

theorem kind?_modulePlace_withManifest (h : Prepared directory t place)
    (hmanifest : t.root.kind? (manifestPlace place) ≠ some .directory) :
    (withManifest name place t).root.kind? (modulePlace place)
      = t.root.kind? (modulePlace place) := by
  rw [kind?_withManifest h hmanifest, if_neg (modulePlace_ne_manifestPlace place)]

theorem Prepared.withFile {parent : List String} {last : String} {content : ByteArray}
    (h : Prepared directory t place) (hparent : t.root.kind? parent = some .directory)
    (hplace : t.root.kind? (parent ++ [last]) ≠ some .directory) :
    Prepared directory (t.withFile (parent ++ [last]) content) place :=
  ⟨h.reaches.withFile hparent hplace, (extends_withFile hparent hplace).directory _ h.catalog⟩

theorem Prepared.withManifest (h : Prepared directory t place)
    (hmanifest : t.root.kind? (manifestPlace place) ≠ some .directory) :
    Prepared directory (withManifest name place t) place :=
  h.withFile h.reaches.directory hmanifest

theorem Writable.module_withManifest (h : Writable directory t place) :
    (withManifest name place t).root.kind? (modulePlace place) ≠ some .directory := by
  rw [kind?_modulePlace_withManifest h.toPrepared h.manifest]
  exact h.module

theorem Writable.withFiles (h : Writable directory t place) :
    Prepared directory (withFiles name place t) place :=
  (h.withManifest h.manifest).withFile (h.withManifest h.manifest).catalog h.module_withManifest

/-- Nothing but the two files is new. -/
theorem kind?_withFiles (h : Writable directory t place) (q : List String) :
    (withFiles name place t).root.kind? q
      = if q = modulePlace place then some (.file metadata.toUTF8)
        else if q = manifestPlace place then some (.file (manifest name).text.toUTF8)
        else t.root.kind? q := by
  rw [withFiles, modulePlace, kind?_withFile (h.withManifest h.manifest).catalog
    h.module_withManifest, kind?_withManifest h.toPrepared h.manifest]

theorem Writable.text_manifest (h : Writable directory t place) :
    (Scaffold.withFiles name place t).text (manifestPath directory)
      = .ok (Scaffold.manifest name).text := by
  refine text_of_node ((h.withFiles.reaches.node_join_eq_file_iff isName_fileName).mpr ?_)
  show (Scaffold.withFiles name place t).root.kind? (manifestPlace place) = _
  rw [kind?_withFiles h, if_neg (modulePlace_ne_manifestPlace place).symm, if_pos rfl]

theorem Writable.text_module (h : Writable directory t place) :
    (Scaffold.withFiles name place t).text (modulePath directory) = .ok metadata := by
  refine text_of_node ((h.withFiles.reaches_catalog.node_join_eq_file_iff isName_module).mpr ?_)
  show (Scaffold.withFiles name place t).root.kind? (modulePlace place) = _
  rw [kind?_withFiles h, if_pos rfl]

theorem on_put_manifest (h : Prepared directory t place) (text : String) :
    on (put (manifestPath directory) text) t
      = if t.root.kind? (manifestPlace place) = some .directory
        then (.error ⟨manifestPath directory, .isDirectory⟩, t)
        else (.ok (), t.withFile (manifestPlace place) text.toUTF8) :=
  on_put_join isName_fileName h.reaches text

theorem on_put_module (h : Prepared directory t place) (text : String) :
    on (put (modulePath directory) text) t
      = if t.root.kind? (modulePlace place) = some .directory
        then (.error ⟨modulePath directory, .isDirectory⟩, t)
        else (.ok (), t.withFile (modulePlace place) text.toUTF8) :=
  on_put_join isName_module h.reaches_catalog text

/-- The manifest is written before it shows whether the metadata can be. -/
theorem on_writeFiles (h : Prepared directory t place) : on (writeFiles name directory) t =
    if t.root.kind? (manifestPlace place) = some .directory
    then (.error (.file ⟨manifestPath directory, .isDirectory⟩), t)
    else if t.root.kind? (modulePlace place) = some .directory
    then (.error (.file ⟨modulePath directory, .isDirectory⟩), withManifest name place t)
    else (.ok (), withFiles name place t) := by
  unfold writeFiles
  rw [on_bind, on_adapt, on_put_manifest h]
  by_cases hmanifest : t.root.kind? (manifestPlace place) = some .directory
  · rw [if_pos hmanifest, if_pos hmanifest]
    rfl
  · rw [if_neg hmanifest, if_neg hmanifest]
    show on _ (withManifest name place t) = _
    rw [on_adapt, on_put_module (h.withManifest hmanifest),
      kind?_modulePlace_withManifest h hmanifest]
    by_cases hblocked : t.root.kind? (modulePlace place) = some .directory
    · rw [if_pos hblocked, if_pos hblocked]
      rfl
    · rw [if_neg hblocked, if_neg hblocked]
      rfl

/-- A call that succeeds has made directories, and then the two files. -/
theorem exists_withFiles {s' : FileSystem} (h : on (create name directory) s = (.ok (), s')) :
    ∃ t place, AddsDirectories s t ∧ Writable directory t place ∧ s' = withFiles name place t := by
  by_cases hthere : s.contains (manifestPath directory) = true
  · rw [on_create_of_contains hthere] at h
    cases h
  rw [on_create_of_free (by simpa using hthere)] at h
  cases hmade : on (ensureDirectory (catalogPath directory)) s with
  | mk result t =>
      rw [hmade] at h
      cases result with
      | error e => cases h
      | ok _ =>
          obtain ⟨hadds, place, hprepared⟩ := exists_prepared hmade
          simp only [on_writeFiles hprepared] at h
          by_cases hmanifest : t.root.kind? (manifestPlace place) = some .directory
          · rw [if_pos hmanifest] at h
            cases h
          rw [if_neg hmanifest] at h
          by_cases hmodule : t.root.kind? (modulePlace place) = some .directory
          · rw [if_pos hmodule] at h
            cases h
          rw [if_neg hmodule] at h
          cases h
          exact ⟨t, place, hadds, ⟨hprepared, hmanifest, hmodule⟩, rfl⟩

/-- Both files are read back after a call that succeeds. -/
theorem text_of_create {s' : FileSystem} (h : on (create name directory) s = (.ok (), s')) :
    s'.text (manifestPath directory) = .ok (manifest name).text ∧
      s'.text (modulePath directory) = .ok metadata := by
  obtain ⟨t, place, -, hwritable, rfl⟩ := exists_withFiles h
  exact ⟨hwritable.text_manifest, hwritable.text_module⟩

/-- The manifest is there after a call that succeeds. -/
theorem contains_of_create {s' : FileSystem} (h : on (create name directory) s = (.ok (), s')) :
    s'.contains (manifestPath directory) = true := by
  obtain ⟨t, place, -, hwritable, rfl⟩ := exists_withFiles h
  refine (hwritable.withFiles.reaches.contains_join_iff isName_fileName).mpr ?_
  show ((withFiles name place t).root.kind? (manifestPlace place)).isSome = true
  rw [kind?_withFiles hwritable, if_neg (modulePlace_ne_manifestPlace place).symm, if_pos rfl]
  rfl

/-! ### What is left alone

Directories are no files, so all that a call can change of the files are the two
that it writes.
-/

/-- The files of the two systems differ at most at the places of a manifest and of
its metadata. -/
structure TouchesOnly (place : List String) (s t : FileSystem) : Prop where
  current : t.current = s.current
  files : ∀ q content, q ≠ manifestPlace place → q ≠ modulePlace place →
    (t.root.kind? q = some (.file content) ↔ s.root.kind? q = some (.file content))

theorem Prepared.place_eq (h : Prepared directory t place) (hadds : AddsDirectories s t) :
    s.place directory = place := by
  rw [← h.reaches.place_eq, FileSystem.place, FileSystem.place, start_congr hadds.current]

theorem touchesOnly_writeFiles (h : Prepared directory t place) (hadds : AddsDirectories s t) :
    TouchesOnly place s (on (writeFiles name directory) t).2 := by
  rw [on_writeFiles h]
  by_cases hmanifest : t.root.kind? (manifestPlace place) = some .directory
  · rw [if_pos hmanifest]
    exact ⟨hadds.current, fun q content _ _ => hadds.files q content⟩
  rw [if_neg hmanifest]
  by_cases hmodule : t.root.kind? (modulePlace place) = some .directory
  · rw [if_pos hmodule]
    refine ⟨hadds.current, fun q content hq _ => ?_⟩
    rw [kind?_withManifest h hmanifest, if_neg hq]
    exact hadds.files q content
  · rw [if_neg hmodule]
    refine ⟨hadds.current, fun q content hq hq' => ?_⟩
    rw [kind?_withFiles ⟨h, hmanifest, hmodule⟩, if_neg hq', if_neg hq]
    exact hadds.files q content

/-- **No other file is touched**, whether the call succeeds or not. -/
theorem touchesOnly_create (name : String) (directory : Path) (s : FileSystem) :
    TouchesOnly (s.place directory) s (on (create name directory) s).2 := by
  by_cases hthere : s.contains (manifestPath directory) = true
  · rw [on_create_of_contains hthere]
    exact ⟨rfl, fun _ _ _ _ => Iff.rfl⟩
  rw [on_create_of_free (by simpa using hthere)]
  cases hmade : on (ensureDirectory (catalogPath directory)) s with
  | mk result t =>
      cases result with
      | error e =>
          have hadds := (on_ensureDirectory (catalogPath directory) s).1
          rw [hmade] at hadds
          exact ⟨hadds.current, fun q content _ _ => hadds.files q content⟩
      | ok _ =>
          obtain ⟨hadds, place, hprepared⟩ := exists_prepared hmade
          rw [hprepared.place_eq hadds]
          exact touchesOnly_writeFiles hprepared hadds

/-! ### All or nothing

`Harmless` is about the state before the files are written, and is said of places.  A
path need not lead to the place that it spells, so the two are brought together last.
-/

/-- With a directory in the place of the metadata, the manifest stays: as a new
file, unless it was there. -/
theorem sameFiles_withManifest_iff (h : Prepared directory t place)
    (hmanifest : t.root.kind? (manifestPlace place) ≠ some .directory) :
    SameFiles t (withManifest name place t)
      ↔ t.root.kind? (manifestPlace place) = some (.file (manifest name).text.toUTF8) :=
  sameFiles_withFile_iff h.reaches.directory hmanifest

/-- Both files take the places of what was there. -/
theorem keepsFiles_withFiles_iff (h : Writable directory t place) :
    KeepsFiles t (withFiles name place t) ↔
      (∀ content, t.root.kind? (manifestPlace place) = some (.file content) →
        content = (manifest name).text.toUTF8) ∧
      ∀ content, t.root.kind? (modulePlace place) = some (.file content) →
        content = metadata.toUTF8 := by
  have hkind : ∀ q, (withFiles name place t).root.kind? q
      = if q = modulePlace place then some (.file metadata.toUTF8)
        else if q = manifestPlace place then some (.file (manifest name).text.toUTF8)
        else t.root.kind? q := kind?_withFiles h
  constructor
  · intro hkeeps
    constructor
    · intro content hcontent
      have hafter := hkeeps _ _ hcontent
      rw [hkind, if_neg (modulePlace_ne_manifestPlace place).symm, if_pos rfl] at hafter
      simpa using hafter.symm
    · intro content hcontent
      have hafter := hkeeps _ _ hcontent
      rw [hkind, if_pos rfl] at hafter
      simpa using hafter.symm
  · intro hsame q content hcontent
    rw [hkind]
    by_cases hq : q = modulePlace place
    · rw [if_pos hq, hsame.2 content (hq ▸ hcontent)]
    · rw [if_neg hq]
      by_cases hq' : q = manifestPlace place
      · rw [if_pos hq', hsame.1 content (hq' ▸ hcontent)]
      · rw [if_neg hq', hcontent]

/-- What lies at the places of the two files decides whether writing them harms a file. -/
theorem allOrNothing_writeFiles_iff_kind? (h : Prepared directory t place) :
    AllOrNothing t (on (writeFiles name directory) t) ↔
      t.root.kind? (manifestPlace place) = some .directory ∨
        ((¬∃ content, t.root.kind? (manifestPlace place) = some (.file content) ∧
            content ≠ (manifest name).text.toUTF8) ∧
          (¬∃ content, t.root.kind? (modulePlace place) = some (.file content) ∧
            content ≠ metadata.toUTF8) ∧
          (t.root.kind? (modulePlace place) = some .directory →
            (t.root.kind? (manifestPlace place)).isSome)) := by
  rw [on_writeFiles h]
  by_cases hblocked : t.root.kind? (manifestPlace place) = some .directory
  · rw [if_pos hblocked]
    exact iff_of_true (fun _ _ => Iff.rfl) (Or.inl hblocked)
  rw [if_neg hblocked]
  by_cases hlate : t.root.kind? (modulePlace place) = some .directory
  · rw [if_pos hlate]
    show SameFiles t (withManifest name place t) ↔ _
    rw [sameFiles_withManifest_iff h hblocked]
    cases hkind : t.root.kind? (manifestPlace place) with
    | none => simp [hlate]
    | some kind =>
        cases kind with
        | directory => exact absurd hkind hblocked
        | file content => simp [hlate]
  · rw [if_neg hlate]
    show KeepsFiles t (withFiles name place t) ↔ _
    rw [keepsFiles_withFiles_iff ⟨h, hblocked, hlate⟩]
    simp [hblocked, hlate]

end

/-- Where writing the two files harms none: a directory in the place of the manifest
stops it at once, or no file at the two places has another content, and a directory
in the place of the metadata is met only where the manifest was there before. -/
def Harmless (name : String) (directory : Path) (t : FileSystem) : Prop :=
  t.isDirectory (manifestPath directory) = true ∨
    (¬ t.HoldsOther (manifestPath directory) (manifest name).text ∧
      ¬ t.HoldsOther (modulePath directory) metadata ∧
      (t.isDirectory (modulePath directory) = true → t.contains (manifestPath directory) = true))

theorem allOrNothing_writeFiles_iff {name : String} {directory : Path} {t : FileSystem}
    {place : List String} (h : Prepared directory t place) :
    AllOrNothing t (on (writeFiles name directory) t) ↔ Harmless name directory t := by
  have hmanifest : t.isDirectory (manifestPath directory) = true
      ↔ t.root.kind? (manifestPlace place) = some .directory :=
    h.reaches.isDirectory_join_iff isName_fileName
  have hmodule : t.isDirectory (modulePath directory) = true
      ↔ t.root.kind? (modulePlace place) = some .directory :=
    h.reaches_catalog.isDirectory_join_iff isName_module
  have hthere : t.contains (manifestPath directory) = true
      ↔ (t.root.kind? (manifestPlace place)).isSome :=
    h.reaches.contains_join_iff isName_fileName
  have hother : ∀ text, t.HoldsOther (manifestPath directory) text ↔ ∃ content,
      t.root.kind? (manifestPlace place) = some (.file content) ∧ content ≠ text.toUTF8 :=
    h.reaches.holdsOther_join_iff isName_fileName
  have hotherModule : ∀ text, t.HoldsOther (modulePath directory) text ↔ ∃ content,
      t.root.kind? (modulePlace place) = some (.file content) ∧ content ≠ text.toUTF8 :=
    h.reaches_catalog.holdsOther_join_iff isName_module
  rw [allOrNothing_writeFiles_iff_kind? h, Harmless, hmanifest, hmodule, hthere, hother,
    hotherModule]

/-- **Making a project is all or nothing exactly where its files harm none** once
the directories are there.  They are written only if no manifest was found before,
and if the directories can be made. -/
theorem allOrNothing_create_iff (name : String) (directory : Path) (s : FileSystem) :
    AllOrNothing s (on (create name directory) s) ↔
      ∀ t, s.contains (manifestPath directory) = false →
        on (ensureDirectory (catalogPath directory)) s = (.ok (), t) →
        Harmless name directory t := by
  by_cases hthere : s.contains (manifestPath directory) = true
  · rw [on_create_of_contains hthere]
    refine iff_of_true (fun _ _ => Iff.rfl) ?_
    intro t hfree
    rw [hthere] at hfree
    cases hfree
  have hfree : s.contains (manifestPath directory) = false := by simpa using hthere
  rw [on_create_of_free hfree]
  cases hmade : on (ensureDirectory (catalogPath directory)) s with
  | mk result t =>
      cases result with
      | error e =>
          -- The directories that were made before the fault stay, and no file is touched.
          have hadds := (on_ensureDirectory (catalogPath directory) s).1
          rw [hmade] at hadds
          refine iff_of_true hadds.files ?_
          intro u _ hu
          cases hu
      | ok _ =>
          obtain ⟨hadds, place, hprepared⟩ := exists_prepared hmade
          show AllOrNothing s (on (writeFiles name directory) t) ↔ _
          rw [hadds.files.allOrNothing_iff, allOrNothing_writeFiles_iff hprepared]
          constructor
          · intro h u _ hu
            cases hu
            exact h
          · intro h
            exact h t hfree rfl

namespace Sample

/-- A project directory where a directory lies in the place of the metadata. -/
def occupied : FileSystem :=
  ⟨.directory [("p", .directory [("metadata",
    .directory [("greeter-1.0.module", .directory [])])])], []⟩

end Sample

/-- A call that fails and leaves the manifest behind. -/
theorem not_allOrNothing_create_occupied :
    ¬ AllOrNothing Sample.occupied (on (create "demo" ⟨"p"⟩) Sample.occupied) := by
  intro h
  have hresult : (on (create "demo" ⟨"p"⟩) Sample.occupied).1
      = .error (.file ⟨⟨"p/metadata/greeter-1.0.module"⟩, .isDirectory⟩) := by rfl
  have hleft : (on (create "demo" ⟨"p"⟩) Sample.occupied).2.root.kind? ["p", "varsel.toml"]
      = some (.file (manifest "demo").text.toUTF8) := by rfl
  unfold AllOrNothing at h
  rw [hresult] at h
  have hbefore := (h _ _).mp hleft
  have hnone : Sample.occupied.root.kind? ["p", "varsel.toml"] = none := by rfl
  rw [hnone] at hbefore
  cases hbefore

end Scaffold

end VariantSelection
