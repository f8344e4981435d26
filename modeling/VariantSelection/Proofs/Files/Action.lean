/-
What actions change in a file system.

Making directories makes nothing but directories, also when it fails in the end
(`on_ensureDirectory`): no file is touched, and whatever walk was possible still is.
Writing a file changes what lies at the place that its path leads to, and nothing
else (`on_put_join`); it is refused only where a directory lies there.
-/
import VariantSelection.Proofs.Files.Listing
import VariantSelection.Proofs.Files.Walk

namespace VariantSelection

/-! ### Running actions

An action is run by `on`, and the lemmas here take apart how actions are put
together, so no later proof opens the monad.
-/

namespace FileAction

/-- The result of an action on a file system, and the file system it leaves. -/
def on {ε α : Type} (action : FileAction ε α) (s : FileSystem) : Except ε α × FileSystem :=
  action.run.run s

section
variable {ε ε' α β : Type} {s : FileSystem}

theorem on_get : on (get : FileAction ε FileSystem) s = (.ok s, s) := rfl

theorem on_bind (action : FileAction ε α) (next : α → FileAction ε β) :
    on (action >>= next) s = match on action s with
      | (.ok a, t) => on (next a) t
      | (.error e, t) => (.error e, t) := by
  unfold on ExceptT.run StateT.run
  simp only [bind, ExceptT.bind, ExceptT.mk, StateT.bind]
  cases action s with
  | mk result t => cases result <;> rfl

theorem on_tryCatch (action : FileAction ε α) (handle : ε → FileAction ε α) :
    on (tryCatch action handle) s = match on action s with
      | (.ok a, t) => (.ok a, t)
      | (.error e, t) => on (handle e) t := by
  unfold on ExceptT.run StateT.run
  simp only [tryCatch, tryCatchThe, MonadExceptOf.tryCatch, ExceptT.tryCatch, ExceptT.mk, bind,
    StateT.bind]
  cases action s with
  | mk result t => cases result <;> rfl

theorem on_adapt (f : ε → ε') (action : FileAction ε α) :
    on (ExceptT.adapt f action) s = ((on action s).1.mapError f, (on action s).2) := rfl

theorem on_change (step : FileSystem → Except FileFault FileSystem) :
    on (change step) s = match step s with
      | .ok t => (.ok (), t)
      | .error fault => (.error fault, s) := by
  unfold change
  rw [on_bind, on_get]
  simp only
  cases step s <;> rfl

end

end FileAction

/-! ### Directories

`AddsDirectories` compares a system with what became of it.  It is reflexive and
transitive, so it holds of any number of steps if it holds of `addDirectory`.
-/

namespace FileSystem

section
variable {s t u : FileSystem} {p : Path} {place : List String} {last : String}

/-- Two systems with the same files; their directories may differ. -/
def SameFiles (s t : FileSystem) : Prop :=
  ∀ place content,
    t.root.kind? place = some (.file content) ↔ s.root.kind? place = some (.file content)

/-- A system with the files of another, and with more directories. -/
structure AddsDirectories (s t : FileSystem) : Prop where
  current : t.current = s.current
  grows : Extends s.root t.root
  files : SameFiles s t
  listed : ∀ path place, t.root.listed path place = s.root.listed path place

theorem AddsDirectories.refl (s : FileSystem) : AddsDirectories s s :=
  ⟨rfl, .refl s.root, fun _ _ => Iff.rfl, fun _ _ => rfl⟩

theorem AddsDirectories.trans (h : AddsDirectories s t) (h' : AddsDirectories t u) :
    AddsDirectories s u :=
  ⟨h'.current.trans h.current, h.grows.trans h'.grows,
    fun place content => (h'.files place content).trans (h.files place content),
    fun path place => (h'.listed path place).trans (h.listed path place)⟩

/-- A last step that is a name is taken from a directory. -/
theorem exists_of_lastStep (h : s.lastStep p = .ok (place, last)) (hlast : isMove last = false) :
    ∃ before, p.words = before ++ [last] ∧ before.foldlM (step s.root) (s.start p) = .ok place ∧
      s.root.kind? place = some .directory := by
  rcases List.eq_nil_or_concat p.words with hnil | ⟨before, word, hwords⟩
  · have hreverse : ((fields '/' p.text).filter (· ≠ "")).reverse = [] := by
      show p.words.reverse = []
      rw [hnil, List.reverse_nil]
    unfold lastStep at h
    rw [hreverse] at h
    simp only at h
    split at h
    · cases h
    · cases h
      cases hlast
  · rw [List.concat_eq_append] at hwords
    obtain ⟨_, hwalk, hdirectory, hresult⟩ := (lastStep_eq_ok_iff hwords).mp h
    cases hresult
    exact ⟨before, hwords, hwalk, hdirectory⟩

theorem addDirectory_eq_ok (h : s.addDirectory p = .ok t) :
    ∃ place last, s.lastStep p = .ok (place, last) ∧ isMove last = false ∧
      s.root.kind? (place ++ [last]) = none ∧
      t = { s with root := FileNode.put (.directory []) s.root (place ++ [last]) } := by
  unfold addDirectory at h
  obtain ⟨⟨place, last⟩, hlast, hrest⟩ := bind_eq_ok.mp h
  simp only at hrest
  split at hrest
  case isTrue => cases hrest
  case isFalse hfree =>
    cases hrest
    obtain ⟨hmove, hnone⟩ : isMove last = false ∧ s.root.node? (place ++ [last]) = none := by
      simpa using hfree
    exact ⟨place, last, hlast, hmove, FileNode.kind?_eq_none.mpr hnone, rfl⟩

theorem kind?_put_empty {root : FileNode} (hparent : root.kind? place = some .directory)
    (hfree : root.kind? (place ++ [last]) = none) (q : List String) :
    (FileNode.put (.directory []) root (place ++ [last])).kind? q
      = if q = place ++ [last] then some .directory else root.kind? q :=
  FileNode.kind?_put hparent (by simp [hfree]) (fun _ _ => rfl) q

theorem addsDirectories_addDirectory (h : s.addDirectory p = .ok t) : AddsDirectories s t := by
  obtain ⟨place, last, hlast, hmove, hfree, rfl⟩ := addDirectory_eq_ok h
  obtain ⟨-, -, -, hdirectory⟩ := exists_of_lastStep hlast hmove
  have hkind := kind?_put_empty hdirectory hfree
  refine ⟨rfl, ⟨fun q hq => ?_, fun q hq => ?_⟩, fun q content => ?_,
    FileNode.listed_put_empty hdirectory hfree⟩
  · rw [hkind, hq, ite_self]
  · rw [hkind]
    split
    · rfl
    · exact hq
  · rw [hkind]
    by_cases hplace : q = place ++ [last]
    · simp [hplace, hfree]
    · rw [if_neg hplace]

theorem isDirectory_addDirectory (h : s.addDirectory p = .ok t) : t.isDirectory p = true := by
  have hadds := addsDirectories_addDirectory h
  obtain ⟨place, last, hlast, hmove, hfree, ht⟩ := addDirectory_eq_ok h
  obtain ⟨before, hwords, hwalk, hdirectory⟩ := exists_of_lastStep hlast hmove
  have hnew : t.root.kind? (place ++ [last]) = some .directory := by
    rw [ht]
    show (FileNode.put _ _ _).kind? _ = _
    rw [kind?_put_empty hdirectory hfree, if_pos rfl]
  have hreaches : t.Reaches p (place ++ [last]) := by
    -- The walk to the directory around it still succeeds, and finds the new one there.
    refine ⟨?_, hnew⟩
    rw [hwords, List.foldlM_append, start_congr hadds.current, hadds.grows.walk before hwalk,
      ok_bind, List.foldlM_cons, step_name hmove (hadds.grows.directory place hdirectory)
        (by rw [hnew]; rfl)]
    rfl
  refine hreaches.isDirectory fun hempty => ?_
  have hnone : p.words = [] := by simp [Path.words, fields, hempty, fieldsOf]
  rw [hnone] at hwords
  simp at hwords

end

end FileSystem

namespace FileAction

open FileSystem (AddsDirectories)

theorem on_makeDirectory (p : Path) (s : FileSystem) :
    AddsDirectories s (on (makeDirectory p) s).2 ∧
      ((on (makeDirectory p) s).1 = .ok () → (on (makeDirectory p) s).2.isDirectory p = true) := by
  unfold makeDirectory
  rw [on_tryCatch, on_change]
  cases hadd : s.addDirectory p with
  | ok t =>
      exact ⟨FileSystem.addsDirectories_addDirectory hadd,
        fun _ => FileSystem.isDirectory_addDirectory hadd⟩
  | error fault =>
      simp only [on_bind, on_get]
      by_cases hdirectory : s.isDirectory p = true
      · rw [if_pos hdirectory]
        exact ⟨.refl s, fun _ => hdirectory⟩
      · rw [if_neg hdirectory]
        exact ⟨.refl s, fun h => nomatch h⟩

/-- `makeDirectories` makes nothing but directories, whichever of the paths
are missing. -/
theorem on_makeDirectories (paths : List Path) : ∀ s : FileSystem,
    AddsDirectories s (on (makeDirectories paths) s).2 ∧
      ((on (makeDirectories paths) s).1 = .ok () → ∀ p, paths.head? = some p → p.text ≠ "" →
        (on (makeDirectories paths) s).2.isDirectory p = true) := by
  induction paths with
  | nil => exact fun s => ⟨.refl s, by simp⟩
  | cons p outer ih =>
      intro s
      unfold makeDirectories
      by_cases hempty : p.text = ""
      · rw [if_pos hempty]
        refine ⟨.refl s, fun _ q hq hne => ?_⟩
        have hpq : p = q := by simpa using hq
        exact absurd (hpq ▸ hempty) hne
      · rw [if_neg hempty, on_tryCatch]
        obtain ⟨hadds, hmade⟩ := on_makeDirectory p s
        have hhead : ∀ {u : FileSystem}, u.isDirectory p = true →
            ∀ q, (p :: outer).head? = some q → q.text ≠ "" → u.isDirectory q = true := by
          intro u hu q hq _
          rwa [← Option.some.inj hq]
        cases hfirst : on (makeDirectory p) s with
        | mk result t =>
            rw [hfirst] at hadds hmade
            cases result with
            | ok _ => exact ⟨hadds, fun _ => hhead (hmade rfl)⟩
            | error fault =>
                -- Only a missing directory around this one is made up for.
                cases fault with
                | notFound =>
                    have houter := (ih t).1
                    simp only [on_bind]
                    cases hrest : on (makeDirectories outer) t with
                    | mk result u =>
                        rw [hrest] at houter
                        cases result with
                        | error fault => exact ⟨hadds.trans houter, fun h => nomatch h⟩
                        | ok _ =>
                            have hagain := on_makeDirectory p u
                            exact ⟨(hadds.trans houter).trans hagain.1,
                              fun h => hhead (hagain.2 h)⟩
                | _ => exact ⟨hadds, fun h => nomatch h⟩

/-- **Making a directory makes nothing but directories**, and where it succeeds, the
directory is there. -/
theorem on_ensureDirectory (p : Path) (s : FileSystem) :
    AddsDirectories s (on (ensureDirectory p) s).2 ∧
      ((on (ensureDirectory p) s).1 = .ok () → p.text ≠ "" →
        (on (ensureDirectory p) s).2.isDirectory p = true) := by
  unfold ensureDirectory onPath
  rw [on_adapt]
  obtain ⟨hadds, hmade⟩ := on_makeDirectories (p :: p.ancestors) s
  refine ⟨hadds, fun hok hne => ?_⟩
  exact hmade (mapError_eq_ok.mp hok) p rfl hne

end FileAction

/-! ### Files

With a file in a place, the tree still has what it had elsewhere (`kind?_withFile`),
and a walk that led somewhere leads there still (`Reaches.withFile`).
-/

namespace FileSystem

/-- The system with a file at a place. -/
def withFile (s : FileSystem) (place : List String) (content : ByteArray) : FileSystem :=
  { s with root := FileNode.put (.file content) s.root place }

section
variable {s : FileSystem} {base p : Path} {place other : List String} {name : String}
variable {content : ByteArray}

theorem kind?_withFile (hparent : s.root.kind? place = some .directory)
    (hplace : s.root.kind? (place ++ [name]) ≠ some .directory) (q : List String) :
    (s.withFile (place ++ [name]) content).root.kind? q
      = if q = place ++ [name] then some (.file content) else s.root.kind? q :=
  FileNode.kind?_put hparent hplace (fun _ _ => rfl) q

theorem extends_withFile (hparent : s.root.kind? place = some .directory)
    (hplace : s.root.kind? (place ++ [name]) ≠ some .directory) :
    Extends s.root (s.withFile (place ++ [name]) content).root := by
  refine ⟨fun q hq => ?_, fun q hq => ?_⟩
  · have hne : q ≠ place ++ [name] := fun heq => hplace (heq ▸ hq)
    rw [kind?_withFile hparent hplace, if_neg hne, hq]
  · rw [kind?_withFile hparent hplace]
    split
    · rfl
    · exact hq

theorem Reaches.withFile (h : s.Reaches p other) (hparent : s.root.kind? place = some .directory)
    (hplace : s.root.kind? (place ++ [name]) ≠ some .directory) :
    (s.withFile (place ++ [name]) content).Reaches p other :=
  h.extend rfl (extends_withFile hparent hplace)

theorem writeBytes_join (hname : Path.IsName name) (h : s.Reaches base place) :
    s.writeBytes (base.join name) content
      = if s.root.kind? (place ++ [name]) = some .directory then .error .isDirectory
        else .ok (s.withFile (place ++ [name]) content) := by
  unfold writeBytes
  rw [h.lastStep_join hname, ok_bind]
  simp only [hname.move, hname.not_endsWithSlash, Bool.or_self, Bool.false_eq_true, if_false]
  by_cases hdirectory : s.root.kind? (place ++ [name]) = some .directory
  · obtain ⟨entries, hentries⟩ := FileNode.kind?_eq_directory.mp hdirectory
    rw [if_pos hdirectory, hentries]
  · rw [if_neg hdirectory]
    split
    case h_1 entries hentries =>
      exact absurd (FileNode.kind?_eq_directory.mpr ⟨entries, hentries⟩) hdirectory
    case h_2 => rfl

end

end FileSystem

namespace FileAction

/-- **Writing a file changes what lies at its place**, and is refused only where a
directory lies there. -/
theorem on_put_join {s : FileSystem} {base : Path} {place : List String} {name : String}
    (hname : Path.IsName name) (h : s.Reaches base place) (text : String) :
    on (put (base.join name) text) s
      = if s.root.kind? (place ++ [name]) = some .directory
        then (.error ⟨base.join name, .isDirectory⟩, s)
        else (.ok (), s.withFile (place ++ [name]) text.toUTF8) := by
  unfold put onPath
  rw [on_adapt, on_change, FileSystem.writeBytes_join hname h]
  by_cases hdirectory : s.root.kind? (place ++ [name]) = some .directory
  · simp [hdirectory, Except.mapError]
  · simp [hdirectory, Except.mapError]

end FileAction

end VariantSelection
