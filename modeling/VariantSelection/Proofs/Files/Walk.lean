/-
Where paths lead.

A walk that succeeds ends where the steps lead by their text alone
(`walk_eq_foldl`), and it still succeeds when there are more directories
(`Extends.walk`).  Once the steps of a path lead to a directory, `Reaches`, what
lies in that directory under a name is what the path leads to that is longer by this
name (`Reaches.node_join_eq_ok_iff`).
-/
import VariantSelection.Files.Changes
import VariantSelection.Proofs.Except
import VariantSelection.Proofs.Files.Node
import VariantSelection.Proofs.Files.Path

namespace VariantSelection

namespace FileSystem

/-- Where a step leads by its text alone. -/
def advance (place : List String) (word : String) : List String :=
  if word = "." then place else if word = ".." then place.dropLast else place ++ [word]

section
variable {root root' : FileNode} {place next : List String} {word : String}

theorem node?_singleton {entries : List (String × FileNode)} (word : String)
    (h : root.node? place = some (.directory entries)) :
    root.node? (place ++ [word]) = FileNode.child? word entries := by
  rw [FileNode.node?_append, h, Option.bind_some, FileNode.node?]
  cases FileNode.child? word entries <;> rfl

theorem advance_name (hmove : isMove word = false) : advance place word = place ++ [word] := by
  obtain ⟨hhere, habove⟩ := isMove_eq_false_iff.mp hmove
  rw [advance, if_neg hhere, if_neg habove]

theorem step_eq_ok_iff :
    step root place word = .ok next ↔
      root.kind? place = some .directory ∧ advance place word = next ∧
      (isMove word = true ∨ (root.kind? (place ++ [word])).isSome) := by
  rw [FileNode.kind?_eq_directory]
  unfold step advance isMove
  cases hnode : root.node? place with
  | none => simp
  | some node =>
      cases node with
      | file content => simp
      | directory entries =>
          have hchild : (root.kind? (place ++ [word])).isSome
              = (FileNode.child? word entries).isSome := by
            rw [FileNode.kind?, node?_singleton word hnode, Option.isSome_map]
          by_cases hhere : word = "."
          · simp [hhere]
          by_cases habove : word = ".."
          · simp [habove]
          simp only [hhere, habove, if_false, hchild]
          cases FileNode.child? word entries <;> simp

/-- A tree with all the directories of another, and something wherever that
has something. -/
structure Extends (root root' : FileNode) : Prop where
  directory : ∀ place, root.kind? place = some .directory → root'.kind? place = some .directory
  isSome : ∀ place, (root.kind? place).isSome → (root'.kind? place).isSome

theorem Extends.refl (root : FileNode) : Extends root root := ⟨fun _ => id, fun _ => id⟩

theorem Extends.trans {root'' : FileNode} (h : Extends root root') (h' : Extends root' root'') :
    Extends root root'' :=
  ⟨fun place hplace => h'.directory place (h.directory place hplace),
    fun place hplace => h'.isSome place (h.isSome place hplace)⟩

theorem Extends.step (h : Extends root root') (hstep : step root place word = .ok next) :
    FileSystem.step root' place word = .ok next := by
  rw [step_eq_ok_iff] at hstep ⊢
  obtain ⟨hdirectory, hnext, hsome⟩ := hstep
  exact ⟨h.directory place hdirectory, hnext, hsome.imp_right (h.isSome _)⟩

theorem Extends.walk (h : Extends root root') (words : List String) :
    ∀ {place next : List String}, words.foldlM (FileSystem.step root) place = .ok next →
      words.foldlM (FileSystem.step root') place = .ok next := by
  induction words with
  | nil => intro place next hwalk; exact hwalk
  | cons word words ih =>
      intro place next hwalk
      rw [List.foldlM_cons, bind_eq_ok] at hwalk
      obtain ⟨between, hstep, hrest⟩ := hwalk
      rw [List.foldlM_cons, h.step hstep]
      exact ih hrest

theorem walk_eq_foldl (words : List String) :
    ∀ {place next : List String}, words.foldlM (FileSystem.step root) place = .ok next →
      next = words.foldl advance place := by
  induction words with
  | nil => rintro place next ⟨⟩; rfl
  | cons word words ih =>
      intro place next hwalk
      rw [List.foldlM_cons, bind_eq_ok] at hwalk
      obtain ⟨between, hstep, hrest⟩ := hwalk
      rw [List.foldl_cons, (step_eq_ok_iff.mp hstep).2.1]
      exact ih hrest

end

section
variable {s : FileSystem} {p : Path} {before place : List String} {last name : String}

theorem lastStep_eq_ok_iff (hwords : p.words = before ++ [last]) {result : List String × String} :
    s.lastStep p = .ok result ↔ ∃ place, before.foldlM (step s.root) (s.start p) = .ok place ∧
      s.root.kind? place = some .directory ∧ result = (place, last) := by
  have hreverse : ((fields '/' p.text).filter (· ≠ "")).reverse = last :: before.reverse := by
    show p.words.reverse = _
    rw [hwords, List.reverse_append, List.reverse_singleton, List.singleton_append]
  unfold lastStep
  rw [hreverse]
  simp only [List.reverse_reverse, bind_eq_ok]
  refine exists_congr fun place => and_congr_right fun _ => ?_
  rw [FileNode.kind?_eq_directory]
  cases s.root.node? place with
  | none => simp
  | some node => cases node <;> simp [eq_comm]

theorem isDirectory_iff : s.isDirectory p = true ↔
    ∃ place, s.locate p = .ok place ∧ s.root.kind? place = some .directory := by
  unfold isDirectory node
  cases s.locate p with
  | error fault => simp [bind, Except.bind]
  | ok place =>
      simp only [ok_bind, Except.ok.injEq, exists_eq_left', FileNode.kind?_eq_directory]
      cases s.root.node? place with
      | none => simp
      | some node => cases node <;> simp

/-- The steps of a path lead to a directory; of the empty path, to the current one. -/
structure Reaches (s : FileSystem) (p : Path) (place : List String) : Prop where
  walk : p.words.foldlM (step s.root) (s.start p) = .ok place
  directory : s.root.kind? place = some .directory

theorem step_name (hmove : isMove name = false) (hdirectory : s.root.kind? place = some .directory)
    (hsome : (s.root.kind? (place ++ [name])).isSome) :
    step s.root place name = .ok (place ++ [name]) :=
  step_eq_ok_iff.mpr ⟨hdirectory, advance_name hmove, Or.inr hsome⟩

theorem start_congr {t : FileSystem} (h : t.current = s.current) (p : Path) :
    t.start p = s.start p := by
  unfold start
  rw [h]

theorem start_join (base : Path) (hname : Path.IsName name) :
    s.start (base.join name) = s.start base := by
  rw [start, start, hname.isAbsolute_join]

section
variable {base : Path} (hname : Path.IsName name)
include hname

theorem locate_join : s.locate (base.join name)
    = (base.words ++ [name]).foldlM (step s.root) (s.start base) := by
  have hsteps : (base.join name).steps = base.words ++ [name] := by
    rw [Path.steps_of_not_endsWithSlash (hname.not_endsWithSlash base), hname.words_join]
  rw [locate, if_neg (hname.join_ne_empty base), hsteps, start_join base hname]

theorem Reaches.lastStep_join (h : s.Reaches base place) :
    s.lastStep (base.join name) = .ok (place, name) := by
  refine (lastStep_eq_ok_iff (hname.words_join base)).mpr ⟨place, ?_, h.directory, rfl⟩
  rw [start_join base hname]
  exact h.walk

/-- What lies behind the directory is what the longer path leads to. -/
theorem Reaches.node_join_eq_ok_iff (h : s.Reaches base place) {node : FileNode} :
    s.node (base.join name) = .ok node ↔ s.root.node? (place ++ [name]) = some node := by
  unfold FileSystem.node
  rw [locate_join hname, List.foldlM_append, h.walk, ok_bind, List.foldlM_cons]
  cases hnode : s.root.node? (place ++ [name]) with
  | none =>
      have hstep : ∀ next, step s.root place name ≠ .ok next := by
        intro next hnext
        obtain ⟨-, -, hmove | hsome⟩ := step_eq_ok_iff.mp hnext
        · rw [hname.move] at hmove
          cases hmove
        · rw [FileNode.kind?, hnode] at hsome
          cases hsome
      cases hnext : step s.root place name with
      | error fault => simp [bind, Except.bind]
      | ok next => exact absurd hnext (hstep next)
  | some found =>
      have hsome : (s.root.kind? (place ++ [name])).isSome := by
        rw [FileNode.kind?, hnode]
        rfl
      rw [step_name hname.move h.directory hsome]
      simp only [ok_bind, List.foldlM_nil, pure, Except.pure, hnode]
      simp

theorem Reaches.isDirectory_join_iff (h : s.Reaches base place) :
    s.isDirectory (base.join name) = true ↔ s.root.kind? (place ++ [name]) = some .directory := by
  rw [FileNode.kind?_eq_directory]
  simp only [← h.node_join_eq_ok_iff hname, FileSystem.isDirectory]
  cases s.node (base.join name) with
  | error fault => simp
  | ok node => cases node <;> simp

theorem Reaches.node_join_eq_file_iff (h : s.Reaches base place) {content : ByteArray} :
    s.node (base.join name) = .ok (.file content)
      ↔ s.root.kind? (place ++ [name]) = some (.file content) := by
  rw [h.node_join_eq_ok_iff hname, FileNode.kind?_eq_file]

theorem Reaches.contains_join_iff (h : s.Reaches base place) :
    s.contains (base.join name) = true ↔ (s.root.kind? (place ++ [name])).isSome := by
  rw [contains, isOk_iff, FileNode.kind?, Option.isSome_map, Option.isSome_iff_exists]
  simp only [h.node_join_eq_ok_iff hname]

theorem Reaches.join (h : s.Reaches base place)
    (hdirectory : s.root.kind? (place ++ [name]) = some .directory) :
    s.Reaches (base.join name) (place ++ [name]) := by
  refine ⟨?_, hdirectory⟩
  have hsome : (s.root.kind? (place ++ [name])).isSome := by rw [hdirectory]; rfl
  rw [hname.words_join, start_join base hname, List.foldlM_append, h.walk, ok_bind,
    List.foldlM_cons, step_name hname.move h.directory hsome]
  rfl

/-- A longer path that leads to a directory does so through a directory. -/
theorem exists_reaches_of_isDirectory (h : s.isDirectory (base.join name) = true) :
    ∃ place, s.Reaches base place ∧ s.root.kind? (place ++ [name]) = some .directory := by
  obtain ⟨next, hlocate, hdirectory⟩ := isDirectory_iff.mp h
  rw [locate_join hname, List.foldlM_append, bind_eq_ok] at hlocate
  obtain ⟨place, hwalk, hlast⟩ := hlocate
  rw [List.foldlM_cons, bind_eq_ok] at hlast
  obtain ⟨_, hstep, hnext⟩ := hlast
  cases hnext
  obtain ⟨hplace, hadvance, -⟩ := step_eq_ok_iff.mp hstep
  rw [advance_name hname.move] at hadvance
  exact ⟨place, ⟨hwalk, hplace⟩, hadvance ▸ hdirectory⟩

end

/-- The steps of a path are its `words`, and one more that asks for a directory if
it ends with a slash. -/
theorem Reaches.isDirectory (h : s.Reaches p place) (hne : p.text ≠ "") :
    s.isDirectory p = true := by
  refine isDirectory_iff.mpr ⟨place, ?_, h.directory⟩
  rw [locate, if_neg hne, Path.steps]
  show List.foldlM _ _ (p.words ++ _) = _
  rw [List.foldlM_append, h.walk, ok_bind]
  cases p.endsWithSlash with
  | false => rfl
  | true =>
      have hstep : step s.root place "." = .ok place :=
        step_eq_ok_iff.mpr ⟨h.directory, rfl, Or.inl rfl⟩
      rw [if_pos rfl, List.foldlM_cons, hstep]
      rfl

/-- A walk that succeeds ends where the text of the path says. -/
theorem Reaches.place_eq (h : s.Reaches p place) : s.place p = place := by
  rw [walk_eq_foldl p.words h.walk]
  show p.steps.foldl advance (s.start p) = _
  cases hslash : p.endsWithSlash with
  | false => rw [Path.steps_of_not_endsWithSlash hslash]
  | true =>
      unfold Path.steps
      rw [hslash]
      show (p.words ++ ["."]).foldl advance (s.start p) = _
      rw [List.foldl_append]
      rfl

theorem text_of_node {text : String} (h : s.node p = .ok (.file text.toUTF8)) :
    s.text p = .ok text := by
  have hdecode : String.fromUTF8? text.toUTF8 = some text := by
    simp only [String.fromUTF8?, String.toUTF8_eq_toByteArray, dif_pos text.isValidUTF8]
    rfl
  unfold FileSystem.text
  rw [h, ok_bind]
  simp only [hdecode]

theorem Reaches.extend {t : FileSystem} (h : s.Reaches p place) (hcurrent : t.current = s.current)
    (hextends : Extends s.root t.root) : t.Reaches p place := by
  refine ⟨?_, hextends.directory place h.directory⟩
  rw [start_congr hcurrent]
  exact hextends.walk p.words h.walk

end

end FileSystem

end VariantSelection
