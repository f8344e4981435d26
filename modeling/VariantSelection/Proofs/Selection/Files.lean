/-
Whose files are chosen for a variant.

The variant and its secondary variants are candidates for the files, and the one
that is left alone wins.  The files chosen are the winner's, with one exception that
is due to names: a winner of the variant's own name is taken for the variant itself.
So when a secondary variant bears that name and wins, the variant's files are chosen
in the place of those that won.
-/
import VariantSelection.Proofs.Disambiguation
import VariantSelection.Proofs.Selection

namespace VariantSelection

section
variable (r : Registry) (v : Variant) (requested : AttributeSet)

/-! ### The winner

`winningFiles` is what choosing files would be if the winner were told by itself and
not by its name.
-/

/-- The variant and its secondary variants, as far as they match. -/
def Variant.matchingForms : List Variant :=
  v.artifactCandidates.filter fun c => (c.report r requested).isCompatible

/-- Those of them that are preferred to the others. -/
def Variant.preferredForms : List Variant :=
  if (v.matchingForms r requested).length ≤ 1 then v.matchingForms r requested
  else disambiguate r requested (v.matchingForms r requested) []

/-- The files of the one that is left alone, and the variant's own where none is. -/
def winningFiles : ArtifactSelection :=
  match v.preferredForms r requested with
  | [winner] => ⟨winner.name, winner.artifacts⟩
  | _ => ⟨v.name, v.artifacts⟩

theorem preferredForms_sublist_matchingForms :
    (v.preferredForms r requested).Sublist (v.matchingForms r requested) := by
  unfold Variant.preferredForms
  by_cases hlen : (v.matchingForms r requested).length ≤ 1
  · rw [if_pos hlen]
  · rw [if_neg hlen]
    exact disambiguate_sublist r requested _ []

theorem preferredForms_sublist :
    (v.preferredForms r requested).Sublist v.artifactCandidates :=
  (preferredForms_sublist_matchingForms r v requested).trans List.filter_sublist

end

section
variable {r : Registry} {v w : Variant} {requested : AttributeSet}

theorem artifactWinner?_eq_some_iff :
    artifactWinner? r v requested = some w ↔ v.preferredForms r requested = [w] := by
  unfold artifactWinner? Variant.preferredForms
  rw [show v.artifactCandidates.filter (fun c => (c.report r requested).isCompatible)
    = v.matchingForms r requested from rfl]
  match v.matchingForms r requested with
  | [] => simp
  | [only] => simp
  | first :: second :: rest =>
      have hlen : ¬(first :: second :: rest).length ≤ 1 := by simp
      rw [if_neg hlen]
      dsimp only
      generalize disambiguate r requested (first :: second :: rest) [] = left
      match left with
      | [] => simp
      | [winner] => simp
      | _ :: _ :: _ => simp

theorem winningFiles_of_winner (h : v.preferredForms r requested = [w]) :
    winningFiles r v requested = ⟨w.name, w.artifacts⟩ := by
  rw [winningFiles, h]

theorem winningFiles_of_none (h : ∀ w, v.preferredForms r requested ≠ [w]) :
    winningFiles r v requested = ⟨v.name, v.artifacts⟩ := by
  unfold winningFiles
  match hleft : v.preferredForms r requested with
  | [] => rfl
  | [winner] => exact absurd hleft (h winner)
  | _ :: _ :: _ => rfl

/-! ### The files that are chosen

The two can differ only where a secondary variant wins that bears the name of its variant.
-/

theorem selectArtifacts_of_winner (h : v.preferredForms r requested = [w]) :
    selectArtifacts r v requested
      = if w.name = v.name then ⟨v.name, v.artifacts⟩ else ⟨w.name, w.artifacts⟩ := by
  rw [selectArtifacts, artifactWinner?_eq_some_iff.mpr h]

theorem selectArtifacts_of_none (h : ∀ w, v.preferredForms r requested ≠ [w]) :
    selectArtifacts r v requested = ⟨v.name, v.artifacts⟩ := by
  have hnone : artifactWinner? r v requested = none := by
    rw [Option.eq_none_iff_forall_ne_some]
    exact fun w hw => h w (artifactWinner?_eq_some_iff.mp hw)
  rw [selectArtifacts, hnone]

/-- A winner is the variant or one of its secondary variants. -/
theorem eq_or_exists_of_winner (h : v.preferredForms r requested = [w]) :
    w = { v with secondary := [] } ∨ ∃ s ∈ v.secondary, w = s.asCandidate v := by
  have hmem : w ∈ v.artifactCandidates := by
    refine (preferredForms_sublist r v requested).subset ?_
    rw [h]
    exact List.mem_singleton_self w
  rcases List.mem_cons.mp hmem with hown | hsecondary
  · exact Or.inl hown
  · obtain ⟨s, hs, hsw⟩ := List.mem_map.mp hsecondary
    exact Or.inr ⟨s, hs, hsw.symm⟩

/-- A winner of another name, or with the variant's own files, has its files chosen. -/
theorem selectArtifacts_eq_winningFiles
    (h : ∀ w, v.preferredForms r requested = [w] → w.name = v.name → w.artifacts = v.artifacts) :
    selectArtifacts r v requested = winningFiles r v requested := by
  by_cases hwinner : ∃ w, v.preferredForms r requested = [w]
  · obtain ⟨w, hw⟩ := hwinner
    rw [selectArtifacts_of_winner hw, winningFiles_of_winner hw]
    by_cases hname : w.name = v.name
    · rw [if_pos hname, hname, h w hw hname]
    · rw [if_neg hname]
  · have hnone : ∀ w, v.preferredForms r requested ≠ [w] := fun w hw => hwinner ⟨w, hw⟩
    rw [selectArtifacts_of_none hnone, winningFiles_of_none hnone]

/-- **The files are the winner's unless a secondary variant wins that bears the name
of the variant it belongs to** and has other files; then the variant's own files are
chosen.  What the others are called does not matter. -/
theorem selectArtifacts_eq_iff (r : Registry) (v : Variant) (requested : AttributeSet) :
    (selectArtifacts r v requested = winningFiles r v requested ↔
      ∀ s ∈ v.secondary, s.name = v.name → v.preferredForms r requested = [s.asCandidate v] →
        s.artifacts = v.artifacts) ∧
    (selectArtifacts r v requested ≠ winningFiles r v requested →
      selectArtifacts r v requested = ⟨v.name, v.artifacts⟩) := by
  refine ⟨⟨fun heq s hs hname hwinner => ?_, fun h => ?_⟩, fun hne => ?_⟩
  · have hsame : (s.asCandidate v).name = v.name := hname
    rw [selectArtifacts_of_winner hwinner, winningFiles_of_winner hwinner, if_pos hsame] at heq
    exact (congrArg ArtifactSelection.artifacts heq).symm
  · refine selectArtifacts_eq_winningFiles fun w hw hname => ?_
    rcases eq_or_exists_of_winner hw with rfl | ⟨s, hs, rfl⟩
    · rfl
    · exact h s hs hname hw
  · by_cases hwinner : ∃ w, v.preferredForms r requested = [w]
    · obtain ⟨w, hw⟩ := hwinner
      rw [selectArtifacts_of_winner hw, winningFiles_of_winner hw] at hne
      rw [selectArtifacts_of_winner hw]
      by_cases hname : w.name = v.name
      · rw [if_pos hname]
      · exact absurd (if_neg hname) hne
    · exact selectArtifacts_of_none fun w hw => hwinner ⟨w, hw⟩

end

namespace Sample

/-- A library's archive, with its classes under the name of the variant that
they belong to. -/
def archive : Variant where
  name := "api"
  attributes := .ofList
    [(Standard.usage, .string "java-api"), (Standard.libraryElements, .string "jar")]
  capabilities := .singleton ⟨"org.example", "library", "1.0"⟩
  artifacts := [⟨"lib-1.0.jar", "lib-1.0.jar"⟩]
  dependencies := []
  secondary :=
    [⟨"api", .ofList [(Standard.libraryElements, .string "classes")],
      [⟨"classes", "build/classes"⟩]⟩]

/-- The attributes of a request for the classes. -/
def classes : AttributeSet := .ofList
  [(Standard.usage, .string "java-api"), (Standard.libraryElements, .string "classes")]

end Sample

/-- The classes win, and the archive is chosen. -/
theorem selectArtifacts_ne_winningFiles : ∃ r, Registry.standard = .ok r ∧
    winningFiles r Sample.archive Sample.classes = ⟨"api", [⟨"classes", "build/classes"⟩]⟩ ∧
      selectArtifacts r Sample.archive Sample.classes
        = ⟨"api", [⟨"lib-1.0.jar", "lib-1.0.jar"⟩]⟩ :=
  ⟨_, rfl, by decide, by decide⟩

end VariantSelection
