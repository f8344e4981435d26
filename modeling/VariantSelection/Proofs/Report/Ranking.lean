/-
The order of attributes is printed as it is followed.

The listing of the configurations ends with the attributes of the registry.  It
makes its own list of them, the names of the precedence with numbers and then the
rest, while the selection makes a new order for each request.  Both leave out of the
second part what has stood in the first one, and in a registry no name stands twice
in either.  So the printed list is the order for a request of everything, and the
order for any other request is what it has of that list
(`disambiguationOrder_eq_filter`).
-/
import VariantSelection.Proofs.Registry.Order
import VariantSelection.Proofs.Report.Configurations
import VariantSelection.Proofs.Text.Lines

namespace VariantSelection

namespace Registry

/-! ### The printed list

`ListsOrder` says what the lines have to show, in terms of the orders of all
requests; the lemmas below it are about `rankedNames`, the list that is printed.
-/

/-- The line shows a name of the list, with its place if it has one. -/
inductive PrintsRank : String × Option Nat → String → Prop
  | numbered (name : String) (place : Nat) :
      PrintsRank (name, some place) s!"    - {name} ({place})"
  | plain (name : String) : PrintsRank (name, none) s!"    - {name}"

/-- The lines list the attributes of a registry, those of the precedence with their
places, as requests follow them. -/
structure ListsOrder (r : Registry) (ranked : List (String × Option Nat)) (lines : List String) :
    Prop where
  printed : List.Forall₂ PrintsRank ranked lines
  /-- Every registered name is listed, once, and no other name. -/
  once : ∀ name, (ranked.map Prod.fst).count name = if name ∈ r.names then 1 else 0
  /-- The numbers are the places in the precedence, from one. -/
  numbered : (ranked.filter fun e => e.2.isSome)
    = r.precedence.mapIdx fun i name => (name, some (i + 1))
  /-- What a request has of the list is visited as it is listed. -/
  followed : ∀ requested : AttributeSet, (∀ name ∈ requested.keys, name ∈ r.names) →
    r.disambiguationOrder requested = (ranked.map Prod.fst).filter requested.contains

section
variable (r : Registry)

theorem printsRank_rankedLine (e : String × Option Nat) : PrintsRank e (rankedLine e) := by
  obtain ⟨name, place⟩ := e
  cases place with
  | none => exact PrintsRank.plain name
  | some place => exact PrintsRank.numbered name place

theorem map_fst_rankedNames :
    r.rankedNames.map Prod.fst
      = r.precedence ++ r.names.filter fun name => !r.precedence.contains name := by
  have hprecedence : (r.precedence.mapIdx fun i name => (name, some (i + 1))).map Prod.fst
      = r.precedence :=
    List.ext_getElem (by simp) (by simp)
  unfold rankedNames
  rw [List.map_append, hprecedence, List.map_map]
  exact congrArg (r.precedence ++ ·) (List.map_id _)

theorem nodup_rankedNames : (r.rankedNames.map Prod.fst).Nodup := by
  rw [map_fst_rankedNames]
  refine List.nodup_append.mpr ⟨r.precedence_nodup, r.names_nodup.filter _, ?_⟩
  rintro name hprecedence _ hrest rfl
  have hnot := (List.mem_filter.mp hrest).2
  simp [hprecedence] at hnot

theorem mem_rankedNames {name : String} : name ∈ r.rankedNames.map Prod.fst ↔ name ∈ r.names := by
  rw [map_fst_rankedNames, List.mem_append, List.mem_filter]
  constructor
  · rintro (hprecedence | ⟨hname, -⟩)
    · exact r.precedence_registered name hprecedence
    · exact hname
  · intro hname
    by_cases hprecedence : name ∈ r.precedence
    · exact Or.inl hprecedence
    · exact Or.inr ⟨hname, by simpa using hprecedence⟩

theorem filter_isSome_rankedNames :
    (r.rankedNames.filter fun e => e.2.isSome)
      = r.precedence.mapIdx fun i name => (name, some (i + 1)) := by
  have hnumbered :
      ((r.precedence.mapIdx fun i name => (name, some (i + 1))).filter fun e => e.2.isSome)
      = r.precedence.mapIdx fun i name => (name, some (i + 1)) := by
    refine List.filter_eq_self.mpr fun e he => ?_
    obtain ⟨i, hi, rfl⟩ := List.mem_mapIdx.mp he
    rfl
  unfold rankedNames
  rw [List.filter_append, hnumbered, List.filter_map]
  simp

/-- **An order is what the request has of `rankedNames`**, and behind that what is
not registered. -/
theorem disambiguationOrder_eq_filter (requested : AttributeSet) :
    r.disambiguationOrder requested = (r.rankedNames.map Prod.fst).filter requested.contains
      ++ requested.keys.filter fun name => !r.names.contains name := by
  rw [map_fst_rankedNames, List.filter_append, List.filter_filter]
  rfl

theorem listsOrder_rankedNames : r.ListsOrder r.rankedNames (r.rankedNames.map rankedLine) where
  printed := forall₂_map_of_forall fun e _ => printsRank_rankedLine e
  once := fun name => by
    rw [r.nodup_rankedNames.count]
    exact if_congr r.mem_rankedNames rfl rfl
  numbered := r.filter_isSome_rankedNames
  followed := fun requested hregistered => by
    have hunknown : (requested.keys.filter fun name => !r.names.contains name) = [] := by
      rw [List.filter_eq_nil_iff]
      intro name hname
      simpa using hregistered name hname
    rw [disambiguationOrder_eq_filter, hunknown, List.append_nil]

end

end Registry

/-! ### The end of the listing

What stands above the ranking depends on the manifest, and nothing is said of it here.
-/

/-- **The order that is printed is the order that is followed.**  After any
operations on a registry, where a precedence is declared the listing of the
configurations ends with every registered name once, those of the precedence
numbered in its order, and each request over registered names visits its own in just
this order. -/
theorem resolvableConfigurations_order (operations : List Registry.Operation) (m : Manifest)
    (only : Option String) (hdeclared : (Registry.after operations).precedence ≠ []) {text : String}
    (h : m.resolvableConfigurations (Registry.after operations) only = .ok text) :
    ∃ listed ranked lines, m.listed (Registry.after operations) only = .ok listed ∧
      text = unlines (listed.flatMap ListedConfiguration.lines)
        ++ unlines ("The following attributes have disambiguation rules defined." :: "" :: lines) ∧
      (Registry.after operations).ListsOrder ranked lines ∧
      ∀ requested, (Registry.Tables.after operations).disambiguationOrder requested
        = (Registry.after operations).disambiguationOrder requested := by
  rw [m.resolvableConfigurations_eq, map_eq_ok] at h
  obtain ⟨listed, hlisted, rfl⟩ := h
  have horder : (Registry.after operations).orderLines
      = "The following attributes have disambiguation rules defined." :: ""
        :: (Registry.after operations).rankedNames.map Registry.rankedLine := by
    unfold Registry.orderLines
    rw [if_neg (by simpa using hdeclared)]
  refine ⟨listed, _, _, hlisted, ?_, Registry.listsOrder_rankedNames _, fun requested => ?_⟩
  · rw [unlines_append, horder]
  · rw [Registry.after_stored, Registry.disambiguationOrder_stored]

namespace Sample

/-- A manifest whose configuration asks for a colour and a size. -/
def painted : Manifest where
  project := { name := "app" }
  configurations := .ofList
    [("main", { attributes := .ofList [("colour", .string "red"), ("size", .string "3")] })]

end Sample

/-- The size is printed first, with the number one, and a request visits it first. -/
theorem resolvableConfigurations_order_painted :
    (Registry.after Registry.Sample.operations).precedence ≠ [] ∧
    ∃ text, Sample.painted.resolvableConfigurations (Registry.after Registry.Sample.operations) none
        = .ok text ∧
      ∃ listed ranked lines,
        Sample.painted.listed (Registry.after Registry.Sample.operations) none = .ok listed ∧
        text = unlines (listed.flatMap ListedConfiguration.lines)
          ++ unlines ("The following attributes have disambiguation rules defined." :: ""
            :: lines) ∧
        (Registry.after Registry.Sample.operations).ListsOrder ranked lines ∧
        ∀ requested,
          (Registry.Tables.after Registry.Sample.operations).disambiguationOrder requested
          = (Registry.after Registry.Sample.operations).disambiguationOrder requested := by
  have hdeclared : (Registry.after Registry.Sample.operations).precedence ≠ [] := by decide
  obtain ⟨text, htext⟩ : ∃ text, Sample.painted.resolvableConfigurations
      (Registry.after Registry.Sample.operations) none = .ok text := ⟨_, rfl⟩
  exact ⟨hdeclared, text, htext,
    resolvableConfigurations_order Registry.Sample.operations Sample.painted none hdeclared htext⟩

example : (Registry.after Registry.Sample.operations).orderLines
    = ["The following attributes have disambiguation rules defined.", "",
      "    - size (1)", "    - colour"] := by
  decide

end VariantSelection
