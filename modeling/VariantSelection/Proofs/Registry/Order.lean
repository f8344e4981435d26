/-
In which order requested attributes are consulted.

The order is built in three passes: over the precedence, over the definitions as
they lie, and over the request.  The second one skips what is in the order already
and the third one what has a place in the index.  In the stored form of a registry
that keeps the passes apart, so no name is taken twice and none is left out
(`disambiguationOrder_stored`).

What the order ought to be is said by what has happened.  A `History` is kept beside
the registry over a run.  It learns from the answers of the operations which names
were registered and which precedence was declared, and forgets both in a reset.
After every operation the registry fits its history (`Fits.add`): its names are
those that were registered, in the order in which each of them first was, and its
precedence is the one that was declared last.
-/
import VariantSelection.Proofs.Registry.Run

namespace VariantSelection

namespace Registry

/-! ### Three passes -/

/-- The order in which the requested attributes are consulted: those of the
precedence, then those that have a definition and are not in the order yet, then
those that have no place in the index. -/
def Tables.disambiguationOrder (t : Tables) (requested : AttributeSet) : List String :=
  let declared := t.precedence.filter requested.contains
  let registered := t.names.foldl (fun order name =>
    if requested.contains name && !order.contains name then order ++ [name] else order) declared
  requested.keys.foldl (fun order name =>
    if !t.index.contains name then order ++ [name] else order) registered

/-- **Every name is taken in the pass in which it belongs**, and in no other. -/
theorem disambiguationOrder_stored (r : Registry) (requested : AttributeSet) :
    r.stored.disambiguationOrder requested = r.disambiguationOrder requested := by
  have hregistered : ∀ name, (requested.contains name &&
        !(r.precedence.filter requested.contains).contains name)
      = (requested.contains name && !r.precedence.contains name) := by
    intro name
    cases hname : requested.contains name <;> simp [hname]
  have hindex : ∀ name, r.stored.index.contains name = r.names.contains name := by
    intro name
    rw [Bool.eq_iff_iff, contains_index_stored, List.contains_iff_mem]
  have hnames : r.stored.names = r.names := rfl
  have hprecedence : r.stored.precedence = r.precedence := rfl
  have hnodup : r.names.Nodup := r.names_nodup
  simp only [Tables.disambiguationOrder, disambiguationOrder, foldl_append_filter, hindex, hnames,
    hprecedence]
  rw [foldl_append_new hnodup requested.contains]
  simp only [hregistered]

/-! ### The history of a run

A history has no tables to look into.  It keeps what was asked for and was not refused,
repetitions included, and `Arranges` says in its terms what the order has to be.
-/

/-- What there is to remember of a run since its last reset. -/
structure History where
  /-- The names that were registered, each as often as it was. -/
  registrations : List String
  /-- The precedence that was declared last. -/
  precedence : List String

/-- The names that declarations register, up to the first that is refused. -/
def declaredNames (r : Registry) : List Descriptor → List String
  | [] => []
  | d :: rest =>
    match r.declare d with
    | .ok s => d.name :: s.declaredNames rest
    | .error _ => []

namespace History

/-- The history after an operation on `r`.  Of an operation that is refused there is
nothing to remember, except that some of the standard attributes may have been
registered by then. -/
def add (h : History) (r : Registry) : Operation → History
  | .register name type compatibility disambiguation =>
    match r.register name type compatibility disambiguation with
    | .ok _ => { h with registrations := h.registrations ++ [name] }
    | .error _ => h
  | .declare d => { h with registrations := h.registrations ++ r.declaredNames [d] }
  | .addStandard =>
    { registrations := h.registrations ++ r.declaredNames Standard.descriptors
      precedence :=
        match r.addStandard.2 with
        | none => Standard.precedence
        | some _ => h.precedence }
  | .declarePrecedence entries =>
    match r.declarePrecedence entries with
    | .ok _ => { h with precedence := entries }
    | .error _ => h
  | .reset => ⟨[], []⟩

/-- The history of a run that starts with the empty registry. -/
def after (operations : List Operation) : History :=
  (operations.foldl (fun s op => (s.1.add s.2 op, (s.2.perform op).1))
    ((⟨[], []⟩, .empty) : History × Registry)).1

/-- The three parts of an order are as the history asks for. -/
structure Arranges (h : History) (declared registered unknown : List String) : Prop where
  /-- What the precedence lists, in the order in which it does. -/
  sublist : declared.Sublist h.precedence
  of_mem_registered : ∀ name ∈ registered, name ∈ h.registrations ∧ name ∉ h.precedence
  /-- Whatever was registered first comes first. -/
  firstComeFirst : registered.Pairwise fun a b =>
    h.registrations.idxOf a < h.registrations.idxOf b
  of_mem_unknown : ∀ name ∈ unknown, name ∉ h.registrations ∧ name ∉ h.precedence
  ascending : unknown.Pairwise fun a b => compare a b = .lt

/-- The registry has what the history tells of. -/
structure Fits (h : History) (r : Registry) : Prop where
  names : r.names = h.registrations.eraseDups
  precedence : r.precedence = h.precedence

section
variable {h : History} {r s : Registry}

/-! ### One operation -/

theorem Fits.register (hfits : h.Fits r) {name : String} {type : ValueType}
    {compatibility : Option CompatibilityRule} {disambiguation : Option DisambiguationRule}
    (hs : r.register name type compatibility disambiguation = .ok s) :
    Fits { h with registrations := h.registrations ++ [name] } s := by
  refine ⟨?_, (precedence_register hs).trans hfits.precedence⟩
  rw [names_register hs, eraseDups_concat, hfits.names]
  exact if_congr List.mem_eraseDups rfl rfl

/-- The standard attributes, or one: `declaredNames` are those that were registered
by the first refusal, and they are remembered. -/
theorem Fits.declareEach (descriptors : List Descriptor) :
    ∀ {h : History} {r : Registry}, h.Fits r →
      Fits { h with registrations := h.registrations ++ r.declaredNames descriptors }
        (r.declareEach descriptors).1 := by
  induction descriptors with
  | nil =>
      intro h r hfits
      simp only [declaredNames, List.append_nil]
      exact hfits
  | cons d rest ih =>
      intro h r hfits
      unfold declaredNames Registry.declareEach
      cases hdeclare : r.declare d with
      | error e =>
          simp only [List.append_nil]
          exact hfits
      | ok s =>
          obtain ⟨rules, -, hregister⟩ := declare_eq_ok_iff.mp hdeclare
          have hnext := ih (hfits.register hregister)
          simp only [List.append_assoc, List.singleton_append] at hnext
          exact hnext

theorem Fits.declarePrecedence (hfits : h.Fits r) {entries : List String}
    (hs : r.declarePrecedence entries = .ok s) : Fits { h with precedence := entries } s := by
  refine ⟨?_, precedence_of_declarePrecedence hs⟩
  rw [Registry.names, definitions_of_declarePrecedence hs]
  exact hfits.names

theorem Fits.addStandard (hfits : h.Fits r) : (h.add r .addStandard).Fits r.addStandard.1 := by
  have heach := hfits.declareEach Standard.descriptors
  unfold History.add
  dsimp only
  rcases r.addStandard_cases with ⟨e, hall⟩ | ⟨s, hprecedence, hall⟩
  · rw [hall]
    exact heach
  · rw [hall]
    exact heach.declarePrecedence hprecedence

/-- **A registry that fits its history fits it after an operation**, a refused
one included. -/
theorem Fits.add (hfits : h.Fits r) (op : Operation) : (h.add r op).Fits (r.perform op).1 := by
  cases op with
  | register name type compatibility disambiguation =>
      unfold History.add perform
      dsimp only
      cases hregister : r.register name type compatibility disambiguation with
      | error e => exact hfits
      | ok s => exact hfits.register hregister
  | declare d =>
      have hone := hfits.declareEach [d]
      have hperform : (r.declareEach [d]).1 = (r.perform (.declare d)).1 := by
        unfold Registry.declareEach perform
        dsimp only
        cases r.declare d <;> rfl
      rw [hperform] at hone
      exact hone
  | addStandard => exact hfits.addStandard
  | declarePrecedence entries =>
      unfold History.add perform
      dsimp only
      cases hprecedence : r.declarePrecedence entries with
      | error e => exact hfits
      | ok s => exact hfits.declarePrecedence hprecedence
  | reset => exact ⟨rfl, rfl⟩

/-! ### All operations

The induction is on the operations, and what it carries is `Fits`: the history and
the registry are each the result of all operations before.
-/

theorem fits_foldl (operations : List Operation) :
    ∀ {h : History} {r : Registry}, h.Fits r →
      Fits (operations.foldl (fun s op => (s.1.add s.2 op, (s.2.perform op).1)) (h, r)).1
        (operations.foldl (fun r op => (r.perform op).1) r) := by
  induction operations with
  | nil =>
      intro h r hfits
      exact hfits
  | cons op rest ih =>
      intro h r hfits
      exact ih (hfits.add op)

theorem fits_after (operations : List Operation) :
    (after operations).Fits (Registry.after operations) :=
  fits_foldl operations ⟨rfl, rfl⟩

/-- What fits the history is consulted as the history asks for. -/
theorem Fits.arranges (hfits : h.Fits r) (requested : AttributeSet) :
    h.Arranges (r.precedence.filter requested.contains)
      (r.names.filter fun name => requested.contains name && !r.precedence.contains name)
      (requested.keys.filter fun name => !r.names.contains name) where
  sublist := by
    rw [← hfits.precedence]
    exact List.filter_sublist
  of_mem_registered := fun name hname => by
    obtain ⟨hmem, hnot⟩ := List.mem_filter.mp hname
    rw [hfits.names, List.mem_eraseDups] at hmem
    rw [hfits.precedence] at hnot
    exact ⟨hmem, by simpa using (Bool.and_eq_true_iff.mp hnot).2⟩
  firstComeFirst := by
    rw [hfits.names]
    exact (pairwise_idxOf_eraseDups h.registrations).filter _
  of_mem_unknown := fun name hname => by
    have hnot : name ∉ r.names := by simpa using (List.mem_filter.mp hname).2
    rw [← hfits.precedence]
    refine ⟨fun hmem => hnot ?_, fun hmem => hnot (r.precedence_registered name hmem)⟩
    rw [hfits.names]
    exact List.mem_eraseDups.mpr hmem
  ascending := requested.ascending_keys.filter _

end

end History

/-- **The order in which attributes are consulted is what the run has promised**,
whatever operations it is made of and whether they were refused.  Every requested
name is in it once, and nothing else.  The names of the precedence that was declared
last come first, in its order; then the other registered ones, in the order of their
first registrations since the last reset; then the unknown ones by name. -/
theorem disambiguationOrder_after (operations : List Operation) (requested : AttributeSet) :
    let order := (Tables.after operations).disambiguationOrder requested
    order = (after operations).disambiguationOrder requested ∧
    (∀ name, order.count name = if requested.contains name then 1 else 0) ∧
    ∃ declared registered unknown, order = declared ++ registered ++ unknown ∧
      (History.after operations).Arranges declared registered unknown := by
  have horder : (Tables.after operations).disambiguationOrder requested
      = (after operations).disambiguationOrder requested := by
    rw [after_stored, disambiguationOrder_stored]
  dsimp only
  rw [horder]
  refine ⟨rfl, fun name => ?_, _, _, _, rfl,
    (History.fits_after operations).arranges requested⟩
  rw [(nodup_disambiguationOrder _ requested).count]
  exact if_congr mem_disambiguationOrder rfl rfl

/-- The size comes first although the colour was registered before it, and what is
not registered comes last. -/
example : (Tables.after Sample.operations).disambiguationOrder
    (.ofList [("age", .integer 3), ("colour", .string "red"), ("size", .integer 1)])
    = ["size", "colour", "age"] := by
  decide

end Registry

end VariantSelection
