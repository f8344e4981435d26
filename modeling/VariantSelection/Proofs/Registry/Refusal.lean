/-
What a refused operation can say.

Descriptors are refused for what they lack, for what they have too much of or for a
value that is none of the type; a registration is refused for its type and a
precedence for one of its entries.  That a name was not found is said of no
operation: it is an answer to look-ups.  Where no entry of a precedence stands there
twice, it is refused for the first entry that is not registered
(`precedenceFault?_of_nodup`).
-/
import VariantSelection.Attribute.Standard
import VariantSelection.Proofs.Except
import VariantSelection.Proofs.Registry.Registration

namespace VariantSelection

/-! ### Conversions and descriptors

Each reader of a part of a descriptor is shown to fail with errors of one kind only,
and `FailsWith.bind` carries that from the parts to the whole.
-/

/-- The error does not say that a name was not found. -/
def AttributeError.NotMissing (e : AttributeError) : Prop := ∀ name, e ≠ .notFound name

/-- The error is about a descriptor, a value in it or the type of an attribute. -/
def AttributeError.OfDeclaration : AttributeError → Prop
  | .duplicate _ _ _ => True
  | .coercion _ _ _ => True
  | .invalidDescriptor _ _ => True
  | .notFound _ => False
  | .invalidPrecedence _ _ => False

theorem AttributeError.OfDeclaration.notMissing {e : AttributeError} (h : e.OfDeclaration) :
    e.NotMissing := by
  rintro name rfl
  exact h

theorem Value.failsWith_coerce (v : Value) (name : String) (t : ValueType) :
    FailsWith AttributeError.OfDeclaration (v.coerce name t) := by
  unfold Value.coerce
  cases v.coerce? t with
  | some w => exact failsWith_ok w
  | none => exact failsWith_error trivial

namespace Descriptor

variable (d : Descriptor)

theorem failsWith_acceptsTable : FailsWith AttributeError.OfDeclaration d.acceptsTable := by
  refine FailsWith.foldlM (f := d.acceptsEntry) (fun table entry => ?_) d.accepts.entries .empty
  refine ((Value.string entry.1).failsWith_coerce d.name d.type).bind fun key => ?_
  refine (FailsWith.mapM (fun v => v.failsWith_coerce d.name d.type) entry.2).bind fun values => ?_
  exact failsWith_ok _

theorem failsWith_invalidDescriptor {α : Type} (fault : DescriptorFault) :
    FailsWith AttributeError.OfDeclaration
      (.error (.invalidDescriptor d.name fault) : Except AttributeError α) :=
  failsWith_error trivial

theorem failsWith_compatibilityRule :
    FailsWith AttributeError.OfDeclaration d.compatibilityRule := by
  unfold compatibilityRule
  split
  · by_cases hempty : d.accepts.isEmpty = true
    · rw [if_pos hempty]
      exact d.failsWith_invalidDescriptor _
    · rw [if_neg hempty]
      exact d.failsWith_acceptsTable.map _
  · by_cases hempty : d.accepts.isEmpty = true
    · rw [if_pos hempty]
      exact failsWith_ok _
    · rw [if_neg hempty]
      exact d.failsWith_invalidDescriptor _

theorem failsWith_disambiguationRule :
    FailsWith AttributeError.OfDeclaration d.disambiguationRule := by
  unfold disambiguationRule
  split
  · by_cases hempty : d.preferred.isEmpty = true
    · rw [if_pos hempty]
      exact d.failsWith_invalidDescriptor _
    · rw [if_neg hempty]
      exact (FailsWith.mapM (fun v => v.failsWith_coerce d.name d.type) d.preferred).map _
  · by_cases hempty : d.preferred.isEmpty = true
    · rw [if_pos hempty]
      exact failsWith_ok _
    · rw [if_neg hempty]
      exact d.failsWith_invalidDescriptor _

theorem failsWith_rules : FailsWith AttributeError.OfDeclaration d.rules :=
  d.failsWith_compatibilityRule.bind fun _ =>
    d.failsWith_disambiguationRule.bind fun _ => failsWith_ok _

end Descriptor

/-! ### Operations

An operation that is made of several, the standard attributes with their precedence,
is taken apart by `addStandard_cases`.
-/

namespace Registry

variable (r : Registry)

theorem failsWith_register (name : String) (type : ValueType)
    (compatibility : Option CompatibilityRule) (disambiguation : Option DisambiguationRule) :
    FailsWith AttributeError.OfDeclaration (r.register name type compatibility disambiguation) := by
  cases hfound : r.find? name with
  | none =>
      rw [register_of_fresh (find?_eq_none_iff.mp hfound)]
      exact failsWith_ok _
  | some known =>
      rw [register_of_known hfound]
      by_cases htype : known.type = type
      · rw [if_pos htype]
        exact failsWith_ok _
      · rw [if_neg htype]
        exact failsWith_error trivial

theorem failsWith_declare (d : Descriptor) :
    FailsWith AttributeError.OfDeclaration (r.declare d) :=
  d.failsWith_rules.bind fun rules => r.failsWith_register d.name d.type rules.1 rules.2

theorem notMissing_of_precedenceFault? {e : AttributeError} (entries : List String) :
    ∀ {seen}, r.precedenceFault? seen entries = some e → e.NotMissing := by
  induction entries with
  | nil => rintro _ ⟨⟩
  | cons name rest ih =>
      intro seen h
      unfold precedenceFault? at h
      by_cases hname : name ∈ r.names
      · rw [if_neg (not_not.mpr hname)] at h
        by_cases hseen : name ∈ seen
        · rw [if_pos hseen, Option.some.injEq] at h
          rw [← h]
          exact fun _ => by simp
        · rw [if_neg hseen] at h
          exact ih h
      · rw [if_pos hname, Option.some.injEq] at h
        rw [← h]
        exact fun _ => by simp

theorem failsWith_declarePrecedence (entries : List String) :
    FailsWith AttributeError.NotMissing (r.declarePrecedence entries) := by
  cases hfault : r.precedenceFault? [] entries with
  | some e =>
      rw [declarePrecedence_of_fault hfault]
      exact failsWith_error (r.notMissing_of_precedenceFault? entries hfault)
  | none =>
      rw [declarePrecedence_of_no_fault hfault]
      exact failsWith_ok _

/-- Among distinct entries that are not in `seen` only an unregistered one can
be at fault. -/
theorem precedenceFault?_of_nodup {entries : List String} (hnodup : entries.Nodup) :
    ∀ {seen}, (∀ name ∈ entries, name ∉ seen) →
      r.precedenceFault? seen entries
        = (entries.find? fun name => !r.names.contains name).map
            fun name => .invalidPrecedence name .unregistered := by
  induction entries with
  | nil =>
      intro seen _
      rfl
  | cons name rest ih =>
      intro seen hseen
      obtain ⟨hname, hrest⟩ := List.nodup_cons.mp hnodup
      obtain ⟨hnew, hnews⟩ := List.forall_mem_cons.mp hseen
      unfold precedenceFault?
      by_cases hknown : name ∈ r.names
      · rw [if_neg (not_not.mpr hknown), if_neg hnew,
          List.find?_cons_of_neg (by simpa using hknown)]
        refine ih hrest fun other hother hmem => ?_
        rcases List.mem_cons.mp hmem with rfl | hmem
        · exact hname hother
        · exact hnews other hother hmem
      · rw [if_pos hknown, List.find?_cons_of_pos (by simpa using hknown), Option.map_some]

theorem declarePrecedence_succeeds_iff {entries : List String} (hnodup : entries.Nodup) :
    (∃ s, r.declarePrecedence entries = .ok s) ↔ ∀ name ∈ entries, name ∈ r.names := by
  constructor
  · rintro ⟨s, hs⟩
    cases hfault : r.precedenceFault? [] entries with
    | none => exact fun name hname => ((precedenceFault?_eq_none hfault).2 name hname).1
    | some e =>
        rw [declarePrecedence_of_fault hfault] at hs
        cases hs
  · intro hentries
    refine ⟨_, declarePrecedence_of_no_fault ?_⟩
    rw [r.precedenceFault?_of_nodup hnodup fun _ _ => List.not_mem_nil, Option.map_eq_none_iff,
      List.find?_eq_none]
    simpa using hentries

/-- **A precedence of distinct entries is not refused for a repetition.** -/
theorem failsWith_declarePrecedence_of_nodup {entries : List String} (hnodup : entries.Nodup) :
    FailsWith (fun e => ∀ name, e ≠ .invalidPrecedence name .repeated)
      (r.declarePrecedence entries) := by
  cases hfault : r.precedenceFault? [] entries with
  | none =>
      rw [declarePrecedence_of_no_fault hfault]
      exact failsWith_ok _
  | some e =>
      rw [declarePrecedence_of_fault hfault]
      refine failsWith_error fun name => ?_
      rw [r.precedenceFault?_of_nodup hnodup fun _ _ => List.not_mem_nil,
        Option.map_eq_some_iff] at hfault
      obtain ⟨entry, -, rfl⟩ := hfault
      simp

theorem notMissing_of_declareEach {e : AttributeError} (descriptors : List Descriptor) :
    ∀ {r : Registry}, (r.declareEach descriptors).2 = some e → e.NotMissing := by
  induction descriptors with
  | nil => rintro _ ⟨⟩
  | cons d rest ih =>
      intro r h
      unfold declareEach at h
      cases hdeclare : r.declare d with
      | error cause =>
          rw [hdeclare, Option.some.injEq] at h
          exact h ▸ (r.failsWith_declare d cause hdeclare).notMissing
      | ok s =>
          rw [hdeclare] at h
          exact ih h

theorem notMissing_of_addStandard {e : AttributeError} (h : r.addStandard.2 = some e) :
    e.NotMissing := by
  unfold addStandard at h
  split at h
  case _ s cause heach =>
    rw [Option.some.injEq] at h
    exact notMissing_of_declareEach Standard.descriptors (by rw [heach, h])
  case _ s heach =>
    cases hprecedence : s.declarePrecedence Standard.precedence with
    | ok next =>
        rw [hprecedence] at h
        cases h
    | error cause =>
        rw [hprecedence, Option.some.injEq] at h
        exact h ▸ s.failsWith_declarePrecedence _ cause hprecedence

/-- What is left of the standard attributes: those registered by a refusal, or all
with their precedence. -/
theorem addStandard_cases :
    (∃ e, r.addStandard = ((r.declareEach Standard.descriptors).1, some e)) ∨
    ∃ s, (r.declareEach Standard.descriptors).1.declarePrecedence Standard.precedence = .ok s ∧
      r.addStandard = (s, none) := by
  unfold addStandard
  rcases r.declareEach Standard.descriptors with ⟨t, _ | e⟩
  · cases hprecedence : t.declarePrecedence Standard.precedence with
    | error e => exact Or.inl ⟨e, by simp [hprecedence]⟩
    | ok s => exact Or.inr ⟨s, rfl, by simp [hprecedence]⟩
  · exact Or.inl ⟨e, rfl⟩

end Registry

end VariantSelection
