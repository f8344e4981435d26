/-
Declarations, one after another.

A declaration lays the rules that its descriptor gives on the definition that is
there, or on a plain one (`Descriptor.definition`).  It touches no other name
(`find?_declare`).  So of descriptors with distinct names each one meets what was
there at the start, whatever was declared before it: whether all of them can be
registered is seen there, and what comes out is told name by name.
-/
import VariantSelection.Attribute.Descriptor
import VariantSelection.Proofs.Except
import VariantSelection.Proofs.Registry.Registration

namespace VariantSelection

namespace Descriptor

/-- The rules that the descriptor gives, none if something is wrong with them. -/
def given (d : Descriptor) : Option CompatibilityRule × Option DisambiguationRule :=
  d.rules.toOption.getD (none, none)

/-- The definition of the attribute once it is declared, over the one that is known. -/
def definition (d : Descriptor) (known : Option Definition) : Definition :=
  (known.getD (.plain d.name d.type)).withRules d.given.1 d.given.2

variable (d : Descriptor) (known : Option Definition)

theorem compatibility_definition :
    (d.definition known).compatibility
      = (d.given.1.or (known.map Definition.compatibility)).getD .exact := by
  cases hgiven : d.given.1 <;> cases known <;>
    simp [definition, Definition.withRules, Definition.plain, hgiven]

theorem disambiguation_definition :
    (d.definition known).disambiguation
      = (d.given.2.or (known.map Definition.disambiguation)).getD .noPreference := by
  cases hgiven : d.given.2 <;> cases known <;>
    simp [definition, Definition.withRules, Definition.plain, hgiven]

end Descriptor

namespace Registry

variable {r s : Registry} {d : Descriptor}

/-! ### One declaration -/

/-- The attribute can be declared: there are rules to give, and a known one is of
the type that is declared. -/
structure CanDeclare (r : Registry) (d : Descriptor) : Prop where
  rules : ∃ rules, d.rules = .ok rules
  type : ∀ known, r.find? d.name = some known → known.type = d.type

theorem register_succeeds_iff {name : String} {type : ValueType}
    {compatibility : Option CompatibilityRule} {disambiguation : Option DisambiguationRule} :
    (∃ s, r.register name type compatibility disambiguation = .ok s) ↔
      ∀ known, r.find? name = some known → known.type = type := by
  cases hfound : r.find? name with
  | none =>
      rw [register_of_fresh (find?_eq_none_iff.mp hfound)]
      simp
  | some known =>
      rw [register_of_known hfound]
      by_cases htype : known.type = type
      · simp [htype]
      · simp [htype]

theorem declare_eq_ok_iff :
    r.declare d = .ok s ↔
      ∃ rules, d.rules = .ok rules ∧ r.register d.name d.type rules.1 rules.2 = .ok s :=
  bind_eq_ok

theorem register_given_of_declare (h : r.declare d = .ok s) :
    r.register d.name d.type d.given.1 d.given.2 = .ok s := by
  obtain ⟨rules, hrules, hregister⟩ := declare_eq_ok_iff.mp h
  have hgiven : d.given = rules := by
    rw [Descriptor.given, hrules]
    rfl
  rw [hgiven]
  exact hregister

theorem declare_succeeds_iff : (∃ s, r.declare d = .ok s) ↔ r.CanDeclare d := by
  constructor
  · rintro ⟨s, hs⟩
    obtain ⟨rules, hrules, hregister⟩ := declare_eq_ok_iff.mp hs
    exact ⟨⟨rules, hrules⟩, register_succeeds_iff.mp ⟨s, hregister⟩⟩
  · rintro ⟨⟨rules, hrules⟩, htype⟩
    obtain ⟨s, hs⟩ := register_succeeds_iff.mpr htype
    exact ⟨s, declare_eq_ok_iff.mpr ⟨rules, hrules, hs⟩⟩

theorem find?_declare (h : r.declare d = .ok s) (other : String) :
    s.find? other
      = if other = d.name then some (d.definition (r.find? d.name)) else r.find? other :=
  find?_register (register_given_of_declare h) other

/-- A declaration is in the way of none but those of its own name. -/
theorem canDeclare_declare (h : r.declare d = .ok s) {other : Descriptor}
    (hne : other.name ≠ d.name) :
    s.CanDeclare other ↔ r.CanDeclare other := by
  have hfound : s.find? other.name = r.find? other.name := by
    rw [find?_declare h, if_neg hne]
  constructor
  · rintro ⟨hrules, htype⟩
    exact ⟨hrules, hfound ▸ htype⟩
  · rintro ⟨hrules, htype⟩
    exact ⟨hrules, hfound ▸ htype⟩

/-! ### Declarations of distinct attributes

Both inductions take one declaration off the front.  What the others meet is then
not `r` but the registry behind that declaration; `canDeclare_declare` and
`find?_declare` say that for other names there is no difference.
-/

/-- **All attributes can be declared if each can be declared at the start.** -/
theorem foldlM_declare_succeeds_iff {descriptors : List Descriptor} :
    ∀ {r : Registry}, (descriptors.map Descriptor.name).Nodup →
      ((∃ s, descriptors.foldlM declare r = .ok s) ↔ ∀ d ∈ descriptors, r.CanDeclare d) := by
  induction descriptors with
  | nil =>
      intro r _
      exact iff_of_true ⟨r, rfl⟩ (List.forall_mem_nil _)
  | cons d rest ih =>
      intro r hnodup
      obtain ⟨hd, hrest⟩ := List.nodup_cons.mp hnodup
      have hother : ∀ {t : Registry}, r.declare d = .ok t →
          ((∀ other ∈ rest, t.CanDeclare other) ↔ ∀ other ∈ rest, r.CanDeclare other) := by
        intro t ht
        refine forall₂_congr fun other hmem => canDeclare_declare ht ?_
        intro hname
        exact hd (hname ▸ List.mem_map_of_mem hmem)
      simp only [List.foldlM_cons, bind_eq_ok, List.forall_mem_cons]
      constructor
      · rintro ⟨s, t, ht, hs⟩
        exact ⟨declare_succeeds_iff.mp ⟨t, ht⟩, (hother ht).mp ((ih hrest).mp ⟨s, hs⟩)⟩
      · rintro ⟨hfirst, hothers⟩
        obtain ⟨t, ht⟩ := declare_succeeds_iff.mpr hfirst
        obtain ⟨s, hs⟩ := (ih hrest).mpr ((hother ht).mpr hothers)
        exact ⟨s, t, ht, hs⟩

/-- **What is declared is laid on what was there at the start**, and all else is as
it was there. -/
theorem find?_foldlM_declare {descriptors : List Descriptor} :
    ∀ {r s : Registry}, (descriptors.map Descriptor.name).Nodup →
      descriptors.foldlM declare r = .ok s → ∀ name, s.find? name
        = match descriptors.find? fun d => d.name == name with
          | some d => some (d.definition (r.find? name))
          | none => r.find? name := by
  induction descriptors with
  | nil =>
      intro r s _ h name
      cases h
      rfl
  | cons d rest ih =>
      intro r s hnodup h name
      obtain ⟨hd, hrest⟩ := List.nodup_cons.mp hnodup
      rw [List.foldlM_cons, bind_eq_ok] at h
      obtain ⟨t, ht, hs⟩ := h
      rw [ih hrest hs, find?_declare ht]
      by_cases hname : d.name = name
      · -- No descriptor behind this one has its name.
        have hnone : rest.find? (fun d => d.name == name) = none := by
          refine List.find?_eq_none.mpr fun other hother heq => hd ?_
          rw [hname, ← eq_of_beq heq]
          exact List.mem_map_of_mem hother
        rw [hnone, List.find?_cons_of_pos (by simpa using hname), if_pos hname.symm, hname]
      · rw [List.find?_cons_of_neg (by simpa using hname), if_neg (Ne.symm hname)]

/-- Every declaration adds its name, unless it is known by then. -/
theorem names_foldlM_declare_eq_foldl {descriptors : List Descriptor} :
    ∀ {r s : Registry}, descriptors.foldlM declare r = .ok s →
      s.names = (descriptors.map Descriptor.name).foldl
        (fun names name => if !names.contains name then names ++ [name] else names) r.names := by
  induction descriptors with
  | nil =>
      intro r s h
      cases h
      rfl
  | cons d rest ih =>
      intro r s h
      rw [List.foldlM_cons, bind_eq_ok] at h
      obtain ⟨t, ht, hs⟩ := h
      rw [ih hs, names_register (register_given_of_declare ht), List.map_cons, List.foldl_cons]
      by_cases hknown : d.name ∈ r.names
      · simp [hknown]
      · simp [hknown]

/-- New names come behind the known ones as they are declared. -/
theorem names_foldlM_declare {descriptors : List Descriptor}
    (hnodup : (descriptors.map Descriptor.name).Nodup) (h : descriptors.foldlM declare r = .ok s) :
    s.names
      = r.names ++ (descriptors.map Descriptor.name).filter fun name => !r.names.contains name := by
  have hnew := foldl_append_new hnodup (fun _ => true) r.names
  simp only [Bool.true_and] at hnew
  rw [names_foldlM_declare_eq_foldl h, hnew]

theorem precedence_foldlM_declare {descriptors : List Descriptor}
    (h : descriptors.foldlM declare r = .ok s) : s.precedence = r.precedence := by
  have hstep : ∀ (t : Registry) (d : Descriptor) (next : Registry), t.precedence = r.precedence →
      t.declare d = .ok next → next.precedence = r.precedence := by
    intro t d next ht hnext
    rw [precedence_register (register_given_of_declare hnext), ht]
  exact foldlM_invariant (P := fun t : Registry => t.precedence = r.precedence) hstep
    descriptors rfl h

end Registry

end VariantSelection
