/-
Adding variants to a component and finding them by name.

A variant is added behind the others and differs from what was given in its
capabilities at most (`addVariant_eq_ok`, `completed_eq`).  Where the names of a
component's variants are distinct, the variant of a name is found wherever it stands
(`variant?_perm`).
-/
import VariantSelection.Proofs.Distinct
import VariantSelection.Proofs.Ordered.Set
import VariantSelection.Component

namespace VariantSelection

namespace Component

/-! ### Adding

`completed` is unfolded in this section only.  Everything else about an added
variant is read off the `simp` lemmas for its fields.
-/

/-- A variant is completed in its capabilities only. -/
theorem completed_eq (c : Component) (v : Variant) :
    c.completed v = { v with capabilities := (c.completed v).capabilities } := by
  unfold completed
  by_cases hnone : v.capabilities.isEmpty = true
  · rw [if_pos hnone]
  · rw [if_neg hnone]

section
variable (c : Component) (v : Variant)

@[simp] theorem name_completed : (c.completed v).name = v.name := by
  rw [completed_eq]

@[simp] theorem attributes_completed : (c.completed v).attributes = v.attributes := by
  rw [completed_eq]

@[simp] theorem artifacts_completed : (c.completed v).artifacts = v.artifacts := by
  rw [completed_eq]

@[simp] theorem dependencies_completed : (c.completed v).dependencies = v.dependencies := by
  rw [completed_eq]

@[simp] theorem secondary_completed : (c.completed v).secondary = v.secondary := by
  rw [completed_eq]

/-- Of a variant that declares some capabilities these are kept, and one that
declares none has the implicit one. -/
theorem mem_capabilities_completed {declared : List Capability}
    (h : v.capabilities = .ofList declared) (capability : Capability) :
    capability ∈ (c.completed v).capabilities ↔
      if declared = [] then capability = c.implicitCapability else capability ∈ declared := by
  unfold completed
  by_cases hnone : declared = []
  · have hempty : v.capabilities.isEmpty = true := by
      rw [h, hnone]
      rfl
    rw [if_pos hempty, if_pos hnone, SortedSet.mem_singleton]
  · have hsome : ¬v.capabilities.isEmpty = true := by
      obtain ⟨first, hfirst⟩ := List.exists_mem_of_ne_nil _ hnone
      rw [h, SortedSet.isEmpty_iff]
      exact fun hnot => hnot first (SortedSet.mem_ofList.mpr hfirst)
    rw [if_neg hsome, if_neg hnone, h, SortedSet.mem_ofList]

end

theorem addVariant_eq_ok {c d : Component} {v : Variant} (h : c.addVariant v = .ok d) :
    d = { c with variants := c.variants ++ [c.completed v] } := by
  unfold addVariant at h
  by_cases htaken : v.name ∈ c.variantNames
  · rw [if_pos htaken] at h
    cases h
  · rw [if_neg htaken, Except.ok.injEq] at h
    exact h.symm

/-! ### Finding -/

theorem eq_of_name_eq {c : Component} (hnames : c.variantNames.Nodup) {v w : Variant}
    (hv : v ∈ c.variants) (hw : w ∈ c.variants) (hname : v.name = w.name) : v = w :=
  List.inj_on_of_nodup_map hnames hv hw hname

theorem variant?_perm {c d : Component} (h : c.variants.Perm d.variants)
    (hnames : c.variantNames.Nodup) (name : String) : c.variant? name = d.variant? name :=
  find?_key_perm h hnames name

end Component

end VariantSelection
