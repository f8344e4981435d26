/-
The standard rules agree about every value of their attribute's type.

The standard attributes are declared by descriptors; registering them gives the
definitions listed here (`Standard.registry_eq`).  For each of them, what is
compatible with a requested value is never preferred to that value itself
(`Standard.keepsExact`).  None of this is about the precedence, so it holds whatever
precedence is declared afterwards: that is `Registry.Standardized`.
-/
import VariantSelection.Proofs.Registry
import VariantSelection.Proofs.Rule.Exact
import VariantSelection.Attribute.Standard

namespace VariantSelection

namespace Standard

/-- What the table of a string attribute accepts: one requested text each, with its
substitutes. -/
def accepting (entries : List (String × String)) : CompatibilityRule :=
  .accepts (.ofList (entries.map fun e => (.string e.1, .singleton (.string e.2))))

/-- A table accepts the requested value itself and the substitutes that it
lists for it. -/
theorem isCompatible_accepting_iff {entries : List (String × String)}
    (hkeys : (entries.map Prod.fst).Nodup) {wanted : Value} {text : String} :
    (accepting entries).isCompatible wanted (.string text) = true ↔
      wanted = .string text ∨ ∃ e ∈ entries, wanted = .string e.1 ∧ e.2 = text := by
  have hdistinct : ((entries.map fun e : String × String =>
      (Value.string e.1, SortedSet.singleton (Value.string e.2))).map Prod.fst).Nodup := by
    have htexts := hkeys.map (f := Value.string) fun _ _ heq => Value.string.inj heq
    simpa [Function.comp_def] using htexts
  have hget := fun values =>
    SortedMap.get?_ofList_eq_some_iff hdistinct (k := wanted) (v := values)
  simp only [accepting, CompatibilityRule.isCompatible, Bool.or_eq_true, decide_eq_true_eq]
  refine or_congr_right ?_
  constructor
  · intro h
    split at h
    · next values hvalues =>
        obtain ⟨e, he, heq⟩ := List.mem_map.mp ((hget values).mp hvalues)
        rw [Prod.mk.injEq] at heq
        rw [← heq.2, SortedSet.contains_iff, SortedSet.mem_singleton, Value.string.injEq] at h
        exact ⟨e, he, heq.1.symm, h.symm⟩
    · cases h
  · intro h
    obtain ⟨e, he, hwanted, htext⟩ := h
    have hvalues := (hget (.singleton (.string text))).mpr
      (List.mem_map.mpr ⟨e, he, by rw [hwanted, htext]⟩)
    rw [hvalues, SortedSet.contains_iff]
    exact SortedSet.mem_singleton.mpr rfl

/-- The standard attributes with their rules. -/
def definitions : List Definition :=
  [⟨usage, .string, accepting [("java-api", "java-runtime")],
      .ordered (strings ["java-api", "java-runtime"])⟩,
   ⟨category, .string, .exact, .ordered (strings ["library", "platform"])⟩,
   ⟨libraryElements, .string,
      accepting [("classes", "jar"), ("resources", "jar"), ("classes-and-resources", "jar")],
      .preferRequested⟩,
   ⟨bundling, .string, .exact, .ordered (strings ["external", "embedded", "shadowed"])⟩,
   ⟨jvmVersion, .integer, .atLeast, .preferLowest⟩,
   ⟨jvmEnvironment, .string, .exact, .preferRequested⟩,
   ⟨status, .string, .exact, .ordered (strings ["release", "milestone", "integration"])⟩]

/-- **Registering the standard attributes succeeds**, with these definitions and the
standard precedence. -/
theorem registry_eq : ∃ r, Registry.standard = .ok r ∧ r.definitions = definitions ∧
    r.precedence = precedence :=
  ⟨_, rfl, rfl, rfl⟩

theorem builtIn {d : Definition} (hd : d ∈ definitions) : d.disambiguation.BuiltIn := by
  simp only [definitions, List.mem_cons, List.not_mem_nil, or_false] at hd
  rcases hd with rfl | rfl | rfl | rfl | rfl | rfl | rfl <;> exact trivial

/-- The one attribute that prefers the least value accepts by comparison. -/
theorem compatibility_of_extreme {d : Definition} (hd : d ∈ definitions)
    (hrule : d.disambiguation = .preferLowest ∨ d.disambiguation = .preferHighest) :
    d.compatibility = .exact ∨ d.compatibility = .atLeast ∨ d.compatibility = .atMost := by
  simp only [definitions, List.mem_cons, List.not_mem_nil, or_false] at hd
  rcases hd with rfl | rfl | rfl | rfl | rfl | rfl | rfl <;> simp at hrule ⊢

/-- A requested `java-api` is looked for first, and no other usage has a substitute. -/
theorem keepsExact_usage (wanted : Value) :
    KeepsExact (accepting [("java-api", "java-runtime")])
      (.ordered (strings ["java-api", "java-runtime"])) wanted := by
  by_cases hwanted : wanted = .string "java-api"
  · rw [hwanted]
    exact keepsExact_ordered_head _
  · refine keepsExact_accepts_of_unlisted trivial
      (SortedMap.get?_ofList_eq_none_iff.mpr fun e he => ?_)
    rw [List.map_singleton, List.mem_singleton] at he
    rw [he]
    exact Ne.symm hwanted

/-- **Under the standard rules the requested value wins**, whatever else is
compatible with `wanted`. -/
theorem keepsExact {d : Definition} (hd : d ∈ definitions) {wanted : Value}
    (htype : wanted.type = d.type) : KeepsExact d.compatibility d.disambiguation wanted := by
  simp only [definitions, List.mem_cons, List.not_mem_nil, or_false] at hd
  rcases hd with rfl | rfl | rfl | rfl | rfl | rfl | rfl
  · exact keepsExact_usage wanted
  · exact keepsExact_exact trivial
  · exact keepsExact_preferRequested
  · exact keepsExact_exact trivial
  · cases wanted with
    | integer n => exact keepsExact_atLeast n
    | boolean b => cases htype
    | string s => cases htype
  · exact keepsExact_exact trivial
  · exact keepsExact_exact trivial

end Standard

/-- A registry of the standard attributes, under the standard precedence or any that
was declared since. -/
inductive Registry.Standardized : Registry → Prop
  | standard {r : Registry} (h : Registry.standard = .ok r) : Standardized r
  | redeclared {r s : Registry} (h : Standardized r) {entries : List String}
      (hs : r.declarePrecedence entries = .ok s) : Standardized s

namespace Registry.Standardized

variable {r : Registry}

theorem definitions_eq (h : r.Standardized) : r.definitions = Standard.definitions := by
  induction h with
  | standard h =>
      obtain ⟨s, hs, hdefinitions, -⟩ := Standard.registry_eq
      rw [hs] at h
      cases h
      exact hdefinitions
  | redeclared _ hs ih => rw [definitions_of_declarePrecedence hs, ih]

theorem find?_eq {d : Definition} (h : r.Standardized) (hd : d ∈ Standard.definitions) :
    r.find? d.name = some d := by
  rw [find?_eq_some_iff, h.definitions_eq]
  exact ⟨hd, rfl⟩

theorem compatibilityRule_eq {d : Definition} (h : r.Standardized) (hd : d ∈ Standard.definitions) :
    r.compatibilityRule d.name = d.compatibility := by
  rw [compatibilityRule, h.find?_eq hd]

theorem choosesBuiltIn (h : r.Standardized) : r.ChoosesBuiltIn := by
  intro d hd
  rw [h.definitions_eq] at hd
  exact Standard.builtIn hd

theorem comparesExtremes (h : r.Standardized) (requested : AttributeSet) :
    r.ComparesExtremes requested := by
  intro name _ hrule
  unfold disambiguationRule at hrule
  unfold compatibilityRule
  cases hfound : r.find? name with
  | none => exact Or.inl rfl
  | some d =>
      rw [hfound] at hrule
      exact Standard.compatibility_of_extreme (h.definitions_eq ▸ (find?_mem hfound).1) hrule

/-- An attribute that is not registered has no substitutes. -/
theorem keepsExact (h : r.Standardized) {name : String} {wanted : Value}
    (htype : wanted.type = r.typeOf name) :
    KeepsExact (r.compatibilityRule name) (r.disambiguationRule name) wanted := by
  unfold typeOf at htype
  unfold compatibilityRule disambiguationRule
  cases hfound : r.find? name with
  | none => exact keepsExact_exact trivial
  | some d =>
      rw [hfound] at htype
      exact Standard.keepsExact (h.definitions_eq ▸ (find?_mem hfound).1) htype

end Registry.Standardized

end VariantSelection
