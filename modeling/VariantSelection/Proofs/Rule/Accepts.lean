/-
What an accepts table comes to accept.

A descriptor writes its table by the texts of the requested values, and the rule
goes by the values themselves.  Several texts can stand for one value, as "1" and
"01" do for an integer.  The entries are laid on one another in the order of their
texts, each in the place of what was there for its value
(`get?_foldlM_acceptsEntry`).  So of several entries for one value the last one
decides, `lastFor?`, and what the others list is lost.  Where every value has one
text, nothing is (`lastFor?_of_spelledOnce`).
-/
import VariantSelection.Attribute.Descriptor
import VariantSelection.Proofs.Ordered.Map
import VariantSelection.Proofs.Registry

namespace VariantSelection

namespace Descriptor

/-! ### The entries of a table

This is about the descriptor as it is written: which entries stand for a value, and
which of these is the last.
-/

/-- The text of the entry stands for the requested value. -/
def StandsFor (d : Descriptor) (e : String × List Value) (requested : Value) : Prop :=
  (Value.string e.1).coerce? d.type = some requested

instance (d : Descriptor) (e : String × List Value) (requested : Value) :
    Decidable (d.StandsFor e requested) :=
  inferInstanceAs (Decidable (_ = _))

/-- One of the values of the entry is the provided value. -/
def Lists (d : Descriptor) (e : String × List Value) (provided : Value) : Prop :=
  ∃ v ∈ e.2, v.coerce? d.type = some provided

/-- The last of the entries whose texts stand for the requested value. -/
def lastFor? (d : Descriptor) (requested : Value) : Option (String × List Value) :=
  d.accepts.entries.reverse.find? fun e => d.StandsFor e requested

/-- No two of the entries have texts that stand for the requested value. -/
def SpelledOnce (d : Descriptor) (requested : Value) : Prop :=
  ∀ e ∈ d.accepts.entries, ∀ e' ∈ d.accepts.entries,
    d.StandsFor e requested → d.StandsFor e' requested → e = e'

section
variable {d : Descriptor} {requested provided : Value} {e : String × List Value}

theorem mem_of_lastFor? (h : d.lastFor? requested = some e) :
    e ∈ d.accepts.entries ∧ d.StandsFor e requested :=
  ⟨List.mem_reverse.mp (List.mem_of_find?_eq_some h), by simpa using List.find?_some h⟩

/-- An entry that is the only one for a value is the last one for it. -/
theorem lastFor?_of_spelledOnce (h : d.SpelledOnce requested) (he : e ∈ d.accepts.entries)
    (hstands : d.StandsFor e requested) : d.lastFor? requested = some e := by
  cases hlast : d.lastFor? requested with
  | none =>
      have hnone := List.find?_eq_none.mp hlast e (List.mem_reverse.mpr he)
      simp [hstands] at hnone
  | some e' =>
      obtain ⟨he', hstands'⟩ := mem_of_lastFor? hlast
      rw [h e he e' he' hstands hstands']

/-! ### The table of the rule

The induction is on the entries, with the table that those before them have come to.
-/

/-- What `acceptsEntry` does to the table: the values of the entry take the place of
what was there for the value that it stands for. -/
theorem acceptsEntry_eq_ok {table next : SortedMap Value (SortedSet Value)}
    (h : d.acceptsEntry table e = .ok next) :
    ∃ key values, d.StandsFor e key ∧ (∀ w, w ∈ values ↔ d.Lists e w) ∧
      next = table.insert key values := by
  simp only [acceptsEntry, bind_eq_ok, pure_eq_ok] at h
  obtain ⟨key, hkey, values, hvalues, hnext⟩ := h
  refine ⟨key, .ofList values, Value.coerce_eq_ok_iff.mp hkey, ?_, hnext.symm⟩
  intro w
  rw [SortedSet.mem_ofList, mem_iff_of_mapM_eq_ok hvalues, Lists]
  simp only [Value.coerce_eq_ok_iff]

/-- After a run of entries the table has, for each value, what the last entry for it
lists, or what it had before. -/
theorem get?_foldlM_acceptsEntry (requested : Value) (entries : List (String × List Value)) :
    ∀ {table result : SortedMap Value (SortedSet Value)},
      entries.foldlM d.acceptsEntry table = .ok result →
      (∃ last values, entries.reverse.find? (fun e => d.StandsFor e requested) = some last ∧
        (∀ w, w ∈ values ↔ d.Lists last w) ∧ result.get? requested = some values) ∨
      (entries.reverse.find? (fun e => d.StandsFor e requested) = none ∧
        result.get? requested = table.get? requested) := by
  induction entries with
  | nil =>
      intro table result h
      rw [List.foldlM_nil, pure_eq_ok] at h
      exact Or.inr ⟨rfl, by rw [h]⟩
  | cons first rest ih =>
      intro table result h
      rw [List.foldlM_cons, bind_eq_ok] at h
      obtain ⟨next, hnext, hrest⟩ := h
      obtain ⟨key, values, hkey, hvalues, hinsert⟩ := acceptsEntry_eq_ok hnext
      rw [List.reverse_cons, List.find?_append]
      rcases ih hrest with ⟨last, found, hlast, hfound⟩ | ⟨hnone, hget⟩
      · exact Or.inl ⟨last, found, by rw [hlast, Option.some_or], hfound⟩
      · -- No later entry is for the value, so the first one decides if it is.
        rw [hinsert, SortedMap.get?_insert] at hget
        rw [hnone, Option.none_or]
        by_cases hfirst : requested = key
        · rw [if_pos hfirst] at hget
          have hstands : d.StandsFor first requested := hfirst ▸ hkey
          exact Or.inl ⟨first, values, by simp [hstands], hvalues, hget⟩
        · rw [if_neg hfirst] at hget
          have hother : ¬d.StandsFor first requested := by
            intro hstands
            rw [StandsFor, hkey, Option.some.injEq] at hstands
            exact hfirst hstands.symm
          exact Or.inr ⟨by simp [hother], hget⟩

theorem isCompatible_acceptsTable {table : SortedMap Value (SortedSet Value)}
    (h : d.acceptsTable = .ok table) :
    (CompatibilityRule.accepts table).isCompatible requested provided = true ↔
      requested = provided ∨ ∃ e, d.lastFor? requested = some e ∧ d.Lists e provided := by
  simp only [CompatibilityRule.isCompatible, Bool.or_eq_true, decide_eq_true_eq]
  refine or_congr_right ?_
  rcases get?_foldlM_acceptsEntry requested d.accepts.entries h with
    ⟨last, values, hlast, hvalues, hget⟩ | ⟨hnone, hget⟩
  · rw [hget, lastFor?, hlast]
    simp only [SortedSet.contains_iff, hvalues, Option.some.injEq, exists_eq_left']
  · have hempty : (SortedMap.empty : SortedMap Value (SortedSet Value)).get? requested = none := rfl
    rw [hget, hempty, lastFor?, hnone]
    simp

/-! ### The rule -/

theorem rules_of_accepts {compatibility : Option CompatibilityRule}
    {disambiguation : Option DisambiguationRule} (hkind : d.compatibility = some .accepts)
    (h : d.rules = .ok (compatibility, disambiguation)) :
    ∃ table, d.acceptsTable = .ok table ∧ compatibility = some (.accepts table) := by
  simp only [rules, bind_eq_ok, pure_eq_ok, Prod.mk.injEq] at h
  obtain ⟨rule, hrule, -, -, hcompatibility, -⟩ := h
  unfold compatibilityRule at hrule
  rw [hkind] at hrule
  by_cases hempty : d.accepts.isEmpty = true
  · simp [hempty] at hrule
  · cases htable : d.acceptsTable with
    | error e => simp [hempty, htable, Except.map] at hrule
    | ok table =>
        simp only [hempty, htable, Except.map, Bool.false_eq_true, if_false,
          Except.ok.injEq] at hrule
        exact ⟨table, rfl, by rw [← hcompatibility, hrule]⟩

/-- **Of several entries for one value the last one decides.**  The rule lets a
provided value through if it is the requested one, or if the last entry whose text
stands for the requested value lists it; for a value that one text alone stands for,
that is what the table says. -/
theorem isCompatible_lastSpelling {compatibility : Option CompatibilityRule}
    {disambiguation : Option DisambiguationRule} (hkind : d.compatibility = some .accepts)
    (h : d.rules = .ok (compatibility, disambiguation)) :
    ∃ rule, compatibility = some rule ∧
      (∀ requested provided, rule.isCompatible requested provided = true ↔
        requested = provided ∨
          ∃ e, d.lastFor? requested = some e ∧ d.Lists e provided) ∧
      ∀ requested, d.SpelledOnce requested → ∀ provided,
        (rule.isCompatible requested provided = true ↔
          requested = provided ∨
            ∃ e ∈ d.accepts.entries, d.StandsFor e requested ∧ d.Lists e provided) := by
  obtain ⟨table, htable, hrule⟩ := rules_of_accepts hkind h
  refine ⟨.accepts table, hrule, fun _ _ => isCompatible_acceptsTable htable, ?_⟩
  intro requested honce provided
  rw [isCompatible_acceptsTable htable]
  refine or_congr_right ⟨?_, ?_⟩
  · intro hlast
    obtain ⟨e, he, hlists⟩ := hlast
    obtain ⟨hmem, hstands⟩ := mem_of_lastFor? he
    exact ⟨e, hmem, hstands, hlists⟩
  · intro hlisted
    obtain ⟨e, hmem, hstands, hlists⟩ := hlisted
    exact ⟨e, lastFor?_of_spelledOnce honce hmem hstands, hlists⟩

end

namespace Sample

/-- An integer attribute whose table has two texts for the number one. -/
def level : Descriptor where
  name := "level"
  type := .integer
  compatibility := some .accepts
  accepts := .ofList [("01", [.integer 2]), ("1", [.integer 3, .string "+4"])]

end Sample

/-- The later text decides: what it lists is accepted for the number, in whatever
way it is written there. -/
theorem isCompatible_lastSpelling_level : ∃ compatibility disambiguation rule,
    Sample.level.compatibility = some .accepts ∧
    Sample.level.rules = .ok (compatibility, disambiguation) ∧ compatibility = some rule ∧
    rule.isCompatible (.integer 1) (.integer 4) = true := by
  obtain ⟨rule, hrule, hlast, -⟩ :=
    isCompatible_lastSpelling (d := Sample.level) rfl (Eq.refl Sample.level.rules)
  refine ⟨_, _, rule, rfl, rfl, hrule, ?_⟩
  have hlists : Sample.level.Lists ("1", [.integer 3, .string "+4"]) (.integer 4) :=
    ⟨.string "+4", by simp, by decide⟩
  exact (hlast _ _).mpr (Or.inr ⟨_, by decide, hlists⟩)

/-- The earlier text is passed over, and what it lists is refused. -/
theorem isCompatible_ne_earlierSpelling : ∃ rule disambiguation,
    Sample.level.rules = .ok (some rule, disambiguation) ∧
    (∃ e ∈ Sample.level.accepts.entries, Sample.level.StandsFor e (.integer 1) ∧
      Sample.level.Lists e (.integer 2)) ∧
    rule.isCompatible (.integer 1) (.integer 2) = false := by
  refine ⟨_, _, rfl, ⟨("01", [.integer 2]), by decide, by decide, ?_⟩,
    by decide⟩
  exact ⟨.integer 2, by simp, rfl⟩

end Descriptor

end VariantSelection
