/-
Records are read back from the entries that are written for them.

The entries of a record change a draft one after another, so what a group of entries
does to it can be said by itself (`Yields`), and groups are put together
(`Yields.append`).  A field that is left out leaves the draft as it is; that is what
writing it would do, as long as the draft starts with the value for which the field
is left out (`yields_optional`).
-/
import VariantSelection.Manifest.Descriptor
import VariantSelection.Proofs.Ordered.Map

namespace VariantSelection

/-! ### Lists and maps -/

section
variable {α : Type} {item : TomlReader α} {write : α → TomlValue}

theorem mapM_map_write {items : List α} (h : ∀ a ∈ items, item (write a) = .ok a) :
    (items.map write).mapM item = .ok items := by
  rw [mapM_eq_ok_iff, List.forall₂_map_left_iff, List.forall₂_same]
  exact h

theorem readList_write {items : List α} (h : ∀ a ∈ items, item (write a) = .ok a) :
    TomlValue.readList item (.array (items.map write)) = .ok items :=
  mapM_map_write h

theorem readMap_write {map : SortedMap String α}
    (h : ∀ e ∈ map.entries, item (write e.2) = .ok e.2) :
    readMap item (.table (tomlMapEntries write map)) = .ok map := by
  have hentries :
      (TomlValue.table (tomlMapEntries write map)).readEntries item = .ok map.entries := by
    show (map.entries.map fun e => (e.1, write e.2)).mapM _ = _
    rw [mapM_eq_ok_iff, List.forall₂_map_left_iff, List.forall₂_same]
    intro e he
    rw [h e he]
    rfl
  rw [readMap, hentries, Except.map, SortedMap.ofList_entries]

theorem readChoice_word {choice? : String → Option α} {word : String} {a : α}
    (h : choice? word = some a) : TomlValue.readChoice choice? (.string word) = .ok a := by
  rw [TomlValue.readChoice, TomlValue.readChoice.choiceNamed, h]

end

/-! ### Groups of entries -/

section
variable {σ α : Type} {fields : List (TomlField σ)} {draft next result : σ}
variable {name : String} {field : TomlField σ} {write : α → TomlValue}

/-- What reading these entries makes of a draft. -/
def Yields (fields : List (TomlField σ)) (entries : List (String × TomlValue)) (draft result : σ) :
    Prop :=
  entries.foldlM (TomlValue.readField fields) draft = .ok result

theorem Yields.readFields {entries : List (String × TomlValue)}
    (h : Yields fields entries draft result) :
    TomlValue.readFields fields draft (.table entries) = .ok result :=
  h

theorem Yields.append {first rest : List (String × TomlValue)}
    (hfirst : Yields fields first draft next) (hrest : Yields fields rest next result) :
    Yields fields (first ++ rest) draft result := by
  rw [Yields, List.foldlM_append, hfirst]
  exact hrest

theorem TomlField.read_of {value : TomlReader α} {set : α → σ → σ} {v : TomlValue} {a : α}
    (h : value v = .ok a) : (TomlField.of name value set).read v draft = .ok (set a draft) := by
  simp only [TomlField.of, h, Except.map]

theorem yields_entry {v : TomlValue} (hfield : fields.find? (fun f => f.name = name) = some field)
    (hread : field.read v draft = .ok result) : Yields fields (tomlEntry name v) draft result := by
  have hstep : TomlValue.readField fields draft (name, v) = .ok result := by
    simp only [TomlValue.readField, hfield, hread]
  rw [Yields, tomlEntry, List.foldlM_cons, hstep]
  rfl

/-- A field that is written only if it is there. -/
theorem yields_optional (result : Option α → σ) {given : Option α}
    (hfield : fields.find? (fun f => f.name = name) = some field) (hnone : result none = draft)
    (hread : ∀ a, field.read (write a) draft = .ok (result (some a))) :
    Yields fields (optionalTomlEntry name write given) draft (result given) := by
  cases given with
  | none =>
      rw [hnone]
      rfl
  | some a => exact yields_entry hfield (hread a)

/-- A list that is written only if something is in it. -/
theorem yields_list (result : List α → σ) {items : List α}
    (hfield : fields.find? (fun f => f.name = name) = some field) (hnone : result [] = draft)
    (hread : field.read (.array (items.map write)) draft = .ok (result items)) :
    Yields fields (tomlListEntry name write items) draft (result items) := by
  cases items with
  | nil =>
      rw [hnone]
      rfl
  | cons first rest => exact yields_entry hfield hread

end

/-! ### What was read

The other direction: what holds of the draft and is kept by each field holds of
what was read.
-/

section
variable {σ α : Type} {fields : List (TomlField σ)} {draft result : σ} {v : TomlValue}

/-- What every field keeps holds of a record that was read. -/
theorem readFields_invariant {P : σ → Prop}
    (hfield : ∀ field ∈ fields, ∀ w s t, P s → field.read w s = .ok t → P t) (hdraft : P draft)
    (h : TomlValue.readFields fields draft v = .ok result) : P result := by
  have hstep : ∀ s entry t, P s → TomlValue.readField fields s entry = .ok t → P t := by
    intro s entry t hs ht
    unfold TomlValue.readField at ht
    split at ht
    case h_1 field hfound => exact hfield field (List.mem_of_find?_eq_some hfound) entry.2 s t hs ht
    case h_2 => cases ht
  unfold TomlValue.readFields at h
  split at h
  · exact foldlM_invariant hstep _ hdraft h
  · obtain ⟨entries, -, hentries⟩ := bind_eq_ok.mp h
    exact foldlM_invariant hstep entries hdraft hentries

theorem TomlField.read_eq_ok {name : String} {value : TomlReader α} {set : α → σ → σ} {next : σ} :
    (TomlField.of name value set).read v draft = .ok next ↔
      ∃ a, value v = .ok a ∧ set a draft = next := by
  simp only [TomlField.of]
  cases value v with
  | error e => simp [Except.map]
  | ok a => simp [Except.map]

theorem exists_of_mem_readMap {value : TomlReader α} {map : SortedMap String α}
    (h : readMap value v = .ok map) {e : String × α} (he : e ∈ map.entries) :
    ∃ w, value w = .ok e.2 := by
  unfold readMap TomlValue.readEntries at h
  cases hentries : v.entries with
  | error mismatch => simp [hentries, bind, Except.bind, Except.map] at h
  | ok entries =>
      rw [hentries, ok_bind] at h
      cases hread : entries.mapM (fun e => do return (e.1, ← value e.2)) with
      | error mismatch =>
          rw [hread] at h
          cases h
      | ok pairs =>
          rw [hread] at h
          cases h
          obtain ⟨entry, -, hentry⟩ := mem_of_mapM_eq_ok hread e (SortedMap.mem_of_mem_ofList he)
          obtain ⟨a, ha, hpair⟩ := bind_eq_ok.mp hentry
          refine ⟨entry.2, ?_⟩
          rw [ha, ← pure_eq_ok.mp hpair]

end

end VariantSelection
