/-
A manifest is read back from the text that is written for it.

Every part of a manifest is written as entries that give this part when they are
read (`ofToml_toToml`, for each kind of part): a part that is left out is the one
that an absent entry stands for, and words, values and coordinates are read back as
they are written.  Of a coordinate this can only be said if it could be written down
as one, which is so for every coordinate that was read from a document
(`Manifest.readable_of_ofToml`).  The entries of the whole are tables three deep at
most, with the plain values in front, so the text of their document stands for them
(`Manifest.arranged_toToml`).
-/
import VariantSelection.Manifest.Document
import VariantSelection.Proofs.Coordinate
import VariantSelection.Proofs.Toml.Record
import VariantSelection.Proofs.Toml.Table

namespace VariantSelection

/-! ### Words and values -/

theorem Value.ofToml_toToml (v : Value) : Value.ofToml v.toToml = .ok v := by
  cases v <;> rfl

theorem ValueType.named?_text (t : ValueType) : named? t.text = some t := by
  cases t <;> decide

theorem CompatibilityKind.named?_text (kind : CompatibilityKind) :
    named? kind.text = some kind := by
  cases kind <;> decide

theorem DisambiguationKind.named?_text (kind : DisambiguationKind) :
    named? kind.text = some kind := by
  cases kind <;> decide

/-! ### Parts of a manifest

A record is read field by field, so for each part it is enough to say which entries
are there and what each of them gives.
-/

theorem Descriptor.ofToml_toToml (d : Descriptor) : ofToml (.table d.toToml) = .ok d := by
  have hname : Yields fields (tomlEntry "name" (.string d.name)) {} { name := some d.name } :=
    yields_entry rfl (TomlField.read_of rfl)
  have htype : Yields fields (tomlEntry "type" (.string d.type.text)) { name := some d.name }
      { name := some d.name, type := some d.type } :=
    yields_entry rfl (TomlField.read_of (readChoice_word (ValueType.named?_text d.type)))
  have hcompatibility : Yields fields
      (optionalTomlEntry "compatibility" (fun kind => .string kind.text) d.compatibility)
      { name := some d.name, type := some d.type }
      { name := some d.name, type := some d.type, compatibility := d.compatibility } :=
    yields_optional (fun kind =>
        ({ name := some d.name, type := some d.type, compatibility := kind } : Draft)) rfl rfl
      fun kind => TomlField.read_of (readChoice_word (CompatibilityKind.named?_text kind))
  have hdisambiguation : Yields fields
      (optionalTomlEntry "disambiguation" (fun kind => .string kind.text) d.disambiguation)
      { name := some d.name, type := some d.type, compatibility := d.compatibility }
      { name := some d.name, type := some d.type, compatibility := d.compatibility,
        disambiguation := d.disambiguation } :=
    yields_optional (fun kind =>
        ({ name := some d.name, type := some d.type, compatibility := d.compatibility,
           disambiguation := kind } : Draft)) rfl rfl
      fun kind => TomlField.read_of (readChoice_word (DisambiguationKind.named?_text kind))
  have hpreferred : Yields fields (tomlListEntry "preferred" Value.toToml d.preferred)
      { name := some d.name, type := some d.type, compatibility := d.compatibility,
        disambiguation := d.disambiguation }
      { name := some d.name, type := some d.type, compatibility := d.compatibility,
        disambiguation := d.disambiguation, preferred := d.preferred } :=
    yields_list (fun values =>
        ({ name := some d.name, type := some d.type, compatibility := d.compatibility,
           disambiguation := d.disambiguation, preferred := values } : Draft)) rfl rfl
      (TomlField.read_of (readList_write fun v _ => Value.ofToml_toToml v))
  have haccepts : Yields fields
      (if d.accepts.isEmpty then []
        else tomlEntry "accepts" (.table (tomlMapEntries valueList d.accepts)))
      { name := some d.name, type := some d.type, compatibility := d.compatibility,
        disambiguation := d.disambiguation, preferred := d.preferred }
      { name := some d.name, type := some d.type, compatibility := d.compatibility,
        disambiguation := d.disambiguation, preferred := d.preferred, accepts := d.accepts } := by
    by_cases hempty : d.accepts.isEmpty = true
    · rw [if_pos hempty, SortedMap.eq_empty hempty]
      rfl
    · rw [if_neg hempty]
      exact yields_entry rfl (TomlField.read_of (readMap_write fun e _ =>
        readList_write fun v _ => Value.ofToml_toToml v))
  have hall : Yields fields d.toToml {} ⟨some d.name, some d.type, d.compatibility,
      d.disambiguation, d.preferred, d.accepts⟩ :=
    ((((hname.append htype).append hcompatibility).append hdisambiguation).append
      hpreferred).append haccepts
  rw [ofToml, hall.readFields]
  rfl

theorem Project.ofToml_toToml (p : Project) : ofToml (.table p.toToml) = .ok p := by
  have hname : Yields fields (tomlEntry "name" (.string p.name)) {} { name := some p.name } :=
    yields_entry rfl (TomlField.read_of rfl)
  have hcatalog : Yields fields (tomlEntry "catalog" (.string p.catalog)) { name := some p.name }
      { name := some p.name, catalog := p.catalog } :=
    yields_entry rfl (TomlField.read_of rfl)
  have hall : Yields fields p.toToml {} ⟨some p.name, p.catalog⟩ := hname.append hcatalog
  rw [ofToml, hall.readFields]
  rfl

theorem readStrings_write (words : List String) :
    TomlValue.readList TomlValue.readString (.array (words.map .string)) = .ok words :=
  readList_write fun _ _ => rfl

theorem SchemaSpec.ofToml_toToml (s : SchemaSpec) : ofToml (.table s.toToml) = .ok s := by
  have hstandard : Yields fields (tomlEntry "standard" (.boolean s.standard)) {}
      { standard := s.standard } :=
    yields_entry rfl (TomlField.read_of rfl)
  have hprecedence : Yields fields (tomlListEntry "precedence" .string s.precedence)
      { standard := s.standard } { standard := s.standard, precedence := s.precedence } :=
    yields_list (fun words =>
        ({ standard := s.standard, precedence := words } : SchemaSpec)) rfl rfl
      (TomlField.read_of (readStrings_write s.precedence))
  have hattributes : Yields fields
      (tomlListEntry "attributes" (fun d => .table d.toToml) s.attributes)
      { standard := s.standard, precedence := s.precedence } s :=
    yields_list (fun attributes =>
        ({ standard := s.standard, precedence := s.precedence, attributes } : SchemaSpec)) rfl rfl
      (TomlField.read_of (readList_write fun d _ => Descriptor.ofToml_toToml d))
  exact ((hstandard.append hprecedence).append hattributes).readFields

theorem ConfigurationSpec.ofToml_toToml (c : ConfigurationSpec) :
    ofToml (.table c.toToml) = .ok c := by
  have hdescription : Yields fields (optionalTomlEntry "description" .string c.description) {}
      { description := c.description } :=
    yields_optional (fun description => ({ description } : ConfigurationSpec)) rfl rfl
      fun _ => TomlField.read_of rfl
  have hattributes : Yields fields
      (tomlEntry "attributes" (.table (tomlMapEntries Value.toToml c.attributes)))
      { description := c.description } c :=
    yields_entry rfl (TomlField.read_of (readMap_write fun e _ => Value.ofToml_toToml e.2))
  exact (hdescription.append hattributes).readFields

/-- A dependency on a component whose coordinate is read back from its text. -/
def DependencySpec.Readable (d : DependencySpec) : Prop :=
  Coordinate.parse d.module.text = .ok d.module

theorem DependencySpec.ofToml_toToml {d : DependencySpec} (h : d.Readable) :
    ofToml (.table d.toToml) = .ok d := by
  have hcoordinate : Coordinate.ofToml (.string d.module.text) = .ok d.module := by
    have htext : TomlValue.readString (.string d.module.text) = .ok d.module.text := rfl
    rw [Coordinate.ofToml, htext, ok_bind, h]
    rfl
  have hmodule : Yields fields (tomlEntry "module" (.string d.module.text)) {}
      { module := some d.module } :=
    yields_entry rfl (TomlField.read_of hcoordinate)
  have hvariant : Yields fields (optionalTomlEntry "variant" .string d.variant)
      { module := some d.module } { module := some d.module, variant := d.variant } :=
    yields_optional (fun variant => ({ module := some d.module, variant } : Draft)) rfl rfl
      fun _ => TomlField.read_of rfl
  have hcapabilities : Yields fields (tomlListEntry "capabilities" .string d.capabilities)
      { module := some d.module, variant := d.variant }
      { module := some d.module, variant := d.variant, capabilities := d.capabilities } :=
    yields_list (fun capabilities =>
        ({ module := some d.module, variant := d.variant, capabilities } : Draft)) rfl rfl
      (TomlField.read_of (readStrings_write d.capabilities))
  have hall : Yields fields d.toToml {} ⟨some d.module, d.variant, d.capabilities⟩ :=
    (hmodule.append hvariant).append hcapabilities
  rw [ofToml, hall.readFields]
  rfl

/-! ### Manifests -/

namespace Manifest

/-- A manifest whose dependencies are read back from what is written for them. -/
def Readable (m : Manifest) : Prop := ∀ e ∈ m.dependencies.entries, e.2.Readable

theorem ofToml_toToml {m : Manifest} (h : m.Readable) : ofToml (.table m.toToml) = .ok m := by
  have hproject : Yields fields (tomlEntry "project" (.table m.project.toToml)) {}
      { project := some m.project } :=
    yields_entry rfl (TomlField.read_of (Project.ofToml_toToml m.project))
  have hschema : Yields fields (tomlEntry "schema" (.table m.schema.toToml))
      { project := some m.project } { project := some m.project, schema := m.schema } :=
    yields_entry rfl (TomlField.read_of (SchemaSpec.ofToml_toToml m.schema))
  have hdependencies : Yields fields
      (tomlEntry "dependencies" (.table (tomlMapEntries (fun d => .table d.toToml) m.dependencies)))
      { project := some m.project, schema := m.schema }
      { project := some m.project, schema := m.schema, dependencies := m.dependencies } :=
    yields_entry rfl (TomlField.read_of (readMap_write fun e he =>
      DependencySpec.ofToml_toToml (h e he)))
  have hconfigurations : Yields fields
      (tomlEntry "configurations"
        (.table (tomlMapEntries (fun c => .table c.toToml) m.configurations)))
      { project := some m.project, schema := m.schema, dependencies := m.dependencies }
      { project := some m.project, schema := m.schema, dependencies := m.dependencies,
        configurations := m.configurations } :=
    yields_entry rfl (TomlField.read_of (readMap_write fun e _ =>
      ConfigurationSpec.ofToml_toToml e.2))
  have hall :
      Yields fields m.toToml {} ⟨some m.project, m.schema, m.dependencies, m.configurations⟩ :=
    ((hproject.append hschema).append hdependencies).append hconfigurations
  rw [ofToml, hall.readFields]
  rfl

end Manifest

/-! ### What was read can be written

The one thing that reading has to provide for writing is that coordinates are
`Readable`, and a coordinate that was read from a text is.
-/

theorem DependencySpec.readable_of_ofToml {v : TomlValue} {d : DependencySpec}
    (h : ofToml v = .ok d) : d.Readable := by
  have hcoordinate : ∀ (w : TomlValue) (c : Coordinate), Coordinate.ofToml w = .ok c →
      Coordinate.parse c.text = .ok c := by
    intro w c hc
    obtain ⟨s, -, hs⟩ := bind_eq_ok.mp hc
    cases hparse : Coordinate.parse s with
    | error e =>
        rw [hparse] at hs
        cases hs
    | ok parsed =>
        rw [hparse] at hs
        cases hs
        exact Coordinate.parse_text hparse
  obtain ⟨draft, hdraft, hrest⟩ := bind_eq_ok.mp h
  have hmodule : ∀ c, draft.module = some c → Coordinate.parse c.text = .ok c := by
    refine readFields_invariant (P := fun draft : Draft => ∀ c, draft.module = some c →
      Coordinate.parse c.text = .ok c) ?_ (by simp) hdraft
    intro field hfield w s t hs ht
    simp only [fields, List.mem_cons, List.not_mem_nil, or_false] at hfield
    rcases hfield with rfl | rfl | rfl
    · obtain ⟨c, hc, rfl⟩ := TomlField.read_eq_ok.mp ht
      intro c' hc'
      cases hc'
      exact hcoordinate w c hc
    · obtain ⟨-, -, rfl⟩ := TomlField.read_eq_ok.mp ht
      exact hs
    · obtain ⟨-, -, rfl⟩ := TomlField.read_eq_ok.mp ht
      exact hs
  obtain ⟨c, hc, hd⟩ := bind_eq_ok.mp hrest
  cases hgiven : draft.module with
  | none =>
      rw [hgiven] at hc
      cases hc
  | some given =>
      rw [hgiven] at hc
      cases hc
      cases hd
      exact hmodule c hgiven

namespace Manifest

theorem readable_of_ofToml {v : TomlValue} {m : Manifest} (h : ofToml v = .ok m) : m.Readable := by
  obtain ⟨draft, hdraft, hrest⟩ := bind_eq_ok.mp h
  have hdependencies : ∀ e ∈ draft.dependencies.entries, e.2.Readable := by
    refine readFields_invariant (P := fun draft : Draft =>
      ∀ e ∈ draft.dependencies.entries, e.2.Readable) ?_ (by simp [SortedMap.empty]) hdraft
    intro field hfield w s t hs ht
    simp only [fields, List.mem_cons, List.not_mem_nil, or_false] at hfield
    rcases hfield with rfl | rfl | rfl | rfl
    · obtain ⟨-, -, rfl⟩ := TomlField.read_eq_ok.mp ht
      exact hs
    · obtain ⟨-, -, rfl⟩ := TomlField.read_eq_ok.mp ht
      exact hs
    · obtain ⟨dependencies, hread, rfl⟩ := TomlField.read_eq_ok.mp ht
      intro e he
      obtain ⟨spec, hspec⟩ := exists_of_mem_readMap hread he
      exact DependencySpec.readable_of_ofToml hspec
    · obtain ⟨-, -, rfl⟩ := TomlField.read_eq_ok.mp ht
      exact hs
  obtain ⟨project, -, hm⟩ := bind_eq_ok.mp hrest
  cases hm
  exact hdependencies

theorem parse_eq_ok {text : String} {m : Manifest} (h : parse text = .ok m) :
    ∃ v, TomlValue.parse? text = some v ∧ ofToml v = .ok m := by
  unfold parse at h
  split at h
  case h_1 v hv => exact ⟨v, hv, h⟩
  case h_2 => cases h

end Manifest

/-! ### The tables of a manifest

A text stands for entries that are `Arranged`: their names are distinct, and what is
no plain value comes last.  `NamedIn` and `AllPlain` show it for entries of which
some may be left out.
-/

section
variable {α : Type} {name : String} {write : α → TomlValue} {v : TomlValue}

/-- All values of these entries are plain. -/
def AllPlain (entries : List (String × TomlValue)) : Prop := ∀ e ∈ entries, e.2.isPlain = true

theorem AllPlain.append {first rest : List (String × TomlValue)} (hfirst : AllPlain first)
    (hrest : AllPlain rest) : AllPlain (first ++ rest) := by
  intro e he
  exact (List.mem_append.mp he).elim (hfirst e) (hrest e)

theorem allPlain_entry (h : v.isPlain = true) : AllPlain (tomlEntry name v) := by
  intro e he
  rw [List.mem_singleton.mp he]
  exact h

theorem allPlain_optional (h : ∀ a, (write a).isPlain = true) (given : Option α) :
    AllPlain (optionalTomlEntry name write given) := by
  cases given with
  | none => exact fun e he => absurd he List.not_mem_nil
  | some a => exact allPlain_entry (h a)

theorem allPlain_list (h : ∀ a, (write a).isScalar = true) (items : List α) :
    AllPlain (tomlListEntry name write items) := by
  cases items with
  | nil => exact fun e he => absurd he List.not_mem_nil
  | cons first rest =>
      refine allPlain_entry (List.all_eq_true.mpr fun w hw => ?_)
      obtain ⟨a, -, rfl⟩ := List.mem_map.mp hw
      exact h a

/-- The names of entries, of which some may be left out. -/
def NamedIn (names : List String) (entries : List (String × TomlValue)) : Prop :=
  (entries.map Prod.fst).Sublist names

theorem NamedIn.append {names more : List String} {first rest : List (String × TomlValue)}
    (hfirst : NamedIn names first) (hrest : NamedIn more rest) :
    NamedIn (names ++ more) (first ++ rest) := by
  rw [NamedIn, List.map_append]
  exact List.Sublist.append hfirst hrest

theorem NamedIn.nodup {names : List String} {entries : List (String × TomlValue)}
    (h : NamedIn names entries) (hnodup : names.Nodup) : (entries.map Prod.fst).Nodup :=
  hnodup.sublist h

theorem namedIn_entry (name : String) (v : TomlValue) : NamedIn [name] (tomlEntry name v) :=
  List.Sublist.refl [name]

theorem namedIn_optional (name : String) (write : α → TomlValue) (given : Option α) :
    NamedIn [name] (optionalTomlEntry name write given) := by
  cases given with
  | none => exact List.nil_sublist [name]
  | some a => exact namedIn_entry name (write a)

theorem namedIn_list (name : String) (write : α → TomlValue) (items : List α) :
    NamedIn [name] (tomlListEntry name write items) := by
  cases items with
  | nil => exact List.nil_sublist [name]
  | cons first rest => exact namedIn_entry name _

theorem nodup_mapEntries (write : α → TomlValue) (map : SortedMap String α) :
    ((tomlMapEntries write map).map Prod.fst).Nodup := by
  have hkeys : (tomlMapEntries write map).map Prod.fst = map.keys := by
    simp [tomlMapEntries, SortedMap.keys]
  rw [hkeys]
  exact map.nodup_keys

/-- A map of plain values. -/
theorem arranged_mapEntries (h : ∀ a, (write a).isPlain = true) (map : SortedMap String α) :
    Arranged 0 (tomlMapEntries write map) := by
  refine ⟨nodup_mapEntries write map, fun e he => ?_⟩
  obtain ⟨entry, -, rfl⟩ := List.mem_map.mp he
  exact h entry.2

/-- A map of records. -/
theorem arranged_mapTables {depth : Nat} {entries : α → List (String × TomlValue)}
    (h : ∀ a, Arranged depth (entries a)) (map : SortedMap String α) :
    Arranged (depth + 1) (tomlMapEntries (fun a => .table (entries a)) map) := by
  refine ⟨nodup_mapEntries _ map, [], _, rfl, by simp, fun e he => ?_⟩
  obtain ⟨entry, -, rfl⟩ := List.mem_map.mp he
  exact Or.inl ⟨entries entry.2, rfl, h entry.2⟩

end

theorem Value.isScalar_toToml (v : Value) : v.toToml.isScalar = true := by
  cases v <;> rfl

theorem Value.isPlain_toToml (v : Value) : v.toToml.isPlain = true := by
  cases v <;> rfl

theorem Descriptor.arranged_toToml (d : Descriptor) : Arranged 1 d.toToml := by
  have hnames : NamedIn ["name", "type", "compatibility", "disambiguation", "preferred", "accepts"]
      d.toToml := by
    refine (((((namedIn_entry "name" _).append (namedIn_entry "type" _)).append
      (namedIn_optional "compatibility" _ _)).append (namedIn_optional "disambiguation" _ _)).append
      (namedIn_list "preferred" _ _)).append ?_
    split
    · exact List.nil_sublist ["accepts"]
    · exact namedIn_entry "accepts" _
  have hlist : ∀ values : List Value, (valueList values).isPlain = true := by
    intro values
    refine List.all_eq_true.mpr fun w hw => ?_
    obtain ⟨v, -, rfl⟩ := List.mem_map.mp hw
    exact v.isScalar_toToml
  have hplain :
      AllPlain (tomlEntry "name" (.string d.name) ++ tomlEntry "type" (.string d.type.text)
      ++ optionalTomlEntry "compatibility" (fun kind => .string kind.text) d.compatibility
      ++ optionalTomlEntry "disambiguation" (fun kind => .string kind.text) d.disambiguation
      ++ tomlListEntry "preferred" Value.toToml d.preferred) :=
    ((((allPlain_entry rfl).append (allPlain_entry rfl)).append
      (allPlain_optional (fun _ => rfl) _)).append (allPlain_optional (fun _ => rfl) _)).append
      (allPlain_list Value.isScalar_toToml _)
  refine ⟨hnames.nodup (by decide), _, _, rfl, hplain, fun e he => ?_⟩
  split at he
  · exact absurd he List.not_mem_nil
  · rw [List.mem_singleton.mp he]
    exact Or.inl ⟨_, rfl, arranged_mapEntries hlist d.accepts⟩

theorem Project.arranged_toToml (p : Project) : Arranged 0 p.toToml := by
  have hnames : NamedIn ["name", "catalog"] p.toToml :=
    (namedIn_entry "name" _).append (namedIn_entry "catalog" _)
  exact ⟨hnames.nodup (by decide), (allPlain_entry rfl).append (allPlain_entry rfl)⟩

theorem SchemaSpec.arranged_toToml (s : SchemaSpec) : Arranged 2 s.toToml := by
  have hnames : NamedIn ["standard", "precedence", "attributes"] s.toToml :=
    ((namedIn_entry "standard" _).append (namedIn_list "precedence" _ _)).append
      (namedIn_list "attributes" _ _)
  have hplain : AllPlain (tomlEntry "standard" (.boolean s.standard)
      ++ tomlListEntry "precedence" .string s.precedence) :=
    (allPlain_entry rfl).append (allPlain_list (fun _ => rfl) _)
  refine ⟨hnames.nodup (by decide), _, _, rfl, hplain, fun e he => ?_⟩
  cases hattributes : s.attributes with
  | nil =>
      rw [hattributes] at he
      exact absurd he List.not_mem_nil
  | cons first rest =>
      rw [hattributes] at he
      rw [List.mem_singleton.mp he]
      refine Or.inr ⟨(first :: rest).map Descriptor.toToml, by simp, by simp,
        fun inner hinner => ?_⟩
      obtain ⟨d, -, rfl⟩ := List.mem_map.mp hinner
      exact d.arranged_toToml

theorem DependencySpec.arranged_toToml (d : DependencySpec) : Arranged 0 d.toToml := by
  have hnames : NamedIn ["module", "variant", "capabilities"] d.toToml :=
    ((namedIn_entry "module" _).append (namedIn_optional "variant" _ _)).append
      (namedIn_list "capabilities" _ _)
  exact ⟨hnames.nodup (by decide), ((allPlain_entry rfl).append
    (allPlain_optional (fun _ => rfl) _)).append (allPlain_list (fun _ => rfl) _)⟩

theorem ConfigurationSpec.arranged_toToml (c : ConfigurationSpec) : Arranged 1 c.toToml := by
  have hnames : NamedIn ["description", "attributes"] c.toToml :=
    (namedIn_optional "description" _ _).append (namedIn_entry "attributes" _)
  refine ⟨hnames.nodup (by decide), _, _, rfl, allPlain_optional (fun _ => rfl) _, fun e he => ?_⟩
  rw [List.mem_singleton.mp he]
  exact Or.inl ⟨_, rfl, arranged_mapEntries Value.isPlain_toToml c.attributes⟩

namespace Manifest

theorem arranged_toToml (m : Manifest) : Arranged 3 m.toToml := by
  have hnames : NamedIn ["project", "schema", "dependencies", "configurations"] m.toToml :=
    (((namedIn_entry "project" _).append (namedIn_entry "schema" _)).append
      (namedIn_entry "dependencies" _)).append (namedIn_entry "configurations" _)
  refine ⟨hnames.nodup (by decide), [], m.toToml, rfl, by simp, fun e he => Or.inl ?_⟩
  simp only [toToml, tomlEntry, List.cons_append, List.nil_append, List.mem_cons,
    List.not_mem_nil, or_false] at he
  rcases he with rfl | rfl | rfl | rfl
  · exact ⟨_, rfl, m.project.arranged_toToml.mono.mono⟩
  · exact ⟨_, rfl, m.schema.arranged_toToml⟩
  · exact ⟨_, rfl, (arranged_mapTables DependencySpec.arranged_toToml m.dependencies).mono⟩
  · exact ⟨_, rfl, arranged_mapTables ConfigurationSpec.arranged_toToml m.configurations⟩

/-- A manifest whose dependencies are read back is read back as a whole. -/
theorem parse_text_of_readable {m : Manifest} (h : m.Readable) : parse m.text = .ok m := by
  have htree : TomlValue.parse? m.text = some (.table m.toToml) :=
    TomlValue.parse?_tomlText m.arranged_toToml (by decide)
  rw [parse, htree]
  exact ofToml_toToml h

/-- **A manifest survives being written.** -/
theorem parse_text_of_parse {text : String} {m : Manifest} (h : parse text = .ok m) :
    parse m.text = .ok m := by
  obtain ⟨v, -, hv⟩ := parse_eq_ok h
  exact parse_text_of_readable (readable_of_ofToml hv)

end Manifest

namespace Sample

/-- A manifest with a table of accepted values, a list of capabilities, and values
of all three types. -/
def mixedManifest : String :=
  "[project]\nname = 'demo'\n\n"
    ++ "[[schema.attributes]]\nname = \"level\"\ntype = \"integer\"\n"
    ++ "compatibility = \"accepts\"\naccepts.8 = [11, -17]\n\n"
    ++ "[dependencies]\nlib = \x7b module = \"org.example:lib:1.0\", capabilities = [\"a\"] \x7d\n\n"
    ++ "[configurations.main.attributes]\nlevel = 8\nfast = true\n\"a b\" = 'x\\y'\n"

end Sample

theorem Manifest.parse_text_of_parse_mixed :
    ∃ m, parse Sample.mixedManifest = .ok m ∧ parse m.text = .ok m := by
  have hread : (parse Sample.mixedManifest).isOk = true := by decide +kernel
  obtain ⟨m, hm⟩ := isOk_iff.mp hread
  exact ⟨m, hm, parse_text_of_parse hm⟩

end VariantSelection
