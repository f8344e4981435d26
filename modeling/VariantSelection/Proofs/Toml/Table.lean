/-
The table of a document is the one that was laid out.

A table is laid out as a section for its assignments and more sections for the
tables below it, and reading puts together one section after another.  Two things
keep the entries in their order: the assignments of a table come before the tables
in it, and the sections of one entry stand together.  So the entries read so far
only ever grow at their end, by the item that the last name stands for; the sections
below that name change nothing but this item, in the way in which they would change
a table by themselves (`foldlM_below`).
-/
import VariantSelection.Proofs.Toml.Layout

namespace VariantSelection

/-! ### Entries that grow at their end

`Free` is what lets a name be added behind the others.
-/

namespace TomlEntries

section
variable {acc : TomlEntries} {name key : String} {item : TomlItem}

/-- No entry has the name. -/
def Free (acc : TomlEntries) (name : String) : Prop := acc.item? name = none

theorem free_nil (name : String) : Free [] name := rfl

theorem free_append_iff {more : TomlEntries} :
    Free (acc ++ more) name ↔ acc.Free name ∧ Free more name := by
  simp [Free, item?]

theorem free_singleton_iff : Free [(key, item)] name ↔ key ≠ name := by
  simp [Free, item?]

/-- The names behind an entry stay free when the entry is added. -/
theorem free_append_of_notMem {more : List (String × TomlValue)}
    (hfree : ∀ e ∈ more, acc.Free e.1) (hnew : key ∉ more.map Prod.fst) :
    ∀ e ∈ more, Free (acc ++ [(key, item)]) e.1 := by
  intro e he
  refine free_append_iff.mpr ⟨hfree e he, free_singleton_iff.mpr ?_⟩
  intro hsame
  exact hnew (hsame ▸ List.mem_map_of_mem he)

theorem Free.item?_append (h : acc.Free name) : item? (acc ++ [(name, item)]) name = some item := by
  simp only [Free, item?, Option.map_eq_none_iff, List.find?_eq_none] at h
  have hnone : acc.find? (fun e => decide (e.1 = name)) = none := List.find?_eq_none.mpr h
  simp [item?, List.find?_append, hnone]

theorem Free.replace_append (h : acc.Free name) (changed : TomlItem) :
    replace (acc ++ [(name, item)]) name changed = acc ++ [(name, changed)] := by
  simp only [Free, item?, Option.map_eq_none_iff, List.find?_eq_none] at h
  have hself : acc.map (fun e => if e.1 = name then (name, changed) else e) = acc := by
    refine (List.map_congr_left fun e he => ?_).trans (List.map_id acc)
    rw [if_neg (by simpa using h e he)]
    rfl
  simp [replace, hself]

/-! ### Assignments -/

theorem assignAll_values (entries : List (String × TomlValue)) :
    ∀ {acc : TomlEntries}, (entries.map Prod.fst).Nodup → (∀ e ∈ entries, acc.Free e.1) →
      assignAll acc (entries.map fun e => ⟨[], e.1, e.2⟩)
        = some (acc ++ entries.map fun e => (e.1, .value e.2)) := by
  induction entries with
  | nil =>
      intro acc _ _
      simp [assignAll]
  | cons e entries ih =>
      intro acc hnodup hfree
      obtain ⟨hnew, hnodup⟩ := List.nodup_cons.mp hnodup
      have hfirst : assign e.1 e.2 [] acc = some (acc ++ [(e.1, .value e.2)]) := by
        have hnone : acc.item? e.1 = none := hfree e List.mem_cons_self
        rw [assign, hnone]
      have hrest : ∀ d ∈ entries, Free (acc ++ [(e.1, .value e.2)]) d.1 :=
        free_append_of_notMem (fun d hd => hfree d (List.mem_cons_of_mem _ hd)) hnew
      rw [assignAll, List.map_cons, List.foldlM_cons, hfirst]
      show assignAll (acc ++ [(e.1, .value e.2)]) _ = _
      rw [ih hnodup hrest]
      simp

end

end TomlEntries

/-! ### Sections below a name

A name in front of the path of a section sends it into the item of that name.  The item
is held as a table or as the last table of an array, and a `Holder` is either of them.
-/

/-- The section with its path going on from a key. -/
def TomlSection.below (key : String) (s : TomlSection) : TomlSection :=
  { s with path := key :: s.path }

theorem ownSection_cons (key : String) (path : List String) (name : String) (repeated : Bool)
    (entries : List (String × TomlValue)) :
    ownSection (key :: path) name repeated entries
      = (ownSection path name repeated entries).map (.below key) := by
  unfold ownSection
  simp only
  split <;> rfl

mutual

theorem sectionsOf_cons (key : String) (path : List String) (name : String) :
    ∀ v, sectionsOf (key :: path) name v = (sectionsOf path name v).map (.below key)
  | .table entries => by
      simp only [sectionsOf, ownSection_cons, List.cons_append, entrySections_cons key _ entries,
        List.map_append]
  | .array items => by
      simp only [sectionsOf]
      split
      · exact itemSections_cons key path name items
      · rfl
  | .string _ => rfl
  | .integer _ => rfl
  | .float _ => rfl
  | .boolean _ => rfl
  | .datetime _ => rfl

theorem itemSections_cons (key : String) (path : List String) (name : String) :
    ∀ items, itemSections (key :: path) name items = (itemSections path name items).map (.below key)
  | [] => rfl
  | .table entries :: rest => by
      simp only [itemSections, ownSection_cons, List.cons_append, entrySections_cons key _ entries,
        itemSections_cons key path name rest, List.map_append]
  | .array _ :: rest => itemSections_cons key path name rest
  | .string _ :: rest => itemSections_cons key path name rest
  | .integer _ :: rest => itemSections_cons key path name rest
  | .float _ :: rest => itemSections_cons key path name rest
  | .boolean _ :: rest => itemSections_cons key path name rest
  | .datetime _ :: rest => itemSections_cons key path name rest

theorem entrySections_cons (key : String) (path : List String) :
    ∀ entries, entrySections (key :: path) entries = (entrySections path entries).map (.below key)
  | [] => rfl
  | (name, v) :: rest => by
      simp only [entrySections, sectionsOf_cons key path name v, entrySections_cons key path rest,
        List.map_append]

end

namespace TomlEntries

/-- The items whose entries the sections below a name change: a table, and the last
table of an array. -/
inductive Holder : (TomlEntries → TomlItem) → Prop
  | table (origin : TomlOrigin) : Holder (.table origin)
  | tables (earlier : List TomlEntries) : Holder (.tables earlier)

section
variable {acc inner : TomlEntries} {key name : String} {holder : TomlEntries → TomlItem}

theorem addSection_below (s : TomlSection) :
    addSection acc (s.below key) = enter (fun inner => addSection inner s) [key] acc := by
  simp only [addSection, TomlSection.below, enter]
  rfl

theorem enter_holder (change : TomlEntries → Option TomlEntries) (hholder : Holder holder)
    (hfree : acc.Free key) :
    enter change [key] (acc ++ [(key, holder inner)])
      = (change inner).map fun changed => acc ++ [(key, holder changed)] := by
  cases hholder with
  | table origin => simp only [enter, hfree.item?_append, hfree.replace_append]
  | tables earlier => simp only [enter, hfree.item?_append, hfree.replace_append]

theorem enter_free (change : TomlEntries → Option TomlEntries) (hfree : acc.Free key) :
    enter change [key] acc
      = (change []).map fun made => acc ++ [(key, .table .passage made)] := by
  have hnone : acc.item? key = none := hfree
  simp only [enter, hnone]
  cases change [] <;> rfl

/-- Sections below `key`, the last name, change what it stands for, as they would
change that by themselves. -/
theorem foldlM_below (hholder : Holder holder) (hfree : acc.Free key)
    (sections : List TomlSection) :
    ∀ inner, (sections.map (.below key)).foldlM addSection (acc ++ [(key, holder inner)])
      = (sections.foldlM addSection inner).map fun changed => acc ++ [(key, holder changed)] := by
  induction sections with
  | nil => intro inner; rfl
  | cons s sections ih =>
      intro inner
      rw [List.map_cons, List.foldlM_cons, List.foldlM_cons, addSection_below,
        enter_holder _ hholder hfree]
      cases addSection inner s with
      | none => rfl
      | some changed => exact ih changed

/-- Sections below a new name make the table that it stands for. -/
theorem foldlM_below_free (hfree : acc.Free key) {sections : List TomlSection}
    (hne : sections ≠ []) :
    (sections.map (.below key)).foldlM addSection acc
      = (sections.foldlM addSection []).map fun made => acc ++ [(key, .table .passage made)] := by
  obtain ⟨s, sections, rfl⟩ := List.exists_cons_of_ne_nil hne
  rw [List.map_cons, List.foldlM_cons, List.foldlM_cons, addSection_below, enter_free _ hfree]
  cases addSection [] s with
  | none => rfl
  | some made => exact foldlM_below (.table .passage) hfree sections made

end

/-! ### Tables

`ReadsBack` is said of the entries of one table.  The lemmas lift it to the item
that the table becomes, as a section by itself and as an element of an array.
-/

/-- The items of the entries of a table that are no sections. -/
def ownItems (entries : List (String × TomlValue)) : TomlEntries :=
  (entries.filter fun e => !e.2.isSectioned).map fun e => (e.1, .value e.2)

/-- The sections of a table make its entries, in their order. -/
def ReadsBack (entries : List (String × TomlValue)) : Prop :=
  ∃ items, (entrySections [] entries).foldlM addSection (ownItems entries) = some items ∧
    entriesToValues items = entries

section
variable {acc last : TomlEntries} {earlier : List TomlEntries} {name : String}
variable {entries : List (String × TomlValue)}

theorem assignAll_own (hnodup : (entries.map Prod.fst).Nodup) :
    assignAll [] (ownAssignments entries) = some (ownItems entries) := by
  have hown : ((entries.filter fun e => !e.2.isSectioned).map Prod.fst).Nodup :=
    hnodup.sublist (List.filter_sublist.map Prod.fst)
  exact assignAll_values _ hown fun e _ => free_nil e.1

theorem foldlM_table (hfree : acc.Free name) (hnodup : (entries.map Prod.fst).Nodup)
    (hread : ReadsBack entries) :
    ∃ item, (sectionsOf [] name (.table entries)).foldlM addSection acc
        = some (acc ++ [(name, item)]) ∧
      item.toValue = .table entries := by
  obtain ⟨items, hitems, hvalues⟩ := hread
  have hbelow : entrySections [name] entries = (entrySections [] entries).map (.below name) :=
    entrySections_cons name [] entries
  rw [sectionsOf, List.nil_append, hbelow, ownSection]
  split
  case isTrue homitted =>
    -- The table comes about by the sections below it, of which there is one at least.
    obtain ⟨hnone, hsome⟩ : ownAssignments entries = [] ∧ entries ≠ [] := by simpa using homitted
    have hempty : ownItems entries = [] := by
      unfold ownAssignments at hnone
      rw [ownItems, List.map_eq_nil_iff.mp hnone]
      rfl
    have hne : entrySections [] entries ≠ [] := by
      intro hnil
      rw [hnil, hempty] at hitems
      cases hitems
      exact hsome hvalues.symm
    rw [hempty] at hitems
    refine ⟨.table .passage items, ?_, by rw [TomlItem.toValue, hvalues]⟩
    rw [List.nil_append, foldlM_below_free hfree hne, hitems]
    rfl
  case isFalse =>
    have hopen : addSection acc ⟨[], name, false, ownAssignments entries⟩
        = some (acc ++ [(name, .table .header (ownItems entries))]) := by
      have hnone : acc.item? name = none := hfree
      simp only [addSection, enter, Bool.false_eq_true, if_false, openTable, hnone,
        assignAll_own hnodup]
      rfl
    refine ⟨.table .header items, ?_, by rw [TomlItem.toValue, hvalues]⟩
    rw [List.singleton_append, List.foldlM_cons, hopen]
    show List.foldlM addSection (acc ++ [(name, .table .header (ownItems entries))]) _ = _
    rw [foldlM_below (.table .header) hfree, hitems]
    rfl

/-- The sections of one table of an array, once its header has been read. -/
theorem foldlM_item (hfree : acc.Free name) (hread : ReadsBack entries)
    (earlier : List TomlEntries) :
    ∃ last, (entrySections [name] entries).foldlM addSection
        (acc ++ [(name, .tables earlier (ownItems entries))])
          = some (acc ++ [(name, .tables earlier last)]) ∧
      entriesToValues last = entries := by
  obtain ⟨items, hitems, hvalues⟩ := hread
  refine ⟨items, ?_, hvalues⟩
  rw [entrySections_cons name [] entries, foldlM_below (.tables earlier) hfree, hitems]
  rfl

theorem itemSections_table (name : String) (entries : List (String × TomlValue))
    (rest : List TomlValue) :
    itemSections [] name (.table entries :: rest)
      = ⟨[], name, true, ownAssignments entries⟩
          :: (entrySections [name] entries ++ itemSections [] name rest) := by
  rw [itemSections]
  rfl

theorem tablesToValues_append (a b : List TomlEntries) :
    tablesToValues (a ++ b) = tablesToValues a ++ tablesToValues b := by
  induction a with
  | nil => rfl
  | cons entries a ih => rw [List.cons_append, tablesToValues, tablesToValues, ih, List.cons_append]

theorem foldlM_items (hfree : acc.Free name) (tables : List (List (String × TomlValue))) :
    (∀ entries ∈ tables, (entries.map Prod.fst).Nodup ∧ ReadsBack entries) → ∀ earlier last,
    ∃ item, (itemSections [] name (tables.map .table)).foldlM addSection
        (acc ++ [(name, .tables earlier last)]) = some (acc ++ [(name, item)]) ∧
      item.toValue = .array (tablesToValues (earlier ++ [last]) ++ tables.map .table) := by
  induction tables with
  | nil =>
      intro _ earlier last
      refine ⟨.tables earlier last, rfl, ?_⟩
      rw [TomlItem.toValue, tablesToValues_append]
      simp [tablesToValues]
  | cons entries tables ih =>
      intro hall earlier last
      obtain ⟨hnodup, hread⟩ := hall entries List.mem_cons_self
      have hopen : addSection (acc ++ [(name, .tables earlier last)])
            ⟨[], name, true, ownAssignments entries⟩
          = some (acc ++ [(name, .tables (earlier ++ [last]) (ownItems entries))]) := by
        simp only [addSection, enter, if_true, openNext, hfree.item?_append, assignAll_own hnodup,
          hfree.replace_append]
        rfl
      obtain ⟨next, hnext, hvalues⟩ := foldlM_item hfree hread (earlier ++ [last])
      obtain ⟨item, hitem, hitems⟩ := ih (fun e he => hall e (List.mem_cons_of_mem _ he))
        (earlier ++ [last]) next
      refine ⟨item, ?_, ?_⟩
      · rw [List.map_cons, itemSections_table, List.foldlM_cons, hopen, Option.bind_eq_bind,
          Option.bind_some, List.foldlM_append, hnext]
        exact hitem
      · rw [hitems, tablesToValues_append, tablesToValues_append]
        simp [tablesToValues, hvalues]

theorem foldlM_array (hfree : acc.Free name) {tables : List (List (String × TomlValue))}
    (hne : tables ≠ [])
    (hall : ∀ entries ∈ tables, (entries.map Prod.fst).Nodup ∧ ReadsBack entries) :
    ∃ item, (sectionsOf [] name (.array (tables.map .table))).foldlM addSection acc
        = some (acc ++ [(name, item)]) ∧
      item.toValue = .array (tables.map .table) := by
  obtain ⟨entries, tables, rfl⟩ := List.exists_cons_of_ne_nil hne
  obtain ⟨hnodup, hread⟩ := hall entries List.mem_cons_self
  have hsectioned : (TomlValue.array ((entries :: tables).map .table)).isSectioned = true := by
    simp [TomlValue.isSectioned, TomlValue.isTable]
  have hopen : addSection acc ⟨[], name, true, ownAssignments entries⟩
      = some (acc ++ [(name, .tables [] (ownItems entries))]) := by
    have hnone : acc.item? name = none := hfree
    simp only [addSection, enter, if_true, openNext, hnone, assignAll_own hnodup]
    rfl
  obtain ⟨first, hfirst, hvalues⟩ := foldlM_item hfree hread []
  obtain ⟨item, hitem, hitems⟩ := foldlM_items hfree tables
    (fun e he => hall e (List.mem_cons_of_mem _ he)) [] first
  refine ⟨item, ?_, ?_⟩
  · rw [sectionsOf, if_pos hsectioned, List.map_cons, itemSections_table, List.foldlM_cons, hopen,
      Option.bind_eq_bind, Option.bind_some, List.foldlM_append, hfirst]
    exact hitem
  · rw [hitems]
    simp [tablesToValues, hvalues]

end

end TomlEntries

/-! ### Tables that a document can hold

The induction is on the depth of a table: `Arranged` says that the plain entries
come first and that what is below them is arranged at one depth less.
-/

/-- Entries with tables in them at most `depth` deep: distinct names, first the
plain values, then the tables and the arrays of tables. -/
def Arranged : Nat → List (String × TomlValue) → Prop
  | 0, entries => (entries.map Prod.fst).Nodup ∧ ∀ e ∈ entries, e.2.isPlain = true
  | depth + 1, entries =>
    (entries.map Prod.fst).Nodup ∧
      ∃ plain below, entries = plain ++ below ∧ (∀ e ∈ plain, e.2.isPlain = true) ∧
        ∀ e ∈ below, (∃ inner, e.2 = .table inner ∧ Arranged depth inner) ∨
          ∃ tables, e.2 = .array (tables.map .table) ∧ tables ≠ [] ∧
            ∀ inner ∈ tables, Arranged depth inner

section
variable {depth : Nat} {entries plain below : List (String × TomlValue)} {v : TomlValue}

theorem Arranged.nodup (h : Arranged depth entries) : (entries.map Prod.fst).Nodup := by
  cases depth with
  | zero => exact h.1
  | succ depth => exact h.1

theorem Arranged.mono (h : Arranged depth entries) : Arranged (depth + 1) entries := by
  induction depth generalizing entries with
  | zero => exact ⟨h.1, entries, [], by simp, h.2, by simp⟩
  | succ depth ih =>
      obtain ⟨hnodup, plain, below, hparts, hplain, hbelow⟩ := h
      refine ⟨hnodup, plain, below, hparts, hplain, fun e he => ?_⟩
      rcases hbelow e he with ⟨inner, hinner, harranged⟩ | ⟨tables, htables, hne, harranged⟩
      · exact Or.inl ⟨inner, hinner, ih harranged⟩
      · exact Or.inr ⟨tables, htables, hne, fun inner hinner => ih (harranged inner hinner)⟩

theorem isSectioned_of_isPlain (h : v.isPlain = true) : v.isSectioned = false := by
  cases v with
  | array items =>
      cases items with
      | nil => rfl
      | cons first items =>
          have hfirst : first.isScalar = true := List.all_eq_true.mp h first List.mem_cons_self
          have hother : first.isTable = false := by
            cases first <;> first | rfl | cases hfirst
          simp [TomlValue.isSectioned, hother]
  | table _ => cases h
  | string _ => rfl
  | integer _ => rfl
  | float _ => rfl
  | boolean _ => rfl
  | datetime _ => rfl

theorem sectionsOf_of_isPlain (path : List String) (name : String) (h : v.isPlain = true) :
    sectionsOf path name v = [] := by
  cases v with
  | array items => rw [sectionsOf, isSectioned_of_isPlain h]; rfl
  | table _ => cases h
  | string _ => rfl
  | integer _ => rfl
  | float _ => rfl
  | boolean _ => rfl
  | datetime _ => rfl

theorem entrySections_append (path : List String) (plain below : List (String × TomlValue)) :
    entrySections path (plain ++ below) = entrySections path plain ++ entrySections path below := by
  induction plain with
  | nil => rfl
  | cons e plain ih => rw [List.cons_append, entrySections, entrySections, ih, List.append_assoc]

theorem entrySections_of_isPlain (path : List String) (h : ∀ e ∈ plain, e.2.isPlain = true) :
    entrySections path plain = [] := by
  induction plain with
  | nil => rfl
  | cons e plain ih =>
      rw [entrySections, sectionsOf_of_isPlain path e.1 (h e List.mem_cons_self),
        ih fun d hd => h d (List.mem_cons_of_mem _ hd), List.append_nil]

theorem entriesToValues_append (a b : TomlEntries) :
    entriesToValues (a ++ b) = entriesToValues a ++ entriesToValues b := by
  induction a with
  | nil => rfl
  | cons e a ih => rw [List.cons_append, entriesToValues, entriesToValues, ih, List.cons_append]

theorem entriesToValues_values (plain : List (String × TomlValue)) :
    entriesToValues (plain.map fun e => (e.1, .value e.2)) = plain := by
  induction plain with
  | nil => rfl
  | cons e plain ih => rw [List.map_cons, entriesToValues, ih, TomlItem.toValue]

/-- What stands below the plain values of a table: a table, or an array of one and
more tables. -/
def BelowPlain (depth : Nat) (v : TomlValue) : Prop :=
  (∃ inner, v = .table inner ∧ Arranged depth inner) ∨
    ∃ tables, v = .array (tables.map .table) ∧ tables ≠ [] ∧ ∀ inner ∈ tables, Arranged depth inner

theorem BelowPlain.isSectioned (h : BelowPlain depth v) : v.isSectioned = true := by
  rcases h with ⟨inner, rfl, -⟩ | ⟨tables, rfl, hne, -⟩
  · rfl
  · obtain ⟨first, tables, rfl⟩ := List.exists_cons_of_ne_nil hne
    simp [TomlValue.isSectioned, TomlValue.isTable]

theorem filter_plain_append (hplain : ∀ e ∈ plain, e.2.isPlain = true)
    (hbelow : ∀ e ∈ below, e.2.isSectioned = true) :
    ((plain ++ below).filter fun e => !e.2.isSectioned) = plain := by
  rw [List.filter_append, List.filter_eq_self.mpr, List.filter_eq_nil_iff.mpr, List.append_nil]
  · intro e he
    simp [hbelow e he]
  · intro e he
    simp [isSectioned_of_isPlain (hplain e he)]

/-- The entries of a table in two parts, if it can stand in a document. -/
theorem Arranged.exists_parts (h : Arranged depth entries) :
    ∃ plain below, entries = plain ++ below ∧ (∀ e ∈ plain, e.2.isPlain = true) ∧
      (∀ e ∈ below, e.2.isSectioned = true) ∧
      ∀ e ∈ below, ∃ less, less < depth ∧ BelowPlain less e.2 := by
  cases depth with
  | zero => exact ⟨entries, [], by simp, h.2, by simp, by simp⟩
  | succ depth =>
      obtain ⟨-, plain, below, hparts, hplain, hbelow⟩ := h
      have hshape : ∀ e ∈ below, BelowPlain depth e.2 := hbelow
      exact ⟨plain, below, hparts, hplain, fun e he => (hshape e he).isSectioned,
        fun e he => ⟨depth, Nat.lt_succ_self depth, hshape e he⟩⟩

/-- If `sectionsOf` makes of each entry its item, then the sections of all entries
make all items. -/
theorem foldlM_entrySections (below : List (String × TomlValue)) :
    (∀ e ∈ below, ∀ acc : TomlEntries, acc.Free e.1 →
      ∃ item, (sectionsOf [] e.1 e.2).foldlM TomlEntries.addSection acc
          = some (acc ++ [(e.1, item)]) ∧
        item.toValue = e.2) →
    ∀ acc : TomlEntries, (below.map Prod.fst).Nodup → (∀ e ∈ below, acc.Free e.1) →
      ∃ items, (entrySections [] below).foldlM TomlEntries.addSection acc = some (acc ++ items) ∧
        entriesToValues items = below := by
  induction below with
  | nil =>
      intro _ acc _ _
      exact ⟨[], by rw [List.append_nil]; rfl, rfl⟩
  | cons e below ih =>
      intro hread acc hnodup hfree
      obtain ⟨hnew, hnodup⟩ := List.nodup_cons.mp hnodup
      obtain ⟨item, hitem, hvalue⟩ := hread e List.mem_cons_self acc (hfree e List.mem_cons_self)
      have hrest : ∀ d ∈ below, TomlEntries.Free (acc ++ [(e.1, item)]) d.1 :=
        TomlEntries.free_append_of_notMem (fun d hd => hfree d (List.mem_cons_of_mem _ hd)) hnew
      obtain ⟨items, hitems, hvalues⟩ :=
        ih (fun d hd => hread d (List.mem_cons_of_mem _ hd)) _ hnodup hrest
      refine ⟨(e.1, item) :: items, ?_, ?_⟩
      · rw [entrySections, List.foldlM_append, hitem, Option.bind_eq_bind, Option.bind_some, hitems]
        simp
      · rw [entriesToValues, hvalue, hvalues]

/-- **The sections of arranged entries make these entries**, by induction on how
deep the tables are. -/
theorem Arranged.readsBack (depth : Nat) :
    ∀ {entries : List (String × TomlValue)}, Arranged depth entries →
      TomlEntries.ReadsBack entries := by
  induction depth using Nat.strongRecOn with
  | ind depth ih =>
      intro entries h
      have hnodup := h.nodup
      obtain ⟨plain, below, rfl, hplain, hsectioned, hbelow⟩ := h.exists_parts
      rw [List.map_append, List.nodup_append] at hnodup
      obtain ⟨-, hnodup, hapart⟩ := hnodup
      have hown : TomlEntries.ownItems (plain ++ below) = plain.map fun e => (e.1, .value e.2) := by
        rw [TomlEntries.ownItems, filter_plain_append hplain hsectioned]
      have hread : ∀ e ∈ below, ∀ acc : TomlEntries, acc.Free e.1 →
          ∃ item, (sectionsOf [] e.1 e.2).foldlM TomlEntries.addSection acc
              = some (acc ++ [(e.1, item)]) ∧ item.toValue = e.2 := by
        intro e he acc hfree
        obtain ⟨less, hless, hshape⟩ := hbelow e he
        rcases hshape with ⟨inner, hinner, harranged⟩ | ⟨tables, htables, hne, harranged⟩
        · rw [hinner]
          exact TomlEntries.foldlM_table hfree harranged.nodup (ih less hless harranged)
        · rw [htables]
          exact TomlEntries.foldlM_array hfree hne fun inner hinner =>
            ⟨(harranged inner hinner).nodup, ih less hless (harranged inner hinner)⟩
      have hfree : ∀ e ∈ below, TomlEntries.Free (plain.map fun e => (e.1, .value e.2)) e.1 := by
        intro e he
        have hother : ∀ d ∈ plain, d.1 ≠ e.1 := by
          intro d hd hsame
          exact hapart d.1 (List.mem_map_of_mem hd) e.1 (List.mem_map_of_mem he) hsame
        simpa [TomlEntries.Free, TomlEntries.item?] using hother
      obtain ⟨items, hitems, hvalues⟩ := foldlM_entrySections below hread _ hnodup hfree
      refine ⟨(plain.map fun e => (e.1, .value e.2)) ++ items, ?_, ?_⟩
      · rw [hown, entrySections_append, entrySections_of_isPlain [] hplain, List.nil_append, hitems]
      · rw [entriesToValues_append, entriesToValues_values, hvalues]

theorem Arranged.table?_ofEntries (h : Arranged depth entries) :
    (TomlDocument.ofEntries entries).table? = some (.table entries) := by
  obtain ⟨items, hitems, hvalues⟩ := Arranged.readsBack depth h
  simp only [TomlDocument.table?, TomlDocument.ofEntries, TomlEntries.assignAll_own h.nodup,
    Option.bind_eq_bind, Option.bind_some, hitems, hvalues]
  rfl

/-! ### Plain documents

What is laid out for an arranged table is plain, so that `TomlDocument.parse?_text`
can read its text.
-/

theorem ownAssignments_plain (h : Arranged depth entries) :
    ∀ a ∈ ownAssignments entries, a.Plain := by
  obtain ⟨plain, below, rfl, hplain, hsectioned, -⟩ := h.exists_parts
  intro a ha
  rw [ownAssignments, filter_plain_append hplain hsectioned] at ha
  obtain ⟨e, he, rfl⟩ := List.mem_map.mp ha
  exact ⟨rfl, hplain e he⟩

theorem ownSection_plain {path : List String} {name : String} {repeated : Bool}
    (h : Arranged depth entries) (hpath : path.length < tomlKeyLimit) :
    ∀ s ∈ ownSection path name repeated entries, s.Plain := by
  intro s hs
  unfold ownSection at hs
  simp only at hs
  split at hs
  · exact absurd hs List.not_mem_nil
  · rw [List.mem_singleton.mp hs]
    exact ⟨hpath, ownAssignments_plain h⟩

theorem mem_entrySections {path : List String} {s : TomlSection} :
    s ∈ entrySections path entries ↔ ∃ e ∈ entries, s ∈ sectionsOf path e.1 e.2 := by
  induction entries with
  | nil => simp [entrySections]
  | cons e entries ih => simp [entrySections, ih]

theorem mem_itemSections {path : List String} {name : String} {s : TomlSection}
    {tables : List (List (String × TomlValue))} :
    s ∈ itemSections path name (tables.map .table) ↔ ∃ inner ∈ tables,
      s ∈ ownSection path name true inner ∨ s ∈ entrySections (path ++ [name]) inner := by
  induction tables with
  | nil => simp [itemSections]
  | cons inner tables ih => simp [itemSections, ih, or_assoc]

/-- The sections of a value below the plain ones: its own headers, and the sections
of the tables in it. -/
theorem BelowPlain.of_mem_sectionsOf {path : List String} {name : String} {s : TomlSection}
    (h : BelowPlain depth v) (hs : s ∈ sectionsOf path name v) :
    ∃ inner repeated, Arranged depth inner ∧
      (s ∈ ownSection path name repeated inner ∨ s ∈ entrySections (path ++ [name]) inner) := by
  rcases h with ⟨inner, rfl, hinner⟩ | ⟨tables, rfl, hne, hall⟩
  · rw [sectionsOf, List.mem_append] at hs
    exact ⟨inner, false, hinner, hs⟩
  · have hsectioned : (TomlValue.array (tables.map .table)).isSectioned = true :=
      BelowPlain.isSectioned (Or.inr ⟨tables, rfl, hne, hall⟩)
    rw [sectionsOf, if_pos hsectioned, mem_itemSections] at hs
    obtain ⟨inner, hinner, hs⟩ := hs
    exact ⟨inner, true, hall inner hinner, hs⟩

theorem Arranged.sections_plain (depth : Nat) :
    ∀ {entries : List (String × TomlValue)}, Arranged depth entries →
      ∀ {path : List String}, path.length + depth ≤ tomlKeyLimit →
        ∀ s ∈ entrySections path entries, s.Plain := by
  induction depth using Nat.strongRecOn with
  | ind depth ih =>
      intro entries h path hpath s hs
      obtain ⟨plain, below, rfl, hplain, -, hbelow⟩ := h.exists_parts
      rw [entrySections_append, entrySections_of_isPlain path hplain, List.nil_append,
        mem_entrySections] at hs
      obtain ⟨e, he, hs⟩ := hs
      obtain ⟨less, hless, hshape⟩ := hbelow e he
      obtain ⟨inner, repeated, hinner, hown | hdeeper⟩ := hshape.of_mem_sectionsOf hs
      · exact ownSection_plain hinner (by omega) s hown
      · have hlength : (path ++ [e.1]).length + less ≤ tomlKeyLimit := by
          rw [List.length_append, List.length_singleton]
          omega
        exact ih less hless hinner hlength s hdeeper

/-- **Every arranged table is read back from the text of its document.** -/
theorem TomlValue.parse?_tomlText (h : Arranged depth entries) (hdepth : depth ≤ tomlKeyLimit) :
    TomlValue.parse? (tomlText entries) = some (.table entries) := by
  have hplain : (TomlDocument.ofEntries entries).Plain :=
    ⟨ownAssignments_plain h, Arranged.sections_plain depth h (by simpa using hdepth)⟩
  rw [TomlValue.parse?, tomlText, TomlDocument.parse?_text hplain]
  exact h.table?_ofEntries

end

end VariantSelection
