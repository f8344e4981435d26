/-
What a JSON value says as a record.

A record is written as an object or as an array, and `JsonValue.record?` with the
readers of single fields takes it apart.  Here it is said without reading anything:
`IsRecord` says which values are records, `Has` what stands in one of their fields,
and `Field`, `FieldOr`, `IsList` and `IsNullable` put together from what stands
there what the record means.  `Reads` ties a reader to such a relation, in both
directions, so a reader that loses a field or invents one is not tied to any.  What
every reader of a whole record needs is `reads_record`, `required_iff`,
`withDefault_iff`, `list_iff` and `nullable_iff`.
-/
import Mathlib.Data.List.Nodup
import VariantSelection.Json.Record
import VariantSelection.Proofs.Distinct
import VariantSelection.Proofs.Except

namespace VariantSelection

namespace JsonValue

/-! ### Records and their fields

An object names its fields and an array has them in their order; `Has` says for both
what stands in a field.  A field that is absent has nothing, and so has one behind
the end of an array.
-/

/-- The value is a record of the fields: an object whose names are texts and that
names none of the fields twice, or an array that is not too long. -/
inductive IsRecord (fields : List String) : JsonValue → Prop
  | object {members : List (JsonString × JsonValue)}
      (named : ∀ m ∈ members, ∃ name, m.1.text? = some name)
      (once : members.Pairwise fun m n => ∀ name ∈ fields, m.1.text? = some name →
        n.1.text? ≠ some name) :
      IsRecord fields (.object members)
  | array {items : List JsonValue} (short : items.length ≤ fields.length) :
      IsRecord fields (.array items)

/-- `w` stands in the field `name`, as a member of that name or as the item
at its place. -/
inductive Has (fields : List String) (name : String) : JsonValue → JsonValue → Prop
  | member {members : List (JsonString × JsonValue)} {key : JsonString} {w : JsonValue}
      (hmem : (key, w) ∈ members) (hkey : key.text? = some name) :
      Has fields name (.object members) w
  | item {items : List JsonValue} {i : Nat} {w : JsonValue} (hname : fields[i]? = some name)
      (hitem : items[i]? = some w) : Has fields name (.array items) w

section
variable {α : Type} (fields : List String) (name : String) (P : JsonValue → α → Prop)

/-- What stands in the field means `a`. -/
def Field (v : JsonValue) (a : α) : Prop := ∃ w, Has fields name v w ∧ P w a

/-- What stands in the field means `a`, or nothing stands there and `a` is `absent`. -/
def FieldOr (absent : α) (v : JsonValue) (a : α) : Prop :=
  Field fields name P v a ∨ (∀ w, ¬Has fields name v w) ∧ a = absent

/-- The items of the array mean the elements of the list, one by one. -/
inductive IsList : JsonValue → List α → Prop
  | array {items : List JsonValue} {l : List α} (h : List.Forall₂ P items l) :
      IsList (.array items) l

/-- Null means that there is nothing, and everything else what it means. -/
inductive IsNullable : JsonValue → Option α → Prop
  | null : IsNullable .null none
  | value {v : JsonValue} {a : α} (hv : v ≠ .null) (h : P v a) : IsNullable v (some a)

end

/-- The value is a string with this text. -/
inductive IsText : JsonValue → String → Prop
  | string {s : JsonString} {text : String} (h : s.text? = some text) : IsText (.string s) text

/-! ### Readers -/

/-- The reader gives what `P` says, and refuses every value of which `P` says nothing. -/
def Reads {α : Type} (read : JsonValue → Option α) (P : JsonValue → α → Prop) : Prop :=
  ∀ v a, read v = some a ↔ P v a

/-- What a value is read as it is in one way only. -/
theorem Reads.unique {α : Type} {read : JsonValue → Option α} {P : JsonValue → α → Prop}
    (h : Reads read P) {v : JsonValue} {a b : α} (ha : P v a) (hb : P v b) : a = b := by
  have heq : some a = some b := by rw [← (h v a).mpr ha, (h v b).mpr hb]
  exact Option.some.inj heq

theorem reads_text : Reads text? IsText := by
  intro v a
  constructor
  · intro h
    cases v with
    | string s => exact .string h
    | null | boolean | number | array | object => cases h
  · rintro ⟨h⟩
    exact h

section
variable {α : Type} {read : JsonValue → Option α} {P : JsonValue → α → Prop}

theorem Reads.list (h : Reads read P) : Reads (list? read) (IsList P) := by
  intro v l
  constructor
  · intro hread
    cases v with
    | array items => exact .array ((mapM_eq_some_iff.mp hread).imp fun w a => (h w a).mp)
    | null | boolean | number | string | object => cases hread
  · rintro ⟨hitems⟩
    exact mapM_eq_some_iff.mpr (hitems.imp fun w a => (h w a).mpr)

theorem Reads.nullable (h : Reads read P) : Reads
    (fun
      | .null => some none
      | v => (read v).map some)
    (IsNullable P) := by
  intro v given
  cases v with
  | null =>
      constructor
      · rintro ⟨⟩
        exact .null
      · intro hgiven
        cases hgiven with
        | null => rfl
        | value hnull => exact absurd rfl hnull
  | boolean | number | string | array | object =>
      simp only [Option.map_eq_some_iff, h _ _]
      constructor
      · rintro ⟨a, ha, rfl⟩
        exact .value nofun ha
      · intro hgiven
        cases hgiven with
        | value _ ha => exact ⟨_, ha, rfl⟩

end

/-! ### The members of an object

Where every name is a text, the members under their names as texts are as many and
in the same order.
-/

/-- The members under their names as texts. -/
def named (members : List (JsonString × JsonValue)) : List (String × JsonValue) :=
  members.map fun m => (m.1.text?.getD "", m.2)

section
variable {members : List (JsonString × JsonValue)} {present : List (String × JsonValue)}

theorem members?_eq_some_iff : members? (.object members) = some present ↔
    (∀ m ∈ members, ∃ name, m.1.text? = some name) ∧ present = named members := by
  induction members generalizing present with
  | nil => simp [members?, named, eq_comm]
  | cons m rest ih =>
      rw [members?, List.mapM_cons]
      simp only [Option.bind_eq_bind, Option.bind_eq_some_iff, Option.map_eq_some_iff,
        Option.pure_def, Option.some.injEq, List.forall_mem_cons]
      constructor
      · rintro ⟨_, ⟨name, hname, rfl⟩, others, hothers, rfl⟩
        obtain ⟨htexts, rfl⟩ := ih.mp hothers
        exact ⟨⟨⟨name, hname⟩, htexts⟩, by simp [named, hname]⟩
      · rintro ⟨⟨⟨name, hname⟩, htexts⟩, rfl⟩
        exact ⟨_, ⟨name, hname, rfl⟩, _, ih.mpr ⟨htexts, rfl⟩, by simp [named, hname]⟩

theorem mem_named_iff (h : ∀ m ∈ members, ∃ name, m.1.text? = some name) {name : String}
    {w : JsonValue} :
    (name, w) ∈ named members ↔ ∃ key, (key, w) ∈ members ∧ key.text? = some name := by
  simp only [named, List.mem_map, Prod.mk.injEq]
  constructor
  · rintro ⟨m, hm, hname, rfl⟩
    obtain ⟨text, htext⟩ := h m hm
    rw [htext, Option.getD_some] at hname
    exact ⟨m.1, hm, hname ▸ htext⟩
  · rintro ⟨key, hmem, hkey⟩
    exact ⟨(key, w), hmem, by rw [hkey, Option.getD_some], rfl⟩

theorem nodup_named_iff (h : ∀ m ∈ members, ∃ name, m.1.text? = some name) {fields : List String} :
    (((named members).filter fun m => fields.contains m.1).map Prod.fst).Nodup ↔
      members.Pairwise fun m n => ∀ name ∈ fields, m.1.text? = some name →
        n.1.text? ≠ some name := by
  rw [List.Nodup, List.pairwise_map, List.pairwise_filter, named, List.pairwise_map]
  refine List.Pairwise.iff_of_mem fun {m n} hm hn => ?_
  obtain ⟨first, hfirst⟩ := h m hm
  obtain ⟨second, hsecond⟩ := h n hn
  simp only [hfirst, hsecond, Option.getD_some, List.contains_iff_mem, ne_eq, Option.some.injEq]
  constructor
  · rintro hne name hfield rfl rfl
    exact hne hfield hfield rfl
  · intro hne hfield _ heq
    exact hne first hfield rfl heq.symm

end

/-! ### Records -/

section
variable {fields : List String} {v w : JsonValue} {r : JsonRecord} {name : String}

theorem record?_object_eq_some_iff {members : List (JsonString × JsonValue)} :
    record? fields (.object members) = some r ↔ IsRecord fields (.object members) ∧
      r.present = (named members).filter fun m => fields.contains m.1 := by
  simp only [record?, Option.bind_eq_bind, Option.bind_eq_some_iff, members?_eq_some_iff]
  constructor
  · rintro ⟨_, ⟨htexts, rfl⟩, h⟩
    split at h
    · rename_i honce
      cases h
      exact ⟨.object htexts ((nodup_named_iff htexts).mp honce), rfl⟩
    · cases h
  · rintro ⟨⟨htexts, honce⟩, hpresent⟩
    refine ⟨named members, ⟨htexts, rfl⟩, ?_⟩
    rw [if_pos ((nodup_named_iff htexts).mpr honce), ← hpresent]

theorem record?_array_eq_some_iff {items : List JsonValue} :
    record? fields (.array items) = some r ↔ IsRecord fields (.array items) ∧
      r.present = fields.zip items := by
  simp only [record?]
  split
  · rename_i hshort
    constructor
    · rintro ⟨⟩
      exact ⟨.array hshort, rfl⟩
    · rintro ⟨-, hpresent⟩
      rw [← hpresent]
  · rename_i hlong
    constructor
    · rintro ⟨⟩
    · rintro ⟨h, -⟩
      cases h with
      | array hshort => exact absurd hshort hlong

/-- The records are the values that are read as records. -/
theorem exists_record?_iff : (∃ r, v.record? fields = some r) ↔ v.IsRecord fields := by
  constructor
  · rintro ⟨r, hr⟩
    cases v with
    | object members => exact (record?_object_eq_some_iff.mp hr).1
    | array items => exact (record?_array_eq_some_iff.mp hr).1
    | null | boolean | number | string => cases hr
  · intro h
    cases v with
    | object members => exact ⟨⟨_⟩, record?_object_eq_some_iff.mpr ⟨h, rfl⟩⟩
    | array items => exact ⟨⟨_⟩, record?_array_eq_some_iff.mpr ⟨h, rfl⟩⟩
    | null | boolean | number | string => cases h

theorem mem_present_iff (hr : v.record? fields = some r) (hname : name ∈ fields) :
    (name, w) ∈ r.present ↔ v.Has fields name w := by
  cases v with
  | object members =>
      obtain ⟨⟨htexts, -⟩, hpresent⟩ := record?_object_eq_some_iff.mp hr
      rw [hpresent, List.mem_filter, mem_named_iff htexts]
      constructor
      · rintro ⟨⟨key, hmem, hkey⟩, -⟩
        exact .member hmem hkey
      · rintro ⟨hmem, hkey⟩
        exact ⟨⟨_, hmem, hkey⟩, List.contains_iff_mem.mpr hname⟩
  | array items =>
      obtain ⟨-, hpresent⟩ := record?_array_eq_some_iff.mp hr
      rw [hpresent, List.mem_iff_getElem?]
      constructor
      · rintro ⟨i, hi⟩
        obtain ⟨hfield, hitem⟩ := List.getElem?_zip_eq_some.mp hi
        exact .item hfield hitem
      · intro h
        cases h with
        | item hfield hitem => exact ⟨_, List.getElem?_zip_eq_some.mpr ⟨hfield, hitem⟩⟩
  | null | boolean | number | string => cases hr

theorem nodup_present (hfields : fields.Nodup) (hr : v.record? fields = some r) :
    (r.present.map Prod.fst).Nodup := by
  cases v with
  | object members =>
      obtain ⟨⟨htexts, honce⟩, hpresent⟩ := record?_object_eq_some_iff.mp hr
      rw [hpresent]
      exact (nodup_named_iff htexts).mpr honce
  | array items =>
      obtain ⟨-, hpresent⟩ := record?_array_eq_some_iff.mp hr
      rw [hpresent, List.zip_eq_zip_take_min, List.map_fst_zip (by simp)]
      exact hfields.sublist (List.take_sublist _ _)
  | null | boolean | number | string => cases hr

end

end JsonValue

/-! ### Fields

A record that was read has in each of its fields what the value has there, so
reading a field is reading what stands in it.
-/

namespace JsonRecord

section
variable {α : Type} {fields : List String} {v w : JsonValue} {r : JsonRecord} {name : String}
variable {read : JsonValue → Option α} {P : JsonValue → α → Prop}

/-- What is known of a record: it is the one of `v`, whose fields are told apart by
their names. -/
structure Of (r : JsonRecord) (fields : List String) (v : JsonValue) : Prop where
  read : v.record? fields = some r
  nodup : fields.Nodup

theorem Of.isRecord (hr : r.Of fields v) : v.IsRecord fields :=
  JsonValue.exists_record?_iff.mp ⟨r, hr.read⟩

/-- What a reader makes of a record it reads from the fields, and it refuses what is
not a record. -/
theorem reads_record {f : JsonRecord → Option α} (hfields : fields.Nodup)
    (hrecord : ∀ v a, P v a → v.IsRecord fields)
    (hf : ∀ v r a, r.Of fields v → (f r = some a ↔ P v a)) :
    JsonValue.Reads (fun v => v.record? fields >>= f) P := by
  intro v a
  simp only [Option.bind_eq_bind, Option.bind_eq_some_iff]
  constructor
  · rintro ⟨r, hr, ha⟩
    exact (hf v r a ⟨hr, hfields⟩).mp ha
  · intro ha
    obtain ⟨r, hr⟩ := JsonValue.exists_record?_iff.mpr (hrecord v a ha)
    exact ⟨r, hr, (hf v r a ⟨hr, hfields⟩).mpr ha⟩

variable (hr : r.Of fields v) (hname : name ∈ fields)
include hr hname

theorem field?_eq_some_iff : r.field? name = some w ↔ v.Has fields name w := by
  have hfound {m : String × JsonValue} :
      r.present.find? (fun b => b.1 == name) = some m ↔ m ∈ r.present ∧ m.1 = name :=
    find?_key_eq_some_iff (JsonValue.nodup_present hr.nodup hr.read)
  rw [field?, Option.map_eq_some_iff, ← JsonValue.mem_present_iff hr.read hname]
  simp only [hfound]
  constructor
  · rintro ⟨m, ⟨hmem, rfl⟩, rfl⟩
    exact hmem
  · intro hmem
    exact ⟨_, ⟨hmem, rfl⟩, rfl⟩

theorem field?_eq_none_iff : r.field? name = none ↔ ∀ w, ¬v.Has fields name w := by
  simp only [Option.eq_none_iff_forall_ne_some, ne_eq, field?_eq_some_iff hr hname]

variable (hread : JsonValue.Reads read P)
include hread

theorem required_iff {a : α} : r.required name read = some a ↔ v.Field fields name P a := by
  simp only [required, Option.bind_eq_bind, Option.bind_eq_some_iff, field?_eq_some_iff hr hname,
    hread _ a, JsonValue.Field]

theorem withDefault_iff {absent a : α} :
    r.withDefault name absent read = some a ↔ v.FieldOr fields name P absent a := by
  rw [withDefault, JsonValue.FieldOr, ← required_iff hr hname hread, required,
    ← field?_eq_none_iff hr hname]
  cases r.field? name with
  | none => simp [eq_comm]
  | some w => simp

theorem list_iff {l : List α} :
    r.list name read = some l ↔ v.FieldOr fields name (JsonValue.IsList P) [] l :=
  withDefault_iff hr hname hread.list

theorem nullable_iff {given : Option α} :
    r.nullable name read = some given ↔ v.FieldOr fields name (JsonValue.IsNullable P) none given :=
  withDefault_iff hr hname hread.nullable

end

end JsonRecord

end VariantSelection
