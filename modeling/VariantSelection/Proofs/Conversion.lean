/-
How a value is spelled never matters.

Requests and documents may spell a value as what it is or as its text.  Converting
either gives the same result, the failure with its message included
(`Value.coerce_text`): what is written for an integer or a truth value is read as
exactly that, and where one type has no use for the other, the text is refused as
the value is.  What a conversion gives is of the attribute's type, so converting it
again leaves it alone.  From single values this goes over to whole sets, which are
converted entry by entry: those of requests, and those in module metadata.
-/
import Mathlib.Data.List.Nodup
import VariantSelection.Metadata.Component
import VariantSelection.Proofs.Registry
import VariantSelection.Proofs.Text.Numeral
import VariantSelection.Attribute.Standard

namespace VariantSelection

/-! ### One value

The cases are those of the two types at hand.  An integer could be taken for a truth
value only if one of the words for these were a numeral, and none is.
-/

namespace Value

/-- A value is one of its own type already. -/
theorem coerce?_type (v : Value) : v.coerce? v.type = some v := by
  cases v <;> rfl

theorem integer?_trim_text (n : Int64) :
    integer? (trimChars (text (.integer n)).toList) = some n := by
  show integer? (trimChars (toString n.toInt).toList) = some n
  rw [trimChars_toString, integer?_toString]

/-- No integer is written like a truth value, or its text would be read as one. -/
theorem text_integer_ne {word : String} (h : integer? word.toList = none) (n : Int64) :
    trimBlanks (text (.integer n)) ≠ word := by
  intro hword
  have hread := integer?_trim_text n
  rw [← String.toList_ofList (l := trimChars _)] at hread
  rw [trimBlanks] at hword
  rw [hword, h] at hread
  cases hread

/-- **A value and its text convert alike.** -/
theorem coerce?_text (v : Value) (t : ValueType) : (string v.text).coerce? t = v.coerce? t := by
  cases v with
  | string s => rfl
  | boolean b =>
      cases t with
      | string => rfl
      | integer => cases b <;> rfl
      | boolean => cases b <;> rfl
  | integer n =>
      cases t with
      | string => rfl
      | integer =>
          simp only [coerce?]
          rw [integer?_trim_text, Option.map_some]
      | boolean =>
          have htrue : trimBlanks (text (.integer n)) ≠ "true" := text_integer_ne (by decide) n
          have hfalse : trimBlanks (text (.integer n)) ≠ "false" := text_integer_ne (by decide) n
          -- Neither word is there, so the text is refused as the integer is.
          simp only [coerce?]

/-- The message of a failure shows the text, so it is the same too. -/
theorem coerce_text (v : Value) (name : String) (t : ValueType) :
    (string v.text).coerce name t = v.coerce name t := by
  unfold coerce
  rw [coerce?_text]
  rfl

end Value

/-! ### The type of an attribute

`Admits` says what the type of a value ought to be without the look-up; since no
name is registered twice, the look-up says the same (`admits_iff`).
-/

namespace Registry

variable {r : Registry} {name : String} {v w : Value}

/-- The value is of the type that `name` is registered with, or a string where it is
not registered. -/
def Admits (r : Registry) (name : String) (v : Value) : Prop :=
  (∀ d ∈ r.definitions, d.name = name → v.type = d.type) ∧ (name ∉ r.names → v.type = .string)

/-- No name is registered twice, so the definition that `find?` gives is the only one. -/
theorem admits_iff : r.Admits name v ↔ v.type = r.typeOf name := by
  unfold Admits typeOf
  cases hfound : r.find? name with
  | none =>
      have hnot := find?_eq_none_iff.mp hfound
      refine ⟨fun h => h.2 hnot, fun h => ⟨fun d hd hname => ?_, fun _ => h⟩⟩
      exact absurd (hname ▸ List.mem_map_of_mem hd) hnot
  | some d =>
      obtain ⟨hd, hname⟩ := find?_mem hfound
      refine ⟨fun h => h.1 d hd hname, fun h => ⟨fun e he hename => ?_, fun hnot => ?_⟩⟩
      · rw [List.inj_on_of_nodup_map r.names_nodup he hd (hename.trans hname.symm)]
        exact h
      · exact absurd (hname ▸ List.mem_map_of_mem hd) hnot

theorem admits_of_coerce (h : r.coerce name v = .ok w) : r.Admits name w :=
  admits_iff.mpr (type_of_coerce h)

/-- What is of the right type is left as it is. -/
theorem coerce_of_admits (h : r.Admits name v) : r.coerce name v = .ok v := by
  rw [coerce, ← admits_iff.mp h, Value.coerce_eq_ok_iff, Value.coerce?_type]

theorem coerce_text (r : Registry) (name : String) (v : Value) :
    r.coerce name (.string v.text) = r.coerce name v :=
  Value.coerce_text v name (r.typeOf name)

end Registry

/-! ### Sets of values

`spelledOut` replaces any choice of the values by their texts.  Neither conversion
of a set can tell.  In a document it is the scalars that are spelled out, before
anything is made of them.
-/

/-- The set with the values of the chosen attributes spelled as texts. -/
def AttributeSet.spelledOut (set : AttributeSet) (chosen : String → Bool) : AttributeSet :=
  set.mapValues fun name v => if chosen name then .string v.text else v

namespace Metadata

/-- The entry with its scalar spelled as a text. -/
def AttributeEntry.spelledOut : AttributeEntry → AttributeEntry
  | .string s => .string s
  | .boolean b => .string (Value.boolean b).text
  | .number (.integer n) => .string (Value.integer n).text
  | .number (.large n) => .string (toString n.toNat)
  | .number (.real x) => .string (doubleText x)
  | .nonScalar => .nonScalar

/-- The entries of a document with the values of the chosen attributes
spelled as texts. -/
def spelledOut (entries : SortedMap String AttributeEntry) (chosen : String → Bool) :
    SortedMap String AttributeEntry :=
  entries.mapValues fun name e => if chosen name then e.spelledOut else e

theorem typed_spelledOut (path variant : String) (r : Registry) (name : String)
    (e : AttributeEntry) :
    e.spelledOut.typed path variant r name = e.typed path variant r name := by
  have htext : ∀ v : Value, (r.coerce name (.string v.text)).mapError
        (MetadataError.illTypedAttribute path variant)
      = (r.coerce name v).mapError (MetadataError.illTypedAttribute path variant) := by
    intro v
    rw [r.coerce_text]
  cases e with
  | string s => rfl
  | boolean b => exact htext (.boolean b)
  | number n =>
      cases n with
      | integer n => exact htext (.integer n)
      | large n => rfl
      | real x => rfl
  | nonScalar => rfl

theorem typedAttributes_spelledOut (path variant : String) (r : Registry)
    (entries : SortedMap String AttributeEntry) (chosen : String → Bool) :
    typedAttributes path variant r (spelledOut entries chosen)
      = typedAttributes path variant r entries := by
  refine SortedMap.traverse_mapValues_of_eq fun name e => ?_
  by_cases h : chosen name = true
  · rw [if_pos h, typed_spelledOut]
  · rw [if_neg h]

end Metadata

theorem Registry.coerceSet_spelledOut (r : Registry) (set : AttributeSet) (chosen : String → Bool) :
    r.coerceSet (AttributeSet.spelledOut set chosen) = r.coerceSet set := by
  refine SortedMap.traverse_mapValues_of_eq fun name v => ?_
  by_cases h : chosen name = true
  · rw [if_pos h, r.coerce_text]
  · rw [if_neg h]

/-! ### Conversion -/

/-- **How a value is spelled never matters.**  A value and its text convert alike,
also where they are refused; what comes out is of the registered type and stays as
it is; and spelling out any values of a request or of a document changes nothing.
So a requested and a provided value of one text satisfy every rule. -/
theorem coerce_regardless_of_spelling (r : Registry) :
    (∀ name v, r.coerce name v = r.coerce name (.string v.text)) ∧
    (∀ name v w, r.coerce name v = .ok w → r.Admits name w ∧ r.coerce name w = .ok w) ∧
    (∀ set chosen, r.coerceSet (AttributeSet.spelledOut set chosen) = r.coerceSet set) ∧
    (∀ path variant entries chosen,
      Metadata.typedAttributes path variant r (Metadata.spelledOut entries chosen)
        = Metadata.typedAttributes path variant r entries) ∧
    (∀ name requested provided wanted found, requested.text = provided.text →
      r.coerce name requested = .ok wanted → r.coerce name provided = .ok found →
      (r.compatibilityRule name).isCompatible wanted found = true) := by
  refine ⟨fun name v => (r.coerce_text name v).symm, fun name v w h => ?_, r.coerceSet_spelledOut,
    fun path variant => Metadata.typedAttributes_spelledOut path variant r, ?_⟩
  · have hadmits := Registry.admits_of_coerce h
    exact ⟨hadmits, Registry.coerce_of_admits hadmits⟩
  · intro name requested provided wanted found htext hwanted hfound
    have hsame : wanted = found := by
      rw [← r.coerce_text, htext, r.coerce_text, hfound] at hwanted
      exact (Except.ok.inj hwanted).symm
    simp [CompatibilityRule.isCompatible, hsame]

/-- The least version, as a number and as its text. -/
theorem coerce_regardless_of_spelling_least : ∃ r, Registry.standard = .ok r ∧
    r.coerce Standard.jvmVersion (.string "-9223372036854775808")
      = .ok (.integer Int64.minValue) ∧
    r.Admits Standard.jvmVersion (.integer Int64.minValue) ∧
    r.coerce Standard.jvmVersion (.integer Int64.minValue) = .ok (.integer Int64.minValue) ∧
    (r.compatibilityRule Standard.jvmVersion).isCompatible (.integer Int64.minValue)
      (.integer Int64.minValue) = true := by
  have hstandard : ∃ r, Registry.standard = .ok r ∧
      r.coerce Standard.jvmVersion (.string "-9223372036854775808")
        = .ok (.integer Int64.minValue) := ⟨_, rfl, rfl⟩
  obtain ⟨r, hr, htext⟩ := hstandard
  obtain ⟨-, htyped, -, -, hmatch⟩ := coerce_regardless_of_spelling r
  obtain ⟨hadmits, hagain⟩ := htyped _ _ _ htext
  exact ⟨r, hr, htext, hadmits, hagain, hmatch _ _ _ _ _ (by decide) hagain htext⟩

end VariantSelection
