/-
Paths made longer by a name.

The words of a path are the steps it consists of.  A name put behind a path adds one
word, whether the path is empty, ends with a slash or does not
(`IsName.words_join`); where the walk starts stays as it was, and the longer path
ends with the name.  `IsName.join_cases` is the one place where the three ways of
putting a name behind a path are told apart.
-/
import Mathlib.Data.List.Basic
import VariantSelection.Files.System
import VariantSelection.Proofs.Text.Fields

namespace VariantSelection

theorem FileSystem.isMove_eq_false_iff {step : String} :
    isMove step = false ↔ step ≠ "." ∧ step ≠ ".." := by
  simp [isMove]

namespace Path

/-- The names and dots that a path consists of. -/
def words (p : Path) : List String := (VariantSelection.fields '/' p.text).filter (· ≠ "")

/-- A text that names an entry of a directory. -/
structure IsName (name : String) : Prop where
  ne_empty : name ≠ ""
  slash : '/' ∉ name.toList
  move : FileSystem.isMove name = false

instance (name : String) : Decidable (IsName name) :=
  decidable_of_iff (name ≠ "" ∧ '/' ∉ name.toList ∧ FileSystem.isMove name = false)
    ⟨fun ⟨hne, hslash, hmove⟩ => ⟨hne, hslash, hmove⟩, fun h => ⟨h.ne_empty, h.slash, h.move⟩⟩

section
variable {name : String} (base : Path)

theorem fields_append (a b : String) : VariantSelection.fields '/' (a ++ "/" ++ b)
    = VariantSelection.fields '/' a ++ VariantSelection.fields '/' b := by
  have htext : (a ++ "/" ++ b).toList = a.toList ++ '/' :: b.toList := by simp
  simp only [VariantSelection.fields, htext, fieldsOf_append, List.map_append]

theorem words_append (a b : String) :
    words ⟨a ++ "/" ++ b⟩ = words ⟨a⟩ ++ words ⟨b⟩ := by
  simp only [words, fields_append, List.filter_append]

theorem IsName.fields (h : IsName name) : VariantSelection.fields '/' name = [name] := by
  simp [VariantSelection.fields, fieldsOf_of_not_mem h.slash]

theorem IsName.words (h : IsName name) : words ⟨name⟩ = [name] := by
  simp [Path.words, h.fields, h.ne_empty]

/-- The steps of a path that ends with a name are its words. -/
theorem steps_of_not_endsWithSlash {p : Path} (h : p.endsWithSlash = false) :
    p.steps = p.words := by
  unfold steps
  rw [h]
  exact List.append_nil p.words

theorem IsName.not_absolute (h : IsName name) : isAbsolute ⟨name⟩ = false := by
  have hhead : name.toList.head? ≠ some '/' := fun heq => h.slash (List.mem_of_mem_head? heq)
  simpa [isAbsolute] using hhead

/-- The three ways in which a name is put behind a path. -/
theorem IsName.join_cases (h : IsName name) :
    (base.text = "" ∧ base.join name = ⟨name⟩) ∨
      (∃ front, base.text = front ++ "/" ∧ base.join name = ⟨front ++ "/" ++ name⟩) ∨
      (base.text ≠ "" ∧ base.join name = ⟨base.text ++ "/" ++ name⟩) := by
  unfold join
  rw [h.not_absolute, if_neg (by decide)]
  by_cases hempty : base.text = ""
  · exact Or.inl ⟨hempty, by simp [hempty]⟩
  · right
    by_cases hslash : base.text.toList.getLast? = some '/'
    · left
      obtain ⟨front, hfront⟩ := List.getLast?_eq_some_iff.mp hslash
      have htext : base.text = String.ofList front ++ "/" := by
        rw [← String.toList_inj, hfront]
        simp
      exact ⟨String.ofList front, htext, by simp [htext]⟩
    · exact Or.inr ⟨hempty, by simp [hempty, hslash]⟩

theorem IsName.words_join (h : IsName name) : (base.join name).words = base.words ++ [name] := by
  rcases h.join_cases base with ⟨hempty, hjoin⟩ | ⟨front, hfront, hjoin⟩ | ⟨-, hjoin⟩
  · have hbase : base.words = [] := by simp [Path.words, VariantSelection.fields, hempty, fieldsOf]
    rw [hjoin, hbase, h.words, List.nil_append]
  · have hbase : base.words = Path.words ⟨front⟩ := by
      have hsplit := words_append front ""
      rw [String.append_empty] at hsplit
      have hnone : Path.words ⟨""⟩ = [] := by simp [Path.words, VariantSelection.fields, fieldsOf]
      rw [hnone, List.append_nil, ← hfront] at hsplit
      exact hsplit
    rw [hjoin, words_append, h.words, hbase]
  · rw [hjoin, words_append, h.words]

/-- The text of the longer path ends with `name`, and starts as `base` does. -/
theorem IsName.text_join (h : IsName name) :
    ∃ front, (base.join name).text = front ++ name ∧
      front.toList.head? = base.text.toList.head? := by
  rcases h.join_cases base with ⟨hempty, hjoin⟩ | ⟨front, hfront, hjoin⟩ | ⟨hne, hjoin⟩
  · exact ⟨"", by simp [hjoin], by simp [hempty]⟩
  · exact ⟨front ++ "/", by simp [hjoin], by simp [hfront]⟩
  · refine ⟨base.text ++ "/", by simp [hjoin], ?_⟩
    have hsome : base.text.toList ≠ [] := by simpa using hne
    simp [List.head?_append_of_ne_nil _ hsome]

theorem IsName.isAbsolute_join (h : IsName name) :
    (base.join name).isAbsolute = base.isAbsolute := by
  obtain ⟨front, htext, hhead⟩ := h.text_join base
  have hname := h.not_absolute
  unfold isAbsolute at hname ⊢
  rw [htext, String.toList_append, ← hhead]
  cases hfront : front.toList with
  | nil => simpa using hname
  | cons c rest => rfl

theorem IsName.not_endsWithSlash (h : IsName name) : (base.join name).endsWithSlash = false := by
  obtain ⟨front, htext, -⟩ := h.text_join base
  have hlast : (front ++ name).toList.getLast? ≠ some '/' := by
    have hsome : name.toList ≠ [] := by simpa using h.ne_empty
    rw [String.toList_append, List.getLast?_append_of_ne_nil _ hsome]
    intro heq
    exact h.slash (List.mem_of_getLast? heq)
  unfold endsWithSlash
  rw [htext]
  simpa using hlast

theorem IsName.join_ne_empty (h : IsName name) : (base.join name).text ≠ "" := by
  obtain ⟨front, htext, -⟩ := h.text_join base
  rw [htext]
  intro heq
  have hname : name = "" := (String.append_eq_empty_iff.mp heq).2
  exact h.ne_empty hname

theorem IsName.ofStep (h : IsName name) : PathPart.ofStep name = .name name := by
  obtain ⟨hhere, habove⟩ := FileSystem.isMove_eq_false_iff.mp h.move
  rw [PathPart.ofStep, if_neg hhere, if_neg habove]

theorem IsName.isIdle (h : IsName name) : isIdle name = false := by
  obtain ⟨hhere, -⟩ := FileSystem.isMove_eq_false_iff.mp h.move
  simp [Path.isIdle, h.ne_empty, hhere]

/-- **A name put behind a path is one more part**, the last one. -/
theorem IsName.parts_join (h : IsName name) :
    (base.join name).parts = base.parts ++ [.name name] := by
  have habsolute := h.isAbsolute_join base
  have hempty : VariantSelection.fields '/' "" = [""] := rfl
  rcases h.join_cases base with ⟨hbase, hjoin⟩ | ⟨front, hfront, hjoin⟩ | ⟨-, hjoin⟩
  · have hrelative : base.isAbsolute = false := by simp [isAbsolute, hbase]
    rw [hrelative, hjoin] at habsolute
    unfold parts
    rw [hjoin, habsolute, hrelative, h.fields, hbase, hempty]
    simp [h.ne_empty, h.ofStep]
  · obtain ⟨first, rest, hfields⟩ := List.exists_cons_of_ne_nil
      (mt List.map_eq_nil_iff.mp (fieldsOf_ne_nil '/' front.toList))
    have hbase : VariantSelection.fields '/' base.text = first :: (rest ++ [""]) := by
      have hsplit := fields_append front ""
      rw [String.append_empty] at hsplit
      rw [hfront, hsplit, hempty, VariantSelection.fields, hfields, List.cons_append]
    unfold parts
    rw [habsolute, hbase, hjoin, fields_append, h.fields, VariantSelection.fields, hfields,
      List.cons_append]
    have hidle : Path.isIdle "" = true := rfl
    simp [List.filter_append, h.isIdle, hidle, h.ofStep]
  · obtain ⟨first, rest, hfields⟩ := List.exists_cons_of_ne_nil
      (mt List.map_eq_nil_iff.mp (fieldsOf_ne_nil '/' base.text.toList))
    unfold parts
    rw [habsolute, hjoin, fields_append, h.fields, VariantSelection.fields, hfields,
      List.cons_append]
    simp [List.filter_append, h.isIdle, h.ofStep]

/-- A path that was made longer by a name ends with that name. -/
theorem IsName.fileName?_join (h : IsName name) : (base.join name).fileName? = some name := by
  unfold fileName?
  rw [h.parts_join, List.getLast?_concat]

end

/-! ### Extensions

What comes behind the last dot of a name is its extension, unless nothing stands in
front of that dot.
-/

/-- The name ends with a dot and the extension, which has no dot, and something
stands in front of that dot. -/
def HasExtension (name extension : String) : Prop :=
  ∃ stem, stem ≠ "" ∧ name = stem ++ "." ++ extension ∧ '.' ∉ extension.toList

/-- The extension is the last field of a name, if the fields before it are not one
empty field. -/
theorem extensionOf?_eq_some_iff {name extension : String} :
    extensionOf? name = some extension ↔ HasExtension name extension := by
  unfold extensionOf?
  constructor
  · intro h
    split at h
    · cases h
    · cases h
    · cases h
    · rename_i last before hone hempty hfields
      rw [Option.some.injEq] at h
      have hsplit : fieldsOf '.' name.toList = before.reverse ++ [last] := by
        rw [← List.reverse_inj, hfields, List.reverse_concat, List.reverse_reverse]
      have hfree : ∀ f ∈ fieldsOf '.' name.toList, '.' ∉ f := not_mem_of_mem_fieldsOf name.toList
      rw [hsplit] at hfree
      -- The stem is what the fields before the last one are cut from.
      have hstem : fieldsOf '.' (['.'].intercalate before.reverse) = before.reverse := by
        rw [fieldsOf_eq_splitOn, List.splitOn_intercalate '.' (fun f hf => hfree f (by simp [hf]))]
        simpa using hone
      refine ⟨String.ofList (['.'].intercalate before.reverse), ?_, ?_, ?_⟩
      · intro heq
        have hnil : ['.'].intercalate before.reverse = [] := by simpa using heq
        rw [hnil] at hstem
        have hbefore : before = [[]] := by
          rw [← List.reverse_inj, ← hstem]
          rfl
        exact hempty hbefore
      · rw [← String.toList_inj]
        apply fieldsOf_inj.mp
        rw [hsplit, ← h]
        have hlast := fieldsOf_of_not_mem (hfree last (by simp))
        simp [fieldsOf_append, hstem, hlast]
      · rw [← h, String.toList_ofList]
        exact hfree last (by simp)
  · rintro ⟨stem, hstem, rfl, hfree⟩
    have hfields : (fieldsOf '.' (stem ++ "." ++ extension).toList).reverse
        = extension.toList :: (fieldsOf '.' stem.toList).reverse := by
      simp [fieldsOf_append, fieldsOf_of_not_mem hfree]
    rw [hfields]
    split
    · rename_i heq
      cases heq
    · rename_i heq
      simp [fieldsOf_ne_nil] at heq
    · rename_i heq
      have hnil : fieldsOf '.' stem.toList = fieldsOf '.' [] := by
        simpa [fieldsOf] using (List.cons.inj heq).2
      rw [fieldsOf_inj] at hnil
      exact absurd (by simpa using hnil) hstem
    · rename_i heq
      rw [List.cons.injEq] at heq
      rw [← heq.1, String.ofList_toList]

theorem IsName.hasExtension_join {name : String} {extensions : List String} (base : Path)
    (h : IsName name) :
    (base.join name).hasExtension extensions = true ↔ ∃ e ∈ extensions, HasExtension name e := by
  unfold hasExtension extension?
  rw [h.fileName?_join, Option.bind_some]
  simp only [← extensionOf?_eq_some_iff]
  cases extensionOf? name with
  | none => simp
  | some e => simp

end Path

end VariantSelection
