/-
Replacing a text in another one.

What is replaced cuts the other text into pieces and is found in none of them.  The
same pieces with the new text between them are the result (`ReplacesEach`).  Where
the old text starts with a character that it does not have again, there is one way
to cut: an occurrence neither overlaps another one nor reaches from one piece into
the next (`not_prefix_append`).
-/
import VariantSelection.Pom
import VariantSelection.Proofs.Text.Fields

namespace VariantSelection

/-- `result` is `s` with `new` in the place of every `old`: between these stand
pieces without an `old`. -/
def ReplacesEach (old new s result : String) : Prop :=
  ∃ pieces : List String, (∀ piece ∈ pieces, ¬old.toList <:+: piece.toList) ∧
    joinWith old pieces = s ∧ joinWith new pieces = result

namespace Pom

variable {old new : List Char}

/-! ### One step

The scan goes on character by character, and behind an occurrence it counts down the
characters that belong to it.
-/

/-- Characters that are still to be skipped may as well not be there. -/
theorem replaceFrom_eq_drop (skip : Nat) (cs : List Char) :
    replaceFrom old new skip cs = replaceFrom old new 0 (cs.drop skip) := by
  induction cs generalizing skip with
  | nil => rw [List.drop_nil, replaceFrom, replaceFrom]
  | cons c rest ih =>
      cases skip with
      | zero => rw [List.drop_zero]
      | succ skip =>
          rw [replaceFrom, if_pos (Nat.succ_pos skip), List.drop_succ_cons]
          exact ih skip

theorem replaceFrom_append_old (hold : old ≠ []) (rest : List Char) :
    replaceFrom old new 0 (old ++ rest) = new ++ replaceFrom old new 0 rest := by
  obtain ⟨first, tail, rfl⟩ := List.exists_cons_of_ne_nil hold
  have hfound : (first :: tail).isPrefixOf (first :: (tail ++ rest)) = true :=
    List.isPrefixOf_iff_prefix.mpr (List.prefix_append (first :: tail) rest)
  have hskip : (tail ++ rest).drop ((first :: tail).length - 1) = rest := by
    simp
  rw [List.cons_append, replaceFrom, if_neg (Nat.lt_irrefl 0), if_pos hfound, replaceFrom_eq_drop,
    hskip]

theorem replaceFrom_cons {c : Char} {rest : List Char} (h : ¬old <+: c :: rest) :
    replaceFrom old new 0 (c :: rest) = c :: replaceFrom old new 0 rest := by
  rw [replaceFrom, if_neg (Nat.lt_irrefl 0), if_neg (by rwa [List.isPrefixOf_iff_prefix])]

/-! ### Every text is cut -/

theorem intercalate_cons_cons (sep : List Char) (c : Char) (first : List Char)
    (rest : List (List Char)) :
    sep.intercalate ((c :: first) :: rest) = c :: sep.intercalate (first :: rest) := by
  cases rest with
  | nil => simp
  | cons next rest => simp [List.intercalate_cons_cons]

theorem prefix_intercalate (sep first : List Char) (rest : List (List Char)) :
    first <+: sep.intercalate (first :: rest) := by
  induction first with
  | nil => exact List.nil_prefix
  | cons c first ih =>
      rw [intercalate_cons_cons]
      exact List.cons_prefix_cons.mpr ⟨rfl, ih⟩

/-- Every text is cut by `old`: an occurrence of it ends a piece, and any other
character belongs to one. -/
theorem exists_pieces (hold : old ≠ []) (new : List Char) : ∀ cs : List Char,
    ∃ first rest, (∀ piece ∈ first :: rest, ¬old <:+: piece) ∧
      old.intercalate (first :: rest) = cs ∧
      new.intercalate (first :: rest) = replaceFrom old new 0 cs
  | [] => ⟨[], [], by simpa using hold, by simp, by simp [replaceFrom]⟩
  | c :: cs => by
      by_cases hfound : old <+: c :: cs
      · obtain ⟨after, hafter⟩ := hfound
        have hshorter : after.length < (c :: cs).length := by
          have hsome := List.length_pos_iff.mpr hold
          rw [← hafter, List.length_append]
          omega
        obtain ⟨first, rest, hfree, htext, hresult⟩ := exists_pieces hold new after
        refine ⟨[], first :: rest, ?_, ?_, ?_⟩
        · exact List.forall_mem_cons.mpr ⟨by simpa using hold, hfree⟩
        · rw [List.intercalate_cons_cons, htext, List.nil_append, hafter]
        · rw [List.intercalate_cons_cons, hresult, List.nil_append, ← hafter,
            replaceFrom_append_old hold]
      · obtain ⟨first, rest, hfree, htext, hresult⟩ := exists_pieces hold new cs
        rw [List.forall_mem_cons] at hfree
        have hfirst : ¬old <:+: c :: first := by
          intro hinfix
          rcases List.infix_cons_iff.mp hinfix with hfront | hinfix
          · have hstart := prefix_intercalate old (c :: first) rest
            rw [intercalate_cons_cons, htext] at hstart
            exact hfound (hfront.trans hstart)
          · exact hfree.1 hinfix
        refine ⟨c :: first, rest, List.forall_mem_cons.mpr ⟨hfirst, hfree.2⟩, ?_, ?_⟩
        · rw [intercalate_cons_cons, htext]
        · rw [intercalate_cons_cons, hresult, replaceFrom_cons hfound]
termination_by cs => cs.length
decreasing_by
  · exact hshorter
  · exact Nat.lt_succ_self cs.length

/-! ### And in one way

The old text is `start :: tail` from here on, and `start` is not in `tail`.
-/

section
variable {start : Char} {tail : List Char} (hstart : start ∉ tail)
include hstart

/-- An occurrence does not start in a piece that it is not in, whatever comes
behind the piece. -/
theorem not_prefix_append {piece rest : List Char} (hsome : piece ≠ [])
    (hfree : ¬start :: tail <:+: piece) (hrest : rest = [] ∨ start :: tail <+: rest) :
    ¬start :: tail <+: piece ++ rest := by
  intro hfront
  have hlonger : piece.length < (start :: tail).length := by
    refine Nat.lt_of_not_le fun hle => hfree ?_
    exact (List.prefix_of_prefix_length_le hfront (List.prefix_append piece rest) hle).isInfix
  rcases hrest with rfl | ⟨behind, rfl⟩
  · rw [List.append_nil] at hfront
    exact hfree hfront.isInfix
  · -- The occurrence has the start of the next one in it, behind its own start.
    obtain ⟨c, others, rfl⟩ := List.exists_cons_of_ne_nil hsome
    have hnext : c :: others ++ [start] <+: c :: others ++ (start :: tail ++ behind) := by
      simp
    have hlength : (c :: others ++ [start]).length ≤ (start :: tail).length := by
      rw [List.length_append]
      exact hlonger
    have hwithin := List.prefix_of_prefix_length_le hnext hfront hlength
    have hagain := (List.cons_prefix_cons.mp hwithin).2
    exact hstart (hagain.subset (List.mem_append_right others List.mem_cons_self))

theorem replaceFrom_append {piece rest : List Char} (hfree : ¬start :: tail <:+: piece)
    (hrest : rest = [] ∨ start :: tail <+: rest) :
    replaceFrom (start :: tail) new 0 (piece ++ rest)
      = piece ++ replaceFrom (start :: tail) new 0 rest := by
  induction piece with
  | nil => rfl
  | cons c piece ih =>
      have hnot : ¬start :: tail <+: c :: (piece ++ rest) :=
        not_prefix_append hstart (List.cons_ne_nil c piece) hfree hrest
      rw [List.cons_append, List.cons_append, replaceFrom_cons hnot]
      rw [ih fun hinfix => hfree (List.infix_cons_iff.mpr (.inr hinfix))]

theorem replaceFrom_intercalate {pieces : List (List Char)}
    (hfree : ∀ piece ∈ pieces, ¬start :: tail <:+: piece) :
    replaceFrom (start :: tail) new 0 ((start :: tail).intercalate pieces)
      = new.intercalate pieces := by
  induction pieces with
  | nil => simp [replaceFrom]
  | cons piece pieces ih =>
      obtain ⟨hpiece, hpieces⟩ := List.forall_mem_cons.mp hfree
      cases pieces with
      | nil =>
          rw [List.intercalate_singleton, List.intercalate_singleton, ← List.append_nil piece,
            replaceFrom_append hstart hpiece (.inl rfl), replaceFrom]
      | cons next pieces =>
          rw [List.intercalate_cons_cons, List.intercalate_cons_cons, List.append_assoc,
            replaceFrom_append hstart hpiece (.inr (List.prefix_append _ _)),
            replaceFrom_append_old (List.cons_ne_nil start tail), ih hpieces, List.append_assoc]

/-- **Replacing from the left replaces every occurrence.** -/
theorem replacesEach_iff {old s result : String} {new : String}
    (hold : old.toList = start :: tail) :
    ReplacesEach old new s result ↔
      String.ofList (replaceFrom old.toList new.toList 0 s.toList) = result := by
  rw [← String.toList_inj, String.toList_ofList]
  constructor
  · rintro ⟨pieces, hfree, rfl, rfl⟩
    rw [toList_joinWith, toList_joinWith, hold]
    rw [hold] at hfree
    exact replaceFrom_intercalate hstart (by simpa using hfree)
  · intro hresult
    have hsome : old.toList ≠ [] := by
      rw [hold]
      exact List.cons_ne_nil start tail
    obtain ⟨first, rest, hfree, htext, hpieces⟩ := exists_pieces hsome new.toList s.toList
    refine ⟨(first :: rest).map String.ofList, ?_, ?_, ?_⟩
    · intro piece hpiece
      obtain ⟨cs, hcs, rfl⟩ := List.mem_map.mp hpiece
      rw [String.toList_ofList]
      exact hfree cs hcs
    · rw [← String.toList_inj, toList_joinWith]
      simpa using htext
    · rw [← String.toList_inj, toList_joinWith, ← hresult]
      simpa using hpieces

end

end Pom

end VariantSelection
