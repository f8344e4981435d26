/-
A document is read back from its text.

The values of the assignments are plain: texts, integers, truth values, and arrays
of these.  Each is read whatever comes behind it (`scanTomlValue_plain`), as long as
that cannot be part of it: a comma, a bracket or the end of the line.  The lines are
then read one after another (`ConsistsOf.scan`), and the blank ones between the
sections are passed over.
-/
import VariantSelection.Proofs.Toml.Number
import VariantSelection.Toml.Document

namespace VariantSelection

/-! ### Values

A scalar needs no room, and an array of scalars room for one level.  The fuel is
counted in characters, of which each step of a scanner takes one at least.
-/

namespace TomlValue

/-- A text, an integer or a truth value. -/
def isScalar : TomlValue → Bool
  | .string _ => true
  | .integer _ => true
  | .boolean _ => true
  | _ => false

/-- A value without tables, and without arrays of arrays. -/
def isPlain : TomlValue → Bool
  | .array items => items.all isScalar
  | v => v.isScalar

end TomlValue

section
variable {v : TomlValue} {items : List TomlValue} {rest : List Char} {room fuel : Nat}

theorem writeTomlText_head (cs : List Char) :
    ∃ quote more, writeTomlText cs = quote :: more ∧ (quote = '"' ∨ quote = '\'') := by
  unfold writeTomlText basicLines literalLines basicText
  simp only
  repeat' split
  all_goals first
    | exact ⟨'"', _, rfl, Or.inl rfl⟩
    | exact ⟨'\'', _, rfl, Or.inr rfl⟩

theorem toString_head (n : Int) :
    ∃ c more, (toString n).toList = c :: more ∧ (c = '-' ∨ c.isDigit = true) := by
  cases n with
  | ofNat m =>
      obtain ⟨d, ds, hds⟩ := List.exists_cons_of_ne_nil (Nat.toDigits_ne_nil (b := 10) (n := m))
      refine ⟨d, ds, ?_, Or.inr (isDigit_of_mem_digits (n := m) (by simp [hds]))⟩
      rw [toList_toString_ofNat, hds]
  | negSucc m => exact ⟨'-', _, toList_toString_negSucc m, Or.inl rfl⟩

theorem TomlValue.text_head (hv : v.isScalar = true) :
    ∃ c more, v.text.toList = c :: more ∧ StartsTomlWord c := by
  cases v with
  | string s =>
      obtain ⟨quote, more, heq, hquote⟩ := writeTomlText_head s.toList
      exact ⟨quote, more, by simp [TomlValue.text, heq], Or.inr hquote⟩
  | integer n =>
      obtain ⟨c, more, heq, hc⟩ := toString_head n.toInt
      refine ⟨c, more, by rw [TomlValue.text, heq], Or.inl ?_⟩
      rcases hc with rfl | hdigit
      · decide
      · simp [isTomlKeyChar, Char.isAlphanum, hdigit]
  | boolean b =>
      cases b
      · exact ⟨'f', _, rfl, Or.inl (by decide)⟩
      · exact ⟨'t', _, rfl, Or.inl (by decide)⟩
  | float _ => cases hv
  | datetime _ => cases hv
  | array _ => cases hv
  | table _ => cases hv

/-- Every text, integer and truth value is read back from what is written for it. -/
theorem scanTomlValue_scalar (room fuel : Nat) (hv : v.isScalar = true)
    (hrest : EndsTomlValue rest) :
    scanTomlValue room (fuel + 1) (v.text.toList ++ rest) = some (v, rest) := by
  cases v with
  | string s =>
      obtain ⟨quote, more, heq, hquote⟩ := writeTomlText_head s.toList
      have hread := scanTomlText_writeTomlText s.toList (hrest.head?_ne (c := '"') (by decide))
        (hrest.head?_ne (c := '\'') (by decide))
      rw [TomlValue.text, String.toList_ofList]
      rw [heq, List.cons_append] at hread ⊢
      have hvalue : scanTomlValue room (fuel + 1) (quote :: (more ++ rest))
          = (scanTomlText (quote :: (more ++ rest))).map
              fun r => (.string (String.ofList r.1), r.2) := by
        rcases hquote with rfl | rfl <;> rfl
      rw [hvalue, hread, Option.map_some, String.ofList_toList]
  | integer n =>
      obtain ⟨c, more, heq, hc⟩ := toString_head n.toInt
      have hmark : ∀ mark, mark ≠ '-' → mark.isDigit = false → c ≠ mark := by
        intro mark hminus hdigit hcm
        rcases hc with rfl | hc
        · exact hminus hcm.symm
        · rw [hcm, hdigit] at hc
          cases hc
      have hdate := scanTomlDatetime_toString n hrest
      have hnumber := scanTomlNumber_toString n hrest
      rw [TomlValue.text]
      rw [heq, List.cons_append] at hdate hnumber ⊢
      rw [scanTomlValue.eq_6 _ _ _ _ (hmark '[' (by decide) (by decide))
        (hmark '\x7b' (by decide) (by decide))
        (fun _ hct _ => hmark 't' (by decide) (by decide) hct)
        (fun _ hcf _ => hmark 'f' (by decide) (by decide) hcf), if_neg, hdate, hnumber]
      simp [hmark '"' (by decide) (by decide), hmark '\'' (by decide) (by decide)]
  | boolean b => cases b <;> rfl
  | float _ => cases hv
  | datetime _ => cases hv
  | array _ => cases hv
  | table _ => cases hv

theorem afterTomlSpace_of_head {c : Char} (hc : c ∉ [' ', '\t', '\n', '\r', '#']) :
    afterTomlSpace false (c :: rest) = c :: rest := by
  simp only [List.mem_cons, List.not_mem_nil, or_false, not_or] at hc
  obtain ⟨hspace, htab, hline, hreturn, hcomment⟩ := hc
  rw [afterTomlSpace.eq_4 _ _ _ hline (fun _ hcr _ => hreturn hcr)]
  simp [isTomlBlank, hspace, htab, hcomment]

theorem afterTomlSpace_scalar (rest : List Char) (hv : v.isScalar = true) :
    ∃ c more, afterTomlSpace false (v.text.toList ++ rest) = c :: more ∧ c ≠ ']' ∧
      v.text.toList ++ rest = c :: more := by
  obtain ⟨c, more, heq, hstart⟩ := TomlValue.text_head hv
  have hmem := hstart.not_mem
  simp only [List.mem_cons, List.not_mem_nil, or_false, not_or] at hmem
  rw [heq, List.cons_append, afterTomlSpace_of_head (by simp [hmem])]
  exact ⟨c, more ++ rest, rfl, hmem.2.2.2.2.2.2.1, rfl⟩

/-- One item of an array, up to what is behind it. -/
theorem scanTomlItems_scalar (room : Nat) (hv : v.isScalar = true) (hrest : EndsTomlValue rest)
    (hfuel : 0 < fuel) :
    scanTomlItems room (fuel + 1) (v.text.toList ++ rest)
      = match afterTomlSpace false rest with
        | ',' :: rest => (scanTomlItems room fuel rest).map fun r => (v :: r.1, r.2)
        | ']' :: rest => some ([v], rest)
        | _ => none := by
  obtain ⟨fuel, rfl⟩ := Nat.exists_eq_succ_of_ne_zero (Nat.ne_zero_of_lt hfuel)
  obtain ⟨c, more, hspace, hc, heq⟩ := afterTomlSpace_scalar rest hv
  have hread := scanTomlValue_scalar room fuel hv hrest
  rw [scanTomlItems.eq_2, hspace]
  rw [heq] at hread
  split
  case h_1 more' hclose => exact absurd (List.cons.inj hclose).1 hc
  case h_2 =>
      rw [hread]
      rfl

/-- The items of an array, each on a line of its own. -/
def itemLines : List TomlValue → List Char
  | [] => []
  | v :: items => ' ' :: ' ' :: ' ' :: ' ' :: (v.text.toList ++ ',' :: '\n' :: itemLines items)

theorem scanTomlItems_itemLines (room : Nat) (rest : List Char) (items : List TomlValue) :
    ∀ {fuel : Nat}, (∀ v ∈ items, v.isScalar = true) → items.length < fuel →
      scanTomlItems room fuel ('\n' :: (itemLines items ++ ']' :: rest)) = some (items, rest) := by
  induction items with
  | nil =>
      intro fuel _ hfuel
      obtain ⟨fuel, rfl⟩ := Nat.exists_eq_succ_of_ne_zero (Nat.ne_zero_of_lt hfuel)
      rfl
  | cons v items ih =>
      intro fuel hall hfuel
      obtain ⟨fuel, rfl⟩ := Nat.exists_eq_succ_of_ne_zero (Nat.ne_zero_of_lt hfuel)
      have hlength : items.length < fuel := by
        rw [List.length_cons] at hfuel
        omega
      have hrest := ih (fun w hw => hall w (List.mem_cons_of_mem _ hw)) hlength
      have hends : EndsTomlValue (',' :: '\n' :: (itemLines items ++ ']' :: rest)) :=
        ⟨',', _, rfl, by simp⟩
      have hitem := scanTomlItems_scalar room (hall v List.mem_cons_self) hends
        (Nat.zero_lt_of_lt hlength)
      -- The line break and the blanks in front of the item are passed over.
      have hgap : scanTomlItems room (fuel + 1)
            ('\n' :: (itemLines (v :: items) ++ ']' :: rest))
          = scanTomlItems room (fuel + 1)
              (v.text.toList ++ ',' :: '\n' :: (itemLines items ++ ']' :: rest)) := by
        simp only [itemLines, List.cons_append, List.append_assoc]
        rfl
      rw [hgap, hitem]
      show (scanTomlItems room fuel _).map _ = _
      rw [hrest]
      rfl

theorem toList_join_itemTexts (items : List TomlValue) :
    (String.join ((itemTexts items).map fun item => "    " ++ item ++ ",\n")).toList
      = itemLines items := by
  induction items with
  | nil => rfl
  | cons v items ih => simp [itemTexts, itemLines, String.join_cons, ih]

/-- The three ways in which an array is written. -/
theorem toList_arrayText (items : List TomlValue) :
    (items = [] ∧ (arrayText (itemTexts items)).toList = ['[', ']']) ∨
      (∃ v, items = [v] ∧ (arrayText (itemTexts items)).toList = '[' :: (v.text.toList ++ [']'])) ∨
      (arrayText (itemTexts items)).toList = '[' :: '\n' :: (itemLines items ++ [']']) := by
  match items with
  | [] => exact Or.inl ⟨rfl, rfl⟩
  | [v] => exact Or.inr (Or.inl ⟨v, rfl, by simp [arrayText, itemTexts]⟩)
  | v :: w :: items =>
      right
      right
      have htext : arrayText (itemTexts (v :: w :: items))
          = "[\n" ++ String.join ((itemTexts (v :: w :: items)).map
              fun item => "    " ++ item ++ ",\n") ++ "]" := rfl
      rw [htext, String.toList_append, String.toList_append, toList_join_itemTexts]
      simp

theorem length_le_itemLines (items : List TomlValue) : items.length ≤ (itemLines items).length := by
  induction items with
  | nil => exact Nat.le_refl 0
  | cons v items ih =>
      simp only [itemLines, List.length_cons, List.length_append]
      omega

/-- Behind the opening bracket its items are read, whether `arrayText` puts them on
one line or on several. -/
theorem exists_items_arrayText (room : Nat) (rest : List Char)
    (hall : ∀ v ∈ items, v.isScalar = true)
    (hfuel : (arrayText (itemTexts items)).toList.length < fuel + 1) :
    ∃ text, (arrayText (itemTexts items)).toList = '[' :: text ∧
      scanTomlItems room fuel (text ++ rest) = some (items, rest) := by
  rcases toList_arrayText items with ⟨rfl, htext⟩ | ⟨v, rfl, htext⟩ | htext
  · rw [htext] at hfuel
    have hpos : fuel ≠ 0 := by
      simp only [List.length_cons, List.length_nil] at hfuel
      omega
    obtain ⟨fuel, rfl⟩ := Nat.exists_eq_succ_of_ne_zero hpos
    exact ⟨[']'], htext, rfl⟩
  · refine ⟨_, htext, ?_⟩
    have hitem := hall v (List.mem_singleton.mpr rfl)
    have hlength : 1 < fuel := by
      obtain ⟨c, more, heq, -⟩ := TomlValue.text_head hitem
      rw [htext, heq] at hfuel
      simp only [List.length_cons, List.length_append] at hfuel
      omega
    obtain ⟨fuel, rfl⟩ := Nat.exists_eq_succ_of_ne_zero (Nat.ne_zero_of_lt hlength)
    have hends : EndsTomlValue (']' :: rest) := ⟨']', _, rfl, by simp⟩
    rw [List.append_assoc, List.singleton_append,
      scanTomlItems_scalar room hitem hends (Nat.lt_of_succ_lt_succ hlength)]
    rfl
  · refine ⟨_, htext, ?_⟩
    have hlength : items.length < fuel := by
      have hitems := length_le_itemLines items
      rw [htext] at hfuel
      simp only [List.length_cons, List.length_append] at hfuel
      omega
    simpa using scanTomlItems_itemLines room rest items hall hlength

/-- Every plain value is read back from what is written for it. -/
theorem scanTomlValue_plain (hv : v.isPlain = true) (hrest : EndsTomlValue rest)
    (hfuel : v.text.toList.length < fuel) :
    scanTomlValue (room + 1) fuel (v.text.toList ++ rest) = some (v, rest) := by
  obtain ⟨fuel, rfl⟩ := Nat.exists_eq_succ_of_ne_zero (Nat.ne_zero_of_lt hfuel)
  cases v with
  | array items =>
      rw [TomlValue.text] at hfuel ⊢
      obtain ⟨text, htext, hitems⟩ :=
        exists_items_arrayText room rest (List.all_eq_true.mp hv) hfuel
      rw [htext, List.cons_append, scanTomlValue.eq_2, if_neg (Nat.succ_ne_zero room),
        Nat.add_sub_cancel, hitems]
      rfl
  | string _ => exact scanTomlValue_scalar _ _ hv hrest
  | integer _ => exact scanTomlValue_scalar _ _ hv hrest
  | boolean _ => exact scanTomlValue_scalar _ _ hv hrest
  | float _ => cases hv
  | datetime _ => cases hv
  | table _ => cases hv

end

/-! ### Lines

A line is an assignment or a header, and both are scanned whole, up to the line break.
-/

/-- A plain value under a name of one part. -/
structure TomlAssignment.Plain (a : TomlAssignment) : Prop where
  path : a.path = []
  value : a.value.isPlain = true

/-- The written form of a header. -/
def tomlHeaderText (key : List String) (repeated : Bool) : String :=
  let words := joinWith "." (key.map tomlWordText)
  if repeated then "[[" ++ words ++ "]]\n" else "[" ++ words ++ "]\n"

namespace TomlLine

/-- The written form of a line. -/
def text : TomlLine → String
  | .assignment a => a.text
  | .header key repeated => tomlHeaderText key repeated

/-- A line that is read back: a plain assignment, or a header with a key that is
not too long. -/
def Plain : TomlLine → Prop
  | .assignment a => a.Plain
  | .header key _ => key ≠ [] ∧ key.length ≤ tomlKeyLimit

end TomlLine

section
variable {line : TomlLine} {rest : List Char}

theorem joinWith_words_head (word : String) (words : List String) :
    ∃ c more, (joinWith "." ((word :: words).map tomlWordText)).toList = c :: more
      ∧ StartsTomlWord c := by
  obtain ⟨c, more, heq, hstart⟩ := writeTomlWord_head word
  have htext : (tomlWordText word).toList = c :: more := by
    rw [tomlWordText, heq, String.toList_ofList]
  cases words with
  | nil => exact ⟨c, more, htext, hstart⟩
  | cons next words =>
      have hjoin : (joinWith "." ((word :: next :: words).map tomlWordText)).toList
          = c :: (more ++ '.' :: (joinWith "." ((next :: words).map tomlWordText)).toList) := by
        simp [joinWith, htext]
      exact ⟨c, _, hjoin, hstart⟩

theorem dropWhile_plain {v : TomlValue} (rest : List Char) (hv : v.isPlain = true) :
    (v.text.toList ++ rest).dropWhile isTomlBlank = v.text.toList ++ rest := by
  have hhead : ∃ c more, v.text.toList = c :: more ∧ isTomlBlank c = false := by
    by_cases hscalar : v.isScalar = true
    · obtain ⟨c, more, heq, hstart⟩ := TomlValue.text_head hscalar
      exact ⟨c, more, heq, hstart.not_blank⟩
    · cases v with
      | array items =>
          rcases toList_arrayText items with ⟨-, htext⟩ | ⟨v, -, htext⟩ | htext
          all_goals exact ⟨'[', _, htext, rfl⟩
      | string _ => exact absurd rfl hscalar
      | integer _ => exact absurd rfl hscalar
      | boolean _ => exact absurd rfl hscalar
      | float _ => cases hv
      | datetime _ => cases hv
      | table _ => cases hv
  obtain ⟨c, more, heq, hblank⟩ := hhead
  rw [heq, List.cons_append, List.dropWhile_cons, hblank]
  rfl

theorem afterLine?_lineBreak (rest : List Char) : afterLine? ('\n' :: rest) = some rest := rfl

theorem TomlAssignment.toList_text {a : TomlAssignment} (ha : a.Plain) :
    a.text.toList = (joinWith "." ([a.name].map tomlWordText)).toList
      ++ ' ' :: '=' :: ' ' :: (a.value.text.toList ++ ['\n']) := by
  simp [TomlAssignment.text, tomlKeyText, ha.path]

theorem scanTomlLine_assignment {a : TomlAssignment} (ha : a.Plain) (rest : List Char) :
    scanTomlLine (a.text.toList ++ rest) = some (.assignment a, rest) := by
  let value := a.value.text.toList ++ '\n' :: rest
  have hkey := scanTomlKey_words (' ' :: '=' :: ' ' :: value)
    (by simp [isTomlKeyChar]) (by simp [isTomlBlank]) [a.name] tomlKeyLimit (by simp)
    (by simp [tomlKeyLimit])
  have hends : EndsTomlValue ('\n' :: rest) := ⟨'\n', _, rfl, by simp⟩
  have hvalue : scanTomlValue tomlDepthLimit (3 * value.length + 1) value
      = some (a.value, '\n' :: rest) := by
    apply scanTomlValue_plain ha.value hends
    simp only [value, List.length_append, List.length_cons]
    omega
  have hdrop : (' ' :: value).dropWhile isTomlBlank = value := dropWhile_plain _ ha.value
  have htext : a.text.toList ++ rest
      = (joinWith "." ([a.name].map tomlWordText)).toList ++ ' ' :: '=' :: ' ' :: value := by
    simp [TomlAssignment.toList_text ha, value]
  obtain ⟨c, more, hhead, hstart⟩ := joinWith_words_head a.name []
  have hne : ∀ more', a.text.toList ++ rest ≠ '[' :: more' := by
    intro more' heq
    rw [htext, hhead] at heq
    have hmem := hstart.not_mem
    rw [(List.cons.inj heq).1] at hmem
    exact hmem (by simp)
  rw [scanTomlLine.eq_3 _ (fun more' => hne _) hne, htext, hkey]
  have hspace : (' ' :: '=' :: ' ' :: value).dropWhile isTomlBlank = '=' :: ' ' :: value := rfl
  have ha' : assignment? [a.name] a.value = some a := by
    have hpath := ha.path
    cases a with
    | mk path name value =>
        rw [show path = [] from hpath]
        rfl
  simp only [Option.bind_eq_bind, Option.bind_some, hspace, hdrop, hvalue, ha',
    afterLine?_lineBreak]
  rfl

theorem scanTomlLine_header {key : List String} {repeated : Bool} (hne : key ≠ [])
    (hlength : key.length ≤ tomlKeyLimit) (rest : List Char) :
    scanTomlLine ((tomlHeaderText key repeated).toList ++ rest)
      = some (.header key repeated, rest) := by
  obtain ⟨word, words, rfl⟩ := List.exists_cons_of_ne_nil hne
  obtain ⟨c, more, hhead, hstart⟩ := joinWith_words_head word words
  cases repeated with
  | true =>
      have hkey := scanTomlKey_words (']' :: ']' :: '\n' :: rest) (by simp [isTomlKeyChar])
        (by simp [isTomlBlank]) (word :: words) tomlKeyLimit hne hlength
      have htext : (tomlHeaderText (word :: words) true).toList ++ rest
          = '[' :: '[' :: ((joinWith "." ((word :: words).map tomlWordText)).toList
              ++ ']' :: ']' :: '\n' :: rest) := by
        simp [tomlHeaderText]
      rw [htext, scanTomlLine.eq_1, hkey]
      rfl
  | false =>
      have hkey := scanTomlKey_words (']' :: '\n' :: rest) (by simp [isTomlKeyChar])
        (by simp [isTomlBlank]) (word :: words) tomlKeyLimit hne hlength
      have htext : (tomlHeaderText (word :: words) false).toList ++ rest
          = '[' :: ((joinWith "." ((word :: words).map tomlWordText)).toList
              ++ ']' :: '\n' :: rest) := by
        simp [tomlHeaderText]
      rw [htext, scanTomlLine.eq_2, hkey]
      · rfl
      · intro more' heq
        rw [hhead, List.cons_append] at heq
        have hmem := hstart.not_mem
        rw [(List.cons.inj heq).1] at hmem
        exact hmem (by simp)

/-- Every plain line is read back from what is written for it. -/
theorem scanTomlLine_text (hline : line.Plain) (rest : List Char) :
    scanTomlLine (line.text.toList ++ rest) = some (line, rest) := by
  cases line with
  | assignment a => exact scanTomlLine_assignment hline rest
  | header key repeated => exact scanTomlLine_header hline.1 hline.2 rest

theorem TomlLine.text_head (hline : line.Plain) :
    ∃ c more, line.text.toList = c :: more ∧ c ∉ [' ', '\t', '\n', '\r', '#', '\uFEFF'] := by
  cases line with
  | assignment a =>
      obtain ⟨c, more, hhead, hstart⟩ := joinWith_words_head a.name []
      have hmem := hstart.not_mem
      simp only [List.mem_cons, not_or] at hmem
      have htext := TomlAssignment.toList_text (a := a) hline
      rw [hhead, List.cons_append] at htext
      exact ⟨c, _, htext, by simp [hmem]⟩
  | header key repeated =>
      have htext : ∃ more, (tomlHeaderText key repeated).toList = '[' :: more := by
        cases repeated <;> simp [tomlHeaderText]
      obtain ⟨more, htext⟩ := htext
      exact ⟨'[', more, htext, by simp⟩

end

/-! ### Documents

`ConsistsOf` says that characters consist of lines, with blank lines anywhere
between them.  The scanner is followed along it, line by line.
-/

/-- A text that consists of these lines, with blank ones between them. -/
inductive ConsistsOf : List TomlLine → List Char → Prop
  | nil : ConsistsOf [] []
  | blank {lines cs} (h : ConsistsOf lines cs) : ConsistsOf lines ('\n' :: cs)
  | line {line lines cs} (hline : line.Plain) (h : ConsistsOf lines cs) :
      ConsistsOf (line :: lines) (line.text.toList ++ cs)

namespace ConsistsOf

variable {lines more : List TomlLine} {cs ds : List Char}

theorem append (h : ConsistsOf lines cs) (hmore : ConsistsOf more ds) :
    ConsistsOf (lines ++ more) (cs ++ ds) := by
  induction h with
  | nil => exact hmore
  | blank _ ih => exact .blank ih
  | line hline _ ih =>
      rw [List.append_assoc]
      exact .line hline ih

theorem length_le (h : ConsistsOf lines cs) : lines.length ≤ cs.length := by
  induction h with
  | nil => exact Nat.le_refl 0
  | blank _ ih => exact Nat.le_succ_of_le ih
  | line hline _ ih =>
      obtain ⟨c, more, hhead, -⟩ := TomlLine.text_head hline
      rw [hhead, List.cons_append, List.length_cons, List.length_cons, List.length_append]
      omega

theorem head?_ne (h : ConsistsOf lines cs) : cs.head? ≠ some '\uFEFF' := by
  cases h with
  | nil => simp
  | blank _ => simp
  | line hline _ =>
      obtain ⟨c, more, hhead, hc⟩ := TomlLine.text_head hline
      simp only [List.mem_cons, not_or] at hc
      simp [hhead, hc]

/-- The lines are read one after another. -/
theorem scan (h : ConsistsOf lines cs) :
    ∀ {fuel : Nat}, lines.length < fuel → scanTomlLinesFrom fuel cs = some lines := by
  induction h with
  | nil =>
      intro fuel hfuel
      obtain ⟨fuel, rfl⟩ := Nat.exists_eq_succ_of_ne_zero (Nat.ne_zero_of_lt hfuel)
      rfl
  | blank _ ih =>
      intro fuel hfuel
      have hrest := ih hfuel
      obtain ⟨fuel, rfl⟩ := Nat.exists_eq_succ_of_ne_zero (Nat.ne_zero_of_lt hfuel)
      rw [scanTomlLinesFrom.eq_2] at hrest ⊢
      rw [afterTomlSpace.eq_2]
      exact hrest
  | @line line lines cs hline _ ih =>
      intro fuel hfuel
      obtain ⟨fuel, rfl⟩ := Nat.exists_eq_succ_of_ne_zero (Nat.ne_zero_of_lt hfuel)
      have hrest := ih (Nat.lt_of_succ_lt_succ hfuel)
      have hread := scanTomlLine_text hline cs
      obtain ⟨c, more, hhead, hc⟩ := TomlLine.text_head hline
      simp only [List.mem_cons, List.not_mem_nil, or_false, not_or] at hc
      rw [hhead, List.cons_append] at hread ⊢
      rw [scanTomlLinesFrom.eq_2, afterTomlSpace_of_head (by simp [hc])]
      simp only [hread, hrest, Option.bind_eq_bind, Option.bind_some]
      rfl

end ConsistsOf

/-- A section of plain assignments under a key that is not too long. -/
structure TomlSection.Plain (s : TomlSection) : Prop where
  path : s.path.length < tomlKeyLimit
  assignments : ∀ a ∈ s.assignments, a.Plain

/-- A document of plain assignments and sections. -/
structure TomlDocument.Plain (d : TomlDocument) : Prop where
  assignments : ∀ a ∈ d.assignments, a.Plain
  sections : ∀ s ∈ d.sections, s.Plain

/-- The lines of a section. -/
def TomlSection.lines (s : TomlSection) : List TomlLine :=
  .header (s.path ++ [s.name]) s.repeated :: s.assignments.map .assignment

/-- The lines of a document. -/
def TomlDocument.lines (d : TomlDocument) : List TomlLine :=
  d.assignments.map .assignment ++ d.sections.flatMap TomlSection.lines

theorem consistsOf_assignments {assignments : List TomlAssignment}
    (h : ∀ a ∈ assignments, a.Plain) :
    ConsistsOf (assignments.map .assignment)
      (String.join (assignments.map TomlAssignment.text)).toList := by
  induction assignments with
  | nil => exact .nil
  | cons a assignments ih =>
      have hrest := ih fun b hb => h b (List.mem_cons_of_mem _ hb)
      rw [List.map_cons, List.map_cons, String.join_cons, String.toList_append]
      exact .line (h a List.mem_cons_self) hrest

theorem consistsOf_section {s : TomlSection} (h : s.Plain) : ConsistsOf s.lines s.text.toList := by
  have htext : s.text.toList = (tomlHeaderText (s.path ++ [s.name]) s.repeated).toList
      ++ (String.join (s.assignments.map TomlAssignment.text)).toList := by
    rw [TomlSection.text, String.toList_append]
    rfl
  have hpath := h.path
  rw [htext, TomlSection.lines]
  have hheader : (TomlLine.header (s.path ++ [s.name]) s.repeated).Plain := by
    refine ⟨by simp, ?_⟩
    rw [List.length_append, List.length_singleton]
    omega
  exact .line hheader (consistsOf_assignments h.assignments)

/-- Texts with a blank line between each two of them. -/
theorem consistsOf_joinWith {blocks : List (List TomlLine × String)}
    (h : ∀ b ∈ blocks, ConsistsOf b.1 b.2.toList) :
    ConsistsOf (blocks.flatMap Prod.fst) (joinWith "\n" (blocks.map Prod.snd)).toList := by
  induction blocks with
  | nil => exact .nil
  | cons b blocks ih =>
      have hfirst := h b List.mem_cons_self
      have hrest := ih fun d hd => h d (List.mem_cons_of_mem _ hd)
      cases blocks with
      | nil => simpa [joinWith] using hfirst
      | cons d blocks =>
          have htext : (joinWith "\n" ((b :: d :: blocks).map Prod.snd)).toList
              = b.2.toList ++ '\n' :: (joinWith "\n" ((d :: blocks).map Prod.snd)).toList := by
            simp [joinWith]
          rw [htext, List.flatMap_cons]
          exact hfirst.append (.blank hrest)

theorem consistsOf_document {d : TomlDocument} (h : d.Plain) :
    ConsistsOf d.lines d.text.toList := by
  let head := String.join (d.assignments.map TomlAssignment.text)
  let blocks := d.sections.map fun s => (s.lines, s.text)
  have hhead : ConsistsOf (d.assignments.map .assignment) head.toList :=
    consistsOf_assignments h.assignments
  have hblocks : ∀ b ∈ blocks, ConsistsOf b.1 b.2.toList := by
    intro b hb
    obtain ⟨s, hs, rfl⟩ := List.mem_map.mp hb
    exact consistsOf_section (h.sections s hs)
  have hlines : blocks.flatMap Prod.fst = d.sections.flatMap TomlSection.lines := by
    simp [blocks, List.flatMap_map]
  have htexts : blocks.map Prod.snd = d.sections.map TomlSection.text := by
    simp [blocks]
  by_cases hempty : head.isEmpty = true
  · -- A text that is empty has no lines.
    have hnone : d.assignments = [] := by
      have hlength := hhead.length_le
      rw [String.isEmpty_iff.mp hempty] at hlength
      simpa using hlength
    have htext : d.text = joinWith "\n" (blocks.map Prod.snd) := by
      rw [htexts, TomlDocument.text]
      simp only [head] at hempty
      rw [if_pos hempty, List.nil_append]
    rw [htext, TomlDocument.lines, hnone, ← hlines]
    exact consistsOf_joinWith hblocks
  · have htext : d.text
        = joinWith "\n" (((d.assignments.map .assignment, head) :: blocks).map Prod.snd) := by
      rw [List.map_cons, htexts, TomlDocument.text]
      simp only [head] at hempty ⊢
      rw [if_neg hempty, List.singleton_append]
    rw [htext, TomlDocument.lines, ← hlines]
    refine @consistsOf_joinWith ((_, head) :: blocks) fun b hb => ?_
    rcases List.mem_cons.mp hb with rfl | hb
    · exact hhead
    · exact hblocks b hb

/-- The lines of a document are put together to it. -/
theorem foldr_addFirst (d : TomlDocument) : d.lines.foldr TomlDocument.addFirst ⟨[], []⟩ = d := by
  have hassignments : ∀ (assignments : List TomlAssignment) (e : TomlDocument),
      (assignments.map TomlLine.assignment).foldr TomlDocument.addFirst e
        = { e with assignments := assignments ++ e.assignments } := by
    intro assignments e
    induction assignments with
    | nil => rfl
    | cons a assignments ih => rw [List.map_cons, List.foldr_cons, ih]; rfl
  have hsections : ∀ sections : List TomlSection,
      (sections.flatMap TomlSection.lines).foldr TomlDocument.addFirst ⟨[], []⟩
        = ⟨[], sections⟩ := by
    intro sections
    induction sections with
    | nil => rfl
    | cons s sections ih =>
        rw [List.flatMap_cons, List.foldr_append, ih, TomlSection.lines, List.foldr_cons,
          hassignments]
        simp [TomlDocument.addFirst]
  rw [TomlDocument.lines, List.foldr_append, hsections, hassignments]
  simp

/-- **Every plain document is read back from its text.** -/
theorem TomlDocument.parse?_text {d : TomlDocument} (h : d.Plain) :
    TomlDocument.parse? d.text = some d := by
  have hlines := consistsOf_document h
  have hread := hlines.scan (Nat.lt_succ_of_le hlines.length_le)
  unfold TomlDocument.parse?
  split
  case h_1 rest hmark => exact absurd (by rw [hmark]; rfl) hlines.head?_ne
  case h_2 =>
      simp only [hread, Option.bind_eq_bind, Option.bind_some, foldr_addFirst]
      rfl

end VariantSelection
