/-
Every text and every part of a key is read back from what is written for it.

Four kinds of quotes are in use, and which of them a text gets depends on its
characters.  Double quotes, single and tripled, do for every text, because whatever
may not stand between them is escaped; an escape is read as the character that it
stands for (`WrittenAs`).  Single quotes do only for texts without control
characters, and without what would end them.  Inside tripled quotes up to two quotes
in a row are part of the text, also right before the closing ones: there the run is
longer than a text can have, and its last three quotes end the text
(`closingQuotes?_of_all`).
-/
import Mathlib.Data.List.TakeWhile
import VariantSelection.Proofs.Text.Fields
import VariantSelection.Toml.Layout

namespace VariantSelection

/-! ### Line breaks -/

theorem afterLineBreak?_of_head {cs : List Char} (h : ∀ c ∈ cs.head?, c ≠ '\n' ∧ c ≠ '\r') :
    afterLineBreak? cs = none := by
  unfold afterLineBreak?
  split
  · simp at h
  · simp at h
  · rfl

theorem not_lineBreak_of_isTomlPlain {c : Char} (h : isTomlPlain c = true) :
    c ≠ '\n' ∧ c ≠ '\r' := by
  constructor <;> (intro hc; rw [hc] at h; exact absurd h (by decide))

/-! ### Escapes

A character is written in as many characters as it takes, and `WrittenAs` lists the
ways.  The scanners are followed along these, not along the characters.
-/

/-- The ways in which a character can stand between double quotes: as itself, as a
line break where there may be some, and as an escape that is read as the character. -/
inductive WrittenAs (lines : Bool) (c : Char) : List Char → Prop
  | plain (hplain : isTomlPlain c = true) (hslash : c ≠ '\\') : WrittenAs lines c [c]
  | lineBreak (hlines : lines = true) (hc : c = '\n') : WrittenAs lines c ['\n']
  | escape {mark : Char} {digits : List Char}
      (hmark : isTomlBlank mark = false ∧ mark ≠ '\n' ∧ mark ≠ '\r')
      (hread : ∀ rest, scanTomlEscape (mark :: (digits ++ rest)) = some (c, rest)) :
      WrittenAs lines c ('\\' :: mark :: digits)

/-- The four digits of a control character stand for it. -/
theorem numberedTomlChar?_hexadecimal : ∀ n < 128,
    (hexadecimal (Char.ofNat n)).length = 4 ∧
      numberedTomlChar? (hexadecimal (Char.ofNat n)) = some (Char.ofNat n) := by
  decide

theorem scanTomlEscape_hexadecimal {c : Char} (h : c.toNat < 128) (rest : List Char) :
    scanTomlEscape ('u' :: (hexadecimal c ++ rest)) = some (c, rest) := by
  obtain ⟨hlength, hread⟩ := numberedTomlChar?_hexadecimal c.toNat h
  rw [Char.ofNat_toNat] at hlength hread
  obtain ⟨a, b, d, e, hdigits⟩ : ∃ a b d e, hexadecimal c = [a, b, d, e] := by
    match hexadecimal c, hlength with
    | [a, b, d, e], _ => exact ⟨a, b, d, e, rfl⟩
  rw [hdigits] at hread ⊢
  simp only [List.cons_append, List.nil_append, scanTomlEscape, hread, Option.map_some]

theorem writtenAs_escapeTomlChar (lines : Bool) (c : Char) :
    WrittenAs lines c (escapeTomlChar lines c) := by
  have hmark : ∀ mark ∈ ['b', 't', 'n', 'f', 'r', '\\', 'u'],
      isTomlBlank mark = false ∧ mark ≠ '\n' ∧ mark ≠ '\r' := by
    simp [isTomlBlank]
  unfold escapeTomlChar
  by_cases hbackspace : c = '\x08'
  · rw [if_pos hbackspace, hbackspace]
    exact .escape (hmark 'b' (by simp)) fun _ => rfl
  rw [if_neg hbackspace]
  by_cases htab : c = '\t'
  · rw [if_pos htab, htab]
    exact .escape (hmark 't' (by simp)) fun _ => rfl
  rw [if_neg htab]
  by_cases hbreak : c = '\n'
  · rw [if_pos hbreak]
    cases lines with
    | true => exact .lineBreak rfl hbreak
    | false =>
        rw [hbreak]
        exact .escape (hmark 'n' (by simp)) fun _ => rfl
  rw [if_neg hbreak]
  by_cases hfeed : c = '\x0c'
  · rw [if_pos hfeed, hfeed]
    exact .escape (hmark 'f' (by simp)) fun _ => rfl
  rw [if_neg hfeed]
  by_cases hreturn : c = '\r'
  · rw [if_pos hreturn, hreturn]
    exact .escape (hmark 'r' (by simp)) fun _ => rfl
  rw [if_neg hreturn]
  by_cases hslash : c = '\\'
  · rw [if_pos hslash, hslash]
    exact .escape (hmark '\\' (by simp)) fun _ => rfl
  rw [if_neg hslash]
  by_cases hcontrol : c < ' ' ∨ c = '\x7f'
  · rw [if_pos (by simpa using hcontrol)]
    have hsmall : c.toNat < 128 := by
      rcases hcontrol with hlt | rfl
      · have hlt' : c.toNat < ' '.toNat := hlt
        have hspace : ' '.toNat = 32 := rfl
        omega
      · decide
    exact .escape (hmark 'u' (by simp)) (scanTomlEscape_hexadecimal hsmall)
  · rw [if_neg (by simpa using hcontrol)]
    obtain ⟨hge, hdelete⟩ := not_or.mp hcontrol
    refine .plain ?_ hslash
    simp [isTomlPlain, hdelete, Char.not_lt.mp hge]

/-- How `escapeToml` writes the next character, and whether this is a quote that
counts in a run. -/
theorem escapeToml_cons (lines : Bool) (quotes run : Nat) (c : Char) (cs : List Char) :
    ∃ written next,
      escapeToml lines quotes run (c :: cs) = written ++ escapeToml lines quotes next cs ∧
      WrittenAs lines c written ∧
      ((written = ['"'] ∧ c = '"' ∧ run < quotes ∧ next = run + 1) ∨
        (written.head? ≠ some '"' ∧ next = 0)) := by
  by_cases hquote : c = '"'
  · rw [hquote]
    by_cases hrun : run < quotes
    · refine ⟨['"'], run + 1, ?_, .plain (by decide) (by decide), Or.inl ⟨rfl, rfl, hrun, rfl⟩⟩
      rw [escapeToml, if_pos hrun, List.singleton_append]
    · refine ⟨['\\', '"'], 0, ?_, .escape (by decide) fun _ => rfl, Or.inr ⟨by simp, rfl⟩⟩
      rw [escapeToml, if_neg hrun]
      rfl
  · have hwritten := writtenAs_escapeTomlChar lines c
    refine ⟨escapeTomlChar lines c, 0, escapeToml.eq_3 _ _ _ _ _ hquote, hwritten,
      Or.inr ⟨?_, rfl⟩⟩
    generalize escapeTomlChar lines c = written at hwritten
    cases hwritten with
    | plain hplain hslash => simpa using hquote
    | lineBreak hlines hc => simp
    | escape hmark hread => simp

theorem length_le_escapeToml (lines : Bool) (quotes : Nat) (cs : List Char) :
    ∀ run, cs.length ≤ (escapeToml lines quotes run cs).length := by
  induction cs with
  | nil => simp [escapeToml]
  | cons c cs ih =>
      intro run
      obtain ⟨written, next, heq, hwritten, -⟩ := escapeToml_cons lines quotes run c cs
      have hpos : 0 < written.length := by
        cases hwritten <;> simp
      have hrest := ih next
      rw [heq, List.length_append, List.length_cons]
      omega

/-! ### Double quotes -/

section
variable {c : Char} {cs written rest : List Char} {fuel : Nat}

theorem scanTomlBasic_written (h : WrittenAs false c written) (hhead : written.head? ≠ some '"') :
    scanTomlBasic (fuel + 1) (written ++ rest)
      = (scanTomlBasic fuel rest).map fun r => (c :: r.1, r.2) := by
  cases h with
  | plain hplain hslash =>
      have hquote : c ≠ '"' := by simpa using hhead
      rw [List.singleton_append, scanTomlBasic.eq_5 _ _ _ hquote hslash, if_pos hplain]
  | lineBreak hlines _ => cases hlines
  | escape hmark hread =>
      simp only [List.cons_append, scanTomlBasic, hread, Option.bind_eq_bind, Option.bind_some]
      cases scanTomlBasic fuel rest <;> rfl

theorem scanTomlBasic_escapeToml (cs : List Char) :
    ∀ {fuel : Nat}, cs.length < fuel →
      scanTomlBasic fuel (escapeToml false 0 0 cs ++ '"' :: rest) = some (cs, rest) := by
  induction cs with
  | nil =>
      intro fuel hfuel
      obtain ⟨fuel, rfl⟩ := Nat.exists_eq_add_of_lt hfuel
      simp [escapeToml, scanTomlBasic]
  | cons c cs ih =>
      intro fuel hfuel
      obtain ⟨fuel, rfl⟩ := Nat.exists_eq_succ_of_ne_zero (Nat.ne_zero_of_lt hfuel)
      obtain ⟨written, next, heq, hwritten, hquote⟩ := escapeToml_cons false 0 0 c cs
      obtain ⟨hhead, hnext⟩ : written.head? ≠ some '"' ∧ next = 0 := by
        rcases hquote with ⟨-, -, hrun, -⟩ | hother
        · exact absurd hrun (Nat.not_lt_zero 0)
        · exact hother
      rw [heq, hnext, List.append_assoc, scanTomlBasic_written hwritten hhead,
        ih (by simpa using hfuel), Option.map_some]

/-! ### Runs of quotes

`run` is the number of quotes that stand before the text.  It is carried through the
induction, since two quotes that are already there make a third one the last.
-/

theorem closingQuotes?_of_all {quote : Char} (cs : List Char) (hlength : cs.length ≤ 2)
    (hall : ∀ c ∈ cs, c = quote) (hrest : rest.head? ≠ some quote) :
    closingQuotes? quote (cs ++ quote :: quote :: quote :: rest) = some (cs, rest) := by
  have hrun : (cs ++ quote :: quote :: quote :: rest).takeWhile (· = quote)
      = cs ++ [quote, quote, quote] := by
    have hsplit : cs ++ quote :: quote :: quote :: rest
        = (cs ++ [quote, quote, quote]) ++ rest := by simp
    rw [hsplit]
    refine takeWhile_append_of_stop ?_ ?_
    · intro c hc
      rcases List.mem_append.mp hc with hc | hc
      · simp [hall c hc]
      · simpa using hc
    · intro c hc
      have hne : c ≠ quote := by
        intro hcq
        rw [hcq] at hc
        exact hrest hc
      simpa using hne
  unfold closingQuotes?
  rw [hrun]
  match cs, hlength, hall with
  | [], _, _ => rfl
  | [a], _, hall => simp [hall a (by simp)]
  | [a, b], _, hall => simp [hall a (by simp), hall b (by simp)]

theorem closingQuotes?_of_not_all {quote : Char} (rest : List Char)
    (hrun : (cs.takeWhile (· = quote)).length ≤ 2) (hother : ∃ c ∈ cs, c ≠ quote) :
    closingQuotes? quote (cs ++ rest) = none := by
  have hshort : (cs.takeWhile (· = quote)).length ≠ cs.length := by
    intro hlength
    obtain ⟨c, hc, hne⟩ := hother
    have hall : cs.takeWhile (· = quote) = cs :=
      (List.takeWhile_sublist _).eq_of_length hlength
    exact hne (by simpa using List.takeWhile_eq_self_iff.mp hall c hc)
  unfold closingQuotes?
  rw [List.takeWhile_append, if_neg hshort]
  generalize (cs.takeWhile (· = quote)).length = n at hrun
  match n, hrun with
  | 0, _ => rfl
  | 1, _ => rfl
  | 2, _ => rfl

/-- Quotes that may stand as they are do not make a run that is too long. -/
theorem length_takeWhile_escapeToml (cs : List Char) :
    ∀ run ≤ 2,
      ((escapeToml true 2 run cs).takeWhile (· = '"')).length + run ≤ 2 := by
  induction cs with
  | nil =>
      intro run hrun
      simpa [escapeToml] using hrun
  | cons c cs ih =>
      intro run hrun
      obtain ⟨written, next, heq, hwritten, hquote⟩ := escapeToml_cons true 2 run c cs
      rw [heq]
      rcases hquote with ⟨hone, -, hlt, hnext⟩ | ⟨hhead, -⟩
      · have hrest := ih (run + 1) (by omega)
        rw [hone, hnext]
        simp only [List.singleton_append, List.takeWhile_cons, decide_true, if_true,
          List.length_cons]
        omega
      · have hnone : (written ++ escapeToml true 2 next cs).takeWhile (· = '"') = [] := by
          cases hwritten <;> simp_all
        rw [hnone]
        simpa using hrun

/-- What is written with nothing but quotes is the text itself. -/
theorem escapeToml_of_all_quotes (cs : List Char) :
    ∀ {run : Nat}, (∀ d ∈ escapeToml true 2 run cs, d = '"') → escapeToml true 2 run cs = cs := by
  induction cs with
  | nil =>
      intro run _
      rfl
  | cons c cs ih =>
      intro run hall
      obtain ⟨written, next, heq, hwritten, hquote⟩ := escapeToml_cons true 2 run c cs
      rw [heq] at hall ⊢
      rcases hquote with ⟨hone, hc, -, -⟩ | ⟨hhead, -⟩
      · have hrest := ih fun d hd => hall d (List.mem_append_right _ hd)
        rw [hrest, hone, hc, List.singleton_append]
      · exfalso
        apply hhead
        cases hwritten with
        | plain _ _ =>
            have hc := hall c (by simp)
            rw [hc, List.head?_cons]
        | lineBreak _ _ => exact absurd (hall '\n' (by simp)) (by decide)
        | escape _ _ => exact absurd (hall '\\' (by simp)) (by decide)

/-! ### Tripled quotes -/

theorem scanTomlLines_closed {r : List Char × List Char} (h : closingQuotes? '"' cs = some r) :
    scanTomlLines (fuel + 1) cs = some r := by
  rw [scanTomlLines.eq_def]
  simp only [h]

theorem scanTomlLines_written (h : WrittenAs true c written)
    (hopen : closingQuotes? '"' (written ++ rest) = none) :
    scanTomlLines (fuel + 1) (written ++ rest)
      = (scanTomlLines fuel rest).map fun r => (c :: r.1, r.2) := by
  cases h with
  | plain hplain hslash =>
      have hbreak : afterLineBreak? (c :: rest) = none := by
        apply afterLineBreak?_of_head
        intro d hd
        have hcd : c = d := by simpa using hd
        rw [← hcd]
        exact not_lineBreak_of_isTomlPlain hplain
      rw [List.singleton_append] at hopen ⊢
      rw [scanTomlLines.eq_4 _ _ _ hslash]
      simp only [hopen, hbreak, hplain, if_true]
  | lineBreak _ hc =>
      rw [List.singleton_append] at hopen ⊢
      rw [scanTomlLines.eq_4 _ _ _ (by decide)]
      simp only [hopen, afterLineBreak?, hc]
  | @escape mark digits hmark hread =>
      have hgap : (mark :: (digits ++ rest)).dropWhile isTomlBlank = mark :: (digits ++ rest) := by
        rw [List.dropWhile_cons, hmark.1]
        rfl
      have hbreak : afterLineBreak? (mark :: (digits ++ rest)) = none := by
        apply afterLineBreak?_of_head
        intro d hd
        have hdm : mark = d := by simpa using hd
        rw [← hdm]
        exact hmark.2
      rw [List.cons_append, List.cons_append] at hopen ⊢
      rw [scanTomlLines.eq_3]
      simp only [hopen, hgap, hbreak, hread, Option.bind_eq_bind,
        Option.bind_some]
      cases scanTomlLines fuel rest <;> rfl

theorem scanTomlLines_escapeToml (hrest : rest.head? ≠ some '"') (cs : List Char) :
    ∀ {fuel run : Nat}, run ≤ 2 → cs.length < fuel →
      scanTomlLines fuel (escapeToml true 2 run cs ++ '"' :: '"' :: '"' :: rest)
        = some (cs, rest) := by
  induction cs with
  | nil =>
      intro fuel run _ hfuel
      obtain ⟨fuel, rfl⟩ := Nat.exists_eq_succ_of_ne_zero (Nat.ne_zero_of_lt hfuel)
      exact scanTomlLines_closed (closingQuotes?_of_all [] (by simp) (by simp) hrest)
  | cons c cs ih =>
      intro fuel run hrun hfuel
      obtain ⟨fuel, rfl⟩ := Nat.exists_eq_succ_of_ne_zero (Nat.ne_zero_of_lt hfuel)
      have htake := length_takeWhile_escapeToml (c :: cs) run hrun
      by_cases hall : ∀ d ∈ escapeToml true 2 run (c :: cs), d = '"'
      · -- The rest of the text is quotes, which stand in one run with the closing ones.
        have hself := escapeToml_of_all_quotes (c :: cs) hall
        rw [hself] at hall htake ⊢
        rw [List.takeWhile_eq_self_iff.mpr (by simpa using hall)] at htake
        exact scanTomlLines_closed (closingQuotes?_of_all _ (by omega) hall hrest)
      · have hopen := closingQuotes?_of_not_all ('"' :: '"' :: '"' :: rest)
          (Nat.le_trans (Nat.le_add_right _ run) htake) (by simpa using hall)
        obtain ⟨written, next, heq, hwritten, hquote⟩ := escapeToml_cons true 2 run c cs
        have hnext : next ≤ 2 := by
          rcases hquote with ⟨-, -, hlt, hnext⟩ | ⟨-, hnext⟩
          · omega
          · omega
        rw [heq, List.append_assoc] at hopen ⊢
        rw [scanTomlLines_written hwritten hopen, ih hnext (by simpa using hfuel), Option.map_some]

/-- A line break behind the opening quotes does not count, and there is one if the
text has any. -/
theorem afterLineBreak?_leadingBreak {text : List Char}
    (h : ∀ c ∈ text.head?, (c = '\n' → '\n' ∈ cs) ∧ c ≠ '\r') :
    (afterLineBreak? (leadingBreak cs ++ text)).getD (leadingBreak cs ++ text) = text := by
  unfold leadingBreak
  by_cases hbroken : cs.contains '\n' = true
  · rw [if_pos hbroken]
    rfl
  · have hnone : afterLineBreak? text = none := by
      apply afterLineBreak?_of_head
      intro c hc
      obtain ⟨hline, hreturn⟩ := h c hc
      exact ⟨fun hcn => hbroken (List.contains_iff_mem.mpr (hline hcn)), hreturn⟩
    rw [if_neg hbroken, List.nil_append, hnone]
    rfl

/-! ### Single quotes

`longestRun` measures how many quotes stand in a row, and so decides whether single
quotes, or tripled ones, would be ended by the text itself.
-/

theorem scanTomlLiteral_append (rest : List Char) (hplain : ∀ c ∈ cs, isTomlPlain c = true)
    (hquote : '\'' ∉ cs) :
    scanTomlLiteral (cs ++ '\'' :: rest) = some (cs, rest) := by
  have hinside : ∀ c ∈ cs, (decide (c ≠ '\'') && isTomlPlain c) = true := by
    intro c hc
    have hne : c ≠ '\'' := by
      intro hcq
      rw [hcq] at hc
      exact hquote hc
    simp [hne, hplain c hc]
  have hstop : ∀ c ∈ ('\'' :: rest).head?, (decide (c ≠ '\'') && isTomlPlain c) = false := by
    intro c hc
    have hcq : '\'' = c := by simpa using hc
    simp [← hcq]
  unfold scanTomlLiteral
  simp only [dropWhile_append_of_stop hinside hstop, takeWhile_append_of_stop hinside hstop]

theorem foldl_longestRun (quote : Char) (cs : List Char) :
    ∀ run best, ∀ longest,
      (cs.foldl (fun (run : Nat × Nat) d =>
        if d = quote then (run.1 + 1, max run.2 (run.1 + 1)) else (0, run.2)) (run, best)).2
          = longest →
      best ≤ longest ∧
        ((cs.takeWhile (· = quote)).length = 0 ∨
          run + (cs.takeWhile (· = quote)).length ≤ longest) := by
  induction cs with
  | nil =>
      intro run best longest h
      exact ⟨Nat.le_of_eq h, Or.inl rfl⟩
  | cons d cs ih =>
      intro run best longest h
      rw [List.foldl_cons] at h
      by_cases hd : d = quote
      · rw [if_pos hd] at h
        obtain ⟨hbest, hrun⟩ := ih _ _ _ h
        simp only [List.takeWhile_cons, hd, decide_true, if_true, List.length_cons]
        omega
      · rw [if_neg hd] at h
        obtain ⟨hbest, -⟩ := ih _ _ _ h
        refine ⟨hbest, Or.inl ?_⟩
        simp [hd]

/-- No run of a character is longer than the longest one. -/
theorem length_takeWhile_le_longestRun (quote : Char) {earlier : List Char}
    (h : cs <:+ earlier) : (cs.takeWhile (· = quote)).length ≤ longestRun quote earlier := by
  obtain ⟨front, rfl⟩ := h
  unfold longestRun
  rw [List.foldl_append]
  generalize List.foldl _ (0, 0) front = start
  obtain ⟨run, best⟩ := start
  obtain ⟨-, hrun⟩ := foldl_longestRun quote cs run best _ rfl
  omega

theorem not_mem_of_longestRun {quote : Char} (h : longestRun quote cs = 0) : quote ∉ cs := by
  intro hmem
  obtain ⟨front, back, rfl⟩ := List.append_of_mem hmem
  have hrun := length_takeWhile_le_longestRun quote (List.suffix_append front (quote :: back))
  rw [h] at hrun
  simp at hrun

theorem scanTomlLiteralLines_append (hrest : rest.head? ≠ some '\'') (cs : List Char) :
    (∀ c ∈ cs, c = '\n' ∨ isTomlPlain c = true) →
    (∀ back, back <:+ cs → (back.takeWhile (· = '\'')).length ≤ 2) →
      scanTomlLiteralLines (cs ++ '\'' :: '\'' :: '\'' :: rest) = some (cs, rest) := by
  induction cs with
  | nil =>
      intro _ _
      have hclose := closingQuotes?_of_all [] (by simp) (by simp) hrest
      rw [List.nil_append] at hclose ⊢
      rw [scanTomlLiteralLines.eq_3 _ _ (by simp), hclose]
  | cons c cs ih =>
      intro hplain hruns
      have hreturn : c ≠ '\r' := by
        intro hcr
        rw [hcr] at hplain
        exact absurd (hplain '\r' List.mem_cons_self) (by decide)
      have hrun := hruns _ List.suffix_rfl
      rw [List.cons_append, scanTomlLiteralLines.eq_3 _ _ (fun _ hcr _ => hreturn hcr),
        ← List.cons_append]
      by_cases hall : ∀ d ∈ c :: cs, d = '\''
      · rw [List.takeWhile_eq_self_iff.mpr (by simpa using hall)] at hrun
        rw [closingQuotes?_of_all _ hrun hall hrest]
      · have hhead : (decide (c = '\n') || isTomlPlain c) = true := by
          simpa using hplain c List.mem_cons_self
        have hback := ih (fun d hd => hplain d (List.mem_cons_of_mem _ hd))
          (fun back hback => hruns back (hback.trans (List.suffix_cons c cs)))
        have hother : ∃ d ∈ c :: cs, d ≠ '\'' := by
          by_contra hnone
          exact hall fun d hd => by_contra fun hne => hnone ⟨d, hd, hne⟩
        rw [closingQuotes?_of_not_all _ hrun hother]
        simp only [hhead, if_true, hback, Option.map_some]

end

/-! ### Texts

One lemma for each kind of quotes, and `scanTomlText_writeTomlText` for all four.
-/

section
variable {cs rest : List Char}

theorem not_control {c : Char} (hcontrol : hasControl cs = false) (hc : c ∈ cs) :
    c = '\n' ∨ isTomlPlain c = true := by
  have hnone := List.any_eq_false.mp hcontrol c hc
  by_cases hbreak : c = '\n'
  · exact Or.inl hbreak
  · right
    simpa [hbreak] using hnone

theorem basicText_append (cs rest : List Char) :
    basicText cs ++ rest = '"' :: (escapeToml false 0 0 cs ++ '"' :: rest) := by
  simp [basicText]

/-- As much fuel as there are characters is enough. -/
theorem scanTomlBasic_basicText (cs rest : List Char) :
    scanTomlBasic ((escapeToml false 0 0 cs ++ '"' :: rest).length + 1)
      (escapeToml false 0 0 cs ++ '"' :: rest) = some (cs, rest) := by
  apply scanTomlBasic_escapeToml
  have hlength := length_le_escapeToml false 0 cs 0
  rw [List.length_append]
  omega

theorem scanTomlText_basicText (hrest : rest.head? ≠ some '"') :
    scanTomlText (basicText cs ++ rest) = some (cs, rest) := by
  rw [basicText_append, scanTomlText.eq_2, scanTomlBasic_basicText]
  -- No three quotes open the text: a second one would close it, and behind that
  -- there is none.
  intro more hmore
  cases cs with
  | nil =>
      have hquote : rest = '"' :: more := by simpa [escapeToml] using hmore
      rw [hquote] at hrest
      exact hrest rfl
  | cons c cs =>
      obtain ⟨written, next, heq, hwritten, hquote⟩ := escapeToml_cons false 0 0 c cs
      rw [heq] at hmore
      rcases hquote with ⟨-, -, hrun, -⟩ | ⟨hhead, -⟩
      · exact Nat.not_lt_zero 0 hrun
      · cases hwritten <;> simp_all

theorem scanTomlText_basicLines (hrest : rest.head? ≠ some '"') :
    scanTomlText (basicLines cs ++ rest) = some (cs, rest) := by
  let text := escapeToml true 2 0 cs ++ '"' :: '"' :: '"' :: rest
  have hsplit : basicLines cs ++ rest = '"' :: '"' :: '"' :: (leadingBreak cs ++ text) := by
    simp [basicLines, text]
  have hhead : ∀ c ∈ text.head?, (c = '\n' → '\n' ∈ cs) ∧ c ≠ '\r' := by
    cases cs with
    | nil => simp [text, escapeToml]
    | cons c cs =>
        obtain ⟨written, next, heq, hwritten, -⟩ := escapeToml_cons true 2 0 c cs
        intro d hd
        simp only [text, heq] at hd
        cases hwritten with
        | plain hplain _ =>
            have hcd : c = d := by simpa using hd
            obtain ⟨hline, hreturn⟩ := not_lineBreak_of_isTomlPlain hplain
            rw [← hcd]
            exact ⟨fun hc => absurd hc hline, hreturn⟩
        | lineBreak _ hc =>
            have hbreak : '\n' = d := by simpa using hd
            rw [← hbreak, hc]
            simp
        | escape _ _ =>
            have hslash : '\\' = d := by simpa using hd
            rw [← hslash]
            simp
  have hfuel : cs.length < (leadingBreak cs ++ text).length + 1 := by
    have hlength := length_le_escapeToml true 2 cs 0
    simp only [text, List.length_append]
    omega
  rw [hsplit, scanTomlText.eq_1, afterLineBreak?_leadingBreak hhead,
    scanTomlLines_escapeToml hrest cs (Nat.zero_le 2) hfuel]

theorem scanTomlText_literalLines (hrest : rest.head? ≠ some '\'')
    (hcontrol : hasControl cs = false) (hruns : longestRun '\'' cs ≤ 2) :
    scanTomlText (literalLines cs ++ rest) = some (cs, rest) := by
  let text := cs ++ '\'' :: '\'' :: '\'' :: rest
  have hsplit : literalLines cs ++ rest = '\'' :: '\'' :: '\'' :: (leadingBreak cs ++ text) := by
    simp [literalLines, text]
  have hhead : ∀ c ∈ text.head?, (c = '\n' → '\n' ∈ cs) ∧ c ≠ '\r' := by
    cases cs with
    | nil => simp [text]
    | cons c cs =>
        intro d hd
        have hcd : c = d := by simpa [text] using hd
        rw [← hcd]
        refine ⟨fun hc => by simp [hc], ?_⟩
        rcases not_control hcontrol List.mem_cons_self with hbreak | hplain
        · simp [hbreak]
        · exact (not_lineBreak_of_isTomlPlain hplain).2
  rw [hsplit, scanTomlText.eq_3, afterLineBreak?_leadingBreak hhead]
  exact scanTomlLiteralLines_append hrest cs (fun c hc => not_control hcontrol hc)
    fun back hback => (length_takeWhile_le_longestRun '\'' hback).trans hruns

theorem isTomlPlain_of_not_control (hcontrol : hasControl cs = false) (hbroken : '\n' ∉ cs) :
    ∀ c ∈ cs, isTomlPlain c = true := by
  intro c hc
  refine (not_control hcontrol hc).resolve_left fun hcn => ?_
  rw [hcn] at hc
  exact hbroken hc

theorem scanTomlText_literal (hrest : rest.head? ≠ some '\'')
    (hplain : ∀ c ∈ cs, isTomlPlain c = true) (hquote : '\'' ∉ cs) :
    scanTomlText ('\'' :: (cs ++ '\'' :: rest)) = some (cs, rest) := by
  rw [scanTomlText.eq_4, scanTomlLiteral_append rest hplain hquote]
  intro more hmore
  cases cs with
  | nil =>
      have hrest' : rest = '\'' :: more := by simpa using hmore
      rw [hrest'] at hrest
      exact hrest rfl
  | cons c cs =>
      have hc : c = '\'' := (List.cons.inj hmore).1
      exact hquote (by simp [hc])

/-- **Every text is read back from what is written for it.** -/
theorem scanTomlText_writeTomlText (cs : List Char) (hdouble : rest.head? ≠ some '"')
    (hsingle : rest.head? ≠ some '\'') :
    scanTomlText (writeTomlText cs ++ rest) = some (cs, rest) := by
  unfold writeTomlText
  simp only
  split
  · split
    · exact scanTomlText_basicLines hdouble
    · exact scanTomlText_basicText hdouble
  case isFalse hcontrol =>
    have hcontrol' : hasControl cs = false := by simpa using hcontrol
    split
    · exact scanTomlText_basicText hdouble
    split
    case isTrue hliteral =>
      obtain ⟨hruns, hbroken⟩ : longestRun '\'' cs = 0 ∧ '\n' ∉ cs := by simpa using hliteral
      have hread := scanTomlText_literal hsingle (isTomlPlain_of_not_control hcontrol' hbroken)
        (not_mem_of_longestRun hruns)
      simpa using hread
    split
    · exact scanTomlText_basicLines hdouble
    split
    case isTrue hruns => exact scanTomlText_literalLines hsingle hcontrol' hruns
    split
    · exact scanTomlText_basicLines hdouble
    · exact scanTomlText_basicText hdouble

end

/-! ### Keys -/

section
variable {rest : List Char}

/-- The characters that a written key starts with, and a written value that
is no array. -/
def StartsTomlWord (c : Char) : Prop := isTomlKeyChar c = true ∨ c = '"' ∨ c = '\''

theorem writeTomlWord_head (word : String) :
    ∃ c more, writeTomlWord word = c :: more ∧ StartsTomlWord c := by
  unfold writeTomlWord basicText
  simp only
  split
  case isTrue hbare =>
    obtain ⟨hsome, hall⟩ : word.toList ≠ [] ∧ ∀ c ∈ word.toList, isTomlKeyChar c = true := by
      simpa using hbare
    obtain ⟨c, more, heq⟩ := List.exists_cons_of_ne_nil hsome
    exact ⟨c, more, heq, Or.inl (hall c (by rw [heq]; exact List.mem_cons_self))⟩
  split
  · exact ⟨'"', _, rfl, Or.inr (Or.inl rfl)⟩
  split
  · exact ⟨'"', _, rfl, Or.inr (Or.inl rfl)⟩
  split
  · exact ⟨'\'', _, rfl, Or.inr (Or.inr rfl)⟩
  · exact ⟨'"', _, rfl, Or.inr (Or.inl rfl)⟩

theorem scanTomlWord_basicText (word : String) :
    scanTomlWord (basicText word.toList ++ rest) = some (word, rest) := by
  rw [basicText_append, scanTomlWord.eq_1, scanTomlBasic_basicText]
  simp

theorem scanTomlWord_bare {word : String} (hsome : word.toList ≠ [])
    (hall : ∀ c ∈ word.toList, isTomlKeyChar c = true)
    (hrest : ∀ c ∈ rest.head?, isTomlKeyChar c = false) :
    scanTomlWord (word.toList ++ rest) = some (word, rest) := by
  have hquote : ∀ quote, isTomlKeyChar quote = false →
      ∀ more, word.toList ++ rest ≠ quote :: more := by
    intro quote hkey more heq
    obtain ⟨c, cs, hcs⟩ := List.exists_cons_of_ne_nil hsome
    rw [hcs] at heq hall
    have hc : c = quote := (List.cons.inj heq).1
    have htrue := hall c List.mem_cons_self
    rw [hc, hkey] at htrue
    cases htrue
  rw [scanTomlWord.eq_3 _ (hquote '"' (by decide)) (hquote '\'' (by decide)),
    takeWhile_append_of_stop hall hrest, dropWhile_append_of_stop hall hrest]
  simp

/-- Every part of a key is read back from what is written for it. -/
theorem scanTomlWord_writeTomlWord {word : String}
    (hrest : ∀ c ∈ rest.head?, isTomlKeyChar c = false) :
    scanTomlWord (writeTomlWord word ++ rest) = some (word, rest) := by
  unfold writeTomlWord
  simp only
  split
  case isTrue hbare =>
    obtain ⟨hsome, hall⟩ : word.toList ≠ [] ∧ ∀ c ∈ word.toList, isTomlKeyChar c = true := by
      simpa using hbare
    exact scanTomlWord_bare hsome hall hrest
  split
  · exact scanTomlWord_basicText word
  case isFalse hcontrol =>
    split
    · exact scanTomlWord_basicText word
    split
    case isTrue hquote =>
      obtain ⟨hplain, hbroken⟩ : hasControl word.toList = false ∧ '\n' ∉ word.toList := by
        simpa using hcontrol
      have hread := scanTomlLiteral_append rest
        (isTomlPlain_of_not_control hplain hbroken) (by simpa using hquote)
      simp [scanTomlWord.eq_2, hread]
    · exact scanTomlWord_basicText word

theorem StartsTomlWord.not_mem {c : Char} (h : StartsTomlWord c) :
    c ∉ [' ', '\t', '\n', '\r', '#', '[', ']', '\uFEFF'] := by
  intro hmem
  rcases h with hkey | rfl | rfl
  · have hnone : ∀ d ∈ [' ', '\t', '\n', '\r', '#', '[', ']', '\uFEFF'],
        isTomlKeyChar d = false := by
      simp [isTomlKeyChar]
    rw [hnone c hmem] at hkey
    cases hkey
  · exact absurd hmem (by decide)
  · exact absurd hmem (by decide)

theorem StartsTomlWord.not_blank {c : Char} (h : StartsTomlWord c) : isTomlBlank c = false := by
  have hmem := h.not_mem
  simp only [List.mem_cons, not_or] at hmem
  simp [isTomlBlank, hmem.1, hmem.2.1]

theorem dropWhile_writeTomlWord (word : String) :
    (writeTomlWord word ++ rest).dropWhile isTomlBlank = writeTomlWord word ++ rest := by
  obtain ⟨c, more, heq, hstart⟩ := writeTomlWord_head word
  rw [heq, List.cons_append, List.dropWhile_cons, hstart.not_blank]
  rfl

/-- **Every key is read back from what is written for it**, if it has not too
many parts. -/
theorem scanTomlKey_words (rest : List Char) (hrest : ∀ c ∈ rest.head?, isTomlKeyChar c = false)
    (hpoint : (rest.dropWhile isTomlBlank).head? ≠ some '.') (words : List String) :
    ∀ parts, words ≠ [] → words.length ≤ parts →
      scanTomlKey parts ((joinWith "." (words.map tomlWordText)).toList ++ rest)
        = some (words, rest.dropWhile isTomlBlank) := by
  induction words with
  | nil =>
      intro parts hne _
      exact absurd rfl hne
  | cons word words ih =>
      intro parts _ hlength
      obtain ⟨parts, rfl⟩ := Nat.exists_eq_succ_of_ne_zero (Nat.ne_zero_of_lt hlength)
      cases words with
      | nil =>
          have htext : (joinWith "." ([word].map tomlWordText)).toList = writeTomlWord word := by
            simp [joinWith, tomlWordText]
          rw [htext, scanTomlKey, dropWhile_writeTomlWord, scanTomlWord_writeTomlWord hrest]
          simp only [Option.bind_eq_bind, Option.bind_some]
          split
          case h_1 more hmore => exact absurd (by rw [hmore]; rfl) hpoint
          case h_2 => rfl
      | cons next words =>
          have htext : (joinWith "." ((word :: next :: words).map tomlWordText)).toList ++ rest
              = writeTomlWord word
                ++ '.' :: ((joinWith "." ((next :: words).map tomlWordText)).toList ++ rest) := by
            simp [joinWith, tomlWordText]
          have hback := ih parts (by simp) (by simpa using hlength)
          rw [htext, scanTomlKey, dropWhile_writeTomlWord,
            scanTomlWord_writeTomlWord (by simp [isTomlKeyChar])]
          show Option.map _ (scanTomlKey parts _) = _
          rw [hback]
          rfl

end

end VariantSelection
