/-
Which arguments ask for which command.

What the options of a command ask for is told apart from how they are written.
`CommandName.SpelledBy` says which lists of arguments write which settings down, and
`AskedOnce` that no setting stands there twice.  `Command.parse_eq_ok_iff` proves
that the reader takes exactly these lists, behind the name of a command and at most
one option in front of it.  The reader takes one argument after the other, and
`step_settled` is the lemma for one of them: it takes what is known of the settings
so far, `CommandName.settled`, to what is known behind the argument.  `run_settled`
is the induction over all of them.
-/
import Mathlib.Data.List.TakeWhile
import VariantSelection.Command.Arguments
import VariantSelection.Proofs.Command
import VariantSelection.Proofs.Text.Fields

namespace VariantSelection

/-! ### Settings and how they are written

The three relations follow what a user may write: letters that stand together, one
argument, and a list of them.  None of them knows of the state of the reader.
-/

/-- What an option of a command asks for. -/
inductive Setting
  | verbose
  | value (text : String)
  deriving DecidableEq

/-- The values among the settings. -/
def Setting.values (settings : List Setting) : List String :=
  settings.filterMap fun
    | .verbose => none
    | .value text => some text

/-- An argument that is taken for options, whatever they are. -/
def IsOption (argument : String) : Prop := ∃ c rest, argument.toList = '-' :: c :: rest

namespace CommandName

/-- Letters that stand together write these settings; the flag says that a value is
still to come. -/
inductive Letters (n : CommandName) : List Char → List Setting → Bool → Prop
  | nil : Letters n [] [] false
  | verbose {letters : List Char} {settings : List Setting} {awaited : Bool}
      (hrest : Letters n letters settings awaited) :
      Letters n ('v' :: letters) (.verbose :: settings) awaited
  | awaiting {letter : Char} (hletter : n.letter? = some letter) : Letters n [letter] [] true
  | equals {letter : Char} (hletter : n.letter? = some letter) (value : List Char) :
      Letters n (letter :: '=' :: value) [.value (String.ofList value)] false
  | value {letter c : Char} (hletter : n.letter? = some letter) (hc : c ≠ '=') (rest : List Char) :
      Letters n (letter :: c :: rest) [.value (String.ofList (c :: rest))] false

/-- One argument writes these settings; the flag says that a value is still to come. -/
inductive Spells (n : CommandName) : List Char → List Setting → Bool → Prop
  | letters {c : Char} {rest : List Char} {settings : List Setting} {awaited : Bool} (hc : c ≠ '-')
      (h : Letters n (c :: rest) settings awaited) : Spells n ('-' :: c :: rest) settings awaited
  | verbose : Spells n "--verbose".toList [.verbose] false
  | awaiting {option : String} (hoption : n.option? = some option) :
      Spells n ('-' :: '-' :: option.toList) [] true
  | value {option : String} (hoption : n.option? = some option) (value : List Char) :
      Spells n ('-' :: '-' :: (option.toList ++ '=' :: value)) [.value (String.ofList value)] false

/-- A list of arguments writes these settings; the flag says that it starts
with a value. -/
inductive SpelledBy (n : CommandName) : Bool → List String → List Setting → Prop
  | nil : SpelledBy n false [] []
  | closed : SpelledBy n false ["--"] []
  | argument {argument : String} {rest : List String} {settings more : List Setting}
      {awaited : Bool}
      (h : n.Spells argument.toList settings awaited) (hrest : SpelledBy n awaited rest more) :
      SpelledBy n false (argument :: rest) (settings ++ more)
  | value {value : String} {rest : List String} {more : List Setting} (hvalue : ¬IsOption value)
      (hrest : SpelledBy n false rest more) :
      SpelledBy n true (value :: rest) (.value value :: more)

theorem letter?_ne_verbose (n : CommandName) : n.letter? ≠ some 'v' := by
  cases n <;> decide

theorem option?_ne_verbose (n : CommandName) : n.option? ≠ some "verbose" := by
  cases n <;> decide

theorem option?_ne_empty (n : CommandName) : n.option? ≠ some "" := by
  cases n <;> decide

/-- No option has an equals sign in its name. -/
theorem equals_not_mem_option {n : CommandName} {option : String} (h : n.option? = some option) :
    '=' ∉ option.toList := by
  cases n <;> cases h <;> decide

end CommandName

/-- Nothing is asked for twice, also with a value that is still to come. -/
structure AskedOnce (settings : List Setting) (awaited : Bool) : Prop where
  verbose : settings.count .verbose ≤ 1
  values : (Setting.values settings).length ≤ 1
  awaited : awaited = true → Setting.values settings = []

namespace AskedOnce

variable {settings more : List Setting} {awaited : Bool}

theorem nil : AskedOnce [] false := ⟨by simp, by simp [Setting.values], by simp⟩

theorem of_append (h : AskedOnce (settings ++ more) awaited) : AskedOnce settings false := by
  obtain ⟨hverbose, hvalues, -⟩ := h
  rw [List.count_append] at hverbose
  rw [Setting.values, List.filterMap_append, List.length_append] at hvalues
  exact ⟨by omega, by rw [Setting.values]; omega, by simp⟩

theorem known (h : AskedOnce settings awaited) : AskedOnce settings false :=
  ⟨h.verbose, h.values, by simp⟩

theorem concat_verbose_iff (h : AskedOnce settings false) :
    AskedOnce (settings ++ [.verbose]) false ↔ Setting.verbose ∉ settings := by
  have hvalues : Setting.values (settings ++ [.verbose]) = Setting.values settings := by
    simp [Setting.values]
  rw [← List.count_eq_zero]
  constructor
  · rintro ⟨hverbose, -, -⟩
    rw [List.count_append, List.count_singleton_self] at hverbose
    omega
  · intro hnone
    refine ⟨?_, hvalues ▸ h.values, by simp⟩
    rw [List.count_append, List.count_singleton_self, hnone]

theorem concat_value_iff (h : AskedOnce settings false) (text : String) :
    AskedOnce (settings ++ [.value text]) false ↔ Setting.values settings = [] := by
  have hvalues : Setting.values (settings ++ [.value text])
      = Setting.values settings ++ [text] := by
    simp [Setting.values]
  rw [← List.length_eq_zero_iff]
  constructor
  · rintro ⟨-, hlength, -⟩
    rw [hvalues, List.length_append, List.length_singleton] at hlength
    omega
  · intro hnone
    refine ⟨?_, ?_, by simp⟩
    · rw [List.count_append, List.count_singleton]
      simpa using h.verbose
    · rw [hvalues, List.length_append, List.length_singleton, hnone]

theorem awaiting_iff (h : AskedOnce settings false) :
    AskedOnce settings true ↔ Setting.values settings = [] :=
  ⟨fun hfits => hfits.awaited rfl, fun hnone => ⟨h.verbose, h.values, fun _ => hnone⟩⟩

/-- A value that follows was not asked for before. -/
theorem of_spelledBy {n : CommandName} {arguments : List String}
    (h : AskedOnce (settings ++ more) false) (hmore : n.SpelledBy awaited arguments more) :
    AskedOnce settings awaited := by
  cases hmore with
  | nil | closed | argument => exact h.of_append
  | value =>
      rw [List.append_cons] at h
      have hnone := (h.of_append.of_append.concat_value_iff _).mp h.of_append
      exact h.of_append.of_append.awaiting_iff.mpr hnone

end AskedOnce

/-! ### What an option adds

What is known behind some settings does not depend on how they were written.  So
each lemma is about `settled`, and says with `Adds` which settings the next letters
or the next option add to it.
-/

namespace CommandName

/-- What is known behind these settings of a command. -/
def settled (n : CommandName) (settings : List Setting) (awaited : Bool) : ArgumentState where
  name := some n
  verbose := decide (.verbose ∈ settings)
  value := (Setting.values settings).head?
  pending := awaited

/-- Behind `settings`, `x` succeeds just with what is known behind further ones:
some that are `written` there and leave nothing asked for twice. -/
def Adds (n : CommandName) (settings : List Setting) (written : List Setting → Bool → Prop)
    (x : Except ArgumentStop ArgumentState) : Prop :=
  ∀ t, x = .ok t ↔ ∃ more awaited, written more awaited ∧ AskedOnce (settings ++ more) awaited ∧
    t = n.settled (settings ++ more) awaited

section
variable {n : CommandName} {settings more : List Setting} {awaited : Bool}
  {written : List Setting → Bool → Prop} {x : Except ArgumentStop ArgumentState}

/-- Only one thing can be written there. -/
theorem adds_of_iff
    (hwritten : ∀ others later, written others later ↔ others = more ∧ later = awaited)
    (hx : ∀ t, x = .ok t ↔
      AskedOnce (settings ++ more) awaited ∧ t = n.settled (settings ++ more) awaited) :
    n.Adds settings written x := by
  intro t
  rw [hx]
  constructor
  · rintro ⟨honce, ht⟩
    exact ⟨more, awaited, (hwritten _ _).mpr ⟨rfl, rfl⟩, honce, ht⟩
  · rintro ⟨_, _, hthis, honce, ht⟩
    obtain ⟨rfl, rfl⟩ := (hwritten _ _).mp hthis
    exact ⟨honce, ht⟩

/-- Nothing can be written there. -/
theorem adds_error (stop : ArgumentStop) (hnone : ∀ more awaited, ¬written more awaited) :
    n.Adds settings written (.error stop) := by
  refine fun t => iff_of_false (fun h => by cases h) ?_
  rintro ⟨more, awaited, hthis, -⟩
  exact hnone more awaited hthis

/-- What is written behind a setting is added behind it. -/
theorem Adds.bind {setting : Setting} {f : ArgumentState → Except ArgumentStop ArgumentState}
    (hx : ∀ t, x = .ok t ↔
      AskedOnce (settings ++ [setting]) false ∧ t = n.settled (settings ++ [setting]) false)
    (hf : AskedOnce (settings ++ [setting]) false →
      n.Adds (settings ++ [setting]) written (f (n.settled (settings ++ [setting]) false))) :
    n.Adds settings (fun more awaited => ∃ rest, more = setting :: rest ∧ written rest awaited)
      (x >>= f) := by
  intro t
  rw [bind_eq_ok]
  simp only [hx]
  constructor
  · rintro ⟨_, ⟨honce, rfl⟩, hrest⟩
    obtain ⟨rest, awaited, hwritten, hmore, rfl⟩ := (hf honce t).mp hrest
    rw [← List.append_cons] at hmore ⊢
    exact ⟨_, awaited, ⟨rest, rfl, hwritten⟩, hmore, rfl⟩
  · rintro ⟨_, awaited, ⟨rest, rfl, hwritten⟩, hmore, ht⟩
    rw [List.append_cons] at hmore ht
    exact ⟨_, ⟨hmore.of_append, rfl⟩,
      (hf hmore.of_append t).mpr ⟨rest, awaited, hwritten, hmore, ht⟩⟩

end

end CommandName

namespace ArgumentState

open CommandName

section
variable {n : CommandName} {settings : List Setting} {t : ArgumentState}

theorem addVerbose_settled (h : AskedOnce settings false) :
    (n.settled settings false).addVerbose = .ok t ↔
      AskedOnce (settings ++ [.verbose]) false ∧ t = n.settled (settings ++ [.verbose]) false := by
  rw [h.concat_verbose_iff]
  have hnext : n.settled (settings ++ [.verbose]) false
      = { n.settled settings false with verbose := true } := by
    simp [settled, Setting.values]
  rw [hnext]
  unfold addVerbose
  by_cases hverbose : Setting.verbose ∈ settings
  · simp [settled, hverbose]
  · simp [settled, hverbose, eq_comm]

theorem addOption_some_settled (h : AskedOnce settings false) (text : String) :
    (n.settled settings false).addOption (some text) = .ok t ↔
      AskedOnce (settings ++ [.value text]) false ∧
        t = n.settled (settings ++ [.value text]) false := by
  rw [h.concat_value_iff]
  unfold addOption
  cases hvalues : Setting.values settings with
  | nil =>
      have hnext : n.settled (settings ++ [.value text]) false
          = { n.settled settings false with value := some text } := by
        simp_all [settled, Setting.values]
      rw [hnext]
      simp [settled, hvalues, eq_comm]
  | cons v rest => simp [settled, hvalues]

theorem addOption_none_settled (h : AskedOnce settings false) :
    (n.settled settings false).addOption none = .ok t ↔
      AskedOnce (settings ++ []) true ∧ t = n.settled (settings ++ []) true := by
  rw [List.append_nil, h.awaiting_iff]
  unfold addOption
  cases hvalues : Setting.values settings with
  | nil => simp [settled, hvalues, eq_comm]
  | cons v rest => simp [settled, hvalues]

end

/-! ### Letters -/

section
variable {n : CommandName} {settings more : List Setting} {awaited : Bool} {c : Char}
  {rest : List Char}

theorem letters_nil_iff : Letters n [] more awaited ↔ more = [] ∧ awaited = false := by
  constructor
  · rintro ⟨⟩
    exact ⟨rfl, rfl⟩
  · rintro ⟨rfl, rfl⟩
    exact .nil

theorem letters_verbose_iff :
    Letters n ('v' :: rest) more awaited ↔
      ∃ others, more = .verbose :: others ∧ Letters n rest others awaited := by
  constructor
  · intro h
    cases h with
    | verbose hrest => exact ⟨_, rfl, hrest⟩
    | awaiting hletter | equals hletter | value hletter =>
        exact absurd hletter n.letter?_ne_verbose
  · rintro ⟨others, rfl, hrest⟩
    exact .verbose hrest

theorem not_letters (hletter : n.letter? ≠ some c) (hv : c ≠ 'v') :
    ¬Letters n (c :: rest) more awaited := by
  intro h
  cases h with
  | verbose => exact hv rfl
  | awaiting hc | equals hc | value hc => exact hletter hc

theorem letters_awaiting_iff (hletter : n.letter? = some c) :
    Letters n [c] more awaited ↔ more = [] ∧ awaited = true := by
  constructor
  · intro h
    cases h with
    | verbose => exact absurd hletter n.letter?_ne_verbose
    | awaiting => exact ⟨rfl, rfl⟩
  · rintro ⟨rfl, rfl⟩
    exact .awaiting hletter

theorem letters_equals_iff (hletter : n.letter? = some c) :
    Letters n (c :: '=' :: rest) more awaited ↔
      more = [.value (String.ofList rest)] ∧ awaited = false := by
  constructor
  · intro h
    cases h with
    | verbose => exact absurd hletter n.letter?_ne_verbose
    | equals => exact ⟨rfl, rfl⟩
    | value _ hne => exact absurd rfl hne
  · rintro ⟨rfl, rfl⟩
    exact .equals hletter rest

theorem letters_value_iff {d : Char} (hletter : n.letter? = some c) (hd : d ≠ '=') :
    Letters n (c :: d :: rest) more awaited ↔
      more = [.value (String.ofList (d :: rest))] ∧ awaited = false := by
  constructor
  · intro h
    cases h with
    | verbose => exact absurd hletter n.letter?_ne_verbose
    | equals => exact absurd rfl hd
    | value => exact ⟨rfl, rfl⟩
  · rintro ⟨rfl, rfl⟩
    exact .value hletter hd rest

/-- Behind the letter of an option that takes a value stands that value, or nothing. -/
theorem adds_addLetters_letter (hletter : n.letter? = some c) (h : AskedOnce settings false) :
    n.Adds settings (Letters n (c :: rest))
      ((n.settled settings false).addLetters (c :: rest)) := by
  have hname : (n.settled settings false).name.bind letter? = some c := hletter
  unfold addLetters
  rw [if_pos hname]
  split
  · exact adds_of_iff (fun _ _ => letters_awaiting_iff hletter) fun _ => addOption_none_settled h
  · exact adds_of_iff (fun _ _ => letters_equals_iff hletter) fun _ => addOption_some_settled h _
  · rename_i hnil hequals
    obtain ⟨d, value, rfl⟩ := List.exists_cons_of_ne_nil hnil
    have hd : d ≠ '=' := fun hd => hequals value (hd ▸ rfl)
    exact adds_of_iff (fun _ _ => letters_value_iff hletter hd) fun _ => addOption_some_settled h _

/-- Letters are taken exactly where they write settings that were not asked for
before, and what is known behind them is `settled` again. -/
theorem adds_addLetters (cs : List Char) (h : AskedOnce settings false) :
    n.Adds settings (Letters n cs) ((n.settled settings false).addLetters cs) := by
  induction cs generalizing settings with
  | nil =>
      refine adds_of_iff (fun _ _ => letters_nil_iff) fun t => ?_
      rw [addLetters, List.append_nil, Except.ok.injEq, and_iff_right h]
      exact eq_comm
  | cons c rest ih =>
      by_cases hletter : n.letter? = some c
      · exact adds_addLetters_letter hletter h
      · have hname : ¬(n.settled settings false).name.bind letter? = some c := hletter
        unfold addLetters
        rw [if_neg hname]
        by_cases hv : c = 'v'
        · subst hv
          have hletters : Letters n ('v' :: rest) = fun more awaited =>
              ∃ others, more = .verbose :: others ∧ Letters n rest others awaited :=
            funext₂ fun _ _ => propext letters_verbose_iff
          rw [if_pos rfl, hletters]
          exact Adds.bind (fun _ => addVerbose_settled h) ih
        · have hnone : ∀ more awaited, ¬Letters n (c :: rest) more awaited :=
            fun _ _ => not_letters hletter hv
          rw [if_neg hv]
          split
          · exact adds_error .help hnone
          · split
            · exact adds_error .misuse hnone
            · exact adds_error .misuse hnone

end

/-! ### Long options -/

section
variable {n : CommandName} {settings : List Setting} {t : ArgumentState}

theorem not_equals_of_not_mem {cs : List Char} (h : '=' ∉ cs) :
    ∀ c ∈ cs, decide (c ≠ '=') = true := by
  intro c hc
  rw [decide_eq_true_iff]
  rintro rfl
  exact h hc

/-- There is one way to cut at the first equals sign. -/
theorem append_equals_inj {front front' value value' : List Char} (hfront : '=' ∉ front)
    (hfront' : '=' ∉ front') (h : front ++ '=' :: value = front' ++ '=' :: value') :
    front' = front ∧ value' = value := by
  have hcut : ∀ {front : List Char} (value : List Char), '=' ∉ front →
      (front ++ '=' :: value).takeWhile (· ≠ '=') = front := fun value hfront =>
    takeWhile_append_of_stop (not_equals_of_not_mem hfront) (by simp)
  have hsame : front' = front := by
    rw [← hcut value' hfront', ← h, hcut value hfront]
  rw [hsame, List.append_cancel_left_eq, List.cons.injEq] at h
  exact ⟨hsame, h.2.symm⟩

/-- An option with a long name is one of these: that of the command, or the one
that all have. -/
theorem spells_long_iff {cs : List Char} {more : List Setting} {awaited : Bool} :
    Spells n ('-' :: '-' :: cs) more awaited ↔
      (cs = "verbose".toList ∧ more = [.verbose] ∧ awaited = false) ∨
      ∃ option, n.option? = some option ∧
        ((cs = option.toList ∧ more = [] ∧ awaited = true) ∨
          ∃ value, cs = option.toList ++ '=' :: value ∧ more = [.value (String.ofList value)] ∧
            awaited = false) := by
  constructor
  · intro h
    generalize hall : '-' :: '-' :: cs = all at h
    cases h with
    | letters hc =>
        cases hall
        exact absurd rfl hc
    | verbose =>
        cases hall
        exact .inl ⟨rfl, rfl, rfl⟩
    | awaiting hoption =>
        cases hall
        exact .inr ⟨_, hoption, .inl ⟨rfl, rfl, rfl⟩⟩
    | value hoption value =>
        cases hall
        exact .inr ⟨_, hoption, .inr ⟨value, rfl, rfl, rfl⟩⟩
  · rintro (⟨rfl, rfl, rfl⟩ | ⟨option, hoption, ⟨rfl, rfl, rfl⟩ | ⟨value, rfl, rfl, rfl⟩⟩)
    · exact .verbose
    · exact .awaiting hoption
    · exact .value hoption value

/-- An option without an equals sign carries no value. -/
theorem spells_bare_iff {cs : List Char} {more : List Setting} {awaited : Bool}
    (hequals : '=' ∉ cs) :
    Spells n ('-' :: '-' :: cs) more awaited ↔
      (String.ofList cs = "verbose" ∧ more = [.verbose] ∧ awaited = false) ∨
      (n.option? = some (String.ofList cs) ∧ more = [] ∧ awaited = true) := by
  rw [spells_long_iff]
  constructor
  · rintro (⟨rfl, hmore⟩ | ⟨option, hoption, ⟨rfl, hmore⟩ | ⟨value, rfl, -⟩⟩)
    · exact .inl ⟨rfl, hmore⟩
    · exact .inr ⟨by rw [String.ofList_toList, hoption], hmore⟩
    · simp at hequals
  · rintro (⟨hverbose, hmore⟩ | ⟨hoption, hmore⟩)
    · exact .inl ⟨by rw [← hverbose, String.toList_ofList], hmore⟩
    · exact .inr ⟨_, hoption, .inl ⟨by rw [String.toList_ofList], hmore⟩⟩

/-- What stands behind the first equals sign is the value. -/
theorem spells_equals_iff {front value : List Char} {more : List Setting} {awaited : Bool}
    (hequals : '=' ∉ front) : Spells n ('-' :: '-' :: (front ++ '=' :: value)) more awaited ↔
      n.option? = some (String.ofList front) ∧ more = [.value (String.ofList value)] ∧
        awaited = false := by
  rw [spells_long_iff]
  constructor
  · rintro (⟨hverbose, -⟩ | ⟨option, hoption, ⟨hall, -⟩ | ⟨other, hall, hmore⟩⟩)
    · have hmem : '=' ∈ "verbose".toList := hverbose ▸ by simp
      exact absurd hmem (by decide)
    · have hmem : '=' ∈ option.toList := hall ▸ by simp
      exact absurd hmem (equals_not_mem_option hoption)
    · obtain ⟨rfl, rfl⟩ := append_equals_inj hequals (equals_not_mem_option hoption) hall
      rw [String.ofList_toList]
      exact ⟨hoption, hmore⟩
  · rintro ⟨hoption, hmore⟩
    exact .inr ⟨_, hoption, .inr ⟨value, by rw [String.toList_ofList], hmore⟩⟩

theorem adds_addLong_bare {cs : List Char} (hequals : '=' ∉ cs) (h : AskedOnce settings false) :
    n.Adds settings (Spells n ('-' :: '-' :: cs)) ((n.settled settings false).addLong cs) := by
  have hlong : cs.takeWhile (· ≠ '=') = cs :=
    List.takeWhile_eq_self_iff.mpr (not_equals_of_not_mem hequals)
  have hvalue : cs.dropWhile (· ≠ '=') = [] :=
    List.dropWhile_eq_nil_iff.mpr (not_equals_of_not_mem hequals)
  have hname : (n.settled settings false).name.bind option? = n.option? := rfl
  unfold addLong
  rw [hlong, hvalue, hname]
  by_cases hoption : n.option? = some (String.ofList cs)
  · have hverbose : String.ofList cs ≠ "verbose" := fun h => n.option?_ne_verbose (h ▸ hoption)
    rw [if_pos hoption]
    refine adds_of_iff (fun more awaited => ?_) fun _ => addOption_none_settled h
    simp [spells_bare_iff hequals, hverbose, hoption]
  · rw [if_neg hoption]
    by_cases hverbose : String.ofList cs = "verbose"
    · simp only [Option.isSome_none, Bool.false_eq_true, if_false, if_pos hverbose]
      refine adds_of_iff (fun more awaited => ?_) fun _ => addVerbose_settled h
      simp [spells_bare_iff hequals, hverbose, n.option?_ne_verbose]
    · have hnone : ∀ more awaited, ¬Spells n ('-' :: '-' :: cs) more awaited := by
        simp [spells_bare_iff hequals, hverbose, hoption]
      simp only [Option.isSome_none, Bool.false_eq_true, if_false, if_neg hverbose]
      split
      · exact adds_error .help hnone
      · split
        · exact adds_error .misuse hnone
        · exact adds_error .misuse hnone

theorem adds_addLong_equals {front : List Char} (hequals : '=' ∉ front) (value : List Char)
    (h : AskedOnce settings false) :
    n.Adds settings (Spells n ('-' :: '-' :: (front ++ '=' :: value)))
      ((n.settled settings false).addLong (front ++ '=' :: value)) := by
  have hlong : (front ++ '=' :: value).takeWhile (· ≠ '=') = front :=
    takeWhile_append_of_stop (not_equals_of_not_mem hequals) (by simp)
  have hvalue : (front ++ '=' :: value).dropWhile (· ≠ '=') = '=' :: value :=
    dropWhile_append_of_stop (not_equals_of_not_mem hequals) (by simp)
  have hname : (n.settled settings false).name.bind option? = n.option? := rfl
  unfold addLong
  rw [hlong, hvalue, hname]
  by_cases hoption : n.option? = some (String.ofList front)
  · rw [if_pos hoption]
    exact adds_of_iff (fun _ _ => (spells_equals_iff hequals).trans (and_iff_right hoption))
      fun _ => addOption_some_settled h _
  · rw [if_neg hoption]
    exact adds_error .misuse fun _ _ hspells => hoption ((spells_equals_iff hequals).mp hspells).1

/-- A long option is taken exactly where it writes a setting that was not asked
for before. -/
theorem adds_addLong (cs : List Char) (h : AskedOnce settings false) :
    n.Adds settings (Spells n ('-' :: '-' :: cs)) ((n.settled settings false).addLong cs) := by
  by_cases hequals : '=' ∈ cs
  · obtain ⟨front, value, rfl, hfront⟩ := List.eq_append_cons_of_mem hequals
    exact adds_addLong_equals hfront value h
  · exact adds_addLong_bare hequals h

end

/-! ### One argument -/

section
variable {n : CommandName} {settings : List Setting} {t : ArgumentState}

theorem spells_letters_iff {c : Char} {rest : List Char} {more : List Setting} {awaited : Bool}
    (hc : c ≠ '-') :
    Spells n ('-' :: c :: rest) more awaited ↔ Letters n (c :: rest) more awaited := by
  refine ⟨fun h => ?_, .letters hc⟩
  generalize hall : '-' :: c :: rest = all at h
  cases h with
  | letters _ hletters =>
      cases hall
      exact hletters
  | verbose | awaiting | value =>
      cases hall
      exact absurd rfl hc

/-- The mark that ends the options is none of them. -/
theorem not_spells_dashes {more : List Setting} {awaited : Bool} :
    ¬Spells n ['-', '-'] more awaited := by
  rw [spells_bare_iff (by simp)]
  rintro (⟨hverbose, -⟩ | ⟨hoption, -⟩)
  · exact absurd hverbose (by decide)
  · exact n.option?_ne_empty hoption

theorem exists_of_spells {cs : List Char} {more : List Setting} {awaited : Bool}
    (h : Spells n cs more awaited) : ∃ c rest, cs = '-' :: c :: rest := by
  cases h with
  | letters | awaiting | value => exact ⟨_, _, rfl⟩
  | verbose => exact ⟨'-', "verbose".toList, rfl⟩

/-- **One argument takes `settled` to `settled`.**  What is known of the settings
after it follows from what was known before it. -/
theorem step_settled (argument : String) (h : AskedOnce settings false) :
    (n.settled settings false).step argument = .ok t ↔
      (argument = "--" ∧ t = { n.settled settings false with closed := true }) ∨
      ∃ more awaited, Spells n argument.toList more awaited ∧ AskedOnce (settings ++ more) awaited ∧
        t = n.settled (settings ++ more) awaited := by
  have hclosed : (n.settled settings false).closed = false := rfl
  have hhelping : (n.settled settings false).helping = false := rfl
  have hpending : (n.settled settings false).pending = false := rfl
  have hword : ∀ word, (n.settled settings false).addWord word = .error .misuse := fun _ => rfl
  unfold step
  rw [hclosed, hhelping, hpending]
  simp only [Bool.false_eq_true, if_false, hword]
  split
  · rename_i c rest hchars
    rw [hchars]
    have hdashes : argument = "--" ↔ c = '-' ∧ rest = [] := by
      rw [← String.toList_inj, hchars]
      simp
    rw [hdashes]
    by_cases hc : c = '-'
    · subst hc
      simp only [ne_eq, not_true_eq_false, if_false, true_and]
      cases rest with
      | nil =>
          simp only [List.isEmpty_nil, if_true, not_spells_dashes, false_and, exists_false,
            or_false, true_and, Except.ok.injEq]
          exact eq_comm
      | cons d rest =>
          simp only [List.isEmpty_cons, Bool.false_eq_true, if_false, reduceCtorEq, false_and,
            false_or]
          exact adds_addLong (d :: rest) h t
    · simp only [hc, ne_eq, not_false_eq_true, if_true, false_and, false_or, spells_letters_iff hc]
      exact adds_addLetters (c :: rest) h t
  · rename_i hoption
    have hspells : ∀ more awaited, ¬Spells n argument.toList more awaited := by
      intro more awaited hspells
      obtain ⟨c, rest, hchars⟩ := exists_of_spells hspells
      exact hoption c rest hchars
    have hdashes : argument ≠ "--" := by
      rintro rfl
      exact hoption '-' [] rfl
    simp [hspells, hdashes]

/-- A value that is still to come is the next argument, unless that looks
like an option. -/
theorem step_awaiting (value : String) (h : AskedOnce settings true) :
    (n.settled settings true).step value = .ok t ↔
      ¬IsOption value ∧ t = n.settled (settings ++ [.value value]) false := by
  have hvalues : Setting.values settings = [] := h.awaited rfl
  have hnext : n.settled (settings ++ [.value value]) false
      = { n.settled settings true with value := some value, pending := false } := by
    simp_all [settled, Setting.values]
  have hclosed : (n.settled settings true).closed = false := rfl
  have hhelping : (n.settled settings true).helping = false := rfl
  have hpending : (n.settled settings true).pending = true := rfl
  unfold step
  rw [hclosed, hhelping, hpending, hnext]
  simp only [Bool.false_eq_true, if_false, if_true]
  split
  · rename_i c rest hchars
    have hoption : IsOption value := ⟨c, rest, hchars⟩
    simp [hoption]
  · rename_i hchars
    have hoption : ¬IsOption value := by
      rintro ⟨c, rest, h⟩
      exact hchars c rest h
    simp only [hoption, not_false_eq_true, true_and, Except.ok.injEq]
    exact eq_comm

end

end ArgumentState

/-! ### All arguments

The induction is on the arguments, with any settings known before them.
-/

namespace CommandName

open ArgumentState

variable {n : CommandName} {settings : List Setting} {awaited : Bool} {c : Command}

theorem finish_settled (h : AskedOnce settings awaited) :
    (n.settled settings awaited).finish = .ok c ↔
    awaited = false ∧ n.command (Setting.values settings).head? = c := by
  cases awaited with
  | false => simp [finish, settled]
  | true => simp [finish, settled]

/-- Behind the mark that ends the options there is nothing. -/
theorem run_closed (arguments : List String) :
    (arguments.foldlM step { n.settled settings false with closed := true } >>= finish) = .ok c ↔
      arguments = [] ∧ n.command (Setting.values settings).head? = c := by
  cases arguments with
  | nil => simp [finish, settled]
  | cons argument rest =>
      have hstep : step { n.settled settings false with closed := true } argument
          = .error .misuse := rfl
      rw [List.foldlM_cons, hstep]
      refine iff_of_false (fun h => ?_) (fun h => List.cons_ne_nil argument rest h.1)
      cases h

theorem spelledBy_nil_iff {all : List Setting} :
    n.SpelledBy awaited [] all ↔ awaited = false ∧ all = [] := by
  constructor
  · rintro ⟨⟩
    exact ⟨rfl, rfl⟩
  · rintro ⟨rfl, rfl⟩
    exact .nil

theorem spelledBy_value_iff {value : String} {rest : List String} {all : List Setting} :
    n.SpelledBy true (value :: rest) all ↔
      ¬IsOption value ∧ ∃ more, n.SpelledBy false rest more ∧ all = .value value :: more := by
  constructor
  · intro h
    cases h with
    | value hvalue hrest => exact ⟨hvalue, _, hrest, rfl⟩
  · rintro ⟨hvalue, more, hrest, rfl⟩
    exact .value hvalue hrest

theorem spelledBy_argument_iff {argument : String} {rest : List String} {all : List Setting} :
    n.SpelledBy false (argument :: rest) all ↔
      (argument = "--" ∧ rest = [] ∧ all = []) ∨
      ∃ settings awaited more, n.Spells argument.toList settings awaited ∧
        n.SpelledBy awaited rest more ∧ all = settings ++ more := by
  constructor
  · intro h
    cases h with
    | closed => exact .inl ⟨rfl, rfl, rfl⟩
    | argument hspells hrest => exact .inr ⟨_, _, _, hspells, hrest, rfl⟩
  · rintro (⟨rfl, rfl, rfl⟩ | ⟨settings, awaited, more, hspells, hrest, rfl⟩)
    · exact .closed
    · exact .argument hspells hrest

/-- **The reader takes the arguments behind the name of a command** if they write
settings, none of them twice. -/
theorem run_settled (arguments : List String) (h : AskedOnce settings awaited) :
    (arguments.foldlM step (n.settled settings awaited) >>= finish) = .ok c ↔
      ∃ more, n.SpelledBy awaited arguments more ∧ AskedOnce (settings ++ more) false ∧
        n.command (Setting.values (settings ++ more)).head? = c := by
  induction arguments generalizing settings awaited with
  | nil =>
      rw [List.foldlM_nil, pure_bind, finish_settled h]
      simp only [spelledBy_nil_iff, and_assoc]
      constructor
      · rintro ⟨rfl, hc⟩
        exact ⟨[], rfl, rfl, by rwa [List.append_nil], by rwa [List.append_nil]⟩
      · rintro ⟨_, hawaited, rfl, -, hc⟩
        rw [List.append_nil] at hc
        exact ⟨hawaited, hc⟩
  | cons argument rest ih =>
      rw [List.foldlM_cons, bind_assoc, bind_eq_ok]
      cases awaited with
      | true =>
          have honce : AskedOnce (settings ++ [.value argument]) false :=
            (h.known.concat_value_iff argument).mpr (h.awaited rfl)
          simp only [step_awaiting argument h, spelledBy_value_iff]
          constructor
          · rintro ⟨_, ⟨hvalue, rfl⟩, hrun⟩
            obtain ⟨more, hrest, hmore, hc⟩ := (ih honce).mp hrun
            rw [← List.append_cons] at hmore hc
            exact ⟨_, ⟨hvalue, more, hrest, rfl⟩, hmore, hc⟩
          · rintro ⟨_, ⟨hvalue, more, hrest, rfl⟩, hmore, hc⟩
            rw [List.append_cons] at hmore hc
            exact ⟨_, ⟨hvalue, rfl⟩, (ih honce).mpr ⟨more, hrest, hmore, hc⟩⟩
      | false =>
          simp only [step_settled argument h, spelledBy_argument_iff]
          constructor
          · rintro ⟨_, ⟨hdashes, rfl⟩ | ⟨first, awaited, hspells, hfirst, rfl⟩, hrun⟩
            · obtain ⟨hrest, hc⟩ := (run_closed rest).mp hrun
              exact ⟨[], .inl ⟨hdashes, hrest, rfl⟩, by rwa [List.append_nil],
                by rwa [List.append_nil]⟩
            · obtain ⟨more, hrest, hmore, hc⟩ := (ih hfirst).mp hrun
              rw [List.append_assoc] at hmore hc
              exact ⟨_, .inr ⟨first, awaited, more, hspells, hrest, rfl⟩, hmore, hc⟩
          · rintro ⟨_, ⟨hdashes, hrest, rfl⟩ | ⟨_, _, more, hspells, hrest, rfl⟩, hmore, hc⟩
            · rw [List.append_nil] at hc
              exact ⟨_, .inl ⟨hdashes, rfl⟩, (run_closed rest).mpr ⟨hrest, hc⟩⟩
            · rw [← List.append_assoc] at hmore hc
              have hfirst := hmore.of_spelledBy hrest
              exact ⟨_, .inr ⟨_, _, hspells, hfirst, rfl⟩,
                (ih hfirst).mpr ⟨more, hrest, hmore, hc⟩⟩

end CommandName

/-! ### In front of the command

As long as no command is named, only `--verbose` and its letter can be taken.  Whatever
else is asked for there loses the command, and nothing brings it back (`IsLost`).
-/

namespace Command

open ArgumentState CommandName

/-- The options that can stand in front of the name of a command. -/
def IsForeword (arguments : List String) : Prop :=
  arguments = [] ∨ arguments = ["-v"] ∨ arguments = ["--verbose"]

/-- A state in which no command can be named any more. -/
structure IsLost (s : ArgumentState) : Prop where
  name : s.name = none
  closed : s.closed = true ∨ s.helping = true

theorem finish_of_isLost {s : ArgumentState} (h : IsLost s) (c : Command) : s.finish ≠ .ok c := by
  unfold finish
  split
  · simp
  · simp [h.name]

theorem isLost_of_step {s t : ArgumentState} {argument : String} (h : IsLost s)
    (hstep : s.step argument = .ok t) : IsLost t := by
  unfold step at hstep
  split at hstep
  · cases hstep
  · split at hstep
    · unfold addTopic at hstep
      split at hstep
      · cases hstep
        exact ⟨h.name, .inl rfl⟩
      · cases hstep
    · rcases h.closed with hclosed | hhelping <;> contradiction

/-- Nothing that follows names a command any more. -/
theorem run_of_isLost {s : ArgumentState} (h : IsLost s) (arguments : List String) (c : Command) :
    (arguments.foldlM step s >>= finish) ≠ .ok c := by
  intro hrun
  obtain ⟨t, hsteps, hfinish⟩ := bind_eq_ok.mp hrun
  exact finish_of_isLost (foldlM_invariant (fun _ _ _ => isLost_of_step) arguments h hsteps) c
    hfinish

section
variable {verbose : Bool} {t : ArgumentState}

theorem addVerbose_nameless (h : addVerbose { verbose } = .ok t) :
    verbose = false ∧ t = { verbose := true } := by
  cases verbose with
  | true => cases h
  | false =>
      cases h
      exact ⟨rfl, rfl⟩

theorem askVersion_ne_ok (s : ArgumentState) : s.askVersion ≠ .ok t := by
  unfold askVersion
  split <;> simp

/-- In front of a command the only letter is that of the option that all have. -/
theorem addLetters_nameless {c : Char} {rest : List Char}
    (h : addLetters { verbose } (c :: rest) = .ok t) :
    c = 'v' ∧ verbose = false ∧ addLetters { verbose := true } rest = .ok t := by
  unfold addLetters at h
  simp only [Option.bind_none, reduceCtorEq, if_false] at h
  split at h
  · rename_i hv
    obtain ⟨s, hs, hrest⟩ := bind_eq_ok.mp h
    obtain ⟨hfalse, rfl⟩ := addVerbose_nameless hs
    exact ⟨hv, hfalse, hrest⟩
  · split at h
    · cases h
    · split at h
      · exact absurd h (askVersion_ne_ok _)
      · cases h

theorem addLetters_foreword {c : Char} {rest : List Char}
    (h : addLetters { verbose } (c :: rest) = .ok t) :
    c = 'v' ∧ rest = [] ∧ verbose = false ∧ t = { verbose := true } := by
  obtain ⟨hv, hfalse, hrest⟩ := addLetters_nameless h
  cases rest with
  | nil =>
      cases hrest
      exact ⟨hv, rfl, hfalse, rfl⟩
  | cons d rest =>
      obtain ⟨-, htwice, -⟩ := addLetters_nameless hrest
      cases htwice

theorem addLong_foreword {cs : List Char} (h : addLong { verbose } cs = .ok t) :
    cs = "verbose".toList ∧ verbose = false ∧ t = { verbose := true } := by
  unfold addLong at h
  simp only [Option.bind_none, reduceCtorEq, if_false] at h
  split at h
  · rename_i hnone
    have hfront := List.takeWhile_eq_self_iff.mpr (List.dropWhile_eq_nil_iff.mp hnone)
    rw [hfront] at h
    simp only [Option.isSome_none, Bool.false_eq_true, if_false] at h
    split at h
    · rename_i hlong
      refine ⟨?_, addVerbose_nameless h⟩
      rw [← hlong, String.toList_ofList]
    · split at h
      · cases h
      · split at h
        · exact absurd h (askVersion_ne_ok _)
        · cases h
  · simp at h

/-- What the first argument is: an option that stands in front of a command, or the
name of one; or else no command can be named any more. -/
theorem step_nameless {argument : String} (h : step { verbose } argument = .ok t) :
    (verbose = false ∧ (argument = "-v" ∨ argument = "--verbose") ∧ t = { verbose := true }) ∨
      (∃ n : CommandName, argument = n.text ∧ t = n.settled [] false) ∨ IsLost t := by
  unfold step at h
  simp only [Bool.false_eq_true, if_false] at h
  split at h
  · rename_i c rest hchars
    split at h
    · obtain ⟨rfl, rfl, hfalse, rfl⟩ := addLetters_foreword h
      exact .inl ⟨hfalse, .inl (String.toList_inj.mp hchars), rfl⟩
    · rename_i hc
      split at h
      · cases h
        exact .inr (.inr ⟨rfl, .inl rfl⟩)
      · obtain ⟨rfl, hfalse, rfl⟩ := addLong_foreword h
        rw [ne_eq, not_not] at hc
        rw [hc] at hchars
        exact .inl ⟨hfalse, .inr (String.toList_inj.mp hchars), rfl⟩
  · unfold addWord at h
    simp only [Option.isSome_none, Bool.false_eq_true, if_false] at h
    split at h
    · cases h
      exact .inr (.inr ⟨rfl, .inr rfl⟩)
    · split at h
      · rename_i n hname
        cases h
        refine .inr (.inl ⟨n, ?_, rfl⟩)
        have hfound := List.find?_some hname
        simpa [eq_comm] using hfound
      · cases h

end

/-- What the arguments are where they name a command. -/
theorem run_nameless {verbose : Bool} {arguments : List String} {c : Command}
    (h : (arguments.foldlM step { verbose } >>= finish) = .ok c) :
    ∃ (front : List String) (n : CommandName) (rest : List String) (settings : List Setting),
      (IsForeword front ∧ (verbose = true → front = [])) ∧ arguments = front ++ n.text :: rest ∧
        n.SpelledBy false rest settings ∧ AskedOnce settings false ∧
        n.command (Setting.values settings).head? = c := by
  induction arguments generalizing verbose with
  | nil => cases h
  | cons argument rest ih =>
      rw [List.foldlM_cons, bind_assoc] at h
      obtain ⟨t, hstep, hrun⟩ := bind_eq_ok.mp h
      rcases step_nameless hstep with ⟨hfalse, hargument, rfl⟩ | ⟨n, rfl, rfl⟩ | hlost
      · obtain ⟨front, n, more, settings, ⟨-, hnone⟩, rfl, hrest⟩ := ih hrun
        obtain rfl := hnone rfl
        refine ⟨[argument], n, more, settings, ⟨?_, by simp [hfalse]⟩, rfl, hrest⟩
        rcases hargument with rfl | rfl
        · exact .inr (.inl rfl)
        · exact .inr (.inr rfl)
      · obtain ⟨settings, hspelled, honce, hc⟩ := (run_settled rest .nil).mp hrun
        exact ⟨[], n, rest, settings, ⟨.inl rfl, fun _ => rfl⟩, rfl, hspelled, honce, hc⟩
      · exact absurd hrun (run_of_isLost hlost rest c)

theorem step_name (verbose : Bool) (n : CommandName) :
    step { verbose } n.text = .ok (n.settled [] false) := by
  cases n <;> rfl

/-- **These are the arguments that ask for a command**: at most one option that all
commands have, the name of the command, and what writes settings of it, none of them
twice.  The command gets the value that is among them. -/
theorem parse_eq_ok_iff {arguments : List String} {c : Command} : Command.parse arguments = .ok c ↔
    ∃ (front : List String) (n : CommandName) (rest : List String) (settings : List Setting),
      IsForeword front ∧ arguments = front ++ n.text :: rest ∧ n.SpelledBy false rest settings ∧
        AskedOnce settings false ∧ n.command (Setting.values settings).head? = c := by
  constructor
  · intro h
    obtain ⟨front, n, rest, settings, ⟨hfront, -⟩, hrest⟩ := run_nameless h
    exact ⟨front, n, rest, settings, hfront, hrest⟩
  · rintro ⟨front, n, rest, settings, hfront, rfl, hspelled, honce, hc⟩
    have hrun := (run_settled rest .nil).mpr ⟨settings, hspelled, honce, hc⟩
    have hnamed : ∀ verbose, ((n.text :: rest).foldlM step { verbose } >>= finish) = .ok c := by
      intro verbose
      rw [List.foldlM_cons, bind_assoc, step_name, ok_bind]
      exact hrun
    rcases hfront with rfl | rfl | rfl
    · exact hnamed false
    · exact hnamed true
    · exact hnamed true

end Command

/-! ### The program

What is said of a command is carried over to the arguments that ask for it.
-/

/-- Every command is `n.command value` for a name, and where it has a value there is
an option for that. -/
theorem Command.exists_name (c : Command) : ∃ (n : CommandName) (value : Option String),
    n.command value = c ∧ ∀ v, value = some v → ∃ option, n.option? = some option := by
  cases c with
  | init name => exact ⟨.init, name, rfl, fun _ _ => ⟨_, rfl⟩⟩
  | resolve configuration => exact ⟨.resolve, configuration, rfl, fun _ _ => ⟨_, rfl⟩⟩
  | outgoingVariants module => exact ⟨.outgoingVariants, module, rfl, fun _ _ => ⟨_, rfl⟩⟩
  | resolvableConfigurations configuration =>
      exact ⟨.resolvableConfigurations, configuration, rfl, fun _ _ => ⟨_, rfl⟩⟩
  | attributes => exact ⟨.attributes, none, rfl, fun _ h => by cases h⟩

/-- **Every command can be asked for**, whatever the value of its option is. -/
theorem Command.exists_parse (c : Command) : ∃ arguments, Command.parse arguments = .ok c := by
  obtain ⟨n, value, hc, hvalue⟩ := c.exists_name
  cases value with
  | none => exact ⟨[n.text], parse_eq_ok_iff.mpr ⟨[], n, [], [], .inl rfl, rfl, .nil, .nil, hc⟩⟩
  | some value =>
      obtain ⟨option, hoption⟩ := hvalue value rfl
      have hchars : (s!"--{option}={value}").toList
          = '-' :: '-' :: (option.toList ++ '=' :: value.toList) := by
        simp [toString]
      have hspells : n.Spells (s!"--{option}={value}").toList [.value value] false := by
        have hspells := CommandName.Spells.value hoption value.toList
        rwa [String.ofList_toList, ← hchars] at hspells
      have honce : AskedOnce ([.value value] ++ []) false :=
        (AskedOnce.nil.concat_value_iff value).mpr rfl
      exact ⟨[n.text, s!"--{option}={value}"], parse_eq_ok_iff.mpr
        ⟨[], n, _, _, .inl rfl, rfl, .argument hspells .nil, honce, hc⟩⟩

/-- **The program runs the command that its arguments ask for**, or else it changes
nothing.  The exit code alone tells where they ask for nothing that there is. -/
theorem run_runArguments (arguments : List String) (s : FileSystem) :
    (∀ c, Command.parse arguments = .ok c → (runArguments arguments).run s = c.on s) ∧
    ((∀ c, Command.parse arguments ≠ .ok c) → ((runArguments arguments).run s).2 = s) ∧
    (((runArguments arguments).run s).1.exitCode = 2 ↔
      Command.parse arguments = .error .misuse) := by
  unfold runArguments
  cases hparse : Command.parse arguments with
  | error stop =>
      refine ⟨fun c h => ?_, fun _ => rfl, ?_⟩
      · cases h
      · cases stop with
        | version | help => exact iff_of_false (fun h => by cases h) (by simp)
        | misuse => exact iff_of_true rfl rfl
  | ok c =>
      refine ⟨fun d h => ?_, fun h => absurd rfl (h c), iff_of_false (fun hcode => ?_) (by simp)⟩
      · cases h
        rfl
      · rcases Command.ends_on c s with h | h
        · exact absurd (h.exitCode.symm.trans hcode) (by decide)
        · exact absurd (h.exitCode.symm.trans hcode) (by decide)

end VariantSelection
