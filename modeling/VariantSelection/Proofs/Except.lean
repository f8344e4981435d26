/-
Computations that can be refused.

A sequence of them succeeds exactly when each step does, and then every result that
a `mapM` collects is the result of one of its steps (`mapM_eq_ok_iff`), and a
`foldlM` ends with what its steps keep (`foldlM_invariant`).  It fails exactly when
one of its steps does, and where the faults of each step can be listed beforehand,
with the first of all of them (`Reports`).
-/
import Mathlib.Data.List.Forall2

namespace VariantSelection

/-! ### Success -/

theorem ok_bind {ε α β : Type} (a : α) (f : α → Except ε β) : (Except.ok a >>= f) = f a := rfl

theorem mapError_ok {ε ε' α : Type} (f : ε → ε') (a : α) :
    (Except.ok a).mapError f = .ok a := rfl

theorem bind_eq_ok {ε α β : Type} {x : Except ε α} {f : α → Except ε β} {b : β} :
    (x >>= f) = .ok b ↔ ∃ a, x = .ok a ∧ f a = .ok b := by
  cases x with
  | error e => simp [bind, Except.bind]
  | ok a => simp [bind, Except.bind]

theorem isOk_iff {ε α : Type} {x : Except ε α} : x.isOk = true ↔ ∃ a, x = .ok a := by
  cases x with
  | error e => simp [Except.isOk, Except.toBool]
  | ok a => simp [Except.isOk, Except.toBool]

theorem pure_eq_ok {ε α : Type} {a b : α} : (pure a : Except ε α) = .ok b ↔ a = b := by
  simp [pure, Except.pure]

theorem mapError_eq_ok {ε ε' α : Type} {x : Except ε α} {f : ε → ε'} {a : α} :
    x.mapError f = .ok a ↔ x = .ok a := by
  cases x with
  | error e => simp [Except.mapError]
  | ok b => simp [Except.mapError]

theorem map_eq_ok {ε α β : Type} {x : Except ε α} {f : α → β} {b : β} :
    x.map f = .ok b ↔ ∃ a, x = .ok a ∧ f a = b := by
  cases x with
  | error e => simp [Except.map]
  | ok a => simp [Except.map]

theorem map_eq_error {ε α β : Type} {x : Except ε α} {f : α → β} {e : ε} :
    x.map f = .error e ↔ x = .error e := by
  cases x with
  | error e => simp [Except.map]
  | ok a => simp [Except.map]

theorem toOption_eq_some_iff {ε α : Type} {x : Except ε α} {a : α} :
    x.toOption = some a ↔ x = .ok a := by
  cases x with
  | error e => simp [Except.toOption]
  | ok b => simp [Except.toOption]

/-- What is collected are the results of the steps, one by one. -/
theorem mapM_eq_ok_iff {ε α β : Type} {f : α → Except ε β} {l : List α} {m : List β} :
    l.mapM f = .ok m ↔ List.Forall₂ (fun a b => f a = .ok b) l m := by
  induction l generalizing m with
  | nil =>
      rw [List.mapM_nil, pure_eq_ok, List.forall₂_nil_left_iff]
      exact eq_comm
  | cons a rest ih =>
      simp only [List.mapM_cons, bind_eq_ok, pure_eq_ok, List.forall₂_cons_left_iff, ih]
      constructor
      · rintro ⟨b, hb, bs, hbs, rfl⟩
        exact ⟨b, bs, hb, hbs, rfl⟩
      · rintro ⟨b, bs, hb, hbs, rfl⟩
        exact ⟨b, hb, bs, hbs, rfl⟩

/-- The same for a single argument, which need not be there. -/
theorem optionMapM_eq_ok_iff {ε α β : Type} {f : α → Except ε β} {o : Option α} {r : Option β} :
    o.mapM f = .ok r ↔ Option.Rel (fun a b => f a = .ok b) o r := by
  cases o with
  | none =>
      have hnone : (none : Option α).mapM f = .ok none := rfl
      rw [hnone, Except.ok.injEq]
      constructor
      · rintro rfl
        exact .none
      · rintro ⟨⟩
        rfl
  | some a =>
      have hsome : (some a).mapM f = (f a).map some := by
        simp only [Option.mapM_some]
        cases f a <;> rfl
      rw [hsome, map_eq_ok]
      constructor
      · rintro ⟨b, hb, rfl⟩
        exact .some hb
      · rintro (hb | _)
        exact ⟨_, hb, rfl⟩

/-- Where a step that gives nothing ends the run, too. -/
theorem mapM_eq_some_iff {α β : Type} {f : α → Option β} {l : List α} {m : List β} :
    l.mapM f = some m ↔ List.Forall₂ (fun a b => f a = some b) l m := by
  induction l generalizing m with
  | nil =>
      rw [List.mapM_nil, Option.pure_def, Option.some.injEq, List.forall₂_nil_left_iff]
      exact eq_comm
  | cons a rest ih =>
      simp only [List.mapM_cons, Option.bind_eq_bind, Option.bind_eq_some_iff, Option.pure_def,
        Option.some.injEq, List.forall₂_cons_left_iff, ih]
      constructor
      · rintro ⟨b, hb, bs, hbs, rfl⟩
        exact ⟨b, bs, hb, hbs, rfl⟩
      · rintro ⟨b, bs, hb, hbs, rfl⟩
        exact ⟨b, hb, bs, hbs, rfl⟩

/-- Where no step fails, what is collected are all the results that there are. -/
theorem mapM_eq_ok_filterMap {ε α β : Type} {f : α → Except ε β} {l : List α}
    (h : ∀ a ∈ l, ∃ b, f a = .ok b) : l.mapM f = .ok (l.filterMap fun a => (f a).toOption) := by
  induction l with
  | nil => rfl
  | cons a rest ih =>
      obtain ⟨⟨b, hb⟩, hrest⟩ := List.forall_mem_cons.mp h
      rw [List.mapM_cons, ih hrest, List.filterMap_cons, hb]
      rfl

/-- What is done with each result can be done once all of them are there. -/
theorem mapM_map_eq {ε α β γ : Type} (f : α → Except ε β) (g : β → γ) (l : List α) :
    (l.mapM fun a => (f a).map g) = (l.mapM f).map (List.map g) := by
  induction l with
  | nil => rfl
  | cons a rest ih =>
      rw [List.mapM_cons, List.mapM_cons, ih]
      cases f a with
      | error e => rfl
      | ok b =>
          cases rest.mapM f with
          | error e => rfl
          | ok bs => rfl

/-- What is made from each element is related to it if each is. -/
theorem forall₂_map_of_forall {α β : Type} {R : α → β → Prop} {f : α → β} {l : List α}
    (h : ∀ a ∈ l, R a (f a)) : List.Forall₂ R l (l.map f) := by
  rw [List.forall₂_map_right_iff, List.forall₂_same]
  exact h

/-- What stands on the right of such a relation of lists is related to something
on the left. -/
theorem exists_of_mem_right {α β : Type} {R : α → β → Prop} {l : List α} {m : List β}
    (h : List.Forall₂ R l m) {b : β} (hb : b ∈ m) : ∃ a ∈ l, R a b := by
  induction h with
  | nil => simp at hb
  | cons hfirst _ ih =>
      rcases List.mem_cons.mp hb with rfl | hb
      · exact ⟨_, List.mem_cons_self, hfirst⟩
      · obtain ⟨a, ha, hab⟩ := ih hb
        exact ⟨a, List.mem_cons_of_mem _ ha, hab⟩

theorem mem_of_mapM_eq_ok {ε α β : Type} {f : α → Except ε β} {l : List α} {m : List β}
    (h : l.mapM f = .ok m) : ∀ b ∈ m, ∃ a ∈ l, f a = .ok b :=
  fun _ hb => exists_of_mem_right (mapM_eq_ok_iff.mp h) hb

theorem mem_iff_of_mapM_eq_ok {ε α β : Type} {f : α → Except ε β} {l : List α} {m : List β}
    (h : l.mapM f = .ok m) {b : β} : b ∈ m ↔ ∃ a ∈ l, f a = .ok b := by
  refine ⟨mem_of_mapM_eq_ok h b, ?_⟩
  intro hb
  obtain ⟨a, ha, hab⟩ := hb
  obtain ⟨c, hc, hac⟩ := exists_of_mem_right (List.Forall₂.flip (mapM_eq_ok_iff.mp h)) ha
  have hbc : c = b := by
    rw [hab, Except.ok.injEq] at hac
    exact hac.symm
  exact hbc ▸ hc

/-- What `f` keeps of each element, the list of the results keeps of the list. -/
theorem map_eq_of_mapM_eq_ok {ε α β γ : Type} {f : α → Except ε β} {g : α → γ} {g' : β → γ}
    (hkeep : ∀ a b, f a = .ok b → g' b = g a) {l : List α} {m : List β} (h : l.mapM f = .ok m) :
    m.map g' = l.map g := by
  have hsteps := mapM_eq_ok_iff.mp h
  clear h
  induction hsteps with
  | nil => rfl
  | cons hfirst _ ih => rw [List.map_cons, List.map_cons, hkeep _ _ hfirst, ih]

/-- What holds of the first state and is kept by each `f s a` that succeeds
holds in the end. -/
theorem foldlM_invariant {ε α σ : Type} {f : σ → α → Except ε σ} {P : σ → Prop}
    (hstep : ∀ s a t, P s → f s a = .ok t → P t) (l : List α) :
    ∀ {s t : σ}, P s → l.foldlM f s = .ok t → P t := by
  induction l with
  | nil =>
      intro s t hs h
      rw [List.foldlM_nil, pure_eq_ok] at h
      exact h ▸ hs
  | cons a rest ih =>
      intro s t hs h
      rw [List.foldlM_cons, bind_eq_ok] at h
      obtain ⟨next, hnext, hrest⟩ := h
      exact ih (hstep s a next hs hnext) hrest

/-- What each `f s a` that succeeds says of `a` holds of all elements once all steps
have succeeded. -/
theorem forall_of_foldlM {ε α σ : Type} {f : σ → α → Except ε σ} {P : α → Prop}
    (hstep : ∀ s a t, f s a = .ok t → P a) (l : List α) :
    ∀ {s t : σ}, l.foldlM f s = .ok t → ∀ a ∈ l, P a := by
  induction l with
  | nil => rintro _ _ _ _ ⟨⟩
  | cons a rest ih =>
      intro s t h
      rw [List.foldlM_cons, bind_eq_ok] at h
      obtain ⟨next, hnext, hrest⟩ := h
      exact List.forall_mem_cons.mpr ⟨hstep s a next hnext, ih hrest⟩

/-! ### Failure -/

theorem bind_fails_iff {ε α β : Type} {x : Except ε α} {f : α → Except ε β} :
    (∃ e, (x >>= f) = .error e) ↔ (∃ e, x = .error e) ∨ ∃ a, x = .ok a ∧ ∃ e, f a = .error e := by
  cases x with
  | error e => simp [bind, Except.bind]
  | ok a => simp [bind, Except.bind]

theorem pure_not_fails {ε α : Type} (a : α) : ¬∃ e, (pure a : Except ε α) = .error e := by
  rintro ⟨_, ⟨⟩⟩

theorem mapError_fails_iff {ε ε' α : Type} {x : Except ε α} {f : ε → ε'} :
    (∃ e, x.mapError f = .error e) ↔ ∃ e, x = .error e := by
  cases x with
  | error e => simp [Except.mapError]
  | ok a => simp [Except.mapError]

/-- A failure or something else: the something else need not ask for success. -/
theorem fails_or_iff {ε α : Type} {x : Except ε α} {p : Prop} :
    ((∃ e, x = .error e) ∨ ∃ a, x = .ok a ∧ p) ↔ (∃ e, x = .error e) ∨ p := by
  cases x with
  | error e => simp
  | ok a => simp

theorem mapM_fails_iff {ε α β : Type} {f : α → Except ε β} {l : List α} :
    (∃ e, l.mapM f = .error e) ↔ ∃ a ∈ l, ∃ e, f a = .error e := by
  induction l with
  | nil => simp [pure, Except.pure]
  | cons a rest ih =>
      simp only [List.mapM_cons, bind_fails_iff, pure_not_fails, and_false, exists_false, or_false,
        fails_or_iff, ih, List.exists_mem_cons_iff]

/-! ### Kinds of failure

`FailsWith` bounds the errors that a computation can end with, whether or not it does.
-/

section
variable {ε α β σ : Type} {P : ε → Prop}

/-- Whatever error the computation ends with, it has the property. -/
def FailsWith (P : ε → Prop) (x : Except ε α) : Prop := ∀ e, x = .error e → P e

theorem failsWith_ok (a : α) : FailsWith P (.ok a) := by
  rintro _ ⟨⟩

theorem failsWith_error {e : ε} (h : P e) : FailsWith P (.error e : Except ε α) := by
  rintro _ ⟨⟩
  exact h

theorem FailsWith.mono {Q : ε → Prop} {x : Except ε α} (hx : FailsWith P x)
    (hPQ : ∀ e, P e → Q e) : FailsWith Q x :=
  fun e h => hPQ e (hx e h)

theorem FailsWith.bind {x : Except ε α} {f : α → Except ε β} (hx : FailsWith P x)
    (hf : ∀ a, FailsWith P (f a)) : FailsWith P (x >>= f) := by
  cases x with
  | error e => exact failsWith_error (hx e rfl)
  | ok a => exact hf a

theorem FailsWith.map {x : Except ε α} (hx : FailsWith P x) (f : α → β) :
    FailsWith P (x.map f) := by
  cases x with
  | error e => exact failsWith_error (hx e rfl)
  | ok a => exact failsWith_ok (f a)

theorem FailsWith.mapM {f : α → Except ε β} (hf : ∀ a, FailsWith P (f a)) (l : List α) :
    FailsWith P (l.mapM f) := by
  induction l with
  | nil => exact failsWith_ok []
  | cons a rest ih =>
      rw [List.mapM_cons]
      exact (hf a).bind fun _ => ih.bind fun _ => failsWith_ok _

theorem FailsWith.foldlM {f : σ → α → Except ε σ} (hf : ∀ s a, FailsWith P (f s a)) (l : List α) :
    ∀ s, FailsWith P (l.foldlM f s) := by
  induction l with
  | nil => exact failsWith_ok
  | cons a rest ih =>
      intro s
      rw [List.foldlM_cons]
      exact (hf s a).bind ih

end

/-! ### The first failure

A computation `Reports` a list of faults if it fails with the first of them and
succeeds where the list is empty.  Such lists are put together like the computations
are: one behind another for two steps, and one for each element for a `mapM`.
-/

section
variable {ε α β : Type} {faults : List ε} {x : Except ε α}

/-- The computation fails with the first of `faults`, and only if there is one. -/
def Reports (faults : List ε) (x : Except ε α) : Prop :=
  ∀ e, x = .error e ↔ faults.head? = some e

theorem reports_ok (a : α) : Reports [] (.ok a : Except ε α) := by
  simp [Reports]

theorem reports_error (e : ε) (rest : List ε) : Reports (e :: rest) (.error e : Except ε α) := by
  simp [Reports]

theorem reports_ok_iff {a : α} : Reports faults (.ok a) ↔ faults = [] := by
  constructor
  · intro h
    cases faults with
    | nil => rfl
    | cons e rest => exact absurd ((h e).mpr rfl) (by simp)
  · rintro rfl
    exact reports_ok a

theorem reports_error_iff {e : ε} :
    Reports faults (.error e : Except ε α) ↔ ∃ rest, faults = e :: rest := by
  constructor
  · intro h
    exact List.head?_eq_some_iff.mp ((h e).mp rfl)
  · rintro ⟨rest, rfl⟩
    exact reports_error e rest

theorem Reports.succeeds_iff (h : Reports faults x) : (∃ a, x = .ok a) ↔ faults = [] := by
  cases x with
  | ok a => simp [reports_ok_iff.mp h]
  | error e =>
      obtain ⟨rest, rfl⟩ := reports_error_iff.mp h
      simp

/-- The faults of the second step count if the first one has none. -/
theorem Reports.bind {f : α → Except ε β} {more : List ε} (hx : Reports faults x)
    (hf : ∀ a, x = .ok a → Reports more (f a)) : Reports (faults ++ more) (x >>= f) := by
  cases x with
  | ok a =>
      rw [reports_ok_iff.mp hx, List.nil_append]
      exact hf a rfl
  | error e =>
      obtain ⟨rest, rfl⟩ := reports_error_iff.mp hx
      exact reports_error e (rest ++ more)

theorem Reports.bind_pure (hx : Reports faults x) (f : α → β) :
    Reports faults (x >>= fun a => pure (f a)) := by
  have h := hx.bind fun a _ => reports_ok (f a)
  rwa [List.append_nil] at h

theorem Reports.mapError {ε' : Type} (hx : Reports faults x) (f : ε → ε') :
    Reports (faults.map f) (x.mapError f) := by
  cases x with
  | ok a =>
      rw [reports_ok_iff.mp hx]
      exact reports_ok a
  | error e =>
      obtain ⟨rest, rfl⟩ := reports_error_iff.mp hx
      exact reports_error (f e) (rest.map f)

theorem Reports.mapM {γ : Type} {f : γ → Except ε β} {faultsOf : γ → List ε}
    (hf : ∀ c, Reports (faultsOf c) (f c)) (l : List γ) :
    Reports (l.flatMap faultsOf) (l.mapM f) := by
  induction l with
  | nil => exact reports_ok []
  | cons c rest ih =>
      rw [List.mapM_cons, List.flatMap_cons]
      exact (hf c).bind fun b _ => ih.bind_pure fun bs => b :: bs

end

end VariantSelection
