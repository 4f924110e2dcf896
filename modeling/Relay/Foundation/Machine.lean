import Mathlib

/-! # Runs of a partial step function

A machine is a step function that may refuse an action. A run performs a list
of actions; a condition on the steps of a run refers to the state before each
step. One rule covers safety: what the initial state has and every step that
meets the condition keeps, the final state of the run has.
-/

namespace Machine

variable {S A : Type}

def run (step : S → A → Option S) : S → List A → Option S
  | s, [] => some s
  | s, a :: as => (step s a).bind fun s' => run step s' as

/-- Every action of the run meets the condition in the state it is performed in. -/
def Meets (step : S → A → Option S) (ok : S → A → Prop) : S → List A → Prop
  | _, [] => True
  | s, a :: as => ok s a ∧ ∀ s', step s a = some s' → Meets step ok s' as

instance decidableMeets (step : S → A → Option S) (ok : S → A → Prop)
    [∀ s a, Decidable (ok s a)] : (s : S) → (as : List A) → Decidable (Meets step ok s as)
  | _, [] => isTrue trivial
  | s, a :: as =>
      haveI (s' : S) : Decidable (Meets step ok s' as) := decidableMeets step ok s' as
      inferInstanceAs (Decidable (ok s a ∧ ∀ s' ∈ step s a, Meets step ok s' as))

/-- Every state the run goes through, the first and the last included, satisfies
the predicate. -/
def Always (step : S → A → Option S) (P : S → Prop) : S → List A → Prop
  | s, [] => P s
  | s, a :: as => P s ∧ ∀ s', step s a = some s' → Always step P s' as

variable {step : S → A → Option S} {ok : S → A → Prop} {Inv : S → Prop}

theorem run_cons_eq_some {s t : S} {a : A} {as : List A} :
    run step s (a :: as) = some t ↔ ∃ s', step s a = some s' ∧ run step s' as = some t := by
  simp [run, Option.bind_eq_some_iff]

/-- Runs compose. -/
theorem run_append {s t : S} {as bs : List A} (h : run step s as = some t) :
    run step s (as ++ bs) = run step t bs := by
  induction as generalizing s with
  | nil => cases h; rfl
  | cons a as ih =>
      obtain ⟨s', hstep, hrun⟩ := run_cons_eq_some.mp h
      simp [run, hstep, ih hrun]

/-- Safety over all runs. -/
theorem run_invariant (hstep : ∀ s a s', Inv s → step s a = some s' → Inv s')
    {s t : S} {as : List A} (hinit : Inv s) (hrun : run step s as = some t) : Inv t := by
  induction as generalizing s with
  | nil =>
      cases hrun
      exact hinit
  | cons a as ih =>
      obtain ⟨s', hs', hrest⟩ := run_cons_eq_some.mp hrun
      exact ih (hstep s a s' hinit hs') hrest

/-- Runs of actions that keep an invariant and lower a measure are short. -/
theorem length_add_le_of_run {ok : A → Prop} (measure : S → Nat)
    (hstep : ∀ s a s', ok a → Inv s → step s a = some s' → Inv s' ∧ measure s' < measure s)
    {s t : S} {as : List A} (hok : ∀ a ∈ as, ok a) (hinit : Inv s) (hrun : run step s as = some t) :
    Inv t ∧ as.length + measure t ≤ measure s := by
  induction as generalizing s with
  | nil =>
      cases hrun
      exact ⟨hinit, by simp⟩
  | cons a as ih =>
      obtain ⟨hfirst, hrest⟩ := List.forall_mem_cons.mp hok
      obtain ⟨s', hs', hrun'⟩ := run_cons_eq_some.mp hrun
      obtain ⟨hinv, hless⟩ := hstep s a s' hfirst hinit hs'
      obtain ⟨hlast, hle⟩ := ih hrest hinv hrun'
      refine ⟨hlast, ?_⟩
      rw [List.length_cons]
      omega

def Reaches (step : S → A → Option S) (s t : S) : Prop := ∃ as, run step s as = some t

theorem Reaches.refl (s : S) : Reaches step s s := ⟨[], rfl⟩

theorem Reaches.single {s t : S} (a : A) (h : step s a = some t) : Reaches step s t :=
  ⟨[a], by simp [run, h]⟩

theorem Reaches.trans {s t u : S} (hst : Reaches step s t) (htu : Reaches step t u) :
    Reaches step s u := by
  obtain ⟨as, has⟩ := hst
  obtain ⟨bs, hbs⟩ := htu
  exact ⟨as ++ bs, (run_append has).trans hbs⟩

theorem Always.head {s : S} {as : List A} (h : Always step Inv s as) : Inv s := by
  cases as with
  | nil => exact h
  | cons a as => exact h.1

/-- What holds throughout holds at the end. -/
theorem Always.last {s t : S} {as : List A} (h : Always step Inv s as)
    (hrun : run step s as = some t) : Inv t := by
  induction as generalizing s with
  | nil =>
      cases hrun
      exact h
  | cons a as ih =>
      obtain ⟨s', hs', hrest⟩ := run_cons_eq_some.mp hrun
      exact ih (h.2 s' hs') hrest

/-- What an invariant implies holds in every state of every run. -/
theorem always_of_invariant {P : S → Prop} (Inv : S → Prop)
    (hstep : ∀ s a s', Inv s → step s a = some s' → Inv s') (hP : ∀ s, Inv s → P s)
    {s : S} {as : List A} (hinit : Inv s) : Always step P s as := by
  induction as generalizing s with
  | nil => exact hP s hinit
  | cons a as ih => exact ⟨hP s hinit, fun s' hs' => ih (hstep s a s' hinit hs')⟩

/-- What an invariant kept by the steps that meet a condition implies holds in
every state of a run that meets it. -/
theorem always_of_meets {P : S → Prop} (Inv : S → Prop) (ok : S → A → Prop)
    (hstep : ∀ s a s', Inv s → ok s a → step s a = some s' → Inv s') (hP : ∀ s, Inv s → P s)
    {s : S} {as : List A} (hinit : Inv s) (hok : Meets step ok s as) : Always step P s as := by
  induction as generalizing s with
  | nil => exact hP s hinit
  | cons a as ih =>
      exact ⟨hP s hinit, fun s' hs' => ih (hstep s a s' hinit hok.1 hs') (hok.2 s' hs')⟩

/-- When the condition on a step says exactly that the step keeps the invariant,
a run that starts in the invariant never leaves it exactly if its steps all meet
the condition. -/
theorem always_iff_meets (Aux : S → Prop)
    (haux : ∀ s a s', Aux s → step s a = some s' → Aux s')
    (hstep : ∀ s a, Aux s → Inv s → (ok s a ↔ ∀ s', step s a = some s' → Inv s'))
    {s : S} (as : List A) (hs : Aux s) (hinit : Inv s) :
    Always step Inv s as ↔ Meets step ok s as := by
  induction as generalizing s with
  | nil => exact ⟨fun _ => trivial, fun _ => hinit⟩
  | cons a as ih =>
      constructor
      · rintro ⟨-, hrest⟩
        refine ⟨(hstep s a hs hinit).mpr fun s' hs' => (hrest s' hs').head, fun s' hs' => ?_⟩
        exact (ih (haux s a s' hs hs') (hrest s' hs').head).mp (hrest s' hs')
      · rintro ⟨hok, hrest⟩
        refine ⟨hinit, fun s' hs' => ?_⟩
        have hinv := (hstep s a hs hinit).mp hok s' hs'
        exact (ih (haux s a s' hs hs') hinv).mpr (hrest s' hs')

end Machine
