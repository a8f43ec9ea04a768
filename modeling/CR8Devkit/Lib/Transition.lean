import Mathlib.Logic.Relation

/-!
# Labelled transition systems and their runs

* `Run step s as s'`: a finite run of `step` from `s` to `s'` performing the actions `as` in order.
* `Run.inv`, `Run.inv_trace`: the invariant rules, without and with the performed actions.
* `Run.map`, `Run.project`: a run under other names, and what one component sees of it.
* `guarded step P`: the steps of `step` taken in a state and with an action that meet `P`.
* `ofNext next`, `exec`, `run_of_exec`, `run_of_exec_guarded`: systems given by an executable
  partial step function.
-/

namespace Transition

variable {S A : Type*}

/-- A finite run; the newest action stands at the end of the list. -/
inductive Run (step : S → A → S → Prop) (s : S) : List A → S → Prop
  | nil : Run step s [] s
  | snoc {as : List A} {s₁ s₂ : S} {a : A} (h : Run step s as s₁) (hs : step s₁ a s₂) :
      Run step s (as ++ [a]) s₂

variable {step : S → A → S → Prop} {s s₁ s₂ : S} {a : A} {as bs : List A}

theorem Run.single (h : step s a s₁) : Run step s [a] s₁ := Run.snoc .nil h

theorem Run.append (h₁ : Run step s as s₁) (h₂ : Run step s₁ bs s₂) : Run step s (as ++ bs) s₂ := by
  induction h₂ with
  | nil => simpa using h₁
  | snoc _ hs ih => rw [← List.append_assoc]; exact ih.snoc hs

theorem Run.cons (h : step s a s₁) (h₂ : Run step s₁ as s₂) : Run step s (a :: as) s₂ :=
  (Run.single h).append h₂

/-- **Invariant rule.** What holds initially and is kept by every step holds after every run. -/
theorem Run.inv {I : S → Prop} (h : Run step s as s₁) (h₀ : I s)
    (hstep : ∀ {s a s'}, I s → step s a s' → I s') : I s₁ := by
  induction h with
  | nil => exact h₀
  | snoc _ hs ih => exact hstep ih hs

/-- The invariant rule for invariants that mention the actions performed so far. -/
theorem Run.inv_trace {I : List A → S → Prop} (h : Run step s as s₁) (h₀ : I [] s)
    (hstep : ∀ {as s a s'}, I as s → step s a s' → I (as ++ [a]) s') : I as s₁ := by
  induction h with
  | nil => exact h₀
  | snoc _ hs ih => exact hstep ih hs

/-- A run whose actions have other names. -/
theorem Run.map {B : Type*} {step' : S → B → S → Prop} (f : A → B) (h : Run step s as s₁)
    (hstep : ∀ {s a s'}, step s a s' → step' s (f a) s') : Run step' s (as.map f) s₁ := by
  induction h with
  | nil => exact .nil
  | snoc _ hs ih =>
    rw [List.map_append]
    exact ih.snoc (hstep hs)

/-- The part of a run that concerns one component: `f` is its state, `g` what an action is to it. -/
theorem Run.project {T B : Type*} {step' : T → B → T → Prop} (f : S → T) (g : A → Option B)
    (h : Run step s as s₁)
    (hstep : ∀ {s a s'}, step s a s' → (g a).elim (f s' = f s) (step' (f s) · (f s'))) :
    Run step' (f s) (as.filterMap g) (f s₁) := by
  induction h with
  | nil => exact .nil
  | @snoc as s₁ s₂ a _ hs ih =>
    have hs := hstep hs
    rw [List.filterMap_append, List.filterMap_cons]
    cases hg : g a with
    | none =>
      rw [hg] at hs
      rw [List.filterMap_nil, List.append_nil, show f s₂ = f s₁ from hs]
      exact ih
    | some b =>
      rw [hg] at hs
      exact ih.snoc hs

/-- The steps taken from a state and with an action that meet `P`. -/
def guarded (step : S → A → S → Prop) (P : S → A → Prop) (s : S) (a : A) (s' : S) : Prop :=
  P s a ∧ step s a s'

/-- A run whose actions meet `P` in whatever state. -/
theorem Run.guard {P : S → A → Prop} (h : Run step s as s₁) (hP : ∀ a ∈ as, ∀ s, P s a) :
    Run (guarded step P) s as s₁ := by
  induction h with
  | nil => exact .nil
  | snoc _ hs ih =>
    obtain ⟨has, ha⟩ := List.forall_mem_append.mp hP
    exact (ih has).snoc ⟨ha _ (List.mem_singleton_self _) _, hs⟩

/-- A run of some of the steps is a run. -/
theorem Run.unguard {P : S → A → Prop} (h : Run (guarded step P) s as s₁) : Run step s as s₁ := by
  induction h with
  | nil => exact .nil
  | snoc _ hs ih => exact ih.snoc hs.2

/-! ### Executable systems -/

/-- The steps of a partial step function. -/
def ofNext (next : S → A → Option S) (s : S) (a : A) (s' : S) : Prop := next s a = some s'

/-- Replay a list of actions. -/
def exec (next : S → A → Option S) : S → List A → Option S
  | s, [] => some s
  | s, a :: as => (next s a).bind fun s' => exec next s' as

variable {next : S → A → Option S}

/-- A replayed list of actions is a run. -/
theorem run_of_exec : ∀ {as : List A} {s s' : S}, exec next s as = some s' →
    Run (ofNext next) s as s'
  | [], s, s', h => by cases h; exact .nil
  | a :: as, s, s', h => by
    obtain ⟨s₁, h₁, h₂⟩ := Option.bind_eq_some_iff.mp h
    exact Run.cons h₁ (run_of_exec h₂)

/-- A replayed list of actions that meet `P`. -/
theorem run_of_exec_guarded {P : S → A → Prop} [∀ s a, Decidable (P s a)] :
    ∀ {as : List A} {s s' : S}, exec (fun s a => if P s a then next s a else none) s as = some s' →
      Run (guarded (ofNext next) P) s as s'
  | [], s, s', h => by cases h; exact .nil
  | a :: as, s, s', h => by
    obtain ⟨s₁, h₁, h₂⟩ := Option.bind_eq_some_iff.mp h
    obtain ⟨hP, h₁⟩ := Option.ite_none_right_eq_some.mp h₁
    exact Run.cons ⟨hP, h₁⟩ (run_of_exec_guarded h₂)

end Transition
