import Mathlib.Data.List.Basic
import Mathlib.Order.BoundedOrder.Lattice

/-!
# Steps that join

* `Joins act`: doing `s` behind `t` is doing `s ⊔ t`.
* `Selects act step sel`: a step does what it selects, and nothing done changes a selection.
* `runSteps_eq`: a sequence of steps does the join of their selections; `runSteps_congr`: neither
  their order nor their repetitions matter; `runSteps_absorb`: what has been done need not be done
  again.
-/

namespace Joining

variable {σ X T : Type*} [SemilatticeSup σ] [OrderBot σ]

/-- Doing `s` behind `t` is doing both at once. -/
structure Joins (act : σ → X → X) : Prop where
  bot : ∀ x, act ⊥ x = x
  sup : ∀ s t x, act s (act t x) = act (s ⊔ t) x

/-- Each step does what it selects, whatever was done before. -/
structure Selects (act : σ → X → X) (step : T → X → X) (sel : T → X → σ) : Prop where
  step_eq : ∀ τ x, step τ x = act (sel τ x) x
  sel_act : ∀ τ s x, sel τ (act s x) = sel τ x

/-- A sequence of steps, the first of the list first. -/
def runSteps (step : T → X → X) : List T → X → X
  | [], x => x
  | τ :: l, x => runSteps step l (step τ x)

/-- All that the steps of a list select. -/
def joined (sel : T → X → σ) (x : X) : List T → σ
  | [] => ⊥
  | τ :: l => joined sel x l ⊔ sel τ x

variable {act : σ → X → X} {step : T → X → X} {sel : T → X → σ} {l l₁ l₂ : List T}

theorem le_joined {τ : T} (x : X) (hτ : τ ∈ l) : sel τ x ≤ joined sel x l := by
  induction l with
  | nil => cases hτ
  | cons υ l ih =>
    rcases List.mem_cons.mp hτ with rfl | hτ
    · exact le_sup_right
    · exact (ih hτ).trans le_sup_left

theorem joined_le {x : X} {s : σ} (h : ∀ τ ∈ l, sel τ x ≤ s) : joined sel x l ≤ s := by
  induction l with
  | nil => exact bot_le
  | cons τ l ih =>
    apply sup_le
    · exact ih fun υ hυ => h υ (List.mem_cons_of_mem τ hυ)
    · exact h τ List.mem_cons_self

theorem joined_mono (x : X) (h : l₁ ⊆ l₂) : joined sel x l₁ ≤ joined sel x l₂ :=
  joined_le fun _ hτ => le_joined x (h hτ)

theorem joined_act (h : Selects act step sel) (s : σ) (x : X) : joined sel (act s x) l = joined sel x l := by
  induction l with
  | nil => rfl
  | cons τ l ih => rw [joined, joined, ih, h.sel_act]

/-- **A sequence of steps** does the join of what they select. -/
theorem runSteps_eq (hj : Joins act) (h : Selects act step sel) (x : X) :
    runSteps step l x = act (joined sel x l) x := by
  induction l generalizing x with
  | nil => exact (hj.bot x).symm
  | cons τ l ih => rw [runSteps, ih, h.step_eq, joined_act h, hj.sup, joined]

/-- **Neither the order of the steps nor their repetitions matter.** -/
theorem runSteps_congr (hj : Joins act) (h : Selects act step sel) (h₁₂ : l₁ ⊆ l₂) (h₂₁ : l₂ ⊆ l₁) (x : X) :
    runSteps step l₁ x = runSteps step l₂ x := by
  rw [runSteps_eq hj h, runSteps_eq hj h, le_antisymm (joined_mono x h₁₂) (joined_mono x h₂₁)]

theorem runSteps_append (step : T → X → X) (l₁ l₂ : List T) (x : X) :
    runSteps step (l₁ ++ l₂) x = runSteps step l₂ (runSteps step l₁ x) := by
  induction l₁ generalizing x with
  | nil => rfl
  | cons τ l₁ ih => exact ih (step τ x)

/-- **Steps that have been taken** do nothing any more. -/
theorem runSteps_absorb (hj : Joins act) (h : Selects act step sel) (hl : l₂ ⊆ l₁) (x : X) :
    runSteps step l₂ (runSteps step l₁ x) = runSteps step l₁ x := by
  rw [← runSteps_append]
  apply runSteps_congr hj h
  · exact List.append_subset.mpr ⟨List.Subset.refl l₁, hl⟩
  · exact List.subset_append_left l₁ l₂

end Joining
