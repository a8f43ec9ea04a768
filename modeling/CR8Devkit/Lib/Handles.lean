import Mathlib.Logic.Function.Basic
import Mathlib.Data.Nat.Notation
import Mathlib.Tactic.Common

/-!
# Handles, and the tables that hold them

* `Pool`: handles given out one after another, and whether one has been closed twice.
* `Owns p t`: the table `t` has the only reference to each of its handles, and all of them are open.
* `Owns.take`, `Owns.drop`, `Owns.sub`: how a table may change.
-/

namespace Handles

/-- `closedTwice` stays set from the first `close` of a handle that was not open. -/
structure Pool where
  isOpen : ℕ → Bool
  next : ℕ
  closedTwice : Bool

namespace Pool

def empty : Pool := ⟨fun _ => false, 0, false⟩

/-- Gives out `p.next`. -/
def «open» (p : Pool) : Pool := ⟨Function.update p.isOpen p.next true, p.next + 1, p.closedTwice⟩

def close (p : Pool) (h : ℕ) : Pool :=
  ⟨Function.update p.isOpen h false, p.next, p.closedTwice || !p.isOpen h⟩

variable {p : Pool} {h h' : ℕ}

@[simp] theorem isOpen_open : p.open.isOpen p.next = true := Function.update_self ..

theorem isOpen_open_of_ne (hne : h ≠ p.next) : p.open.isOpen h = p.isOpen h :=
  Function.update_of_ne hne ..

@[simp] theorem isOpen_close : (p.close h).isOpen h = false := Function.update_self ..

theorem isOpen_close_of_ne (hne : h' ≠ h) : (p.close h).isOpen h' = p.isOpen h' :=
  Function.update_of_ne hne ..

/-- To close one handle opens no other. -/
theorem isOpen_close_of_closed (hh : p.isOpen h' = false) : (p.close h).isOpen h' = false := by
  rcases eq_or_ne h' h with rfl | hne
  · exact isOpen_close
  · rw [isOpen_close_of_ne hne, hh]

theorem closedTwice_close : (p.close h).closedTwice = (p.closedTwice || !p.isOpen h) := rfl

theorem closedTwice_close_of_closed (hh : p.isOpen h = false) : (p.close h).closedTwice = true := by
  rw [closedTwice_close, hh, Bool.not_false, Bool.or_true]

/-- What only ever happens to a pool: handles are given out once, and no close is undone. -/
structure Later (p q : Pool) : Prop where
  next : p.next ≤ q.next
  closed : ∀ h < p.next, p.isOpen h = false → q.isOpen h = false
  closedTwice : p.closedTwice = true → q.closedTwice = true

theorem Later.refl (p : Pool) : Later p p := ⟨Nat.le_refl _, fun _ _ h => h, id⟩

theorem Later.trans {p q r : Pool} (h₁ : Later p q) (h₂ : Later q r) : Later p r where
  next := Nat.le_trans h₁.next h₂.next
  closed h hh hc := h₂.closed h (Nat.lt_of_lt_of_le hh h₁.next) (h₁.closed h hh hc)
  closedTwice := h₂.closedTwice ∘ h₁.closedTwice

theorem later_open (p : Pool) : Later p p.open where
  next := Nat.le_succ _
  closed _ hh hc := by rw [isOpen_open_of_ne (Nat.ne_of_lt hh), hc]
  closedTwice := id

theorem later_close (p : Pool) (h : ℕ) : Later p (p.close h) where
  next := Nat.le_refl _
  closed _ _ hc := isOpen_close_of_closed hc
  closedTwice hc := by rw [closedTwice_close, hc, Bool.true_or]

end Pool

variable {D : Type*} {p : Pool} {t t' : D → Option ℕ} {d : D} {h : ℕ}

structure Owns (p : Pool) (t : D → Option ℕ) : Prop where
  once : p.closedTwice = false
  /-- Only what has been given out is open. -/
  fresh : ∀ h, p.isOpen h = true → h < p.next
  isOpen : ∀ d h, t d = some h → p.isOpen h = true
  inj : ∀ d d' h, t d = some h → t d' = some h → d = d'

theorem owns_empty : Owns Pool.empty fun _ : D => none where
  once := rfl
  fresh _ h := absurd h Bool.false_ne_true
  isOpen _ _ h := nomatch h
  inj _ _ _ h := nomatch h

namespace Owns

theorem lt (ho : Owns p t) (hd : t d = some h) : h < p.next := ho.fresh h (ho.isOpen d h hd)

/-- What the table forgets stays open. -/
theorem sub (ho : Owns p t) (hs : ∀ d h, t' d = some h → t d = some h) : Owns p t' where
  once := ho.once
  fresh := ho.fresh
  isOpen d h hd := ho.isOpen d h (hs d h hd)
  inj d d' h hd hd' := ho.inj d d' h (hs d h hd) (hs d' h hd')

/-- A fresh handle for an entry. -/
theorem take [DecidableEq D] (ho : Owns p t) (d : D) : Owns p.open (Function.update t d (some p.next)) := by
  have hlt : ∀ {e x}, t e = some x → x < p.next := ho.lt
  refine ⟨ho.once, fun h hh => ?_, fun e h he => ?_, fun e e' h he he' => ?_⟩
  · rcases eq_or_ne h p.next with rfl | hne
    · exact Nat.lt_succ_self _
    · rw [Pool.isOpen_open_of_ne hne] at hh
      exact Nat.lt_succ_of_lt (ho.fresh h hh)
  · rcases eq_or_ne e d with rfl | hne
    · rw [Function.update_self] at he
      cases he
      exact Pool.isOpen_open
    · rw [Function.update_of_ne hne] at he
      rw [Pool.isOpen_open_of_ne (Nat.ne_of_lt (hlt he))]
      exact ho.isOpen e h he
  · rw [Function.update_apply] at he he'
    split_ifs at he he' with h₁ h₂ h₂
    · rw [h₁, h₂]
    · cases he
      exact absurd (hlt he') (Nat.lt_irrefl _)
    · cases he'
      exact absurd (hlt he) (Nat.lt_irrefl _)
    · exact ho.inj e e' h he he'

/-- An entry is closed and cleared. -/
theorem drop [DecidableEq D] (ho : Owns p t) (hd : t d = some h) :
    Owns (p.close h) (Function.update t d none) := by
  refine ⟨?_, fun h' hh => ?_, fun e h' he => ?_, fun e e' h' he he' => ?_⟩
  · rw [Pool.closedTwice_close, ho.once, ho.isOpen d h hd, Bool.not_true, Bool.or_false]
  · rcases eq_or_ne h' h with rfl | hne
    · exact absurd (Pool.isOpen_close.symm.trans hh) Bool.false_ne_true
    · exact ho.fresh h' ((Pool.isOpen_close_of_ne hne).symm.trans hh)
  · rw [Function.update_apply] at he
    split_ifs at he with hed
    have hne : h' ≠ h := by
      rintro rfl
      exact hed (ho.inj e d h' he hd)
    rw [Pool.isOpen_close_of_ne hne]
    exact ho.isOpen e h' he
  · rw [Function.update_apply] at he he'
    split_ifs at he he' with h₁ h₂
    exact ho.inj e e' h' he he'

end Owns

end Handles
