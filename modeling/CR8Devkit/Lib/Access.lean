import Mathlib.Data.List.Basic
import Mathlib.Logic.Function.Basic

/-!
# Programs of memory accesses

A `Prog L V R` loads from and stores to cells `L` holding values `V` and returns an `R`.

* `exec`: the run of a program; `footprint`: the cells it accesses, in order; `moments`: the memory
  just before each access; `states`: the same with the final memory.
* `attempt bad`: the run in a memory whose `bad` cells fault. It completes exactly when the
  footprint avoids `bad` (`attempt_done_iff`), and otherwise stops at one of the moments
  (`attempt_fault`).
* `StoresIn`: the cells a program can store to at all, with the frame rule `states_frame`.
-/

namespace Access

variable {L V R R' : Type}

/-- A program of memory accesses. -/
inductive Prog (L V R : Type)
  | ret (r : R)
  | load (a : L) (k : V → Prog L V R)
  | store (a : L) (v : V) (k : Prog L V R)

namespace Prog

/-- Sequencing. -/
def bind : Prog L V R → (R → Prog L V R') → Prog L V R'
  | ret r, f => f r
  | load a k, f => load a fun v => (k v).bind f
  | store a v k, f => store a v (k.bind f)

instance : Monad (Prog L V) where
  pure := ret
  bind := bind

@[simp] theorem pure_eq (r : R) : (pure r : Prog L V R) = ret r := rfl
@[simp] theorem ret_bind (r : R) (f : R → Prog L V R') : (ret r >>= f) = f r := rfl
@[simp] theorem load_bind (a : L) (k : V → Prog L V R) (f : R → Prog L V R') :
    (load a k >>= f) = load a fun v => k v >>= f := rfl
@[simp] theorem store_bind (a : L) (v : V) (k : Prog L V R) (f : R → Prog L V R') :
    (store a v k >>= f) = store a v (k >>= f) := rfl

/-- Load one cell. -/
def get (a : L) : Prog L V V := load a ret

/-- Store one cell. -/
def set (a : L) (v : V) : Prog L V Unit := store a v (ret ())

@[simp] theorem get_bind (a : L) (f : V → Prog L V R) : (get a >>= f) = load a f := rfl
@[simp] theorem set_bind (a : L) (v : V) (f : Unit → Prog L V R) :
    (set a v >>= f) = store a v (f ()) := rfl

/-! ### Runs -/

section Exec

variable [DecidableEq L]

/-- Run a program: its result and the final memory. -/
def exec : Prog L V R → (L → V) → R × (L → V)
  | ret r, m => (r, m)
  | load a k, m => (k (m a)).exec m
  | store a v k, m => k.exec (Function.update m a v)

/-- The cells accessed, in order. -/
def footprint : Prog L V R → (L → V) → List L
  | ret _, _ => []
  | load a k, m => a :: (k (m a)).footprint m
  | store a v k, m => a :: k.footprint (Function.update m a v)

/-- The memory just before each access. -/
def moments : Prog L V R → (L → V) → List (L → V)
  | ret _, _ => []
  | load a k, m => m :: (k (m a)).moments m
  | store a v k, m => m :: k.moments (Function.update m a v)

/-- The memory just before each access, and at the end. -/
def states (p : Prog L V R) (m : L → V) : List (L → V) := p.moments m ++ [(p.exec m).2]

theorem exec_bind (p : Prog L V R) (f : R → Prog L V R') (m : L → V) :
    (p >>= f).exec m = (f (p.exec m).1).exec (p.exec m).2 := by
  induction p generalizing m with
  | ret r => rfl
  | load a k ih => exact ih _ _
  | store a v k ih => exact ih _

theorem footprint_bind (p : Prog L V R) (f : R → Prog L V R') (m : L → V) :
    (p >>= f).footprint m = p.footprint m ++ (f (p.exec m).1).footprint (p.exec m).2 := by
  induction p generalizing m with
  | ret r => rfl
  | load a k ih => exact congrArg (a :: ·) (ih _ _)
  | store a v k ih => exact congrArg (a :: ·) (ih _)

@[simp] theorem footprint_ret (r : R) (m : L → V) : (ret r : Prog L V R).footprint m = [] := rfl
@[simp] theorem footprint_get (a : L) (m : L → V) : (get a).footprint m = [a] := rfl
@[simp] theorem footprint_set (a : L) (v : V) (m : L → V) : (set a v).footprint m = [a] := rfl

theorem footprint_get_bind (a : L) (f : V → Prog L V R) (m : L → V) :
    (get a >>= f).footprint m = a :: (f (m a)).footprint m := rfl

theorem footprint_set_bind (a : L) (v : V) (f : Unit → Prog L V R) (m : L → V) :
    (set a v >>= f).footprint m = a :: (f ()).footprint (Function.update m a v) := rfl

theorem moments_bind (p : Prog L V R) (f : R → Prog L V R') (m : L → V) :
    (p >>= f).moments m = p.moments m ++ (f (p.exec m).1).moments (p.exec m).2 := by
  induction p generalizing m with
  | ret r => rfl
  | load a k ih => exact congrArg (m :: ·) (ih _ _)
  | store a v k ih => exact congrArg (m :: ·) (ih _)

theorem moments_get_bind (a : L) (f : V → Prog L V R) (m : L → V) :
    (get a >>= f).moments m = m :: (f (m a)).moments m := rfl

/-! ### Faulting cells -/

/-- How a run ends when some cells fault. -/
inductive Attempt (L V R : Type)
  | done (r : R) (m : L → V)
  | fault (a : L) (m : L → V)

/-- Run a program until it accesses a `bad` cell; that access has no effect. -/
def attempt (bad : L → Bool) : Prog L V R → (L → V) → Attempt L V R
  | ret r, m => .done r m
  | load a k, m => if bad a then .fault a m else (k (m a)).attempt bad m
  | store a v k, m => if bad a then .fault a m else k.attempt bad (Function.update m a v)

/-- No access of the run hits a `bad` cell. -/
def Clean (bad : L → Bool) (p : Prog L V R) (m : L → V) : Prop := ∀ a ∈ p.footprint m, bad a = false

variable {bad : L → Bool} {p : Prog L V R} {m : L → V}

theorem attempt_get_bind (a : L) (f : V → Prog L V R) : (get a >>= f).attempt bad m =
    if bad a then .fault a m else (f (m a)).attempt bad m := rfl

theorem attempt_of_clean (h : p.Clean bad m) : p.attempt bad m = .done (p.exec m).1 (p.exec m).2 := by
  induction p generalizing m with
  | ret r => rfl
  | load a k ih =>
    obtain ⟨ha, hk⟩ := List.forall_mem_cons.mp h
    simp only [attempt, ha, Bool.false_eq_true, if_false]
    exact ih _ hk
  | store a v k ih =>
    obtain ⟨ha, hk⟩ := List.forall_mem_cons.mp h
    simp only [attempt, ha, Bool.false_eq_true, if_false]
    exact ih hk

/-- A run that is not clean stops before an access to a bad cell. -/
theorem attempt_fault (h : ¬ p.Clean bad m) : ∃ a m', p.attempt bad m = .fault a m' ∧ bad a = true ∧
    m' ∈ p.moments m := by
  induction p generalizing m with
  | ret r => exact absurd (fun a ha => nomatch ha) h
  | load a k ih =>
    by_cases ha : bad a = true
    · exact ⟨a, m, if_pos ha, ha, List.mem_cons_self⟩
    · have hk : ¬ (k (m a)).Clean bad m := fun hk =>
        h (List.forall_mem_cons.mpr ⟨by simpa using ha, hk⟩)
      obtain ⟨b, m', he, hb, hm⟩ := ih _ hk
      exact ⟨b, m', (if_neg ha).trans he, hb, List.mem_cons_of_mem _ hm⟩
  | store a v k ih =>
    by_cases ha : bad a = true
    · exact ⟨a, m, if_pos ha, ha, List.mem_cons_self⟩
    · have hk : ¬ k.Clean bad (Function.update m a v) := fun hk =>
        h (List.forall_mem_cons.mpr ⟨by simpa using ha, hk⟩)
      obtain ⟨b, m', he, hb, hm⟩ := ih hk
      exact ⟨b, m', (if_neg ha).trans he, hb, List.mem_cons_of_mem _ hm⟩

theorem not_clean_of_attempt {a : L} {m' : L → V} (h : p.attempt bad m = .fault a m') :
    ¬ p.Clean bad m := fun hc => by
  rw [attempt_of_clean hc] at h
  cases h

theorem moments_of_attempt {a : L} {m' : L → V} (h : p.attempt bad m = .fault a m') :
    bad a = true ∧ m' ∈ p.moments m := by
  obtain ⟨b, m₁, hb, hbad, hm⟩ := attempt_fault (not_clean_of_attempt h)
  rw [h] at hb
  cases hb
  exact ⟨hbad, hm⟩

/-- **A run completes exactly when its footprint avoids the faulting cells.** -/
theorem attempt_done_iff : (∃ r m', p.attempt bad m = .done r m') ↔ p.Clean bad m := by
  refine ⟨fun ⟨r, m', h⟩ => ?_, fun h => ⟨_, _, attempt_of_clean h⟩⟩
  by_contra hc
  obtain ⟨a, m'', h', -⟩ := attempt_fault hc
  rw [h] at h'
  cases h'

theorem attempt_bind {f : R → Prog L V R'} : (p >>= f).attempt bad m =
    match p.attempt bad m with
    | .done r m' => (f r).attempt bad m'
    | .fault a m' => .fault a m' := by
  induction p generalizing m with
  | ret r => rfl
  | load a k ih =>
    by_cases ha : bad a = true
    · simp [attempt, ha]
    · simpa [attempt, ha] using ih _
  | store a v k ih =>
    by_cases ha : bad a = true
    · simp [attempt, ha]
    · simpa [attempt, ha] using ih

/-- A run of two parts that faults does so in the first, or in the second after a clean first. -/
theorem attempt_bind_fault {f : R → Prog L V R'} {a : L} {m' : L → V}
    (h : (p >>= f).attempt bad m = .fault a m') : p.attempt bad m = .fault a m' ∨
      p.Clean bad m ∧ (f (p.exec m).1).attempt bad (p.exec m).2 = .fault a m' := by
  by_cases hp : p.Clean bad m
  · rw [attempt_bind, attempt_of_clean hp] at h
    exact .inr ⟨hp, h⟩
  · obtain ⟨b, m₁, hb, -, -⟩ := attempt_fault hp
    rw [attempt_bind, hb] at h
    cases h
    exact .inl hb

end Exec

/-! ### What a program can store to at all -/

/-- Every store of the program, whatever it loads, goes to a cell in `P`. -/
def StoresIn (P : L → Prop) : Prog L V R → Prop
  | ret _ => True
  | load _ k => ∀ v, (k v).StoresIn P
  | store a _ k => P a ∧ k.StoresIn P

variable {P : L → Prop} {p : Prog L V R}

theorem StoresIn.bind {f : R → Prog L V R'} (hp : p.StoresIn P) (hf : ∀ r, (f r).StoresIn P) :
    (p >>= f).StoresIn P := by
  induction p with
  | ret r => exact hf r
  | load a k ih => exact fun v => ih v (hp v)
  | store a v k ih => exact ⟨hp.1, ih hp.2⟩

theorem StoresIn.mono {Q : L → Prop} (hp : p.StoresIn P) (h : ∀ a, P a → Q a) : p.StoresIn Q := by
  induction p with
  | ret r => exact trivial
  | load a k ih => exact fun v => ih v (hp v)
  | store a v k ih => exact ⟨h a hp.1, ih hp.2⟩

section Rules

variable {P : L → Prop} {p q : Prog L V R} {a : L} {c : Prop} [Decidable c]

theorem storesIn_pure {r : R} : (pure r : Prog L V R).StoresIn P := trivial

theorem storesIn_get : (get a : Prog L V V).StoresIn P := fun _ => trivial

theorem storesIn_get_bind {f : V → Prog L V R} (h : ∀ v, (f v).StoresIn P) :
    (get a >>= f).StoresIn P := h

theorem storesIn_set {v : V} (ha : P a) : (set a v).StoresIn P := ⟨ha, trivial⟩

theorem storesIn_set_bind {v : V} {f : Unit → Prog L V R} (ha : P a) (h : (f ()).StoresIn P) :
    (set a v >>= f).StoresIn P := ⟨ha, h⟩

theorem storesIn_ite (hp : c → p.StoresIn P) (hq : ¬ c → q.StoresIn P) :
    (if c then p else q).StoresIn P := by
  split_ifs with h
  · exact hp h
  · exact hq h

end Rules

section Frame

variable [DecidableEq L] {m m₁ : L → V}

/-- **Frame rule.** A cell the program never stores to keeps its value throughout. -/
theorem states_frame (h : p.StoresIn P) (hm : m₁ ∈ p.states m) {a : L} (ha : ¬ P a) :
    m₁ a = m a := by
  induction p generalizing m with
  | ret r =>
    obtain rfl := List.mem_singleton.mp hm
    rfl
  | load b k ih =>
    rcases List.mem_cons.mp hm with rfl | hm
    · rfl
    · exact ih _ (h _) hm
  | store b v k ih =>
    rcases List.mem_cons.mp hm with rfl | hm
    · rfl
    · rw [ih h.2 hm]
      exact Function.update_of_ne (fun e : a = b => ha (e ▸ h.1)) _ _

theorem exec_mem_states (p : Prog L V R) (m : L → V) : (p.exec m).2 ∈ p.states m :=
  List.mem_append_right _ (List.mem_singleton_self _)

theorem mem_states_of_moments (h : m₁ ∈ p.moments m) : m₁ ∈ p.states m := List.mem_append_left _ h

/-- The final memory keeps every cell the program never stores to. -/
theorem exec_frame (h : p.StoresIn P) {a : L} (ha : ¬ P a) : (p.exec m).2 a = m a :=
  states_frame h (exec_mem_states p m) ha

theorem mem_states_bind {f : R → Prog L V R'} :
    m₁ ∈ (p >>= f).states m ↔ m₁ ∈ p.moments m ∨ m₁ ∈ (f (p.exec m).1).states (p.exec m).2 := by
  simp only [states, moments_bind, exec_bind, List.append_assoc, List.mem_append]

theorem mem_states_get_bind {a : L} {f : V → Prog L V R} :
    m₁ ∈ (get a >>= f).states m ↔ m₁ = m ∨ m₁ ∈ (f (m a)).states m := List.mem_cons

end Frame

end Prog

end Access
