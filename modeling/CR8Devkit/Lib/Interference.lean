import CR8Devkit.Lib.Access

/-!
# Programs under interference

The memory of a program may be changed by somebody else before each of its accesses; `E m m'` says
what such a change can be.

* `Under E p m r m'`: the program completes, right after its last access, with result `r` and memory
  `m'`; `Passes E p m m'`: it stands at `m'` before one of its accesses, or is finished there.
* `under_bind`: sequencing; `under_eq`: without interference this is `exec`; `under_readings`: a
  program that reads only.
* `under_frame`, `passes_frame`: a cell that neither side stores to keeps its value.
-/

namespace Access.Prog

variable {L V R R' : Type} [DecidableEq L]

/-- The program completes under interference. -/
def Under (E : (L → V) → (L → V) → Prop) : Prog L V R → (L → V) → R → (L → V) → Prop
  | ret r₀, m, r, m' => r = r₀ ∧ m' = m
  | load a k, m, r, m' => ∃ m₁, E m m₁ ∧ (k (m₁ a)).Under E m₁ r m'
  | store a v k, m, r, m' => ∃ m₁, E m m₁ ∧ k.Under E (Function.update m₁ a v) r m'

/-- The program gets as far as `m'` under interference. -/
def Passes (E : (L → V) → (L → V) → Prop) : Prog L V R → (L → V) → (L → V) → Prop
  | ret _, m, m' => m' = m
  | load a k, m, m' => ∃ m₁, E m m₁ ∧ (m' = m₁ ∨ (k (m₁ a)).Passes E m₁ m')
  | store a v k, m, m' => ∃ m₁, E m m₁ ∧ (m' = m₁ ∨ k.Passes E (Function.update m₁ a v) m')

variable {E F : (L → V) → (L → V) → Prop} {p : Prog L V R} {m m' : L → V} {r : R}

@[simp] theorem under_ret {r₀ : R} : (ret r₀ : Prog L V R).Under E m r m' ↔ r = r₀ ∧ m' = m :=
  Iff.rfl

theorem under_get_bind {a : L} {f : V → Prog L V R} :
    (get a >>= f).Under E m r m' ↔ ∃ m₁, E m m₁ ∧ (f (m₁ a)).Under E m₁ r m' := Iff.rfl

/-- **Sequencing.** -/
theorem under_bind {f : R → Prog L V R'} {r' : R'} : (p >>= f).Under E m r' m' ↔
    ∃ r m₁, p.Under E m r m₁ ∧ (f r).Under E m₁ r' m' := by
  induction p generalizing m with
  | ret r₀ =>
    constructor
    · intro h
      exact ⟨r₀, m, ⟨rfl, rfl⟩, h⟩
    · rintro ⟨r, m₁, ⟨rfl, rfl⟩, h⟩
      exact h
  | load a k ih =>
    constructor
    · rintro ⟨m₀, h₀, h⟩
      obtain ⟨r, m₁, h₁, h₂⟩ := (ih _).mp h
      exact ⟨r, m₁, ⟨m₀, h₀, h₁⟩, h₂⟩
    · rintro ⟨r, m₁, ⟨m₀, h₀, h₁⟩, h₂⟩
      exact ⟨m₀, h₀, (ih _).mpr ⟨r, m₁, h₁, h₂⟩⟩
  | store a v k ih =>
    constructor
    · rintro ⟨m₀, h₀, h⟩
      obtain ⟨r, m₁, h₁, h₂⟩ := ih.mp h
      exact ⟨r, m₁, ⟨m₀, h₀, h₁⟩, h₂⟩
    · rintro ⟨r, m₁, ⟨m₀, h₀, h₁⟩, h₂⟩
      exact ⟨m₀, h₀, ih.mpr ⟨r, m₁, h₁, h₂⟩⟩

/-- With nobody interfering, the run is that of `exec`. -/
theorem under_eq : p.Under Eq m r m' ↔ p.exec m = (r, m') := by
  induction p generalizing m with
  | ret r₀ => simp only [under_ret, exec, Prod.mk.injEq, eq_comm]
  | load a k ih =>
    simp only [Under, exec, exists_eq_left']
    exact ih _
  | store a v k ih =>
    simp only [Under, exec, exists_eq_left']
    exact ih

theorem Under.mono (h : p.Under E m r m') (hEF : ∀ {m m'}, E m m' → F m m') :
    p.Under F m r m' := by
  induction p generalizing m with
  | ret r₀ => exact h
  | load a k ih =>
    obtain ⟨m₁, h₁, h₂⟩ := h
    exact ⟨m₁, hEF h₁, ih _ h₂⟩
  | store a v k ih =>
    obtain ⟨m₁, h₁, h₂⟩ := h
    exact ⟨m₁, hEF h₁, ih h₂⟩

/-- What a program computes whose `n`-th access finds memory `t n`. -/
def readings : (t : ℕ → L → V) → Prog L V R → R
  | _, ret r => r
  | t, load a k => readings (fun n => t (n + 1)) (k (t 0 a))
  | t, store _ _ k => readings (fun n => t (n + 1)) k

/-- For a program without stores the memories need only come one behind the other. -/
theorem under_readings {t : ℕ → L → V} (hp : p.StoresIn fun _ => False) (h₀ : E m (t 0))
    (ht : ∀ n, E (t n) (t (n + 1))) : ∃ m', p.Under E m (readings t p) m' := by
  induction p generalizing m t with
  | ret r₀ => exact ⟨m, rfl, rfl⟩
  | load a k ih =>
    obtain ⟨m', h⟩ := ih (t 0 a) (t := fun n => t (n + 1)) (hp _) (ht 0) fun n => ht (n + 1)
    exact ⟨m', t 0, h₀, h⟩
  | store a v k ih => exact hp.1.elim

section Frame

variable {P : L → Prop} {a : L}

/-- **Frame rule under interference.** -/
theorem under_frame (hp : p.StoresIn P) (hE : ∀ {m m'}, E m m' → m' a = m a) (ha : ¬ P a)
    (h : p.Under E m r m') : m' a = m a := by
  induction p generalizing m with
  | ret r₀ =>
    obtain ⟨-, rfl⟩ := h
    rfl
  | load b k ih =>
    obtain ⟨m₁, h₁, h₂⟩ := h
    rw [ih _ (hp _) h₂, hE h₁]
  | store b v k ih =>
    obtain ⟨m₁, h₁, h₂⟩ := h
    have hab : a ≠ b := fun e => ha (e ▸ hp.1)
    rw [ih hp.2 h₂, Function.update_of_ne hab, hE h₁]

theorem passes_frame (hp : p.StoresIn P) (hE : ∀ {m m'}, E m m' → m' a = m a) (ha : ¬ P a)
    (h : p.Passes E m m') : m' a = m a := by
  induction p generalizing m with
  | ret r₀ => exact congrFun h a
  | load b k ih =>
    obtain ⟨m₁, h₁, rfl | h₂⟩ := h
    · exact hE h₁
    · rw [ih _ (hp _) h₂, hE h₁]
  | store b v k ih =>
    obtain ⟨m₁, h₁, rfl | h₂⟩ := h
    · exact hE h₁
    · have hab : a ≠ b := fun e => ha (e ▸ hp.1)
      rw [ih hp.2 h₂, Function.update_of_ne hab, hE h₁]

end Frame

end Access.Prog
