import CR8Devkit.Lib.Access

/-!
# Programs interrupted by atomic operations

Between any two accesses of a program, other parties may perform operations on the memory, each of
them at once; `act o` is the effect of operation `o`.

* `Runs act p m es p' m'`: program `p`, started in memory `m`, has got as far as `p'` and `m'`; `es`
  are the accesses and operations on the way. `Runs.replay`: they determine the memory.
* `runs_bind`, `runs_load`, `runs_store`: how far a program in parts has got.
* `Runs.undisturbed`: operations without effect do not change what the program computes.
-/

namespace Access.Prog

variable {L V R R' O : Type} [DecidableEq L]

/-- An access of the program, or an operation of somebody else. -/
inductive Turn (L V O : Type)
  | load (a : L)
  | store (a : L) (v : V)
  | other (o : O)
  deriving DecidableEq

/-- An interrupted run, as far as it has got. -/
inductive Runs (act : O → (L → V) → (L → V)) :
    Prog L V R → (L → V) → List (Turn L V O) → Prog L V R → (L → V) → Prop
  | nil {p m} : Runs act p m [] p m
  | load {a k m es p' m'} (h : Runs act (k (m a)) m es p' m') :
      Runs act (load a k) m (.load a :: es) p' m'
  | store {a v k m es p' m'} (h : Runs act k (Function.update m a v) es p' m') :
      Runs act (store a v k) m (.store a v :: es) p' m'
  | other {o p m es p' m'} (h : Runs act p (act o m) es p' m') :
      Runs act p m (.other o :: es) p' m'

/-- The memory after some turns. -/
def replay (act : O → (L → V) → (L → V)) : List (Turn L V O) → (L → V) → (L → V)
  | [], m => m
  | .load _ :: es, m => replay act es m
  | .store a v :: es, m => replay act es (Function.update m a v)
  | .other o :: es, m => replay act es (act o m)

variable {act : O → (L → V) → (L → V)} {p p' : Prog L V R} {f : R → Prog L V R'} {q : Prog L V R'}
  {m m' : L → V} {es : List (Turn L V O)} {a : L} {v : V} {r : R}

theorem Runs.replay (h : Runs act p m es p' m') : m' = Prog.replay act es m := by
  induction h with
  | nil => rfl
  | load _ ih | store _ ih | other _ ih => exact ih

/-- Nothing but operations of others. -/
def Others (es : List (Turn L V O)) : Prop := ∀ e ∈ es, ∃ o, e = .other o

omit [DecidableEq L] in
theorem others_nil : Others ([] : List (Turn L V O)) := fun _ h => by cases h

omit [DecidableEq L] in
theorem Others.cons {o : O} (h : Others es) : Others (.other o :: es) :=
  List.forall_mem_cons.mpr ⟨⟨o, rfl⟩, h⟩

/-- A property that operations keep, over a stretch of operations. -/
theorem Others.inv {I : (L → V) → Prop} (h : Others es) (hI : I m) (hact : ∀ o m, I m → I (act o m)) :
    I (Prog.replay act es m) := by
  induction es generalizing m with
  | nil => exact hI
  | cons e es ih =>
    obtain ⟨⟨o, rfl⟩, hes⟩ := List.forall_mem_cons.mp h
    exact ih hes (hact o m hI)

omit [DecidableEq L] in
theorem bind_assoc {R'' : Type} (p : Prog L V R) (f : R → Prog L V R') (g : R' → Prog L V R'') :
    (p >>= f) >>= g = p >>= fun r => f r >>= g := by
  induction p with
  | ret r => rfl
  | load a k ih => exact congrArg (Prog.load a) (funext fun v => ih v)
  | store a v k ih => exact congrArg (Prog.store a v) ih

/-! ### How far a program has got -/

theorem runs_load {k : V → Prog L V R} (h : Runs act (.load a k) m es p' m') :
    p' = .load a k ∧ Others es ∨ ∃ es₁ es₂, es = es₁ ++ .load a :: es₂ ∧ Others es₁ ∧
      Runs act (k (Prog.replay act es₁ m a)) (Prog.replay act es₁ m) es₂ p' m' := by
  induction es generalizing m with
  | nil =>
    cases h
    exact .inl ⟨rfl, others_nil⟩
  | cons e es ih =>
    cases h with
    | load h => exact .inr ⟨[], es, rfl, others_nil, h⟩
    | other h =>
      rcases ih h with ⟨rfl, hes⟩ | ⟨es₁, es₂, rfl, hes, h⟩
      · exact .inl ⟨rfl, hes.cons⟩
      · exact .inr ⟨_ :: es₁, es₂, rfl, hes.cons, h⟩

theorem runs_store (h : Runs act (.store a v p) m es p' m') :
    p' = .store a v p ∧ Others es ∨ ∃ es₁ es₂, es = es₁ ++ .store a v :: es₂ ∧ Others es₁ ∧
      Runs act p (Function.update (Prog.replay act es₁ m) a v) es₂ p' m' := by
  induction es generalizing m with
  | nil =>
    cases h
    exact .inl ⟨rfl, others_nil⟩
  | cons e es ih =>
    cases h with
    | store h => exact .inr ⟨[], es, rfl, others_nil, h⟩
    | other h =>
      rcases ih h with ⟨rfl, hes⟩ | ⟨es₁, es₂, rfl, hes, h⟩
      · exact .inl ⟨rfl, hes.cons⟩
      · exact .inr ⟨_ :: es₁, es₂, rfl, hes.cons, h⟩

/-- A program that has ended. -/
theorem runs_ret (h : Runs act (ret r : Prog L V R) m es p' m') : p' = ret r ∧ Others es := by
  induction es generalizing m with
  | nil =>
    cases h
    exact ⟨rfl, others_nil⟩
  | cons e es ih =>
    cases h with
    | other h => exact ⟨(ih h).1, (ih h).2.cons⟩

/-- **Sequencing**: the run is still in the first part, or has completed it. -/
theorem runs_bind (h : Runs act (p >>= f) m es q m') :
    (∃ p', q = p' >>= f ∧ Runs act p m es p' m') ∨
      ∃ r m₁ es₁ es₂, es = es₁ ++ es₂ ∧ Runs act p m es₁ (ret r) m₁ ∧ Runs act (f r) m₁ es₂ q m' := by
  induction es generalizing p m with
  | nil =>
    obtain ⟨rfl, rfl⟩ : q = p >>= f ∧ m' = m := by
      generalize p >>= f = q₀ at h
      cases h
      exact ⟨rfl, rfl⟩
    exact .inl ⟨p, rfl, .nil⟩
  | cons e es ih =>
    cases p with
    | ret r => exact .inr ⟨r, m, [], e :: es, rfl, .nil, h⟩
    | load a k =>
      rw [load_bind] at h
      cases h with
      | load h =>
        rcases ih h with ⟨p', rfl, hp⟩ | ⟨r, m₁, es₁, es₂, rfl, hp, hf⟩
        · exact .inl ⟨p', rfl, .load hp⟩
        · exact .inr ⟨r, m₁, _ :: es₁, es₂, rfl, .load hp, hf⟩
      | other h =>
        rcases ih (p := .load a k) h with ⟨p', rfl, hp⟩ | ⟨r, m₁, es₁, es₂, rfl, hp, hf⟩
        · exact .inl ⟨p', rfl, .other hp⟩
        · exact .inr ⟨r, m₁, _ :: es₁, es₂, rfl, .other hp, hf⟩
    | store a v k =>
      rw [store_bind] at h
      cases h with
      | store h =>
        rcases ih h with ⟨p', rfl, hp⟩ | ⟨r, m₁, es₁, es₂, rfl, hp, hf⟩
        · exact .inl ⟨p', rfl, .store hp⟩
        · exact .inr ⟨r, m₁, _ :: es₁, es₂, rfl, .store hp, hf⟩
      | other h =>
        rcases ih (p := .store a v k) h with ⟨p', rfl, hp⟩ | ⟨r, m₁, es₁, es₂, rfl, hp, hf⟩
        · exact .inl ⟨p', rfl, .other hp⟩
        · exact .inr ⟨r, m₁, _ :: es₁, es₂, rfl, .other hp, hf⟩

/-- The turns of a program before whose `n`-th access the operations `I n` take place. -/
def turns (act : O → (L → V) → (L → V)) : (I : ℕ → List O) → Prog L V R → (L → V) → List (Turn L V O)
  | _, ret _, _ => []
  | I, load a k, m =>
    let m := replay act ((I 0).map .other) m
    (I 0).map .other ++ .load a :: turns act (fun n => I (n + 1)) (k (m a)) m
  | I, store a v k, m =>
    let m := replay act ((I 0).map .other) m
    (I 0).map .other ++ .store a v :: turns act (fun n => I (n + 1)) k (Function.update m a v)

theorem replay_append (es es' : List (Turn L V O)) (m : L → V) :
    replay act (es ++ es') m = replay act es' (replay act es m) := by
  induction es generalizing m with
  | nil => rfl
  | cons e es ih => cases e <;> exact ih _

theorem Runs.others (os : List O) (h : Runs act p (Prog.replay act (os.map .other) m) es p' m') :
    Runs act p m (os.map .other ++ es) p' m' := by
  induction os generalizing m with
  | nil => exact h
  | cons o os ih => exact .other (ih h)

/-- They are those of a run that gets to the end. -/
theorem runs_turns (I : ℕ → List O) (p : Prog L V R) (m : L → V) :
    ∃ r, Runs act p m (turns act I p m) (ret r) (replay act (turns act I p m) m) := by
  induction p generalizing I m with
  | ret r => exact ⟨r, .nil⟩
  | load a k ih =>
    obtain ⟨r, h⟩ := ih _ (fun n => I (n + 1)) (replay act ((I 0).map .other) m)
    refine ⟨r, ?_⟩
    rw [turns, replay_append]
    exact (Runs.load h).others (I 0)
  | store a v k ih =>
    obtain ⟨r, h⟩ := ih (fun n => I (n + 1)) (Function.update (replay act ((I 0).map .other) m) a v)
    refine ⟨r, ?_⟩
    rw [turns, replay_append]
    exact (Runs.store h).others (I 0)

/-! ### What an interrupted program does -/

section Rules

variable {P : L → Prop}

/-- Its own stores are stores of the program. -/
theorem Runs.stores (h : Runs act p m es p' m') (hp : p.StoresIn P) (hs : Turn.store a v ∈ es) :
    P a := by
  induction h with
  | nil => cases hs
  | load _ ih => exact ih (hp _) ((List.mem_cons.mp hs).resolve_left (by simp))
  | store _ ih =>
    rcases List.mem_cons.mp hs with he | hs
    · cases he
      exact hp.1
    · exact ih hp.2 hs
  | other _ ih => exact ih hp ((List.mem_cons.mp hs).resolve_left (by simp))

/-- A cell that neither side stores to. -/
theorem Runs.frame (h : Runs act p m es p' m') (hp : p.StoresIn P) (ha : ¬ P a)
    (hact : ∀ o m, act o m a = m a) : m' a = m a := by
  induction h with
  | nil => rfl
  | load _ ih => exact ih (hp _)
  | store _ ih =>
    have hne : ∀ {b}, P b → a ≠ b := fun hb e => ha (e ▸ hb)
    rw [ih hp.2, Function.update_of_ne (hne hp.1)]
  | other _ ih => rw [ih hp, hact]

/-- **Undisturbed.** As long as `I` makes the operations ineffective, the program computes what it
computes alone. -/
theorem Runs.undisturbed {I : (L → V) → Prop} (h : Runs act p m es p' m') (hI : I m)
    (hact : ∀ o m, I m → act o m = m) (hp : p.StoresIn P)
    (hP : ∀ m a v, I m → P a → I (Function.update m a v)) : I m' ∧ p'.exec m' = p.exec m := by
  induction h with
  | nil => exact ⟨hI, rfl⟩
  | load _ ih => exact ih hI (hp _)
  | store _ ih => exact ih (hP _ _ _ hI hp.1) hp.2
  | other _ ih =>
    rw [hact _ _ hI] at ih
    exact ih hI hp

end Rules

end Access.Prog
