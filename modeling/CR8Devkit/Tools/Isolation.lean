import CR8Devkit.Tools.StartScripts

/-!
# What `start-cr8.sh` takes from the CM33

* `Cm33`: the resource table and the black box of the CM33; `Agree`, `Alike`: memories and boards
  that differ there only.
* `scriptVerdicts`: the verdicts that a run gets from the CM33's box, which it reads once core0
  runs.
* `runScript_alike`: runs on alike boards with the same verdicts make the same requests and have the
  same exit status.
* `mem_runScript`: what the script itself leaves behind in the CM33's memory.
* **`startCr8_isolated`**: both, and a healthy firmware is accepted at its first attempt.
-/

namespace CR8Devkit.StartScripts

open Function

/-! ## The memory of the CM33 -/

/-- The resource table at `0x42F00000` and the black box at `0x431F0000`. -/
def Cm33 (a : ℕ) : Prop :=
  (0x42F00000 ≤ a ∧ a < 0x42F01000) ∨ (bbShared ≤ a ∧ a < bbShared + 0x10000)

instance (a : ℕ) : Decidable (Cm33 a) := inferInstanceAs (Decidable (_ ∨ _))

/-- The virtio status bytes of the two slices of the CM33's resource table. -/
def cm33Status : List ℕ := [0x42F00044, 0x42F000B4]

/-- The memories differ in what the CM33 owns only. -/
def Agree (m m' : Mem) : Prop := ∀ a, ¬ Cm33 a → m a = m' a

/-- A box without a captured fault. -/
def faultFree (m : Mem) (box : ℕ) : Bool :=
  devmem32 m (box + 0x44) == 0 || devmem32 m (box + 0x44) == 0xFFFFFFFF

theorem bbOk_eq (b : Board) (box : ℕ) : bbOk b box = (!b.devmem || faultFree b.mem box) := by
  unfold bbOk faultFree
  cases b.devmem <;> rfl

/-- The boards differ in the memory of the CM33 only. -/
structure Alike (b b' : Board) : Prop where
  state : b.state = b'.state
  hasRun : b.hasRun = b'.hasRun
  devmem : b.devmem = b'.devmem
  mem : Agree b.mem b'.mem

/-- The same answers to an attempt, up to the memory of the CM33. -/
structure Attempt.Like (o o' : Attempt) : Prop where
  stopped : o.stopped = o'.stopped
  started : o.started = o'.started
  after : o.after = o'.after
  boot : ∀ m m', Agree m m' → Agree (o.boot m) (o'.boot m')

/-! ### The verdicts on the CM33's box -/

/-- The verdict of one attempt; the box is read only if the core has come up. -/
def cm33Verdict (o : Attempt) (b : Board) : Option Bool :=
  if (takeOffline startCr8 o b).1.state .core0 = .offline ∧ o.after = .running then
    some (bbOk (startOnce startCr8 o b).board bbShared)
  else none

/-- The verdicts of the retry loop, from attempt `n` on. -/
def cm33Verdicts (o : ℕ → Attempt) : ℕ → ℕ → Board → List Bool
  | _, 0, _ => []
  | n, k + 1, b =>
    let r := startOnce startCr8 (o n) b
    (cm33Verdict (o n) b).toList ++ if r.ok then [] else cm33Verdicts o (n + 1) k r.board

/-- The verdicts of the whole script. -/
def scriptVerdicts (force : Bool) (tries : ℕ) (o : ℕ → Attempt) (b : Board) : List Bool :=
  if guardRefuses startCr8 force b then [] else cm33Verdicts o 1 tries b

/-- The same verdict wherever both runs get one. -/
def SameVerdicts (l l' : List Bool) : Prop :=
  ∀ (i : ℕ) (v v' : Bool), l[i]? = some v → l'[i]? = some v' → v = v'

theorem SameVerdicts.head {v v' : Bool} {l l' : List Bool} (h : SameVerdicts (v :: l) (v' :: l')) : v = v' :=
  h 0 v v' rfl rfl

theorem SameVerdicts.tail {v v' : Bool} {l l' : List Bool} (h : SameVerdicts (v :: l) (v' :: l')) :
    SameVerdicts l l' := fun i => h (i + 1)

/-- A firmware of the per-core layout leaves the memory of the CM33 alone and does not depend on it. -/
structure Attempt.PerCore (o : Attempt) : Prop where
  keeps : ∀ m a, Cm33 a → o.boot m a = m a
  agree : ∀ m m', Agree m m' → Agree (o.boot m) (o.boot m')

/-! ## Single writes -/

section Writes

variable {m m' : Mem}

theorem agree_update (h : Agree m m') (a : ℕ) (v : BitVec 8) : Agree (update m a v) (update m' a v) := by
  intro x hx
  by_cases hxa : x = a
  · rw [hxa, update_self, update_self]
  · rw [update_of_ne hxa, update_of_ne hxa]
    exact h x hx

theorem agree_write (h : Agree m m') (p : Poke) : Agree (p.write m) (p.write m') := by
  cases p with
  | byte a v => exact agree_update h a v
  | word a v => exact agree_update (agree_update (agree_update (agree_update h a _) _ _) _ _) _ _

theorem agree_writes (h : Agree m m') (l : List Poke) :
    Agree (l.foldl Poke.write m) (l.foldl Poke.write m') := by
  induction l generalizing m m' with
  | nil => exact h
  | cons p l ih => exact ih (agree_write h p)

theorem devmem32_of_agree (h : Agree m m') {a : ℕ} (ha : ∀ i < 4, ¬ Cm33 (a + i)) :
    devmem32 m a = devmem32 m' a := by
  rw [devmem32, devmem32, h (a + 3) (ha 3 (by decide)), h (a + 2) (ha 2 (by decide)),
    h (a + 1) (ha 1 (by decide)), h a (ha 0 (by decide))]

/-- Core0's own box is not the CM33's. -/
theorem faultFree_percore (h : Agree m m') : faultFree m bbPercore = faultFree m' bbPercore := by
  have hw : devmem32 m (bbPercore + 0x44) = devmem32 m' (bbPercore + 0x44) :=
    devmem32_of_agree h (by decide)
  rw [faultFree, faultFree, hw]

/-- The bytes that the pre-start writes of `start-cr8.sh` touch. -/
def clearedBytes : List ℕ :=
  [0x10480068, 0x10480069, 0x1048006A, 0x1048006B, 0x42F00044, 0x42F000B4, 0x42F02044, 0x42F020B4]

theorem clears_of_not_mem {a : ℕ} (h : a ∉ clearedBytes) : startCr8.clears.foldl Poke.write m a = m a := by
  simp only [clearedBytes, List.mem_cons, List.not_mem_nil, or_false, not_or] at h
  simp only [startCr8, List.foldl, Poke.write, update_apply]
  simp [h]

theorem clears_of_mem {a : ℕ} (h : a ∈ cm33Status) : startCr8.clears.foldl Poke.write m a = 0 := by
  simp only [cm33Status, List.mem_cons, List.not_mem_nil, or_false] at h
  rcases h with rfl | rfl <;> simp [startCr8, Poke.write]

/-- In the memory of the CM33 they touch the two status bytes only. -/
theorem clears_cm33 {a : ℕ} (h : Cm33 a) : startCr8.clears.foldl Poke.write m a =
    if a ∈ cm33Status then 0 else m a := by
  split_ifs with hs
  · exact clears_of_mem hs
  · refine clears_of_not_mem fun hmem => ?_
    have hall : ∀ a ∈ clearedBytes, Cm33 a → a ∈ cm33Status := by decide
    exact hs (hall a hmem h)

end Writes

/-! ## Two runs -/

section TwoRuns

variable {b b' : Board} {o o' : Attempt}

theorem Alike.settle (h : Alike b b') : Alike b.settle b'.settle := by
  unfold Board.settle
  rw [h.state]
  split_ifs
  · exact ⟨rfl, rfl, h.devmem, h.mem⟩
  · exact h

theorem Alike.stop (h : Alike b b') (c : Core) (a : RpState) : Alike (b.stop c a) (b'.stop c a) := by
  refine Alike.settle ⟨?_, h.hasRun, h.devmem, h.mem⟩
  show update b.state c (b.stopped c a) = update b'.state c (b'.stopped c a)
  rw [Board.stopped, Board.stopped, h.state]

theorem Alike.clear (h : Alike b b') : Alike (b.clear startCr8.clears) (b'.clear startCr8.clears) := by
  unfold Board.clear
  rw [h.devmem]
  split_ifs
  · exact ⟨h.state, h.hasRun, rfl, agree_writes h.mem _⟩
  · exact h

theorem Alike.start (h : Alike b b') (c : Core) (ho : o.Like o') : Alike (b.start c o) (b'.start c o') := by
  refine Alike.settle ⟨?_, ?_, h.devmem, ho.boot b.mem b'.mem h.mem⟩
  · show update b.state c o.after = update b'.state c o'.after
    rw [h.state, ho.after]
  · show (if o.started then update b.hasRun c true else b.hasRun) =
      if o'.started then update b'.hasRun c true else b'.hasRun
    rw [h.hasRun, ho.started]

/-- With the same verdict on the CM33's box the health check comes out alike. -/
theorem Alike.health (h : Alike b b') (hshared : bbOk b bbShared = bbOk b' bbShared) :
    startCr8.health.all (bbOk b) = startCr8.health.all (bbOk b') := by
  have hpercore : bbOk b bbPercore = bbOk b' bbPercore := by
    rw [bbOk_eq, bbOk_eq, h.devmem, faultFree_percore h.mem]
  show (bbOk b bbShared && (bbOk b bbPercore && true)) = (bbOk b' bbShared && (bbOk b' bbPercore && true))
  rw [hshared, hpercore]

theorem Alike.takeOffline (h : Alike b b') (ho : o.Like o') :
    Alike (takeOffline startCr8 o b).1 (takeOffline startCr8 o' b').1 ∧
      (StartScripts.takeOffline startCr8 o b).2 = (StartScripts.takeOffline startCr8 o' b').2 := by
  unfold StartScripts.takeOffline
  rw [h.state, ho.stopped]
  split_ifs
  · exact ⟨h.stop _ _, rfl⟩
  · exact ⟨h, rfl⟩

/-- **One attempt** on alike boards. -/
theorem startOnce_alike (h : Alike b b') (ho : o.Like o')
    (hv : ∀ v v', cm33Verdict o b = some v → cm33Verdict o' b' = some v' → v = v') :
    Alike (startOnce startCr8 o b).board (startOnce startCr8 o' b').board ∧
      (startOnce startCr8 o b).ok = (startOnce startCr8 o' b').ok ∧
      (startOnce startCr8 o b).ops = (startOnce startCr8 o' b').ops := by
  obtain ⟨h₁, hops⟩ := h.takeOffline ho
  by_cases hoff : (takeOffline startCr8 o b).1.state startCr8.core = .offline
  · have hoff' : (takeOffline startCr8 o' b').1.state startCr8.core = .offline := by rwa [← h₁.state]
    have h₂ := h₁.clear
    have h₃ := h₂.start startCr8.core ho
    unfold cm33Verdict at hv
    rw [startOnce_of_offline hoff, startOnce_of_offline hoff'] at hv ⊢
    refine ⟨h₃, ?_, ?_⟩
    · show (_ == _ && _) = (_ == _ && _)
      rw [h₃.state, start_state, update_self]
      by_cases hrun : o'.after = .running
      · rw [h₃.health (hv _ _ (if_pos ⟨hoff, ho.after.trans hrun⟩) (if_pos ⟨hoff', hrun⟩))]
      · rw [beq_false_of_ne hrun]
        rfl
    · show _ ++ [Op.start _ _ _] = _ ++ [Op.start _ _ _]
      rw [hops, h₂.hasRun, h₂.state]
  · have hoff' : (takeOffline startCr8 o' b').1.state startCr8.core ≠ .offline := by rwa [← h₁.state]
    rw [startOnce_of_stuck hoff, startOnce_of_stuck hoff']
    exact ⟨h₁, rfl, hops⟩

variable {o o' : ℕ → Attempt}

/-- Alike boards give a verdict in the same attempts. -/
theorem cm33Verdict_isSome {o o' : Attempt} (h : Alike b b') (ho : o.Like o') :
    (cm33Verdict o b).isSome = (cm33Verdict o' b').isSome := by
  unfold cm33Verdict
  rw [(h.takeOffline ho).1.state, ho.after]
  split_ifs <;> rfl

/-- The first verdict of two loops, and what is left of them. -/
theorem verdicts_cons {v v' : Option Bool} {l l' : List Bool} (hs : v.isSome = v'.isSome)
    (h : SameVerdicts (v.toList ++ l) (v'.toList ++ l')) :
    (∀ x x', v = some x → v' = some x' → x = x') ∧ SameVerdicts l l' := by
  cases v with
  | none =>
    cases v' with
    | none => exact ⟨fun _ _ hx => absurd hx (Option.some_ne_none _).symm, h⟩
    | some x' => cases hs
  | some x =>
    cases v' with
    | none => cases hs
    | some x' => exact ⟨fun _ _ hx hx' => Option.some.inj hx ▸ Option.some.inj hx' ▸ h.head, h.tail⟩

theorem retry_alike (ho : ∀ n, (o n).Like (o' n)) (n k : ℕ) (h : Alike b b')
    (hv : SameVerdicts (cm33Verdicts o n k b) (cm33Verdicts o' n k b')) :
    (retry startCr8 o n k b).ok = (retry startCr8 o' n k b').ok ∧
      (retry startCr8 o n k b).ops = (retry startCr8 o' n k b').ops := by
  induction k generalizing n b b' with
  | zero => exact ⟨rfl, rfl⟩
  | succ k ih =>
    obtain ⟨hfirst, hrest⟩ := verdicts_cons (cm33Verdict_isSome h (ho n)) hv
    obtain ⟨hboard, hok, hops⟩ := startOnce_alike h (ho n) hfirst
    by_cases hfirst : (startOnce startCr8 (o n) b).ok = true
    · rw [retry_of_ok hfirst, retry_of_ok (hok.symm.trans hfirst)]
      exact ⟨hok, hops⟩
    · have hfirst' : (startOnce startCr8 (o' n) b').ok ≠ true := by rwa [← hok]
      rw [if_neg hfirst, if_neg hfirst'] at hrest
      obtain ⟨hok', hops'⟩ := ih (n + 1) hboard hrest
      rw [retry_of_fail hfirst, retry_of_fail hfirst']
      refine ⟨hok', ?_⟩
      show _ ++ _ = _ ++ _
      rw [hops, hops']

theorem guardRefuses_alike (force : Bool) (h : Alike b b') :
    guardRefuses startCr8 force b = guardRefuses startCr8 force b' := by
  have hmagic : devmem32 b.mem startCr8.guardBox = devmem32 b'.mem startCr8.guardBox :=
    devmem32_of_agree h.mem (by decide)
  rw [guardRefuses, guardRefuses, h.state, h.devmem, hmagic]

/-- **Two runs of the script** on alike boards. -/
theorem runScript_alike (force : Bool) (tries : ℕ) (ho : ∀ n, (o n).Like (o' n)) (h : Alike b b')
    (hv : SameVerdicts (scriptVerdicts force tries o b) (scriptVerdicts force tries o' b')) :
    (runScript startCr8 force tries o b).ok = (runScript startCr8 force tries o' b').ok ∧
      (runScript startCr8 force tries o b).ops = (runScript startCr8 force tries o' b').ops := by
  unfold scriptVerdicts at hv
  unfold runScript
  rw [guardRefuses_alike force h] at hv ⊢
  split_ifs at hv ⊢
  · exact ⟨rfl, rfl⟩
  · exact retry_alike ho 1 tries h hv

end TwoRuns

/-! ## What the script writes -/

def Op.isStart : Op → Bool
  | .start .. => true
  | .stop _ => false

/-- A byte of the CM33 behind a list of requests: a start has cleared the status bytes. -/
def cm33Byte (b : Board) (ops : List Op) (a : ℕ) : BitVec 8 :=
  if b.devmem = true ∧ ops.any Op.isStart = true ∧ a ∈ cm33Status then 0 else b.mem a

section Memory

variable {b : Board} {o : Attempt} {a : ℕ}

@[simp] theorem settle_mem (b : Board) : b.settle.mem = b.mem := by
  unfold Board.settle
  split_ifs <;> rfl

@[simp] theorem settle_devmem (b : Board) : b.settle.devmem = b.devmem := by
  unfold Board.settle
  split_ifs <;> rfl

@[simp] theorem clear_devmem (l : List Poke) (b : Board) : (b.clear l).devmem = b.devmem := by
  unfold Board.clear
  split_ifs <;> rfl

/-- Taking the core offline touches no memory and writes no start. -/
theorem takeOffline_keeps (s : Script) (o : Attempt) (b : Board) :
    (takeOffline s o b).1.mem = b.mem ∧ (takeOffline s o b).1.devmem = b.devmem ∧
      (takeOffline s o b).2.any Op.isStart = false := by
  unfold takeOffline
  split_ifs
  · exact ⟨settle_mem _, settle_devmem _, rfl⟩
  · exact ⟨rfl, rfl, rfl⟩

theorem clear_cm33 (ha : Cm33 a) :
    (b.clear startCr8.clears).mem a = if b.devmem = true ∧ a ∈ cm33Status then 0 else b.mem a := by
  unfold Board.clear
  by_cases hd : b.devmem = true
  · rw [if_pos hd]
    show startCr8.clears.foldl Poke.write b.mem a = _
    rw [clears_cm33 ha]
    simp [hd]
  · rw [if_neg hd]
    simp [hd]

theorem mem_startOnce (ho : o.PerCore) (ha : Cm33 a) :
    (startOnce startCr8 o b).board.mem a = cm33Byte b (startOnce startCr8 o b).ops a ∧
      (startOnce startCr8 o b).board.devmem = b.devmem := by
  obtain ⟨hmem, hdev, hany⟩ := takeOffline_keeps startCr8 o b
  by_cases hoff : (takeOffline startCr8 o b).1.state startCr8.core = .offline
  · rw [startOnce_of_offline hoff]
    have hops (x y) : ((takeOffline startCr8 o b).2 ++ [Op.start startCr8.core x y]).any Op.isStart =
        true := by
      simp [Op.isStart]
    refine ⟨?_, ?_⟩
    · show (Board.settle _).mem a = _
      rw [settle_mem, cm33Byte, hops]
      show o.boot _ a = _
      rw [ho.keeps _ a ha, clear_cm33 ha, hdev, hmem]
      simp only [true_and]
    · show (Board.settle _).devmem = _
      rw [settle_devmem]
      show (Board.clear _ _).devmem = _
      rw [clear_devmem, hdev]
  · rw [startOnce_of_stuck hoff]
    refine ⟨?_, hdev⟩
    show (takeOffline startCr8 o b).1.mem a = cm33Byte b (takeOffline startCr8 o b).2 a
    rw [hmem, cm33Byte, hany]
    simp

variable {o : ℕ → Attempt}

/-- Further requests clear the same bytes again. -/
theorem cm33Byte_append {b₁ : Board} {ops ops₁ : List Op} (hmem : b₁.mem a = cm33Byte b ops a)
    (hdev : b₁.devmem = b.devmem) : cm33Byte b₁ ops₁ a = cm33Byte b (ops ++ ops₁) a := by
  unfold cm33Byte at hmem ⊢
  rw [hmem, hdev, List.any_append]
  by_cases hs : a ∈ cm33Status <;> by_cases hd : b.devmem = true <;>
    cases ops.any Op.isStart <;> cases ops₁.any Op.isStart <;> simp [hs, hd]

theorem mem_retry (ho : ∀ n, (o n).PerCore) (ha : Cm33 a) (n k : ℕ) (b : Board) :
    (retry startCr8 o n k b).board.mem a = cm33Byte b (retry startCr8 o n k b).ops a := by
  induction k generalizing n b with
  | zero => simp [retry, cm33Byte]
  | succ k ih =>
    obtain ⟨hmem, hdev⟩ := mem_startOnce (b := b) (ho n) ha
    by_cases hok : (startOnce startCr8 (o n) b).ok = true
    · rw [retry_of_ok hok]
      exact hmem
    · rw [retry_of_fail hok]
      show (retry startCr8 o (n + 1) k _).board.mem a = cm33Byte b (_ ++ _) a
      rw [ih, cm33Byte_append hmem hdev]

/-- **The script's own trace** in the memory of the CM33. -/
theorem mem_runScript (force : Bool) (tries : ℕ) (ho : ∀ n, (o n).PerCore) (ha : Cm33 a) :
    (runScript startCr8 force tries o b).board.mem a =
      cm33Byte b (runScript startCr8 force tries o b).ops a := by
  unfold runScript
  split_ifs
  · simp [cm33Byte]
  · exact mem_retry ho ha 1 tries b

end Memory

/-! ## The script -/

/-- The memory in which core0 starts to run. -/
def beforeBoot (b : Board) : Mem := (b.clear startCr8.clears).mem

/-- The first attempt can be made: the guard lets it through, and the core goes offline. -/
structure FirstTry (force : Bool) (o : Attempt) (b : Board) : Prop where
  allowed : guardRefuses startCr8 force b = false
  offline : b.state .core0 = .offline ∨ o.stopped = .offline
  running : o.after = .running

theorem takeOffline_offline {o : Attempt} {b : Board} (h : b.state .core0 = .offline ∨ o.stopped = .offline) :
    (takeOffline startCr8 o b).1.state startCr8.core = .offline := by
  unfold takeOffline
  split_ifs with hoff
  · exact stop_offline h
  · exact not_not.mp hoff

/-- **A healthy firmware is accepted at once** beside a healthy box of the CM33. -/
theorem runScript_first {force : Bool} {tries : ℕ} {o : ℕ → Attempt} {b : Board} (ht : 0 < tries)
    (h : FirstTry force (o 1) b) (hshared : faultFree ((o 1).boot (beforeBoot b)) bbShared = true)
    (hown : faultFree ((o 1).boot (beforeBoot b)) bbPercore = true) :
    (runScript startCr8 force tries o b).ok = true ∧
      (runScript startCr8 force tries o b).ops.countP Op.isStart = 1 := by
  obtain ⟨k, rfl⟩ : ∃ k, tries = k + 1 := ⟨tries - 1, by omega⟩
  have hoff := takeOffline_offline h.offline
  obtain ⟨hmem, hdev, hany⟩ := takeOffline_keeps startCr8 (o 1) b
  have hboot : (((takeOffline startCr8 (o 1) b).1.clear startCr8.clears).start startCr8.core (o 1)).mem =
      (o 1).boot (beforeBoot b) := by
    have hclear : ((takeOffline startCr8 (o 1) b).1.clear startCr8.clears).mem = beforeBoot b := by
      unfold beforeBoot Board.clear
      rw [hdev, apply_ite Board.mem, apply_ite Board.mem, hmem]
    refine (settle_mem _).trans ?_
    show (o 1).boot _ = _
    rw [hclear]
  have hok : (startOnce startCr8 (o 1) b).ok = true := by
    rw [startOnce_of_offline hoff]
    show (_ == _ && (bbOk _ bbShared && (bbOk _ bbPercore && true))) = true
    rw [bbOk_eq, bbOk_eq, hboot, hshared, hown, start_state, update_self, h.running]
    simp
  have hrun : runScript startCr8 force (k + 1) o b = startOnce startCr8 (o 1) b := by
    rw [runScript, h.allowed, if_neg Bool.false_ne_true, retry_of_ok hok]
  rw [hrun]
  refine ⟨hok, ?_⟩
  rw [startOnce_of_offline hoff]
  show ((takeOffline startCr8 (o 1) b).2 ++ [_]).countP Op.isStart = 1
  have hnone : (takeOffline startCr8 (o 1) b).2.countP Op.isStart = 0 := by
    rw [List.countP_eq_zero]
    intro op hop hs
    have := List.any_eq_false.mp hany op hop
    exact this hs
  rw [List.countP_append, hnone]
  rfl

/-- **Core0 and the CM33.** Boards that differ in the memory of the CM33 only see the same requests
and the same exit status, if the script gets the same verdict on the CM33's box wherever it reads it
in both runs; it clears the two status bytes of the CM33's resource table with every start and
leaves the rest of its memory alone; and a healthy firmware is accepted at the first attempt while
the CM33's box is free of faults. -/
theorem startCr8_isolated (force : Bool) (tries : ℕ) {o o' : ℕ → Attempt} {b b' : Board}
    (ho : ∀ n, (o n).Like (o' n)) (h : Alike b b')
    (hv : SameVerdicts (scriptVerdicts force tries o b) (scriptVerdicts force tries o' b')) :
    ((runScript startCr8 force tries o b).ok = (runScript startCr8 force tries o' b').ok ∧
      (runScript startCr8 force tries o b).ops = (runScript startCr8 force tries o' b').ops) ∧
    ((∀ n, (o n).PerCore) → ∀ a, Cm33 a → (runScript startCr8 force tries o b).board.mem a =
      cm33Byte b (runScript startCr8 force tries o b).ops a) ∧
    (0 < tries → FirstTry force (o 1) b →
      faultFree ((o 1).boot (beforeBoot b)) bbShared = true →
      faultFree ((o 1).boot (beforeBoot b)) bbPercore = true →
      (runScript startCr8 force tries o b).ok = true ∧
        (runScript startCr8 force tries o b).ops.countP Op.isStart = 1) :=
  ⟨runScript_alike force tries ho h hv, fun hp _ ha => mem_runScript force tries hp ha, runScript_first⟩

/-! ## A captured fault of the CM33 -/

theorem bootsWell_perCore : bootsWell.PerCore where
  keeps m a ha := by
    have hne : a ≠ bbPercore ∧ a ≠ bbPercore + 1 ∧ a ≠ bbPercore + 2 ∧ a ≠ bbPercore + 3 := by
      unfold Cm33 bbShared at ha
      unfold bbPercore
      omega
    simp [bootsWell, Poke.write, hne]
  agree _ _ h := agree_write h (.word bbPercore r8BbMagic)

/-- Both R8 cores are offline, the CM33 is up; its box holds `v` as its fault type. -/
def besideCm33 (v : BitVec 32) : Board where
  state := fun _ => .offline
  hasRun := fun _ => false
  mem := Poke.write (fun a => if a ∈ cm33Status then 7 else 0) (.word (bbShared + 0x44) v)
  devmem := true

theorem besideCm33_agree (v w : BitVec 32) : Agree (besideCm33 v).mem (besideCm33 w).mem := by
  intro a ha
  have hne : a ≠ bbShared + 0x44 ∧ a ≠ bbShared + 0x44 + 1 ∧ a ≠ bbShared + 0x44 + 2 ∧
      a ≠ bbShared + 0x44 + 3 := by
    unfold Cm33 at ha
    omega
  simp [besideCm33, Poke.write, hne]

/-- core0 does not come up. -/
def staysDown : Attempt where
  stopped := .offline
  started := false
  after := .offline
  boot := id
  started_of_running := fun h => absurd h (by decide)

/-- core0 comes up at the second attempt. -/
def secondTry (n : ℕ) : Attempt := if n = 1 then staysDown else bootsWell

/-- The same while the CM33 starts anew and leaves a clean box. -/
def secondTryCm33 (n : ℕ) : Attempt :=
  if n = 1 then staysDown
  else { bootsWell with boot := fun m => Poke.write (bootsWell.boot m) (.word (bbShared + 0x44) 0) }

theorem secondTry_perCore (n : ℕ) : (secondTry n).PerCore := by
  unfold secondTry
  split_ifs
  · exact ⟨fun _ _ _ => rfl, fun _ _ h => h⟩
  · exact bootsWell_perCore

theorem secondTry_like (n : ℕ) : (secondTry n).Like (secondTryCm33 n) := by
  unfold secondTry secondTryCm33
  split_ifs
  · exact ⟨rfl, rfl, rfl, fun _ _ h => h⟩
  · refine ⟨rfl, rfl, rfl, fun m m' h a ha => ?_⟩
    have hne : a ≠ bbShared + 0x44 ∧ a ≠ bbShared + 0x44 + 1 ∧ a ≠ bbShared + 0x44 + 2 ∧
        a ≠ bbShared + 0x44 + 3 := by
      unfold Cm33 at ha
      omega
    simpa [Poke.write, hne] using bootsWell_perCore.agree m m' h a ha

/-- A clean box, and one with a captured fault that is gone when the script first reads it. -/
theorem startCr8_isolated_besideCm33 :
    (runScript startCr8 false 4 secondTry (besideCm33 0)).ops =
      (runScript startCr8 false 4 secondTryCm33 (besideCm33 3)).ops ∧
    (runScript startCr8 false 4 secondTry (besideCm33 0)).board.mem 0x42F00044 = 0 := by
  have halike : Alike (besideCm33 0) (besideCm33 3) := ⟨rfl, rfl, rfl, besideCm33_agree _ _⟩
  have hleft : scriptVerdicts false 4 secondTry (besideCm33 0) = [true] := by decide +kernel
  have hright : scriptVerdicts false 4 secondTryCm33 (besideCm33 3) = [true] := by decide +kernel
  have hv : SameVerdicts (scriptVerdicts false 4 secondTry (besideCm33 0))
      (scriptVerdicts false 4 secondTryCm33 (besideCm33 3)) := by
    rw [hleft, hright]
    exact fun i v v' h h' => Option.some.inj (h.symm.trans h')
  obtain ⟨htwo, hmem, -⟩ := startCr8_isolated false 4 secondTry_like halike hv
  refine ⟨htwo.2, ?_⟩
  rw [hmem secondTry_perCore 0x42F00044 (by decide)]
  decide +kernel

/-- With a HardFault captured by the CM33 the firmware is started again, and the status bytes of the
CM33's resource table do not survive a start. -/
theorem not_startCr8_isolated :
    (¬ ∀ (tries : ℕ) (o : ℕ → Attempt) (b b' : Board), (∀ n, (o n).PerCore) → b.state = b'.state →
      b.hasRun = b'.hasRun → b.devmem = b'.devmem → Agree b.mem b'.mem →
      (runScript startCr8 false tries o b).ops = (runScript startCr8 false tries o b').ops) ∧
    ¬ ∀ (tries : ℕ) (o : ℕ → Attempt) (b : Board), (∀ n, (o n).PerCore) →
      ∀ a ∈ cm33Status, (runScript startCr8 false tries o b).board.mem a = b.mem a := by
  refine ⟨fun h => ?_, fun h => ?_⟩
  · have hops := h 2 (fun _ => bootsWell) (besideCm33 0) (besideCm33 3) (fun _ => bootsWell_perCore)
      rfl rfl rfl
      (besideCm33_agree _ _)
    revert hops
    decide +kernel
  · have hbyte := h 2 (fun _ => bootsWell) (besideCm33 0) (fun _ => bootsWell_perCore) 0x42F00044 (by decide)
    revert hbyte
    decide +kernel

end CR8Devkit.StartScripts
