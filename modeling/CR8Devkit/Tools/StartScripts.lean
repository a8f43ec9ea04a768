import CR8Devkit.Lib.Transition
import Mathlib.Data.List.Basic
import Mathlib.Logic.Function.Basic

/-!
# The R8 start scripts

`start-cr8.sh`, `start-cr8-core1.sh` and `restart-r8-pair.sh` as functions of the board they run on
and of what the board answers to each request.

* `Board`: the remoteproc states, the has-run marks and the memory behind `busybox devmem`.
* `Attempt`: how the board answers one `stop` and one `start`.
* `startOnce`, `guardRefuses`, `retry`, `runScript`: the two start scripts, which differ in the
  addresses of `Script` only; `startCr8`, `startCr8Core1`, `restartR8Pair`.
* `runScript_safe`, `restartR8Pair_safe`: when a script starts no core that has run beside a running
  sibling, and the same over sequences of invocations in `start_safe_of_settled`.
-/

namespace CR8Devkit.StartScripts

open Function

/-! ## The board -/

/-- The two R8 cores: `remoteproc1` and `remoteproc2`. -/
inductive Core
  | core0
  | core1
  deriving DecidableEq, Repr

/-- The other R8 core. -/
def Core.sibling : Core → Core
  | .core0 => .core1
  | .core1 => .core0

@[simp] theorem Core.sibling_ne (c : Core) : c.sibling ≠ c := by cases c <;> decide

/-- What `cat $RP/state` prints; the scripts tell only `offline` and `running` apart. -/
inductive RpState
  | offline
  | running
  | other
  deriving DecidableEq, Repr

/-- Physical memory as `devmem` sees it, byte by byte. -/
abbrev Mem := ℕ → BitVec 8

/-- `busybox devmem a 32`. -/
def devmem32 (m : Mem) (a : ℕ) : BitVec 32 := m (a + 3) ++ m (a + 2) ++ m (a + 1) ++ m a

/-- A `devmem` write of one byte or of one word. -/
inductive Poke
  | byte (a : ℕ) (v : BitVec 8)
  | word (a : ℕ) (v : BitVec 32)

/-- `busybox devmem a 8 v` and `busybox devmem a 32 v`. -/
def Poke.write (m : Mem) : Poke → Mem
  | .byte a v => update m a v
  | .word a v => update (update (update (update m a (v.extractLsb' 0 8)) (a + 1)
      (v.extractLsb' 8 8)) (a + 2) (v.extractLsb' 16 8)) (a + 3) (v.extractLsb' 24 8)

/-- The board: remoteproc states, has-run marks, memory, and whether `devmem` works at all. -/
structure Board where
  state : Core → RpState
  hasRun : Core → Bool
  mem : Mem
  devmem : Bool

/-- **The cluster reset**: the has-run marks go when both R8 cores are offline, and only then. -/
def Board.settle (b : Board) : Board :=
  if b.state .core0 = .offline ∧ b.state .core1 = .offline then { b with hasRun := fun _ => false }
  else b

/-- How the board answers the requests of one attempt. -/
structure Attempt where
  /-- the state read after `echo stop` and the wait of at most ten seconds -/
  stopped : RpState
  /-- the kernel let the core run -/
  started : Bool
  /-- the state read three seconds after `echo start` -/
  after : RpState
  /-- what the firmware has written by then -/
  boot : Mem → Mem
  started_of_running : after = .running → started = true

/-- The state of core `c` once it has been told to stop; a core that is offline stays offline. -/
def Board.stopped (c : Core) (after : RpState) (b : Board) : RpState :=
  if b.state c = .offline then .offline else after

/-- `echo stop > $RP/state`. -/
def Board.stop (c : Core) (after : RpState) (b : Board) : Board :=
  { b with state := update b.state c (b.stopped c after) }.settle

/-- `echo start > $RP/state; sleep 3`. -/
def Board.start (c : Core) (o : Attempt) (b : Board) : Board :=
  { b with
    state := update b.state c o.after
    hasRun := if o.started then update b.hasRun c true else b.hasRun
    mem := o.boot b.mem }.settle

/-- A request written to a `state` file. A start is logged with the core's has-run mark and the
sibling's state at that moment. -/
inductive Op
  | stop (c : Core)
  | start (c : Core) (hasRun : Bool) (sibling : RpState)
  deriving DecidableEq, Repr

/-- No start was written to a core that has run while its sibling was running. -/
def Safe (ops : List Op) : Prop := ∀ c, Op.start c true .running ∉ ops

instance (ops : List Op) : Decidable (Safe ops) :=
  decidable_of_iff (Op.start .core0 true .running ∉ ops ∧ Op.start .core1 true .running ∉ ops)
    ⟨fun h c => by cases c; exacts [h.1, h.2], fun h => ⟨h _, h _⟩⟩

/-! ## The start scripts -/

/-- The addresses in which the two start scripts differ. -/
structure Script where
  core : Core
  /-- the black box whose magic the guard reads -/
  guardBox : ℕ
  /-- the black boxes that must be free of faults after a start -/
  health : List ℕ
  /-- the MHU doorbell and the virtio status bytes cleared before a start -/
  clears : List Poke

def bbShared : ℕ := 0x431F0000
def bbPercore : ℕ := 0x439F0000
def bbCore1 : ℕ := 0x441F0000
def r8BbMagic : BitVec 32 := 0x42423852

/-- `start-cr8.sh`. -/
def startCr8 : Script where
  core := .core0
  guardBox := bbPercore
  health := [bbShared, bbPercore]
  clears := [.word 0x10480068 1, .byte 0x42F00044 0, .byte 0x42F000B4 0, .byte 0x42F02044 0,
    .byte 0x42F020B4 0]

/-- `start-cr8-core1.sh`. -/
def startCr8Core1 : Script where
  core := .core1
  guardBox := bbCore1
  health := [bbCore1]
  clears := [.word 0x10480088 1, .byte 0x42F04044 0, .byte 0x42F040B4 0]

/-- The per-core black box of a core, as the scripts address it. -/
def Core.box : Core → ℕ
  | .core0 => bbPercore
  | .core1 => bbCore1

/-- `bb_ok`: a failing `devmem` counts as a clean box. -/
def bbOk (b : Board) (box : ℕ) : Bool :=
  let v := if b.devmem then devmem32 b.mem (box + 0x44) else 0
  v == 0 || v == 0xFFFFFFFF

/-- The `devmem` writes before a start. -/
def Board.clear (l : List Poke) (b : Board) : Board :=
  if b.devmem then { b with mem := l.foldl Poke.write b.mem } else b

/-- What a script leaves behind: the board, success, and the requests it wrote. -/
structure Outcome where
  board : Board
  ok : Bool
  ops : List Op

/-- The offline check at the top of `start_once`: the board after it and what it wrote. -/
def takeOffline (s : Script) (o : Attempt) (b : Board) : Board × List Op :=
  if b.state s.core ≠ .offline then (b.stop s.core o.stopped, [.stop s.core]) else (b, [])

/-- `start_once`. -/
def startOnce (s : Script) (o : Attempt) (b : Board) : Outcome :=
  let b₁ := (takeOffline s o b).1
  let ops := (takeOffline s o b).2
  if b₁.state s.core ≠ .offline then ⟨b₁, false, ops⟩
  else
    let b₂ := b₁.clear s.clears
    let b₃ := b₂.start s.core o
    ⟨b₃, b₃.state s.core == .running && s.health.all (bbOk b₃),
      ops ++ [.start s.core (b₂.hasRun s.core) (b₂.state s.core.sibling)]⟩

/-- The guard in front of the retry loop. -/
def guardRefuses (s : Script) (force : Bool) (b : Board) : Bool :=
  b.state s.core.sibling == .running && !force &&
    (b.state s.core != .offline || (b.devmem && devmem32 b.mem s.guardBox == r8BbMagic))

/-- `for n in $(seq 1 $TRIES)`: attempt `n`, with `k` attempts left. -/
def retry (s : Script) (o : ℕ → Attempt) : ℕ → ℕ → Board → Outcome
  | _, 0, b => ⟨b, false, []⟩
  | n, k + 1, b =>
    let r := startOnce s (o n) b
    if r.ok then r
    else
      let r' := retry s o (n + 1) k r.board
      ⟨r'.board, r'.ok, r.ops ++ r'.ops⟩

/-- A whole start script. -/
def runScript (s : Script) (force : Bool) (tries : ℕ) (o : ℕ → Attempt) (b : Board) : Outcome :=
  if guardRefuses s force b then ⟨b, false, []⟩ else retry s o 1 tries b

/-- The two stops of `restart-r8-pair.sh`, core1 first. -/
def pairStops (stopped : Core → RpState) (b : Board) : Board :=
  (b.stop .core1 (stopped .core1)).stop .core0 (stopped .core0)

/-- `restart-r8-pair.sh`: neither stop is checked, both start scripts run with `FORCE=1` and their
default of four tries. -/
def restartR8Pair (stopped : Core → RpState) (o : Core → ℕ → Attempt) (b : Board) : Outcome :=
  let r₀ := runScript startCr8 true 4 (o .core0) (pairStops stopped b)
  let r₁ := runScript startCr8Core1 true 4 (o .core1) r₀.board
  ⟨r₁.board, true, [.stop .core1, .stop .core0] ++ r₀.ops ++ r₁.ops⟩

/-! ## Sequences of invocations -/

/-- One invocation by the operator, with the answers it will get. -/
inductive Invocation
  | startCr8 (tries : ℕ) (o : ℕ → Attempt)
  | startCr8Core1 (tries : ℕ) (o : ℕ → Attempt)
  | restartR8Pair (stopped : Core → RpState) (o : Core → ℕ → Attempt)

/-- Run one invocation; only `restart-r8-pair.sh` sets `FORCE`. -/
def Invocation.run : Invocation → Board → Outcome
  | .startCr8 tries o, b => runScript StartScripts.startCr8 false tries o b
  | .startCr8Core1 tries o, b => runScript StartScripts.startCr8Core1 false tries o b
  | .restartR8Pair stopped o, b => StartScripts.restartR8Pair stopped o b

/-- One step: the board and the log of all requests so far. -/
def invoke (x : Board × List Op) (i : Invocation) : Option (Board × List Op) :=
  some ((i.run x.1).board, x.2 ++ (i.run x.1).ops)

/-- Every has-run mark agrees with the magic of the core's black box. -/
def MarksAgree (b : Board) : Prop := ∀ c, b.hasRun c = (devmem32 b.mem c.box == r8BbMagic)

/-! ## What one request changes -/

theorem safe_append {l₁ l₂ : List Op} : Safe (l₁ ++ l₂) ↔ Safe l₁ ∧ Safe l₂ := by
  simp only [Safe, List.mem_append, not_or, forall_and]

theorem safe_nil : Safe [] := fun _ => List.not_mem_nil

theorem safe_stop (c : Core) : Safe [.stop c] := fun _ => by simp

@[simp] theorem settle_state (b : Board) : b.settle.state = b.state := by
  unfold Board.settle; split_ifs <;> rfl

theorem hasRun_of_settle {b : Board} {c : Core} (h : b.settle.hasRun c = true) :
    b.hasRun c = true := by
  unfold Board.settle at h; split_ifs at h; exact h

theorem settle_hasRun_of_offline {b : Board} (h : ∀ c, b.state c = .offline) (c : Core) :
    b.settle.hasRun c = false := by
  unfold Board.settle; rw [if_pos ⟨h _, h _⟩]

theorem stop_state_of_ne {c c' : Core} (hc : c' ≠ c) (a : RpState) (b : Board) :
    (b.stop c a).state c' = b.state c' :=
  (congrFun (settle_state _) c').trans (update_of_ne hc _ _)

theorem stop_offline {c : Core} {a : RpState} {b : Board} (h : b.state c = .offline ∨ a = .offline) :
    (b.stop c a).state c = .offline := by
  refine (congrFun (settle_state _) c).trans ((update_self _ _ _).trans ?_)
  unfold Board.stopped
  split_ifs with hb
  · rfl
  · exact h.resolve_left hb

theorem hasRun_of_stop {c c' : Core} {a : RpState} {b : Board}
    (h : (b.stop c a).hasRun c' = true) : b.hasRun c' = true :=
  hasRun_of_settle (b := { b with state := update b.state c (b.stopped c a) }) h

@[simp] theorem start_state (c : Core) (o : Attempt) (b : Board) :
    (b.start c o).state = update b.state c o.after := settle_state _

/-- A start sets no mark but that of the core it starts, and that one only if the core comes up. -/
theorem hasRun_of_start {c c' : Core} {o : Attempt} {b : Board}
    (h : (b.start c o).hasRun c' = true) (hc : c' ≠ c ∨ o.started = false) :
    b.hasRun c' = true := by
  have h' := hasRun_of_settle h
  rcases hc with hc | hs
  · by_cases hs : o.started = true
    · simpa [hs, update_of_ne hc] using h'
    · simpa [hs] using h'
  · simpa [hs] using h'

@[simp] theorem clear_state (l : List Poke) (b : Board) : (b.clear l).state = b.state := by
  unfold Board.clear; split_ifs <;> rfl

@[simp] theorem clear_hasRun (l : List Poke) (b : Board) :
    (b.clear l).hasRun = b.hasRun := by
  unfold Board.clear; split_ifs <;> rfl

/-! ## One attempt -/

section Attempt

variable (s : Script) (o : Attempt) (b : Board)

theorem takeOffline_sibling :
    (takeOffline s o b).1.state s.core.sibling = b.state s.core.sibling := by
  unfold takeOffline
  split_ifs
  · exact stop_state_of_ne s.core.sibling_ne _ _
  · rfl

theorem hasRun_of_takeOffline {c : Core} (h : (takeOffline s o b).1.hasRun c = true) :
    b.hasRun c = true := by
  unfold takeOffline at h
  split_ifs at h
  · exact hasRun_of_stop h
  · exact h

theorem takeOffline_safe : Safe (takeOffline s o b).2 := by
  unfold takeOffline
  split_ifs
  · exact safe_stop _
  · exact safe_nil

variable {s o b}

/-- The core did not go offline: nothing is started. -/
theorem startOnce_of_stuck (h : (takeOffline s o b).1.state s.core ≠ .offline) :
    startOnce s o b = ⟨(takeOffline s o b).1, false, (takeOffline s o b).2⟩ := if_pos h

/-- The core is offline: the start is written. -/
theorem startOnce_of_offline (h : (takeOffline s o b).1.state s.core = .offline) :
    startOnce s o b =
      let b₂ := (takeOffline s o b).1.clear s.clears
      let b₃ := b₂.start s.core o
      ⟨b₃, b₃.state s.core == .running && s.health.all (bbOk b₃), (takeOffline s o b).2 ++
        [.start s.core (b₂.hasRun s.core) (b₂.state s.core.sibling)]⟩ := if_neg (not_not.mpr h)

variable (s o b)

/-- An attempt leaves the sibling's state alone. -/
theorem startOnce_sibling :
    (startOnce s o b).board.state s.core.sibling = b.state s.core.sibling := by
  by_cases hoff : (takeOffline s o b).1.state s.core = .offline
  · simp only [startOnce_of_offline hoff, start_state, clear_state]
    rw [update_of_ne s.core.sibling_ne, takeOffline_sibling]
  · rw [startOnce_of_stuck hoff]
    exact takeOffline_sibling s o b

/-- An attempt marks at most its own core, and only if the core comes up. -/
theorem hasRun_of_startOnce {c : Core} (h : (startOnce s o b).board.hasRun c = true)
    (hc : c ≠ s.core ∨ o.started = false) : b.hasRun c = true := by
  apply hasRun_of_takeOffline s o b
  by_cases hoff : (takeOffline s o b).1.state s.core = .offline
  · rw [startOnce_of_offline hoff] at h
    simpa using hasRun_of_start h hc
  · rwa [startOnce_of_stuck hoff] at h

/-- **One attempt is safe** on a core without a mark, or beside a sibling that does not run. -/
theorem startOnce_safe (h : b.hasRun s.core = false ∨ b.state s.core.sibling ≠ .running) :
    Safe (startOnce s o b).ops := by
  by_cases hoff : (takeOffline s o b).1.state s.core = .offline
  · rw [startOnce_of_offline hoff]
    refine safe_append.mpr ⟨takeOffline_safe s o b, fun c hc => ?_⟩
    simp only [List.mem_singleton, Op.start.injEq, clear_hasRun, clear_state,
      takeOffline_sibling] at hc
    obtain ⟨-, hrun, hsib⟩ := hc
    rcases h with h | h
    · rw [hasRun_of_takeOffline s o b hrun.symm] at h; cases h
    · exact h hsib.symm
  · rw [startOnce_of_stuck hoff]
    exact takeOffline_safe s o b

end Attempt

/-! ## The retry loop -/

/-- An attempt that has let the core run is the last one of the loop. -/
def Settled (s : Script) (o : ℕ → Attempt) : ℕ → ℕ → Board → Prop
  | _, 0, _ => True
  | n, k + 1, b => (startOnce s (o n) b).ok = true ∨ k = 0 ∨
      ((o n).started = false ∧ Settled s o (n + 1) k (startOnce s (o n) b).board)

variable {s : Script} {o : ℕ → Attempt}

theorem retry_of_ok {n k : ℕ} {b : Board} (h : (startOnce s (o n) b).ok = true) :
    retry s o n (k + 1) b = startOnce s (o n) b := if_pos h

theorem retry_of_fail {n k : ℕ} {b : Board} (h : (startOnce s (o n) b).ok ≠ true) :
    retry s o n (k + 1) b =
      let r := startOnce s (o n) b
      let r' := retry s o (n + 1) k r.board
      ⟨r'.board, r'.ok, r.ops ++ r'.ops⟩ := if_neg h

theorem hasRun_of_retry {c : Core} (hc : c ≠ s.core) (n k : ℕ) (b : Board)
    (h : (retry s o n k b).board.hasRun c = true) : b.hasRun c = true := by
  induction k generalizing n b with
  | zero => exact h
  | succ k ih =>
    by_cases hok : (startOnce s (o n) b).ok = true
    · rw [retry_of_ok hok] at h
      exact hasRun_of_startOnce _ _ _ h (.inl hc)
    · rw [retry_of_fail hok] at h
      exact hasRun_of_startOnce _ _ _ (ih _ _ h) (.inl hc)

/-- **The retry loop is safe** beside a sibling that does not run, and beside a running one if the
core has no mark and the loop stops with the attempt that lets it run. -/
theorem retry_safe (n k : ℕ) (b : Board)
    (h : b.state s.core.sibling ≠ .running ∨ (b.hasRun s.core = false ∧ Settled s o n k b)) :
    Safe (retry s o n k b).ops := by
  induction k generalizing n b with
  | zero => exact safe_nil
  | succ k ih =>
    have h₁ : Safe (startOnce s (o n) b).ops := startOnce_safe s (o n) b (h.symm.imp_left And.left)
    by_cases hok : (startOnce s (o n) b).ok = true
    · rwa [retry_of_ok hok]
    rw [retry_of_fail hok]
    refine safe_append.mpr ⟨h₁, ?_⟩
    rcases h with h | ⟨hrun, hset⟩
    · exact ih _ _ (.inl (by rwa [startOnce_sibling]))
    rcases hset with h | rfl | ⟨hstart, hset⟩
    · exact absurd h hok
    · exact safe_nil
    · refine ih _ _ (.inr ⟨?_, hset⟩)
      by_contra hmark
      rw [hasRun_of_startOnce s (o n) b (by simpa using hmark) (.inr hstart)] at hrun
      cases hrun

/-! ## The scripts -/

/-- What a start script without `FORCE` needs while the sibling runs: an offline core that has run
shows its magic in the box the guard reads, and the loop stops with the attempt that lets the core
run. -/
def ScriptSettled (s : Script) (tries : ℕ) (o : ℕ → Attempt) (b : Board) : Prop :=
  b.state s.core.sibling = .running →
    (b.state s.core = .offline → b.hasRun s.core = true →
      b.devmem = true ∧ devmem32 b.mem s.guardBox = r8BbMagic) ∧ Settled s o 1 tries b

theorem runScript_safe {tries : ℕ} {b : Board} (h : ScriptSettled s tries o b) :
    Safe (runScript s false tries o b).ops := by
  unfold runScript
  split_ifs with hg
  · exact safe_nil
  refine retry_safe _ _ _ ?_
  by_cases hsib : b.state s.core.sibling = .running
  · obtain ⟨hmagic, hset⟩ := h hsib
    refine .inr ⟨?_, hset⟩
    by_contra hrun
    -- the guard would have refused: the core is either not offline or shows its magic
    apply hg
    by_cases hoff : b.state s.core = .offline
    · obtain ⟨hd, hm⟩ := hmagic hoff (by simpa using hrun)
      simp [guardRefuses, hsib, hd, hm]
    · simp [guardRefuses, hsib, hoff]
  · exact .inl hsib

/-- What `restart-r8-pair.sh` needs: both stops end with their core offline, and if core0 then runs,
core1's loop stops with the attempt that lets core1 run. -/
def PairSettled (stopped : Core → RpState) (o : Core → ℕ → Attempt) (b : Board) : Prop :=
  (∀ c, b.state c = .offline ∨ stopped c = .offline) ∧
    let b₀ := (runScript startCr8 true 4 (o .core0) (pairStops stopped b)).board
    b₀.state .core0 = .running → Settled startCr8Core1 (o .core1) 1 4 b₀

theorem pairStops_state {stopped : Core → RpState} {b : Board}
    (h : ∀ c, b.state c = .offline ∨ stopped c = .offline) (c : Core) :
    (pairStops stopped b).state c = .offline := by
  have h₁ := stop_offline (h .core1)
  cases c with
  | core0 =>
    refine stop_offline ?_
    rw [stop_state_of_ne (by decide)]
    exact h .core0
  | core1 => exact (stop_state_of_ne (by decide) _ _).trans h₁

/-- Two stops that work reset the cluster. -/
theorem pairStops_hasRun {stopped : Core → RpState} {b : Board}
    (h : ∀ c, b.state c = .offline ∨ stopped c = .offline) (c : Core) :
    (pairStops stopped b).hasRun c = false := by
  refine settle_hasRun_of_offline (fun c => ?_) c
  rw [← settle_state]
  exact pairStops_state h c

/-- With `FORCE=1` the guard lets everything through. -/
theorem runScript_force (tries : ℕ) (b : Board) :
    runScript s true tries o b = retry s o 1 tries b := by
  simp [runScript, guardRefuses]

/-- **The pair script is safe** when both stops work and core1's loop settles. -/
theorem restartR8Pair_safe {stopped : Core → RpState} {o : Core → ℕ → Attempt} {b : Board}
    (h : PairSettled stopped o b) : Safe (restartR8Pair stopped o b).ops := by
  obtain ⟨hoff, hset⟩ := h
  have hstate := pairStops_state hoff
  refine safe_append.mpr ⟨safe_append.mpr ⟨fun c => by simp, ?_⟩, ?_⟩ <;> rw [runScript_force]
  · refine retry_safe 1 4 _ (.inl ?_)
    rw [hstate]
    decide
  · refine retry_safe 1 4 _ (or_iff_not_imp_left.mpr fun hrun => ⟨?_, hset (not_not.mp hrun)⟩)
    by_contra hmark
    have h₁ : (pairStops stopped b).hasRun .core1 = true :=
      hasRun_of_retry (s := startCr8) (o := o .core0) (by decide) 1 4 _
        (by rw [← runScript_force]; exact eq_true_of_ne_false hmark)
    rw [pairStops_hasRun hoff] at h₁
    cases h₁

/-- The condition on one invocation. -/
def Invocation.Settled : Invocation → Board → Prop
  | .startCr8 tries o, b => ScriptSettled StartScripts.startCr8 tries o b
  | .startCr8Core1 tries o, b => ScriptSettled StartScripts.startCr8Core1 tries o b
  | .restartR8Pair stopped o, b => PairSettled stopped o b

theorem run_safe {i : Invocation} {b : Board} (h : i.Settled b) : Safe (i.run b).ops := by
  cases i with
  | startCr8 tries o => exact runScript_safe h
  | startCr8Core1 tries o => exact runScript_safe h
  | restartR8Pair stopped o => exact restartR8Pair_safe h

/-- **Sequences of settled invocations are safe**, from any board. -/
theorem start_safe_of_settled {b₀ : Board} {is : List Invocation} {x : Board × List Op}
    (h : Transition.Run (Transition.guarded (Transition.ofNext invoke) fun x i => i.Settled x.1)
      (b₀, []) is x) : Safe x.2 := by
  refine h.inv (I := fun x => Safe x.2) safe_nil ?_
  rintro x i x' hx ⟨hi, hs⟩
  obtain rfl : ((i.run x.1).board, x.2 ++ (i.run x.1).ops) = x' := Option.some.inj hs
  exact safe_append.mpr ⟨hx, run_safe hi⟩

/-! ## A board on which the scripts are not safe -/

/-- core1 runs and shows its magic, core0 is cold. -/
def coldCore0 : Board where
  state := fun c => if c = .core1 then .running else .offline
  hasRun := fun c => c = .core1
  mem := Poke.write (fun _ => 0) (.word bbCore1 r8BbMagic)
  devmem := true

/-- core0 comes up and latches a data abort at once; a stop halts it. -/
def diesAtBoot : Attempt where
  stopped := .offline
  started := true
  after := .running
  boot := fun m => Poke.write (Poke.write m (.word bbPercore r8BbMagic)) (.word (bbPercore + 0x44) 3)
  started_of_running := fun _ => rfl

theorem not_start_safe : ¬ ∀ (b₀ : Board) (is : List Invocation) (x : Board × List Op),
    MarksAgree b₀ → Transition.Run (Transition.ofNext invoke) (b₀, []) is x → Safe x.2 := by
  intro h
  have hmarks : MarksAgree coldCore0 := by intro c; cases c <;> decide
  have hops := h coldCore0 [.startCr8 4 fun _ => diesAtBoot] _ hmarks (.single rfl)
  revert hops
  decide

/-- core0 comes up and stays healthy. -/
def bootsWell : Attempt where
  stopped := .offline
  started := true
  after := .running
  boot := fun m => Poke.write m (.word bbPercore r8BbMagic)
  started_of_running := fun _ => rfl

/-- core1 comes up and stays healthy. -/
def core1BootsWell : Attempt := { bootsWell with boot := fun m => Poke.write m (.word bbCore1 r8BbMagic) }

instance decidableSettled (s : Script) (o : ℕ → Attempt) : ∀ n k b, Decidable (Settled s o n k b)
  | _, 0, _ => isTrue trivial
  | n, k + 1, b =>
    have := decidableSettled s o (n + 1) k (startOnce s (o n) b).board
    inferInstanceAs (Decidable (_ ∨ _ ∨ _ ∧ _))

instance {p : Core → Prop} [DecidablePred p] : Decidable (∀ c, p c) :=
  decidable_of_iff (p .core0 ∧ p .core1) ⟨fun h c => Core.rec h.1 h.2 c, fun h => ⟨h .core0, h .core1⟩⟩

instance (i : Invocation) (b : Board) : Decidable (i.Settled b) :=
  match i with
  | .startCr8 _ _ | .startCr8Core1 _ _ => inferInstanceAs (Decidable (_ → (_ → _ → _ ∧ _) ∧ _))
  | .restartR8Pair _ _ => inferInstanceAs (Decidable ((∀ _ : Core, _ ∨ _) ∧ (_ → _)))

/-- core0 is started beside core1, then it is not restarted alone, and both are restarted together. -/
def pairRestart : List Invocation :=
  [.startCr8 4 fun _ => bootsWell, .startCr8 4 fun _ => bootsWell,
    .restartR8Pair (fun _ => .offline) fun c _ => if c = .core0 then bootsWell else core1BootsWell,
    .startCr8Core1 4 fun _ => core1BootsWell]

theorem start_safe_pairRestart :
    ∃ x, Transition.Run (Transition.ofNext invoke) (coldCore0, []) pairRestart x ∧
    x.2 = [.start .core0 false .running, .stop .core1, .stop .core0, .start .core0 false .offline,
      .start .core1 false .running] ∧ Safe x.2 := by
  have hexec : (Transition.exec (fun x i => if i.Settled x.1 then invoke x i else none) (coldCore0, [])
      pairRestart).map Prod.snd = some [.start .core0 false .running, .stop .core1, .stop .core0,
        .start .core0 false .offline, .start .core1 false .running] := by decide +kernel
  obtain ⟨x, hx, hops⟩ := Option.map_eq_some_iff.mp hexec
  have hrun := Transition.run_of_exec_guarded hx
  exact ⟨x, hrun.unguard, hops, start_safe_of_settled hrun⟩

end CR8Devkit.StartScripts
