import CR8Devkit.Tools.StartScripts

/-!
# Putting new firmware on the board

`deploy-cr8.sh` and `redeploy-cm33.sh`, with `start-cm33.sh`, over the start scripts of the R8
cores.

* `Windows`: the memory that the kernel clears when it stops the CM33, by the device tree.
* **`deployCr8_beside_core1`**: beside a running core1 a core0 that has run is taken down and stays
  down.
* **`redeployCm33_windows`**: when the windows decide what becomes of the R8 cores.
-/

namespace CR8Devkit.StartScripts

open Function

/-! ## `deploy-cr8.sh` -/

/-- `file`: the new firmware is there; `stopped`: the state read after `echo stop`; `force`: what
the operator's environment hands on to `start-cr8.sh`. -/
def deployCr8 (force file : Bool) (stopped : RpState) (o : ℕ → Attempt) (b : Board) : Outcome :=
  if file then
    let b₁ := if b.state .core0 ≠ .offline then b.stop .core0 stopped else b
    let ops := if b.state .core0 ≠ .offline then [Op.stop .core0] else []
    if b₁.state .core0 ≠ .offline then ⟨b₁, false, ops⟩
    else
      let r := runScript startCr8 force 4 o b₁
      ⟨r.board, r.ok, ops ++ r.ops⟩
  else
    ⟨b, false, []⟩

@[simp] theorem stop_mem (c : Core) (a : RpState) (b : Board) : (b.stop c a).mem = b.mem := by
  unfold Board.stop Board.settle
  split_ifs <;> rfl

@[simp] theorem stop_devmem (c : Core) (a : RpState) (b : Board) : (b.stop c a).devmem = b.devmem := by
  unfold Board.stop Board.settle
  split_ifs <;> rfl

/-- A core that is stopped beside one that is not offline keeps its mark. -/
theorem stop_hasRun {c : Core} {a : RpState} {b : Board} (h : b.state c.sibling ≠ .offline) :
    (b.stop c a).hasRun = b.hasRun := by
  unfold Board.stop Board.settle
  split_ifs with hoff
  · have hsib : update b.state c (b.stopped c a) c.sibling = .offline := by
      cases c with
      | core0 => exact hoff.2
      | core1 => exact hoff.1
    rw [update_of_ne c.sibling_ne] at hsib
    exact absurd hsib h
  · rfl

/-- **No deployment beside core1.** With core1 running and the magic in core0's box, core0 is
stopped, and then the guard of `start-cr8.sh` refuses to start it. -/
theorem deployCr8_beside_core1 (file : Bool) (stopped : RpState) (o : ℕ → Attempt) {b : Board}
    (hs : b.state .core1 = .running) (hd : b.devmem = true) (hm : devmem32 b.mem bbPercore = r8BbMagic) :
    let r := deployCr8 false file stopped o b
    r.ok = false ∧ (∀ op ∈ r.ops, op = .stop .core0) ∧ r.board.hasRun = b.hasRun ∧ r.board.mem = b.mem ∧
      (file = true → b.state .core0 = .offline ∨ stopped = .offline → r.board.state .core0 = .offline) := by
  dsimp only
  unfold deployCr8
  cases file with
  | false =>
    exact ⟨rfl, fun _ h => absurd h List.not_mem_nil, rfl, rfl, fun h => absurd h Bool.false_ne_true⟩
  | true =>
    have hguard : ∀ b₁ : Board, b₁.state .core1 = .running → b₁.devmem = true →
        devmem32 b₁.mem bbPercore = r8BbMagic → runScript startCr8 false 4 o b₁ = ⟨b₁, false, []⟩ := by
      intro b₁ h₁ h₂ h₃
      refine if_pos ?_
      have hsib : b₁.state startCr8.core.sibling = .running := h₁
      have hbox : devmem32 b₁.mem startCr8.guardBox = r8BbMagic := h₃
      simp [guardRefuses, hsib, h₂, hbox]
    rw [if_pos rfl]
    by_cases h0 : b.state .core0 = .offline
    · rw [if_neg (not_not.mpr h0), if_neg (not_not.mpr h0)]
      dsimp only
      rw [if_neg (not_not.mpr h0), hguard b hs hd hm]
      exact ⟨rfl, fun _ h => absurd h List.not_mem_nil, rfl, rfl, fun _ _ => h0⟩
    · rw [if_pos h0, if_pos h0]
      have hrun : (b.stop .core0 stopped).hasRun = b.hasRun := stop_hasRun (by rw [Core.sibling, hs]; decide)
      dsimp only
      split_ifs with hoff
      · refine ⟨rfl, fun op h => List.mem_singleton.mp h, hrun, stop_mem .., fun _ h => ?_⟩
        exact absurd (stop_offline h) hoff
      · rw [hguard _ ((stop_state_of_ne (by decide) _ _).trans hs) (by rw [stop_devmem, hd])
          (by rw [stop_mem, hm])]
        refine ⟨rfl, fun op h => ?_, hrun, stop_mem .., fun _ h => stop_offline h⟩
        exact List.mem_singleton.mp (by simpa using h)

theorem deployCr8_beside_core1_running :
    (deployCr8 false true .offline (fun _ => bootsWell)
      { coldCore0 with
        state := fun _ => .running
        hasRun := fun _ => true
        mem := Poke.write (fun _ => 0) (.word bbPercore r8BbMagic) }).ok = false :=
  (deployCr8_beside_core1 true .offline (fun _ => bootsWell) rfl rfl (by decide)).1

/-! ## `start-cm33.sh` -/

structure Cluster where
  board : Board
  cm33 : RpState

/-- How the board answers one start of the CM33. -/
structure CmAttempt where
  /-- `echo start` has returned within 25 seconds -/
  written : Bool
  /-- the state read two seconds later, or after a write that failed -/
  after : RpState
  /-- what has been written to memory by then -/
  boot : Mem → Mem

def cm33Clears : List Poke := [.word 0x104800A8 1, .byte 0x42F00044 0, .byte 0x42F000B4 0]

/-- `start_once`. -/
def cm33Once (o : CmAttempt) (c : Cluster) : Bool × Cluster :=
  if c.cm33 ≠ .offline then (false, c)
  else
    let b := c.board.clear cm33Clears
    (o.written && o.after == .running, ⟨{ b with mem := o.boot b.mem }, o.after⟩)

/-- Attempt `n`, with `k` attempts left. A CM33 that is not offline is left alone. -/
def startCm33 (o : ℕ → CmAttempt) : ℕ → ℕ → Cluster → Bool × Cluster
  | _, 0, c => (false, c)
  | n, k + 1, c =>
    let r := cm33Once (o n) c
    if r.1 then r
    else if r.2.cm33 ≠ .offline then (false, r.2)
    else startCm33 o (n + 1) k r.2

/-! ## `redeploy-cm33.sh` -/

/-- Base and length of each. -/
abbrev Windows := List (ℕ × ℕ)

def Windows.mem (w : Windows) (a : ℕ) : Bool := w.any fun r => decide (r.1 ≤ a) && decide (a < r.1 + r.2)

/-- The `memset` of a stop. -/
def Windows.wipe (w : Windows) (m : Mem) : Mem := fun a => if w.mem a then 0 else m a

/-- One window of 63 MB, which spans memory of both R8 cores. -/
def legacyWindows : Windows := [(0x40010000, 0x3F00000)]

/-- The `reg` that `percore-board.sh` writes. -/
def percoreWindows : Windows := [(0x8000000, 0xfffff), (0x42f00000, 0x2000), (0x43000000, 0x600000)]

/-- `echo stop`, and the state read two seconds later. -/
def stopCm33 (w : Windows) (stopped : RpState) (c : Cluster) : Cluster :=
  if c.cm33 = .offline then c
  else if stopped = .offline then ⟨{ c.board with mem := w.wipe c.board.mem }, .offline⟩
  else ⟨c.board, stopped⟩

/-- The check of step 3 on one black box. -/
def magicAt (b : Board) (box : ℕ) : Bool := b.devmem && devmem32 b.mem box == r8BbMagic

/-- The answers that a run of `redeploy-cm33.sh` gets. -/
structure Redeploy where
  file : Bool
  stopped : RpState
  cm33 : ℕ → CmAttempt
  pairStopped : Core → RpState
  pair : Core → ℕ → Attempt

/-- The cluster, success, and what has been written to the `state` files of the R8 cores. -/
def redeployCm33 (w : Windows) (x : Redeploy) (c : Cluster) : Cluster × Bool × List Op :=
  if x.file then
    let c₁ := stopCm33 w x.stopped c
    if c₁.cm33 ≠ .offline then (c₁, false, [])
    else
      let r := startCm33 x.cm33 1 3 c₁
      if r.1 then
        if [bbPercore, bbCore1].all (magicAt r.2.board) then (r.2, true, [])
        else
          let p := restartR8Pair x.pairStopped x.pair r.2.board
          (⟨p.board, r.2.cm33⟩, true, p.ops)
      else (r.2, false, [])
  else (c, false, [])

/-! ## What the windows decide -/

/-- A byte of the magic word of an R8 black box. -/
def MagicByte (a : ℕ) : Prop := ∃ box ∈ [bbPercore, bbCore1], box ≤ a ∧ a < box + 4

theorem MagicByte.le {a : ℕ} (h : MagicByte a) : 0x439F0000 ≤ a := by
  obtain ⟨box, hbox, hle, -⟩ := h
  rcases List.mem_pair.mp hbox with rfl | rfl
  · exact hle
  · exact Nat.le_trans (by decide) hle

/-- Some byte of a magic word lies in a window. -/
def Windows.touches (w : Windows) : Bool :=
  [bbPercore, bbCore1].any fun box => (List.range 4).any fun i => w.mem (box + i)

theorem touches_iff {w : Windows} : w.touches = true ↔ ∃ a, MagicByte a ∧ w.mem a = true := by
  constructor
  · intro h
    obtain ⟨box, hbox, h⟩ := List.any_eq_true.mp h
    obtain ⟨i, hi, h⟩ := List.any_eq_true.mp h
    exact ⟨box + i, ⟨box, hbox, Nat.le_add_right .., Nat.add_lt_add_left (List.mem_range.mp hi) _⟩, h⟩
  · rintro ⟨a, ⟨box, hbox, hle, hlt⟩, h⟩
    refine List.any_eq_true.mpr ⟨box, hbox, List.any_eq_true.mpr ⟨a - box, List.mem_range.mpr (by omega), ?_⟩⟩
    rwa [Nat.add_sub_cancel' hle]

theorem append_inj {m n : ℕ} {x x' : BitVec m} {y y' : BitVec n} :
    x ++ y = x' ++ y' ↔ x = x' ∧ y = y' := by
  constructor
  · intro h
    have hy : y = y' := by
      have hlow := congrArg (BitVec.extractLsb' 0 n) h
      rwa [BitVec.extractLsb'_append_eq_right, BitVec.extractLsb'_append_eq_right] at hlow
    subst hy
    exact ⟨(BitVec.append_left_inj y).mp h, rfl⟩
  · rintro ⟨rfl, rfl⟩
    rfl

theorem devmem32_eq_magic {m : Mem} {a : ℕ} : devmem32 m a = r8BbMagic ↔
    m (a + 3) = 0x42 ∧ m (a + 2) = 0x42 ∧ m (a + 1) = 0x38 ∧ m a = 0x52 := by
  have hmagic : r8BbMagic = 0x42#8 ++ 0x42#8 ++ 0x38#8 ++ 0x52#8 := rfl
  rw [hmagic, devmem32, append_inj, append_inj, append_inj, and_assoc, and_assoc]
  rfl

/-- No byte of the magic is zero: a word that a window reaches into has lost it. -/
theorem devmem32_ne_magic {m : Mem} {box a : ℕ} (hle : box ≤ a) (hlt : a < box + 4) (h : m a = 0) :
    devmem32 m box ≠ r8BbMagic := by
  intro hmagic
  obtain ⟨h3, h2, h1, h0⟩ := devmem32_eq_magic.mp hmagic
  have hcases : a = box ∨ a = box + 1 ∨ a = box + 2 ∨ a = box + 3 := by omega
  rcases hcases with rfl | rfl | rfl | rfl
  · exact absurd (h.symm.trans h0) (by decide)
  · exact absurd (h.symm.trans h1) (by decide)
  · exact absurd (h.symm.trans h2) (by decide)
  · exact absurd (h.symm.trans h3) (by decide)

/-- Memory that agrees on the four bytes of a word agrees on the word. -/
theorem devmem32_congr {m m' : Mem} {box : ℕ} (h : ∀ a, box ≤ a → a < box + 4 → m' a = m a) :
    devmem32 m' box = devmem32 m box := by
  unfold devmem32
  rw [h box (Nat.le_refl _) (by omega), h (box + 1) (by omega) (by omega), h (box + 2) (by omega) (by omega),
    h (box + 3) (by omega) (by omega)]

/-- The R8 side of the board, apart from memory outside the magic words. -/
structure Keeps (b b' : Board) : Prop where
  state : b'.state = b.state
  hasRun : b'.hasRun = b.hasRun
  devmem : b'.devmem = b.devmem
  magic : ∀ a, MagicByte a → b'.mem a = b.mem a

theorem Keeps.refl (b : Board) : Keeps b b := ⟨rfl, rfl, rfl, fun _ _ => rfl⟩

theorem Keeps.trans {b b' b'' : Board} (h : Keeps b b') (h' : Keeps b' b'') : Keeps b b'' where
  state := h'.state.trans h.state
  hasRun := h'.hasRun.trans h.hasRun
  devmem := h'.devmem.trans h.devmem
  magic a ha := (h'.magic a ha).trans (h.magic a ha)

theorem Keeps.magicAt {b b' : Board} (h : Keeps b b') {box : ℕ} (hbox : box ∈ [bbPercore, bbCore1]) :
    magicAt b' box = magicAt b box := by
  unfold StartScripts.magicAt
  rw [h.devmem, devmem32_congr fun a hle hlt => h.magic a ⟨box, hbox, hle, hlt⟩]

/-- The doorbell and the status bytes lie outside the magic words. -/
theorem clear_keeps (b : Board) : Keeps b (b.clear cm33Clears) := by
  refine ⟨clear_state .., clear_hasRun .., ?_, ?_⟩
  · unfold Board.clear
    split_ifs <;> rfl
  · intro a ha
    have hle := ha.le
    unfold Board.clear
    split_ifs
    · simp only [cm33Clears, List.foldl_cons, List.foldl_nil, Poke.write]
      iterate 6 rw [update_of_ne (by omega)]
    · rfl

theorem startCm33_keeps {o : ℕ → CmAttempt} (ho : ∀ n m a, MagicByte a → (o n).boot m a = m a) (n k : ℕ)
    (c : Cluster) : Keeps c.board (startCm33 o n k c).2.board := by
  have hone : ∀ n c, Keeps c.board (cm33Once (o n) c).2.board := by
    intro n c
    unfold cm33Once
    split_ifs
    · exact .refl _
    · have hclear := clear_keeps c.board
      exact ⟨hclear.state, hclear.hasRun, hclear.devmem, fun a ha => (ho n _ a ha).trans (hclear.magic a ha)⟩
  induction k generalizing n c with
  | zero => exact .refl _
  | succ k ih =>
    unfold startCm33
    dsimp only
    split_ifs
    · exact hone n c
    · exact hone n c
    · exact (hone n c).trans (ih _ _)

theorem stopCm33_state (w : Windows) (a : RpState) (c : Cluster) :
    (stopCm33 w a c).board.state = c.board.state ∧ (stopCm33 w a c).board.hasRun = c.board.hasRun := by
  unfold stopCm33
  split_ifs <;> exact ⟨rfl, rfl⟩

theorem stopCm33_keeps {w : Windows} (hw : w.touches = false) (a : RpState) (c : Cluster) :
    Keeps c.board (stopCm33 w a c).board := by
  unfold stopCm33
  split_ifs
  · exact .refl _
  · refine ⟨rfl, rfl, rfl, fun a ha => if_neg fun hmem => ?_⟩
    exact Bool.false_ne_true (hw.symm.trans (touches_iff.mpr ⟨a, ha, hmem⟩))
  · exact .refl _

/-- A stop that worked has cleared the windows. -/
theorem stopCm33_wipes {w : Windows} {st : RpState} {c : Cluster} (hup : c.cm33 ≠ .offline)
    (hoff : (stopCm33 w st c).cm33 = .offline) {a : ℕ} (ha : w.mem a = true) :
    (stopCm33 w st c).board.mem a = 0 := by
  unfold stopCm33 at hoff ⊢
  rw [if_neg hup] at hoff ⊢
  split_ifs at hoff ⊢ with hst
  · exact if_pos ha
  · exact absurd hoff hst

theorem restartR8Pair_ops (stopped : Core → RpState) (o : Core → ℕ → Attempt) (b : Board) :
    [.stop .core1, .stop .core0] <+: (restartR8Pair stopped o b).ops := by
  unfold restartR8Pair
  dsimp only
  rw [List.append_assoc]
  exact List.prefix_append ..

/-- **The windows decide.** When a CM33 that was up has been replaced, under firmware that leaves
the magic words alone, the R8 pair has been restarted exactly if a window reaches into a magic word;
otherwise the R8 cores and their marks are as before. -/
theorem redeployCm33_windows (w : Windows) (x : Redeploy) {c : Cluster} (hup : c.cm33 ≠ .offline)
    (hmagic : ∀ box ∈ [bbPercore, bbCore1], magicAt c.board box = true)
    (hboot : ∀ n m a, MagicByte a → (x.cm33 n).boot m a = m a) :
    let r := redeployCm33 w x c
    (r.2.1 = true → (r.2.2 = [] ↔ w.touches = false)) ∧
      (r.2.2 = [] → r.1.board.state = c.board.state ∧ r.1.board.hasRun = c.board.hasRun) ∧
      (r.2.2 ≠ [] → [.stop .core1, .stop .core0] <+: r.2.2) := by
  dsimp only
  unfold redeployCm33
  cases x.file with
  | false => exact ⟨fun h => absurd h Bool.false_ne_true, fun _ => ⟨rfl, rfl⟩, fun h => absurd rfl h⟩
  | true =>
    rw [if_pos rfl]
    have hstop := stopCm33_state w x.stopped c
    by_cases hoff : (stopCm33 w x.stopped c).cm33 = .offline
    swap
    · dsimp only
      rw [if_pos hoff]
      exact ⟨fun h => absurd h Bool.false_ne_true, fun _ => hstop, fun h => absurd rfl h⟩
    have hkeeps := startCm33_keeps hboot 1 3 (stopCm33 w x.stopped c)
    have hstate := And.intro (hkeeps.state.trans hstop.1) (hkeeps.hasRun.trans hstop.2)
    dsimp only
    rw [if_neg (not_not.mpr hoff)]
    generalize startCm33 x.cm33 1 3 (stopCm33 w x.stopped c) = r at hkeeps hstate ⊢
    by_cases hr : r.1 = true
    swap
    · rw [if_neg hr]
      exact ⟨fun h => absurd h Bool.false_ne_true, fun _ => hstate, fun h => absurd rfl h⟩
    rw [if_pos hr]
    by_cases hall : [bbPercore, bbCore1].all (magicAt r.2.board) = true
    · rw [if_pos hall]
      refine ⟨fun _ => ⟨fun _ => ?_, fun _ => rfl⟩, fun _ => hstate, fun h => absurd rfl h⟩
      -- a byte in a window would be zero by now
      by_contra htouch
      obtain ⟨a, ⟨box, hbox, hle, hlt⟩, ha⟩ := touches_iff.mp (eq_true_of_ne_false htouch)
      have hzero : r.2.board.mem a = 0 :=
        (hkeeps.magic a ⟨box, hbox, hle, hlt⟩).trans (stopCm33_wipes hup hoff ha)
      have hat := List.all_eq_true.mp hall box hbox
      exact devmem32_ne_magic hle hlt hzero (eq_of_beq (Bool.and_eq_true_iff.mp hat).2)
    · rw [if_neg hall]
      have hops := restartR8Pair_ops x.pairStopped x.pair r.2.board
      have hne : (restartR8Pair x.pairStopped x.pair r.2.board).ops ≠ [] := by
        intro hnil
        rw [hnil] at hops
        exact absurd (List.prefix_nil.mp hops) (List.cons_ne_nil _ _)
      refine ⟨fun _ => ⟨fun h => absurd h hne, fun hw => ?_⟩, fun h => absurd h hne, fun _ => hops⟩
      refine absurd (List.all_eq_true.mpr fun box hbox => ?_) hall
      rw [((stopCm33_keeps hw x.stopped c).trans hkeeps).magicAt hbox]
      exact hmagic box hbox

example : legacyWindows.touches = true := by decide

example : percoreWindows.touches = false := by decide

/-- Both R8 cores and the CM33 run, with the magic in both R8 boxes. -/
def allRunning : Cluster where
  board :=
    { state := fun _ => .running
      hasRun := fun _ => true
      mem := Poke.write (Poke.write (fun _ => 0) (.word bbPercore r8BbMagic)) (.word bbCore1 r8BbMagic)
      devmem := true }
  cm33 := .running

/-- The new CM33 firmware comes up and writes the magic of its own box. -/
def replacesCm33 : Redeploy where
  file := true
  stopped := .offline
  cm33 := fun _ => ⟨true, .running, fun m => Poke.write m (.word bbShared 0x33334242)⟩
  pairStopped := fun _ => .offline
  pair := fun _ _ => bootsWell

theorem redeployCm33_windows_legacy : (redeployCm33 legacyWindows replacesCm33 allRunning).2.2 ≠ [] := by
  intro hnil
  have h := (redeployCm33_windows legacyWindows replacesCm33 (c := allRunning) (by decide) (by decide)
    fun n m a ha => ?_).1 (by decide)
  · exact absurd (h.mp hnil) (by decide)
  · have hle := ha.le
    simp only [replacesCm33, Poke.write, bbShared]
    iterate 4 rw [update_of_ne (by omega)]

end CR8Devkit.StartScripts
