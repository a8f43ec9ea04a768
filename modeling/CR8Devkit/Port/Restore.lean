import CR8Devkit.Port.Activation
import CR8Devkit.Port.Discipline

/-!
# Every interrupt gives back what it has interrupted

* `stacking`, `stacking_lawful`: tasks run in SYS mode, C functions keep to the calling standard,
  handlers run with IRQs masked and restore the interrupted state.
* **`irqHandler_restores`**: over every run, whatever is interrupted at whatever depth.
-/

namespace CR8Devkit.Port

open Handler Transition

/-! ## Frames -/

section Frames

variable {L : Layout} {f : CFun} {e o s : St} {t : Trap}

theorem Layout.Used.mono {c c' : Cpu} {a : Word} (hs : c'.spSvc.toNat ≤ c.spSvc.toNat)
    (hi : c'.spIrq.toNat ≤ c.spIrq.toNat) (h : L.Used c a) : L.Used c' a := by
  rcases h with ⟨h1, h2, h3⟩ | ⟨h1, h2, h3⟩
  · exact .inl ⟨h1, h2, Nat.le_trans hs h3⟩
  · exact .inr ⟨h1, h2, Nat.le_trans hi h3⟩

theorem spSvc_setRegs (c : Cpu) (g : Regs) :
    (c.setRegs g).spSvc = if c.cpsr.mode = svcMode then g.sp else c.spSvc := by
  simp only [Cpu.setRegs, Cpu.setLr, Cpu.setSpOf]
  split_ifs <;> rfl

theorem spIrq_setRegs (c : Cpu) (g : Regs) :
    (c.setRegs g).spIrq = if c.cpsr.mode = irqMode then g.sp else c.spIrq := by
  simp only [Cpu.setRegs, Cpu.setLr, Cpu.setSpOf]
  split_ifs with h1 h2
  · exact absurd (h2.symm.trans h1) irqMode_ne_svcMode
  all_goals rfl

/-- A C function sets its registers. -/
theorem Inside.regs {g : Regs} (h : Inside L f e s) (hsp : g.sp.toNat ≤ e.cpu.sp.toNat)
    (hm : f = .vApplicationIRQHandler ∨ g.masked = true) :
    Inside L f e { s with cpu := s.cpu.setRegs g } where
  mode := h.mode
  masked := hm
  spSvc := by
    rw [spSvc_setRegs]
    split_ifs with hmode
    · rwa [Cpu.sp, Cpu.spOf, if_pos (h.mode.symm.trans hmode)] at hsp
    · exact h.spSvc
  spIrq := by
    rw [spIrq_setRegs]
    split_ifs with hmode
    · have hsvc : e.cpu.cpsr.mode ≠ svcMode := by
        rw [← h.mode, hmode]
        exact irqMode_ne_svcMode
      rwa [Cpu.sp, Cpu.spOf, if_neg hsvc, if_pos (h.mode.symm.trans hmode)] at hsp
    · exact h.spIrq
  banked := by
    intro hsvc
    have hmode := h.mode.trans hsvc
    simp only [Cpu.setRegs, Cpu.setLr, Cpu.setSpOf, hmode, if_true]
    exact h.banked hsvc
  mem := h.mem

theorem Inside.refl (hm : s.cpu.cpsr.masked = true) : Inside L f s s :=
  ⟨rfl, .inr hm, Nat.le_refl _, Nat.le_refl _, fun _ => ⟨rfl, rfl, rfl⟩, fun _ _ => rfl⟩

theorem Inside.store {a v : Word} (h : Inside L f e s) (ha : ¬ L.Used e.cpu a) :
    Inside L f e ((s.store a v).ask L a v) where
  mode := h.mode
  masked := h.masked
  spSvc := h.spSvc
  spIrq := h.spIrq
  banked := h.banked
  mem := by
    intro b hb
    have hne : b ≠ a := by
      rintro rfl
      exact ha hb
    exact (Function.update_of_ne hne v s.mem).trans (h.mem b hb)

/-- An interrupted C function is resumed. -/
theorem Inside.resumed (h : Inside L f e o) (hl : Leaves L o .movsPcLr s) :
    Inside L f e { s with cpu := s.cpu.movsPcLr, counted := o.counted } := by
  obtain ⟨hr, hmem⟩ := hl
  refine ⟨?_, ?_, ?_, ?_, ?_, fun a ha => ?_⟩
  · rw [← h.mode, ← hr.cpsr]
  · rw [hr.cpsr]
    exact h.masked
  · rw [hr.spSvc]
    exact h.spSvc
  · rw [hr.spIrq]
    exact h.spIrq
  · rw [hr.spIrq, hr.spSys, hr.lrSys]
    exact h.banked
  · exact (hmem a (ha.mono h.spSvc h.spIrq)).trans (h.mem a ha)

end Frames

/-! ## The discipline -/

/-- Tasks run in SYS mode, C functions keep to the calling standard, handlers run with IRQs masked
and restore what they have interrupted. -/
def stacking (L : Layout) : Discipline L where
  may := fun _ _ => True
  base := fun s => s.cpu.cpsr.mode = sysMode
  inside := Inside L
  inv := fun _ _ _ => Masked
  post := fun _ => Leaves L

theorem stacking_lawful (L : Layout) (fpu : Bool) : (stacking L).Lawful fpu where
  masked := id
  regs_task := id
  regs_c := Inside.regs
  store_task := fun _ => id
  store_c := fun _ => Inside.store
  call := fun {t o f k s} hm => by
    refine Inside.refl ?_
    rw [enter, Cpu.setLr_cpsr]
    exact hm
  svc := fun _ _ => svcHandler_safe fpu rfl
  take_task := fun _ _ hroom _ => irqHandler_safe fpu hroom ⟨rfl, rfl⟩
  take_c := fun _ hroom _ _ => irqHandler_safe fpu hroom ⟨rfl, rfl⟩
  exit_task := fun {t o s} hl hbase => (congrArg Psr.mode hl.1.cpsr).trans hbase
  exit_c := fun _ hl hin => hin.resumed hl
  rfeia := fun _ _ hmode => hmode

theorem stacking_of_run {L : Layout} {fpu : Bool} {s₀ : St} {evs : List Event} {c : Config}
    (h₀ : s₀.cpu.cpsr.mode = sysMode) (hrun : Run (ofNext (next L fpu)) ⟨s₀, [.task]⟩ evs c) :
    (stacking L).Good c.frames c.st := by
  have hstart : (stacking L).Good [.task] s₀ := h₀
  exact hrun.inv (I := fun c : Config => (stacking L).Good c.frames c.st) hstart
    fun hg hs => (stacking_lawful L fpu).step trivial hg hs

section With

variable {L : Layout} {fpu : Bool} {may : Config → Event → Prop} {inv : Trap → St → Code → St → Prop}
  {t : Trap} {o s : St} {k : Code}

/-- The same for some of the events, with another invariant at the points of the handlers. -/
def stackingWith (L : Layout) (may : Config → Event → Prop) (inv : Trap → St → Code → St → Prop) :
    Discipline L :=
  { stacking L with may := may, inv := inv }

/-- Where an IRQ can be taken: over the task, or in a C function that a handler has called. -/
def Interruptible (L : Layout) (may : Config → Event → Prop) (inv : Trap → St → Code → St → Prop)
    (o : St) : Prop :=
  may ⟨o, [.task]⟩ .take ∨ ∃ t o' f k s, inv t o' (.call f k) s ∧ Inside L f (enter L t f s) o ∧
    o.cpu.cpsr.masked = false

theorem stackingWith_continues (h : (stacking L).Continues t o k s)
    (hi : (machine L t (Returns L)).Safe (inv t o) (fun _ _ => True) k s) :
    (stackingWith L may inv).Continues t o k s := by
  induction k generalizing s with
  | op i k ih => exact ⟨hi.1, ih h.2 hi.2⟩
  | branch c yes no ihy ihn =>
    exact ⟨hi.1, fun hc => ihy (h.2.1 hc) (hi.2.1 hc), fun hc => ihn (h.2.2 hc) (hi.2.2 hc)⟩
  | call f k ih => exact ⟨hi.1, fun s' hs => ih (h.2 s' hs) (hi.2 s' hs)⟩
  | exit e => exact ⟨hi.1, h.2⟩

/-- **An invariant of the two handlers** is one of the system. -/
theorem stackingWith_lawful (hmask : ∀ {t o k s}, inv t o k s → Masked s)
    (hsvc : ∀ {o}, may ⟨o, [.task]⟩ .svc → (machine L .svc (Returns L)).Safe (inv .svc o)
      (fun _ _ => True) (svcHandler fpu) { o with cpu := o.cpu.svcEntry, counted := false })
    (hirq : ∀ {o s}, Interruptible L may inv o → L.Room o.cpu → Entered o s →
      (machine L .irq (Returns L)).Safe (inv .irq o) (fun _ _ => True) (irqHandler fpu) s) :
    (stackingWith L may inv).Lawful fpu where
  masked := hmask
  regs_task := id
  regs_c := Inside.regs
  store_task := fun _ => id
  store_c := fun _ => Inside.store
  call := fun {t o _ k _} h => (stacking_lawful L fpu).call (t := t) (o := o) (k := k) (hmask h)
  svc := fun hmay hbase => stackingWith_continues ((stacking_lawful L fpu).svc trivial hbase) (hsvc hmay)
  take_task := fun hmay hm hroom hbase =>
    stackingWith_continues ((stacking_lawful L fpu).take_task trivial hm hroom hbase)
      (hirq (.inl hmay) hroom ⟨rfl, rfl⟩)
  take_c := fun {t o _ k _ _} hm hroom hinv hin =>
    stackingWith_continues
      ((stacking_lawful L fpu).take_c (t := t) (o := o) (k := k) hm hroom (hmask hinv) hin)
      (hirq (.inr ⟨_, _, _, _, _, hinv, hin, hm⟩) hroom ⟨rfl, rfl⟩)
  exit_task := fun {t _ _} => (stacking_lawful L fpu).exit_task (t := t)
  exit_c := fun {t _ _ _ _} => (stacking_lawful L fpu).exit_c (t := t)
  rfeia := fun _ _ hmode => hmode

theorem stackingWith_of_run {s₀ : St} {evs : List Event} {c : Config}
    (hD : (stackingWith L may inv).Lawful fpu) (h₀ : s₀.cpu.cpsr.mode = sysMode)
    (hrun : Run (guarded (ofNext (next L fpu)) may) ⟨s₀, [.task]⟩ evs c) :
    (stackingWith L may inv).Good c.frames c.st := by
  have hstart : (stackingWith L may inv).Good [.task] s₀ := h₀
  exact hrun.inv (I := fun c : Config => (stackingWith L may inv).Good c.frames c.st) hstart
    fun hg hs => hD.step hs.1 hg hs.2

end With

/-- **An interrupt gives back what it has interrupted**: in every run, from a task on, an activation
that leaves through `exit_without_switch` resumes the interrupted frame with its registers as they
were. -/
theorem irqHandler_restores {L : Layout} {fpu : Bool} {s₀ : St} {evs : List Event} {c : Config}
    {o : St} {fs : List Frame} (h₀ : s₀.cpu.cpsr.mode = sysMode)
    (hrun : Run (ofNext (next L fpu)) ⟨s₀, [.task]⟩ evs c)
    (hc : c.frames = .asm .irq (.exit .movsPcLr) o :: fs) :
    ∃ s, next L fpu c .run = some ⟨s, fs⟩ ∧ Restored o.cpu s.cpu := by
  have hg := stacking_of_run h₀ hrun
  obtain ⟨s, frames⟩ := c
  obtain rfl : frames = _ := hc
  exact ⟨_, rfl, hg.1.2.1⟩

/-! ## A nested interrupt -/

def sampleSym : Sym → Word
  | .ulPortInterruptNesting => 0x1000
  | .ulPortYieldRequired => 0x1004
  | .ulCriticalNesting => 0x1008
  | .ulPortTaskHasFPUContext => 0x100c
  | .pxCurrentTCB => 0x1010
  | .gR8Epi => 0x1100
  | .gR8Sw => 0x1200
  | .vTaskSwitchContext => 0x2000

theorem sampleSym_low (s : Sym) : (sampleSym s).toNat + 4 * s.size ≤ 0x4000 := by
  cases s <;> decide

theorem sampleSym_apart (s t : Sym) (h : s ≠ t) :
    (sampleSym s).toNat + 4 * s.size ≤ (sampleSym t).toNat ∨
      (sampleSym t).toNat + 4 * t.size ≤ (sampleSym s).toNat := by
  revert h
  cases s <;> cases t <;> decide

def sample : Layout where
  sym := sampleSym
  ret := fun _ => 0x3000
  svcLo := 0x4000
  svcHi := 0x5000
  irqLo := 0x6000
  irqHi := 0x7000
  svcHi_le := Nat.le_of_ble_eq_true rfl
  irqHi_le := Nat.le_of_ble_eq_true rfl
  stacks_apart := .inl (Nat.le_of_ble_eq_true rfl)
  fits := fun s => Nat.le_trans (sampleSym_low s) (Nat.le_of_ble_eq_true rfl)
  not_svc := fun s => .inl (sampleSym_low s)
  not_irq := fun s => .inl (Nat.le_trans (sampleSym_low s) (Nat.le_of_ble_eq_true rfl))
  apart := sampleSym_apart

/-- A task is running and nothing has been interrupted yet. -/
def sampleTask : St where
  cpu := {
    r := fun i => BitVec.ofNat 32 i
    spSys := 0x8000
    lrSys := 0x9100
    spSvc := 0x5000
    lrSvc := 0
    spIrq := 0x7000
    lrIrq := 0
    spsrSvc := ⟨0, 0, false, 0, sysMode⟩
    spsrIrq := ⟨0, 0, false, 0, sysMode⟩
    cpsr := ⟨0, 0, false, 0, sysMode⟩
    pc := 0x9000
    d := fun _ => 0
    fpscr := 0 }
  mem := fun _ => 0
  counted := false
  pending := false
  asked := false
  switches := 0

/-- Up to `FreeRTOS_GetActiveIRQ`, and with it to `vApplicationIRQHandler`. -/
def dispatched : List Event := .take :: .replicate 19 .run ++ [.ret, .run, .run]

/-- The dispatched handler has enabled IRQs and works on a stack frame of its own. -/
def sampleRegs : Regs where
  r := fun _ => 0x77
  sp := 0x4f80
  lr := 0xa000
  pc := 0xa200
  nzcv := 0
  hi := 0
  masked := false
  ft := 0
  d := fun _ => 0
  fpscr := 0

/-- From the return of `vApplicationIRQHandler` on, `n` instructions behind
`FreeRTOS_EndOfInterrupt`. -/
def finished (n : ℕ) : List Event := [.ret, .run, .run, .run, .run, .run, .ret] ++ .replicate n .run

def nestedRun : List Event := dispatched ++ [.regs sampleRegs] ++ dispatched ++ finished 24

def leaving : List Frame → Option ℕ
  | .asm .irq (.exit .movsPcLr) _ :: fs => some fs.length
  | _ => none

theorem leaving_nestedRun :
    (exec (next sample true) ⟨sampleTask, [.task]⟩ nestedRun).map (leaving ·.frames) = some (some 3) := by
  decide +kernel

theorem of_leaving {fs : List Frame} {n : ℕ} (h : leaving fs = some n) :
    ∃ o fs', fs = .asm .irq (.exit .movsPcLr) o :: fs' ∧ fs'.length = n := by
  unfold leaving at h
  split at h
  · exact ⟨_, _, rfl, Option.some.inj h⟩
  · cases h

theorem irqHandler_restores_nestedRun : ∃ (c : Config) (o : St) (fs : List Frame),
    exec (next sample true) ⟨sampleTask, [.task]⟩ nestedRun = some c ∧ fs.length = 3 ∧
      ∃ s, next sample true c .run = some ⟨s, fs⟩ ∧ Restored o.cpu s.cpu := by
  obtain ⟨c, hexec, hc⟩ := Option.map_eq_some_iff.mp leaving_nestedRun
  obtain ⟨o, fs, hfs, hlen⟩ := of_leaving hc
  exact ⟨c, o, fs, hexec, hlen, irqHandler_restores rfl (run_of_exec hexec) hfs⟩

end CR8Devkit.Port
