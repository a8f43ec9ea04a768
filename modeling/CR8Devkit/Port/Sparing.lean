import CR8Devkit.Port.Switching

/-!
# The variables of the running task

`ulCriticalNesting` and `ulPortTaskHasFPUContext` belong to the task, and are saved and restored
with it.

* `Sparing`, `Kept`: an interrupt leaves such a variable alone up to the switch, or up to its
  return.
* `owning`, **`owning_lawful`**: the discipline `switching` with that, if the C functions called
  from the handlers leave the variable alone.
-/

namespace CR8Devkit.Port

open Handler

/-- The variables of the running task. -/
def Sym.own : Sym → Bool
  | .ulCriticalNesting | .ulPortTaskHasFPUContext => true
  | _ => false

section Discipline

variable {L : Layout} (T : Tasks L) (fpu : Bool) (v : Sym)

structure Keeping (f : CFun) (e s : St) : Prop extends Serves T f e s where
  own : s.mem (L.sym v) = e.mem (L.sym v)

/-- Where the task is put to sleep. -/
def Sparing (L : Layout) (v : Sym) (o : St) : Code → St → Prop
  | .call .vTaskSwitchContext _, s => s.mem (L.sym v) = o.mem (L.sym v)
  | _, _ => True

/-- Where the task goes on. -/
def Kept (L : Layout) (v : Sym) (o : St) : Exit → St → Prop
  | .movsPcLr, s => s.mem (L.sym v) = o.mem (L.sym v)
  | .rfeia, _ => True

/-- Also, the C functions called from handlers leave variable `v` alone. -/
def owning : Discipline L where
  may c ev := T.May c ev ∧
    match ev with
    | .store a _ => tasking c.frames = true ∨ a ≠ L.sym v
    | _ => True
  base := AtRest T
  inside := Keeping T v
  inv t o k s := Switches T fpu t o k s ∧ Sparing L v o k s
  post _ o ex s := Finishes T fpu o ex s ∧ Kept L v o ex s

/-- The machine of `owning`. -/
def owner (t : Trap) : Machine Instr Cond CFun St :=
  machine L t fun f e s => Keeping T v f e s ∧ Preserved e.cpu s.cpu

end Discipline

section Blocks

variable {L : Layout} {T : Tasks L} {fpu : Bool} {v : Sym} {t : Trap} {o s : St} {k : Code} {is : List Instr}
  {P : Word → Prop}

theorem owner_behind {inv : Code → St → Prop} {post : Exit → St → Prop}
    (h : (owner T v t).Safe inv post (.block is k) s) : (owner T v t).Safe inv post k (L.runs is s) :=
  Machine.Safe.behind h

/-- A block that does not store to the variable. -/
theorem sparing_block (hst : StoresTo L P is s) (hP : ¬ P (L.sym v)) (h : s.mem (L.sym v) = o.mem (L.sym v))
    (hk : (L.runs is s).mem (L.sym v) = o.mem (L.sym v) →
      (owner T v t).Safe (Sparing L v o) (Kept L v o) k (L.runs is s)) :
    (owner T v t).Safe (Sparing L v o) (Kept L v o) (.block is k) s :=
  Machine.safe_of_behind (fun _ _ _ => trivial) (hk ((mem_runs_of_storesTo hst hP).trans h))

theorem sparing_silent (hi : ∀ i ∈ is, i.op.silent = true) (h : s.mem (L.sym v) = o.mem (L.sym v))
    (hk : (L.runs is s).mem (L.sym v) = o.mem (L.sym v) →
      (owner T v t).Safe (Sparing L v o) (Kept L v o) k (L.runs is s)) :
    (owner T v t).Safe (Sparing L v o) (Kept L v o) (.block is k) s :=
  sparing_block (storesTo_of_silent hi : StoresTo L (fun _ => False) is s) id h hk

theorem sparing_cell {w : Sym} (hst : StoresTo L (L.Cell w) is s) (hv : v.own = true) (hw : w.own = false)
    (h : s.mem (L.sym v) = o.mem (L.sym v))
    (hk : (L.runs is s).mem (L.sym v) = o.mem (L.sym v) →
      (owner T v t).Safe (Sparing L v o) (Kept L v o) k (L.runs is s)) :
    (owner T v t).Safe (Sparing L v o) (Kept L v o) (.block is k) s := by
  refine sparing_block hst (not_cell_sym ?_ ?_) h hk
  · rintro rfl
    rw [hv] at hw
    cases hw
  · cases v <;> first | decide | cases hv

theorem sparing_stacks (hst : StoresTo L (InStacks L) is s) (hv : v.own = true)
    (h : s.mem (L.sym v) = o.mem (L.sym v))
    (hk : (L.runs is s).mem (L.sym v) = o.mem (L.sym v) →
      (owner T v t).Safe (Sparing L v o) (Kept L v o) k (L.runs is s)) :
    (owner T v t).Safe (Sparing L v o) (Kept L v o) (.block is k) s :=
  sparing_block hst (not_inStacks_sym (by cases v <;> first | decide | cases hv)) h hk

/-- Behind the switch the variable is that of another task. -/
theorem sparing_chosen (hsw : Switching k) (hcalls : k.calls = []) :
    (owner T v t).Safe (Sparing L v o) (Kept L v o) k s := by
  refine Machine.safe_of_calls (C := fun _ => True) (Q := fun _ => False) trivial ?_ (fun k s hk _ => ?_)
    (fun _ _ _ => trivial) (fun _ _ _ h _ _ => h.elim) fun e he s _ => ?_
  · rw [hcalls]
    exact List.forall_mem_nil _
  · cases k with
    | call f k => exact (hk f List.mem_cons_self).elim
    | op | branch | exit => trivial
  · rw [hsw e he]
    trivial

/-- **`portSAVE_CONTEXT`** and the call of `vTaskSwitchContext`. -/
theorem portSaveContext_spares
    (hA : (owner T v t).Safe (Switches T fpu t o) (Finishes T fpu o) (portSaveContext fpu <|
      .block [Op.ldrSym r0 .vTaskSwitchContext] <| .call .vTaskSwitchContext k) s)
    (hv : v.own = true) (hsp : s.cpu.spSys = o.cpu.spSys) (h : s.mem (L.sym v) = o.mem (L.sym v)) :
    (owner T v t).Safe (Sparing L v o) (Kept L v o) (portSaveContext fpu <|
      .block [Op.ldrSym r0 .vTaskSwitchContext] <| .call .vTaskSwitchContext k) s := by
  have hsize : 0 < v.size := by cases v <;> first | decide | cases hv
  -- where the call is reached, the task has been found to fit
  have hsus := (owner_behind (owner_behind (owner_behind (owner_behind hA)))).here.suspends k rfl
  have hfits := hsus.fits
  have hroom : 204 ≤ s.cpu.spSys.toNat := by
    rw [hsp]
    exact Nat.le_trans (Nat.le_add_left _ _) hfits.lo
  have hstack : ¬ Below o.cpu.spSys 204 (L.sym v) := fun hb => hfits.not_cell hb (cell_sym hsize)
  have hpush := storesTo_pushContext (L := L) hroom
  rw [hsp] at hpush hroom
  have hfpu := storesTo_pushFpu (L := L) fpu hpush.2.1 hpush.2.2.1 hpush.2.2.2 hroom
  refine sparing_block hpush.1 hstack h fun h => sparing_block hfpu hstack h fun h => ?_
  have htcb : L.tcb (L.runs (pushFpu fpu) (L.runs pushContext s)).mem = L.tcb o.mem := by
    refine (owner_behind (owner_behind hA)).here.tcb ?_
    rw [Code.calls_block, Code.calls_block]
    exact List.mem_cons_self
  have hst := storesTo_storeSp (L := L) (s := L.runs (pushFpu fpu) (L.runs pushContext s))
  rw [htcb] at hst
  refine sparing_block hst (fun hb => T.tcb_sym _ hfits.tcb v (hb ▸ cell_sym hsize)) h fun h => ?_
  exact sparing_silent (by decide) h fun h => ⟨h, fun s' _ => sparing_chosen hsus.switching hsus.calls⟩

/-- **`SVC_Handler`.** -/
theorem svcHandler_spares
    (hA : (owner T v .svc).Safe (Switches T fpu .svc o) (Finishes T fpu o) (svcHandler fpu)
      { o with cpu := o.cpu.svcEntry, counted := false }) (hv : v.own = true) :
    (owner T v .svc).Safe (Sparing L v o) (Kept L v o) (svcHandler fpu)
      { o with cpu := o.cpu.svcEntry, counted := false } :=
  portSaveContext_spares hA hv rfl rfl

end Blocks

/-! ## `IRQ_Handler` -/

section Handler

variable {L : Layout} {T : Tasks L} {fpu : Bool} {v : Sym} {o s : St} {k : Code} {f : CFun}

theorem exitWithoutSwitch_spares (h : s.mem (L.sym v) = o.mem (L.sym v)) :
    (owner T v .irq).Safe (Sparing L v o) (Kept L v o) exitWithoutSwitch s :=
  sparing_silent (by decide) h fun h => ⟨trivial, h⟩

theorem switchBeforeExit_spares
    (hA : (owner T v .irq).Safe (Switches T fpu .irq o) (Finishes T fpu o) (switchBeforeExit fpu) s)
    (hv : v.own = true) (hroom : L.Room o.cpu) (hsaved : Saved L o s) (hsp : s.cpu.spSvc = o.cpu.spSvc - 28)
    (hr1 : s.cpu.get r1 = L.sym .ulPortYieldRequired) (h : s.mem (L.sym v) = o.mem (L.sym v)) :
    (owner T v .irq).Safe (Sparing L v o) (Kept L v o) (switchBeforeExit fpu) s := by
  refine sparing_cell (w := .gR8Sw) (storesTo_block rfl (by decide)) hv rfl h fun h => ?_
  have hcount := calm_countExit (L := L) (s := s)
  have hr1' : (L.runs countExit s).cpu.get r1 = L.sym .ulPortYieldRequired :=
    (get_runs rfl (by decide)).trans hr1
  have hclear : Calm L (L.runs countExit s) (L.runs clearYield (L.runs countExit s)) :=
    (calm_runs (v := .ulPortYieldRequired) rfl (by decide) hr1').1
  refine sparing_cell (storesTo_runs (b := r1) (v := .ulPortYieldRequired) rfl (by decide) hr1') hv rfl h
    fun h => ?_
  have hcalm := hcount.trans hclear
  obtain ⟨hr, -⟩ := restored_restoreUsed (L := L) (hsaved.calm hroom hcalm) (hcalm.cpu.spSvc.trans hsp)
  replace hA := owner_behind (owner_behind (owner_behind hA))
  have hsys := hr.spSys
  generalize L.runs clearYield (L.runs countExit s) = s₁ at h hA hsys
  refine sparing_silent (by decide) h fun h => ?_
  generalize L.runs restoreUsed s₁ = s₂ at h hA hsys
  exact portSaveContext_spares hA hv hsys h

theorem irqEpilogue_spares
    (hA : (owner T v .irq).Safe (Switches T fpu .irq o) (Finishes T fpu o) (irqEpilogue fpu) s)
    (hv : v.own = true) (hroom : L.Room o.cpu) (hheld : Held L o s) (h : s.mem (L.sym v) = o.mem (L.sym v)) :
    (owner T v .irq).Safe (Sparing L v o) (Kept L v o) (irqEpilogue fpu) s := by
  obtain ⟨hcalm, hr3⟩ := calm_exitSnapshot (L := L) (s := s)
  refine sparing_cell (w := .gR8Epi) (storesTo_block rfl (by decide)) hv rfl h fun h => ?_
  have hheld := hheld.calm hroom hcalm
  refine sparing_cell (storesTo_unalignStack hheld.mode hr3) hv rfl h fun h => ?_
  obtain ⟨hsaved, hsp⟩ := saved_unalignStack hroom hheld hr3
  have hdec := calm_decrementNesting (L := L) (s := L.runs unalignStack (L.runs exitSnapshot s))
  refine sparing_cell (w := .ulPortInterruptNesting) (storesTo_block rfl (by decide)) hv rfl h fun h => ?_
  have hsaved := hsaved.calm hroom hdec
  have hsp := hdec.cpu.spSvc.trans hsp
  replace hA := owner_behind (owner_behind (owner_behind hA))
  refine ⟨trivial, fun _ => exitWithoutSwitch_spares h, fun hb => ?_⟩
  have htest := owner_behind (hA.2.2 hb)
  generalize L.runs decrementNesting (L.runs unalignStack (L.runs exitSnapshot s)) = s₁ at h hsaved hsp htest
  refine sparing_silent (by decide) h fun h => ⟨trivial, fun hy => ?_, fun _ => exitWithoutSwitch_spares h⟩
  have hcalm := calm_readYield (L := L) (s := s₁)
  exact switchBeforeExit_spares (htest.2.1 hy) hv hroom (hsaved.calm hroom hcalm) (hcalm.cpu.spSvc.trans hsp)
    (get_loadVar (s := s₁) (b := r1) (d := r0) (v := .ulPortYieldRequired) rfl rfl (by decide)).1 h

/-- Across a call. -/
theorem sparing_call
    (hA : (owner T v .irq).Safe (Switches T fpu .irq o) (Finishes T fpu o) (.call f k) s)
    (hf : f ≠ .vTaskSwitchContext) (hroom : L.Room o.cpu) (hheld : Held L o s)
    (h : s.mem (L.sym v) = o.mem (L.sym v))
    (hk : ∀ s', (owner T v .irq).Safe (Switches T fpu .irq o) (Finishes T fpu o) k s' → Held L o s' →
      s'.mem (L.sym v) = o.mem (L.sym v) → (owner T v .irq).Safe (Sparing L v o) (Kept L v o) k s') :
    (owner T v .irq).Safe (Sparing L v o) (Kept L v o) (.call f k) s := by
  refine ⟨?_, fun s' hs => hk s' (hA.2 s' hs) (hheld.returns hroom ⟨hs.1.toInside, hs.2⟩) (hs.1.own.trans h)⟩
  cases f <;> first | exact trivial | exact absurd rfl hf

/-- **`IRQ_Handler`.** -/
theorem irqHandler_spares
    (hA : (owner T v .irq).Safe (Switches T fpu .irq o) (Finishes T fpu o) (irqHandler fpu) s)
    (hv : v.own = true) (hs : Entered o s) (hroom : L.Room o.cpu) (h : s.mem (L.sym v) = o.mem (L.sym v)) :
    (owner T v .irq).Safe (Sparing L v o) (Kept L v o) (irqHandler fpu) s := by
  refine sparing_stacks (storesTo_saveUsed hroom hs) hv h fun h => ?_
  obtain ⟨hsaved, hsp⟩ := saved_saveUsed hroom hs
  replace hA := owner_behind hA
  generalize L.runs saveUsed s = s₁ at h hsaved hsp hA
  have hinc := calm_incrementNesting (L := L) (s := s₁)
  refine sparing_cell (w := .ulPortInterruptNesting) (storesTo_block rfl (by decide)) hv rfl h fun h => ?_
  have hsaved := hsaved.calm hroom hinc
  have hsp := hinc.cpu.spSvc.trans hsp
  have hsp28 := (toNat_saved hroom).1
  have hlo := hroom.1.1
  have hle := hroom.1.2
  refine sparing_stacks (storesTo_alignStack hsaved.mode (by rw [hsp, hsp28]; omega)
    (by rw [hsp, hsp28]; omega)) hv h fun h => ?_
  have hheld := held_alignStack hroom hsaved hsp
  replace hA := owner_behind (owner_behind hA)
  generalize L.runs alignStack (L.runs incrementNesting s₁) = s₂ at h hheld hA
  refine sparing_cell (w := .gR8Epi) (storesTo_block rfl (by decide)) hv rfl h fun h => ?_
  have hheld := hheld.calm hroom calm_entrySnapshot
  refine sparing_call (owner_behind hA) (by decide) hroom hheld h fun s hA hheld h => ?_
  refine sparing_silent (by decide) h fun h => ?_
  have hheld := hheld.calm hroom calm_keepIcciar
  refine sparing_call (owner_behind hA) (by decide) hroom hheld h fun s hA hheld h => ?_
  refine sparing_silent (by decide) h fun h => ?_
  have hheld := hheld.calm hroom calm_maskIrqs
  exact sparing_call (owner_behind hA) (by decide) hroom hheld h fun s hA hheld h =>
    irqEpilogue_spares hA hv hroom hheld h

end Handler

/-! ## The system -/

section System

variable {L : Layout} {T : Tasks L} {fpu : Bool} {v : Sym} {t : Trap} {o s : St} {k : Code}

/-- What `switching` says holds with C functions of which more is known. -/
theorem owner_of_switching (h : (switching T fpu).Continues t o k s) :
    (owner T v t).Safe (Switches T fpu t o) (Finishes T fpu o) k s :=
  Machine.Safe.fewer (R := fun f e s => Keeping T v f e s ∧ Preserved e.cpu s.cpu) h
    fun _ _ _ hs => ⟨hs.1.toServes, hs.2⟩

/-- **Every interrupt leaves the variables of the running task alone**, and every context switch
saves them as they were. -/
theorem owning_lawful (T : Tasks L) (fpu : Bool) (hv : v.own = true) : (owning T fpu v).Lawful fpu where
  masked h := h.1.masked
  regs_task h := (switching_lawful T fpu).regs_task h
  regs_c h hsp hm := ⟨(switching_lawful T fpu).regs_c h.toServes hsp hm, h.own⟩
  store_task hmay h := (switching_lawful T fpu).store_task hmay.1 h
  store_c hmay h hused := by
    refine ⟨(switching_lawful T fpu).store_c hmay.1 h.toServes hused, (mem_store_of_ne ?_).trans h.own⟩
    rcases hmay.2 with h | h
    · cases h
    · exact h.symm
  call h := ⟨(switching_lawful T fpu).call h.1, rfl⟩
  svc hmay h := by
    have hA := owner_of_switching (v := v) ((switching_lawful T fpu).svc hmay.1 h)
    exact hA.and (svcHandler_spares hA hv)
  take_task hmay hm hroom h := by
    have hA := owner_of_switching (v := v) ((switching_lawful T fpu).take_task hmay.1 hm hroom h)
    exact hA.and (irqHandler_spares hA hv ⟨rfl, rfl⟩ hroom rfl)
  take_c hm hroom hinv h := by
    have hA := owner_of_switching (v := v) ((switching_lawful T fpu).take_c hm hroom hinv.1 h.toServes)
    exact hA.and (irqHandler_spares hA hv ⟨rfl, rfl⟩ hroom rfl)
  exit_task {t} _ _ hpost h := (switching_lawful T fpu).exit_task (t := t) hpost.1 h
  exit_c {t} _ _ _ _ hm hpost h :=
    ⟨(switching_lawful T fpu).exit_c (t := t) hm hpost.1 h.toServes, hpost.2.trans h.own⟩
  rfeia {t} _ _ hpost h hsys := (switching_lawful T fpu).rfeia (t := t) hpost.1 h hsys

end System

end CR8Devkit.Port
