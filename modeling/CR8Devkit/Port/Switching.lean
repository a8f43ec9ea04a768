import CR8Devkit.Port.Context
import CR8Devkit.Port.Nesting

/-!
# Context switches between tasks

* `Tasks`: where the tasks have their TCBs and stacks; `Tasks.Fits`: a task that can be suspended.
* `Tasks.Writes`: where a handler may store; `Switches`: what holds at every point of a handler.
* `switching`, **`switching_lawful`**: over every run a context is saved where `vTaskSwitchContext`
  is called, and what the TCB points to is resumed, with SVC and IRQ mode at rest.
-/

namespace CR8Devkit.Port

open Handler

/-! ## Tasks -/

/-- The TCBs, the stack of each task, and the stack pointers of SVC and IRQ mode while a task is
running; all memory apart from the variables of the port and from its stacks. -/
structure Tasks (L : Layout) where
  tcbs : List Word
  lo : Word → ℕ
  hi : Word → ℕ
  svcRest : Word
  irqRest : Word
  not_svc : ∀ u ∈ tcbs, hi u ≤ L.svcLo ∨ L.svcHi ≤ lo u
  not_irq : ∀ u ∈ tcbs, hi u ≤ L.irqLo ∨ L.irqHi ≤ lo u
  not_sym : ∀ u ∈ tcbs, ∀ v, hi u ≤ (L.sym v).toNat ∨ (L.sym v).toNat + 4 * v.size ≤ lo u
  apart : ∀ u ∈ tcbs, ∀ u' ∈ tcbs, u ≠ u' → hi u ≤ lo u' ∨ hi u' ≤ lo u
  tcb_stacks : ∀ u ∈ tcbs, ¬ InStacks L u
  tcb_sym : ∀ u ∈ tcbs, ∀ v, ¬ L.Cell v u
  tcb_apart : ∀ u ∈ tcbs, ∀ u' ∈ tcbs, u.toNat < lo u' ∨ hi u' ≤ u.toNat

namespace Tasks

variable {L : Layout} (T : Tasks L)

/-- A task with room for a context on its stack. -/
structure Fits (o : St) : Prop where
  tcb : L.tcb o.mem ∈ T.tcbs
  lo : T.lo (L.tcb o.mem) + 204 ≤ o.cpu.spSys.toNat
  hi : o.cpu.spSys.toNat ≤ T.hi (L.tcb o.mem)
  nesting : L.nesting o.mem = 0

/-- Where a handler that has interrupted `o` stores in front of code `k`: to the stacks of SVC and
IRQ mode and to the variables, and as long as the switch is ahead to the stack and TCB of the task. -/
def Writes (o : St) (k : Code) (a : Word) : Prop :=
  InStacks L a ∨ (∃ v, v ≠ .pxCurrentTCB ∧ L.Cell v a) ∨
    .vTaskSwitchContext ∈ k.calls ∧ T.Fits o ∧ (Below o.cpu.spSys 204 a ∨ a = L.tcb o.mem)

variable {T} {o : St} {a u : Word} {v : Sym}

theorem bounds_of_cell (h : L.Cell v a) :
    (L.sym v).toNat ≤ a.toNat ∧ a.toNat < (L.sym v).toNat + 4 * v.size := by
  obtain ⟨k, hk, rfl⟩ := h
  have hf := L.fits v
  rw [BitVec.toNat_add, BitVec.toNat_ofNat]
  omega

/-- The stack of a task holds no variable. -/
theorem not_cell (hu : u ∈ T.tcbs) (hlo : T.lo u ≤ a.toNat) (hhi : a.toNat < T.hi u) : ¬ L.Cell v a := by
  intro h
  have hb := bounds_of_cell h
  rcases T.not_sym u hu v with h | h <;> omega

theorem Fits.not_cell (h : T.Fits o) (ha : Below o.cpu.spSys 204 a) : ¬ L.Cell v a := by
  have hlo := h.lo
  have hhi := h.hi
  obtain ⟨h1, h2⟩ := ha
  exact Tasks.not_cell h.tcb (by omega) (by omega)

theorem Fits.not_own (h : T.Fits o) : ¬ Below o.cpu.spSys 204 (L.tcb o.mem) := by
  have hlo := h.lo
  have hhi := h.hi
  rintro ⟨h1, h2⟩
  rcases T.tcb_apart _ h.tcb _ h.tcb with h | h <;> omega

end Tasks

/-! ## The discipline -/

section Discipline

variable {L : Layout} (T : Tasks L) (fpu : Bool)

/-- A task is running. -/
structure AtRest (s : St) : Prop where
  mode : s.cpu.cpsr.mode = sysMode
  nesting : L.nesting s.mem = 0
  tcb : L.tcb s.mem ∈ T.tcbs
  spSvc : s.cpu.spSvc = T.svcRest
  spIrq : s.cpu.spIrq = T.irqRest

/-- A C function: only `vTaskSwitchContext` changes the TCB pointer. -/
structure Serves (f : CFun) (e s : St) : Prop extends Inside L f e s where
  nesting : L.nesting s.mem = L.nesting e.mem
  tcb : f ≠ .vTaskSwitchContext → L.tcb s.mem = L.tcb e.mem
  tcbs : L.tcb e.mem ∈ T.tcbs → L.tcb s.mem ∈ T.tcbs
  rest : e.cpu.cpsr.mode = sysMode → s.cpu.spSvc = e.cpu.spSvc ∧ s.cpu.spIrq = e.cpu.spIrq

/-- Where `vApplicationIRQHandler` is called. -/
structure Counted (L : Layout) (o s : St) : Prop where
  nesting : L.nesting s.mem = L.nesting o.mem + 1
  budget : 32 * L.nesting s.mem + s.cpu.spSvc.toNat ≤ L.svcHi

/-- Where `vTaskSwitchContext` is called. -/
structure Suspends (t : Trap) (o : St) (k : Code) (s : St) : Prop where
  fits : T.Fits o
  stored : Stored L fpu (L.tcb s.mem) ⟨t, o, s⟩ s.mem
  mode : s.cpu.cpsr.mode = sysMode
  spSvc : s.cpu.spSvc = o.cpu.spSvc
  spIrq : s.cpu.spIrq = o.cpu.spIrq
  critical : t = .svc → L.critical s.mem = L.critical o.mem
  switching : Switching k
  calls : k.calls = []

/-- At code `k` of a handler that has interrupted `o`. -/
structure Switches (t : Trap) (o : St) (k : Code) (s : St) : Prop where
  masked : Masked s
  tcb : .vTaskSwitchContext ∈ k.calls → L.tcb s.mem = L.tcb o.mem
  writes : ∀ i k', k = .op i k' → ∀ a ∈ (i.op.stores s.cpu).map Prod.fst, T.Writes o k' a
  dispatch : ∀ k', k = .call .vApplicationIRQHandler k' → Counted L o s
  suspends : ∀ k', k = .call .vTaskSwitchContext k' → Suspends T fpu t o k' s

/-- At the exits. -/
def Finishes (o : St) : Exit → St → Prop
  | .movsPcLr, s => Leaves L o .movsPcLr s ∧ L.nesting s.mem = L.nesting o.mem ∧ L.tcb s.mem = L.tcb o.mem
  | .rfeia, s => T.Fits o ∧ s.cpu.cpsr.mode = sysMode ∧ s.cpu.spSvc = o.cpu.spSvc ∧
      s.cpu.spIrq = o.cpu.spIrq ∧ L.nesting s.mem = 0 ∧ L.tcb s.mem ∈ T.tcbs ∧
      ∀ x, Stored L fpu (L.tcb s.mem) x s.mem → Resumed L fpu x (s.cpu.rfeia s.mem) s.mem

/-- `vTaskSwitchContext` is running. -/
def choosing : List Frame → Bool
  | .c .vTaskSwitchContext _ :: _ => true
  | _ => false

/-- The C code leaves the nesting count to the handlers and the TCB pointer to `vTaskSwitchContext`,
and a task keeps within its stack. -/
def Tasks.May (c : Config) : Event → Prop
  | .store a v => a ≠ L.sym .ulPortInterruptNesting ∧
      (a = L.sym .pxCurrentTCB → choosing c.frames = true ∧ v ∈ T.tcbs)
  | .take | .svc => tasking c.frames = true → T.lo (L.tcb c.st.mem) + 204 ≤ c.st.cpu.spSys.toNat ∧
      c.st.cpu.spSys.toNat ≤ T.hi (L.tcb c.st.mem)
  | _ => True

instance (c : Config) (ev : Event) : Decidable (T.May c ev) :=
  match ev with
  | .store _ _ => inferInstanceAs (Decidable (_ ∧ (_ → _)))
  | .take | .svc => inferInstanceAs (Decidable (_ → _))
  | .regs _ | .run | .ret => inferInstanceAs (Decidable True)

def switching : Discipline L where
  may := T.May
  base := AtRest T
  inside := Serves T
  inv := Switches T fpu
  post := fun _ => Finishes T fpu

end Discipline

/-! ## Blocks -/

section Rules

variable {L : Layout} {T : Tasks L} {fpu : Bool} {t : Trap} {o s s' : St} {k : Code} {is : List Instr}
  {P : Word → Prop} {n : ℕ} {a : Word} {v w : Sym}

theorem mem_runs_of_storesTo (h : StoresTo L P is s) (ha : ¬ P a) : (L.runs is s).mem a = s.mem a := by
  induction is generalizing s with
  | nil => rfl
  | cons i is ih =>
    refine (ih h.2).trans ?_
    rw [Instr.run_mem]
    split_ifs
    · exact store_of_not_mem fun hmem => ha (h.1 a hmem)
    · rfl

theorem not_cell_sym (hne : v ≠ w) (hw : 0 < w.size) : ¬ L.Cell v (L.sym w) := by
  intro h
  have hb := Tasks.bounds_of_cell h
  rcases L.apart v w hne with h | h <;> omega

theorem not_inStacks_sym (hv : 0 < v.size) : ¬ InStacks L (L.sym v) := by
  have h := not_inStacks (L := L) hv
  rwa [Nat.mul_zero, BitVec.add_zero] at h

/-- A block that leaves the TCB pointer alone. -/
theorem switches_block (hm : Masked s)
    (htcb : .vTaskSwitchContext ∈ k.calls → L.tcb s.mem = L.tcb o.mem) (hst : StoresTo L P is s)
    (hP : ∀ a, P a → T.Writes o k a) (hc : ¬ P (L.sym .pxCurrentTCB))
    (hk : Masked (L.runs is s) → (switching T fpu).Continues t o k (L.runs is s)) :
    (switching T fpu).Continues t o (.block is k) s := by
  induction is generalizing s with
  | nil => exact hk hm
  | cons i is ih =>
    have hcalls : (Code.block is k).calls = k.calls := Code.calls_block is k
    have hone : StoresTo L P [i] s := ⟨hst.1, trivial⟩
    have hrun : L.tcb (i.run L s).mem = L.tcb s.mem := mem_runs_of_storesTo hone hc
    refine ⟨⟨hm, fun h => htcb (hcalls ▸ h), ?_, (fun k' h => by cases h), fun k' h => by cases h⟩,
      ih (masked_run hm) (fun h => hrun.trans (htcb h)) hst.2 hk⟩
    intro j k' h a ha
    cases h
    have hw := hP a (hst.1 a ha)
    rwa [Tasks.Writes, ← hcalls] at hw

/-- Before the switch. -/
structure Carries (L : Layout) (o s : St) (n : ℕ) : Prop where
  masked : Masked s
  nesting : L.nesting s.mem = n
  tcb : L.tcb s.mem = L.tcb o.mem

theorem carries_block (h : Carries L o s n) (hst : StoresTo L P is s) (hP : ∀ a, P a → T.Writes o k a)
    (hn : ¬ P (L.sym .ulPortInterruptNesting)) (hc : ¬ P (L.sym .pxCurrentTCB))
    (hk : Carries L o (L.runs is s) n → (switching T fpu).Continues t o k (L.runs is s)) :
    (switching T fpu).Continues t o (.block is k) s := by
  have hnest : L.nesting (L.runs is s).mem = L.nesting s.mem :=
    congrArg BitVec.toNat (mem_runs_of_storesTo hst hn)
  have htcb : L.tcb (L.runs is s).mem = L.tcb s.mem := mem_runs_of_storesTo hst hc
  exact switches_block h.masked (fun _ => h.tcb) hst hP hc fun hm =>
    hk ⟨hm, hnest.trans h.nesting, htcb.trans h.tcb⟩

theorem carries_stacks (h : Carries L o s n) (hst : StoresTo L (InStacks L) is s)
    (hk : Carries L o (L.runs is s) n → (switching T fpu).Continues t o k (L.runs is s)) :
    (switching T fpu).Continues t o (.block is k) s :=
  carries_block h hst (fun _ => .inl) (not_inStacks_sym (by decide)) (not_inStacks_sym (by decide)) hk

theorem carries_cell (h : Carries L o s n) (hst : StoresTo L (L.Cell v) is s)
    (hn : v ≠ .ulPortInterruptNesting) (hc : v ≠ .pxCurrentTCB)
    (hk : Carries L o (L.runs is s) n → (switching T fpu).Continues t o k (L.runs is s)) :
    (switching T fpu).Continues t o (.block is k) s :=
  carries_block h hst (fun _ ha => .inr (.inl ⟨v, hc, ha⟩)) (not_cell_sym hn (by decide))
    (not_cell_sym hc (by decide)) hk

theorem carries_silent (h : Carries L o s n) (hi : ∀ i ∈ is, i.op.silent = true)
    (hk : Carries L o (L.runs is s) n → (switching T fpu).Continues t o k (L.runs is s)) :
    (switching T fpu).Continues t o (.block is k) s :=
  carries_stacks h (storesTo_of_silent hi) hk

/-- In SYS mode, with the stack pointers of SVC and IRQ mode of `o`. -/
structure AtSys (o s : St) : Prop where
  mode : s.cpu.cpsr.mode = sysMode
  spSvc : s.cpu.spSvc = o.cpu.spSvc
  spIrq : s.cpu.spIrq = o.cpu.spIrq

/-- Stays in the mode. -/
def Op.stays : Op → Bool
  | .cps _ | .srsdb _ => false
  | _ => true

theorem atSys_set {c : Cpu} (h : c.cpsr.mode = sysMode) (g : Reg) (u : Word) :
    (c.set g u).spSvc = c.spSvc ∧ (c.set g u).spIrq = c.spIrq := by
  cases g with
  | r i => exact ⟨rfl, rfl⟩
  | sp | lr =>
    simp only [Cpu.set, Cpu.setSpOf, Cpu.setLr, h]
    exact ⟨rfl, rfl⟩

theorem atSys_setAll {c : Cpu} (h : c.cpsr.mode = sysMode) (l : List (Reg × Word)) :
    (c.setAll l).spSvc = c.spSvc ∧ (c.setAll l).spIrq = c.spIrq := by
  induction l generalizing c with
  | nil => exact ⟨rfl, rfl⟩
  | cons g l ih =>
    obtain ⟨h1, h2⟩ := atSys_set h g.1 g.2
    obtain ⟨h3, h4⟩ := ih (c := c.set g.1 g.2) ((congrArg Psr.mode (Cpu.set_cpsr c _ _)).trans h)
    exact ⟨h3.trans h1, h4.trans h2⟩

theorem AtSys.run {i : Instr} (h : AtSys o s) (hi : i.op.stays = true) : AtSys o (i.run L s) := by
  have hsys : ∀ u : Word, s.cpu.setSpOf s.cpu.cpsr.mode u = { s.cpu with spSys := u } := by
    intro u
    rw [h.mode]
    rfl
  obtain ⟨cond, op⟩ := i
  have hcpu : (op.cpu L s.cpu s.mem).cpsr.mode = s.cpu.cpsr.mode ∧
      (op.cpu L s.cpu s.mem).spSvc = s.cpu.spSvc ∧ (op.cpu L s.cpu s.mem).spIrq = s.cpu.spIrq := by
    cases op with
    | ldrSym d | ldr d | mov d | add d | sub d | and d | mrsCpsr d | mrsSpsr d | fmrx d =>
      exact ⟨congrArg Psr.mode (Cpu.set_cpsr _ _ _), atSys_set h.mode d _⟩
    | push | vpush | vpop =>
      simp only [Op.cpu, hsys]
      exact ⟨trivial, trivial, trivial⟩
    | pop l =>
      simp only [Op.cpu, hsys, Cpu.setAll_cpsr]
      have hmode : { s.cpu with spSys := s.cpu.sp + BitVec.ofNat 32 (4 * l.length) }.cpsr.mode = sysMode :=
        h.mode
      exact ⟨trivial, atSys_setAll hmode _⟩
    | msrSpsr n =>
      simp only [Op.cpu, Cpu.setSpsr]
      split_ifs <;> exact ⟨rfl, rfl, rfl⟩
    | cps | srsdb => cases hi
    | _ => exact ⟨rfl, rfl, rfl⟩
  obtain ⟨h1, h2, h3⟩ := hcpu
  constructor <;> rw [Instr.run_cpu] <;> split_ifs
  · exact h1.trans h.mode
  · exact h.mode
  · exact h2.trans h.spSvc
  · exact h.spSvc
  · exact h3.trans h.spIrq
  · exact h.spIrq

theorem AtSys.runs (h : AtSys o s) (hi : ∀ i ∈ is, i.op.stays = true) : AtSys o (L.runs is s) := by
  induction is generalizing s with
  | nil => exact h
  | cons i is ih => exact ih (h.run (hi i List.mem_cons_self)) fun j hj => hi j (List.mem_cons_of_mem _ hj)

/-- What a context depends on. -/
theorem Stored.congr {u : Word} {x : Sleeper} {m m' : Mem} (h : Stored L fpu u x m) (hu : m' u = m u)
    (hm : ∀ a, Below x.orig.cpu.spSys (4 * (x.words L fpu).length) a → m' a = m a) : Stored L fpu u x m' := by
  have hlt := x.orig.cpu.spSys.isLt
  have hroom := h.room
  have hsub : (x.top L fpu).toNat = x.orig.cpu.spSys.toNat - 4 * (x.words L fpu).length := by
    rw [Sleeper.top, toNat_sub_eq (by rw [BitVec.toNat_ofNat]; omega), BitVec.toNat_ofNat]
    omega
  exact ⟨h.room, h.apart, h.tcb, hu.trans h.sp, h.words.congr (by omega) fun b hb hb' =>
    hm b ⟨by omega, by omega⟩⟩

end Rules

/-! ## Switching -/

/-- Where a context is restored. -/
structure Chosen {L : Layout} (T : Tasks L) (o s : St) : Prop extends AtSys o s where
  masked : Masked s
  fits : T.Fits o
  nesting : L.nesting s.mem = 0
  tcb : L.tcb s.mem ∈ T.tcbs

section Switch

variable {L : Layout} {T : Tasks L} {fpu : Bool} {t : Trap} {o s s' : St} {k : Code}
  {is : List Instr} {v : Sym}

theorem switches_branch {b : Cond} {yes no : Code} (hm : Masked s) (htcb : L.tcb s.mem = L.tcb o.mem) :
    Switches T fpu t o (.branch b yes no) s where
  masked := hm
  tcb := fun _ => htcb
  writes := fun i k' h => by cases h
  dispatch := fun k' h => by cases h
  suspends := fun k' h => by cases h

theorem switches_exit {e : Exit} (hm : Masked s) : Switches T fpu t o (.exit e) s where
  masked := hm
  tcb := fun h => by cases h
  writes := fun i k' h => by cases h
  dispatch := fun k' h => by cases h
  suspends := fun k' h => by cases h

theorem chosen_block (h : Chosen T o s) (hk : CFun.vTaskSwitchContext ∉ k.calls)
    (hi : ∀ i ∈ is, i.op.stays = true) (hst : StoresTo L (L.Cell v) is s)
    (hn : v ≠ .ulPortInterruptNesting) (hc : v ≠ .pxCurrentTCB)
    (hnext : Chosen T o (L.runs is s) → (switching T fpu).Continues t o k (L.runs is s)) :
    (switching T fpu).Continues t o (.block is k) s := by
  have hnest : L.nesting (L.runs is s).mem = L.nesting s.mem :=
    congrArg BitVec.toNat (mem_runs_of_storesTo hst (not_cell_sym hn (by decide)))
  have htcb : L.tcb (L.runs is s).mem = L.tcb s.mem :=
    mem_runs_of_storesTo hst (not_cell_sym hc (by decide))
  exact switches_block h.masked (fun hcalls => absurd hcalls hk) hst (fun _ ha => .inr (.inl ⟨v, hc, ha⟩))
    (not_cell_sym hc (by decide)) fun hm => hnext ⟨h.toAtSys.runs hi, hm, h.fits, hnest.trans h.nesting,
      by rw [htcb]; exact h.tcb⟩

/-- **`portRESTORE_CONTEXT`** resumes what the TCB points to. -/
theorem portRestoreContext_switches (h : Chosen T o s) :
    (switching T fpu).Continues t o (portRestoreContext fpu) s := by
  have hmem : ∀ a, ¬ L.Cell .ulCriticalNesting a → ¬ L.Cell .ulPortTaskHasFPUContext a →
      (L.runs popContext (L.runs (popFpu fpu) (L.runs loadSp s))).mem a = s.mem a := by
    intro a hc hf
    rw [mem_runs_of_storesTo storesTo_popContext hc, mem_runs_of_storesTo (storesTo_popFpu fpu) hf]
    rfl
  have htcb : L.tcb (L.runs popContext (L.runs (popFpu fpu) (L.runs loadSp s))).mem = L.tcb s.mem :=
    hmem _ (not_cell_sym (by decide) (by decide)) (not_cell_sym (by decide) (by decide))
  refine chosen_block (v := .ulCriticalNesting) h (by cases fpu <;> decide) (by decide)
    (storesTo_of_silent (by decide)) (by decide) (by decide) fun h1 => ?_
  refine chosen_block h1 (by decide) (by cases fpu <;> decide) (storesTo_popFpu fpu) (by decide) (by decide)
    fun h2 => ?_
  refine chosen_block h2 (by decide) (by decide) storesTo_popContext (by decide) (by decide) fun h3 => ?_
  refine ⟨switches_exit h3.masked, h3.fits, h3.mode, h3.spSvc, h3.spIrq, h3.nesting, h3.tcb, fun x hx => ?_⟩
  refine resumed_portRestoreContext (s := s) ?_ h.mode rfl
  rw [htcb] at hx
  exact hx.congr (hmem _ (hx.tcb _) (hx.tcb _)).symm fun a ha =>
    (hmem a (hx.apart a _ ha) (hx.apart a _ ha)).symm

theorem atSys_enter {f : CFun} (h : s.cpu.cpsr.mode = sysMode) :
    (enter L t f s).cpu.cpsr.mode = sysMode ∧ (enter L t f s).cpu.spSvc = s.cpu.spSvc ∧
      (enter L t f s).cpu.spIrq = s.cpu.spIrq := by
  have hcpu : (enter L t f s).cpu = { s.cpu with lrSys := L.ret f } := by
    show s.cpu.setLr (L.ret f) = _
    rw [Cpu.setLr, h]
    rfl
  rw [hcpu]
  exact ⟨h, rfl, rfl⟩

/-- **`portSAVE_CONTEXT`** and the call of `vTaskSwitchContext`. -/
theorem portSaveContext_switches (h : Carries L o s 0) (hfits : T.Fits o) (hsus : Suspending t o s)
    (hsvc : s.cpu.spSvc = o.cpu.spSvc) (hirq : s.cpu.spIrq = o.cpu.spIrq)
    (hcrit : t = .svc → L.critical s.mem = L.critical o.mem) (hsw : Switching k)
    (hcalls : k.calls = [])
    (hk : ∀ s', Chosen T o s' → (switching T fpu).Continues t o k s') :
    (switching T fpu).Continues t o (portSaveContext fpu <| .block [Op.ldrSym r0 .vTaskSwitchContext] <|
      .call .vTaskSwitchContext k) s := by
  have hroom : 204 ≤ s.cpu.spSys.toNat := by
    rw [hsus.spSys]
    exact Nat.le_trans (Nat.le_add_left _ _) hfits.lo
  have hcall : ∀ is : List Instr, CFun.vTaskSwitchContext ∈
      (Code.block is (.call .vTaskSwitchContext k) : Code).calls := by
    intro is
    rw [Code.calls_block]
    exact List.mem_cons_self
  have hstack : ∀ v : Sym, 0 < v.size → ¬ Below o.cpu.spSys 204 (L.sym v) :=
    fun v hv hb => hfits.not_cell hb (cell_sym hv)
  have hpush := storesTo_pushContext (L := L) hroom
  have hroom' := hroom
  rw [hsus.spSys] at hpush hroom'
  have hfpu := storesTo_pushFpu (L := L) fpu hpush.2.1 hpush.2.2.1 hpush.2.2.2 hroom'
  refine carries_block h hpush.1 (fun a ha => .inr (.inr ⟨?_, hfits, .inl ha⟩)) (hstack _ (by decide))
    (hstack _ (by decide)) fun h1 => ?_
  · rw [Code.calls_block, Code.calls_block]
    exact hcall _
  refine carries_block h1 hfpu (fun a ha => .inr (.inr ⟨?_, hfits, .inl ha⟩)) (hstack _ (by decide))
    (hstack _ (by decide)) fun h2 => ?_
  · rw [Code.calls_block]
    exact hcall _
  have htcb : ∀ v : Sym, 0 < v.size → ¬ L.sym v = L.tcb o.mem :=
    fun v hv hb => T.tcb_sym _ hfits.tcb v (hb ▸ cell_sym hv)
  have hst := storesTo_storeSp (L := L) (s := L.runs (pushFpu fpu) (L.runs pushContext s))
  rw [h2.tcb] at hst
  refine carries_block h2 hst (fun a ha => .inr (.inr ⟨hcall _, hfits, .inr ha⟩)) (htcb _ (by decide))
    (htcb _ (by decide)) fun h3 => ?_
  have hsaved := suspended_portSaveContext (L := L) fpu hsus hroom
    (by rw [hsus.spSys]; exact fun a v ha => hfits.not_cell ha)
    (by rw [h.tcb]; exact T.tcb_sym _ hfits.tcb) (by rw [hsus.spSys, h.tcb]; exact hfits.not_own)
  generalize L.runs storeSp (L.runs (pushFpu fpu) (L.runs pushContext s)) = s₁ at h3 hsaved
  refine carries_silent h3 (by decide) fun h4 => ?_
  have hstored := hsaved.stored
  refine ⟨⟨h4.masked, fun _ => h4.tcb, (fun i k' h => by cases h), (fun k' h => by cases h),
    fun k' hk' => ?_⟩,
    fun s' hs => hk s' ?_⟩
  · cases hk'
    refine ⟨hfits, ?_, hsaved.mode, hsaved.spSvc.trans hsvc, hsaved.spIrq.trans hirq,
      fun ht => ?_, hsw, hcalls⟩
    · rw [h4.tcb, ← h.tcb]
      exact ⟨hstored.room, hstored.apart, hstored.tcb, hstored.sp, hstored.words⟩
    · exact (hsaved.mem _ _ (cell_sym (by decide))).trans (hcrit ht)
  · obtain ⟨hin, -, -, hm⟩ := hs
    have hmode : (L.runs [Op.ldrSym r0 .vTaskSwitchContext] s₁).cpu.cpsr.mode = sysMode := hsaved.mode
    obtain ⟨he, he1, he2⟩ := atSys_enter (L := L) (t := t) (f := .vTaskSwitchContext) hmode
    obtain ⟨hr1, hr2⟩ := hin.rest he
    have htcbs : L.tcb s'.mem ∈ T.tcbs := hin.tcbs (h4.tcb ▸ hfits.tcb)
    exact ⟨⟨hin.mode.trans he, (hr1.trans he1).trans (hsaved.spSvc.trans hsvc),
      (hr2.trans he2).trans (hsaved.spIrq.trans hirq)⟩, hm, hfits, hin.nesting.trans h4.nesting, htcbs⟩

/-- **`SVC_Handler`.** -/
theorem svcHandler_switches (h : AtRest T o) (hfits : T.Fits o) :
    (switching T fpu).Continues .svc o (svcHandler fpu) { o with cpu := o.cpu.svcEntry, counted := false } := by
  refine portSaveContext_switches ⟨rfl, h.nesting, rfl⟩ hfits ⟨rfl, rfl, rfl, rfl, rfl⟩ rfl rfl (fun _ => rfl)
    (by cases fpu <;> decide) (by cases fpu <;> decide) fun s' hs' => ?_
  refine chosen_block hs' (by cases fpu <;> decide) (by decide) (storesTo_block (v := .gR8Sw) rfl (by decide))
    (by decide) (by decide) fun hs' => portRestoreContext_switches hs'

end Switch

/-! ## The handler -/

section Handler

variable {L : Layout} {T : Tasks L} {fpu : Bool} {o s s' : St} {k : Code} {f : CFun} {n : ℕ}

theorem run_incrementNesting : (L.runs incrementNesting s).mem =
    Function.update s.mem (L.sym .ulPortInterruptNesting) (s.mem (L.sym .ulPortInterruptNesting) + 1) := by
  have h32 : (3 : Fin 13) ≠ 2 := by decide
  simp only [incrementNesting, runs_cons, runs_nil, run_al, Op.cpu, Op.stores, Cpu.get, Cpu.set, r2, r3,
    Operand.value, Mem.store, Function.update_self, Function.update_of_ne h32, BitVec.ofNat_eq_ofNat,
    BitVec.add_zero]

theorem run_decrementNesting : (L.runs decrementNesting s).mem =
    Function.update s.mem (L.sym .ulPortInterruptNesting) (s.mem (L.sym .ulPortInterruptNesting) - 1) ∧
      Cond.ne.holds (L.runs decrementNesting s).cpu.cpsr.nzcv =
        (s.mem (L.sym .ulPortInterruptNesting) - 1 != 0) := by
  have h10 : (1 : Fin 13) ≠ 0 := by decide
  simp only [decrementNesting, runs_cons, runs_nil, run_al, Op.cpu, Op.stores, Cpu.get, Cpu.set, Cpu.setFlags,
    r0, r1, Operand.value, Mem.store, Function.update_self, Function.update_of_ne h10, BitVec.ofNat_eq_ofNat,
    BitVec.add_zero]
  exact ⟨trivial, congrArg not (subFlags_zero _ _)⟩

/-- The nesting count changes. -/
theorem carries_nesting {is : List Instr} {m : ℕ} (h : Carries L o s n)
    (hst : StoresTo L (L.Cell .ulPortInterruptNesting) is s) (hm : L.nesting (L.runs is s).mem = m)
    (hk : Carries L o (L.runs is s) m → (switching T fpu).Continues .irq o k (L.runs is s)) :
    (switching T fpu).Continues .irq o (.block is k) s := by
  have hc : ¬ L.Cell .ulPortInterruptNesting (L.sym .pxCurrentTCB) := not_cell_sym (by decide) (by decide)
  exact switches_block h.masked (fun _ => h.tcb) hst (fun a ha => .inr (.inl ⟨_, by decide, ha⟩)) hc
    fun hmask => hk ⟨hmask, hm, (mem_runs_of_storesTo hst hc).trans h.tcb⟩

theorem exitWithoutSwitch_switches (h : Carries L o s (L.nesting o.mem)) (hsaved : Saved L o s)
    (hsp : s.cpu.spSvc = o.cpu.spSvc - 28) : (switching T fpu).Continues .irq o exitWithoutSwitch s := by
  refine carries_silent h (by decide) fun h1 => ?_
  obtain ⟨hr, hmem⟩ := restored_restoreUsed (L := L) hsaved hsp
  refine ⟨switches_exit h1.masked, ⟨hr, fun a ha => ?_⟩, h1.nesting, h1.tcb⟩
  rw [hmem]
  exact hsaved.mem a ha

/-- **`switch_before_exit`**, with the address of the yield flag in r1. -/
theorem switchBeforeExit_switches (h : Carries L o s 0) (hfits : T.Fits o) (hroom : L.Room o.cpu)
    (hsaved : Saved L o s) (hsp : s.cpu.spSvc = o.cpu.spSvc - 28)
    (hr1 : s.cpu.get r1 = L.sym .ulPortYieldRequired) :
    (switching T fpu).Continues .irq o (switchBeforeExit fpu) s := by
  refine carries_cell h (storesTo_block (v := .gR8Sw) rfl (by decide)) (by decide) (by decide) fun h => ?_
  have hcount := calm_countExit (L := L) (s := s)
  have hr1' : (L.runs countExit s).cpu.get r1 = L.sym .ulPortYieldRequired :=
    (get_runs rfl (by decide)).trans hr1
  have hclear : Calm L (L.runs countExit s) (L.runs clearYield (L.runs countExit s)) :=
    (calm_runs (v := .ulPortYieldRequired) rfl (by decide) hr1').1
  refine carries_cell h (storesTo_runs (b := r1) (v := .ulPortYieldRequired) rfl (by decide) hr1') (by decide)
    (by decide) fun h => ?_
  have hcalm := hcount.trans hclear
  have hsaved := hsaved.calm hroom hcalm
  have hsp := hcalm.cpu.spSvc.trans hsp
  generalize L.runs clearYield (L.runs countExit s) = s₁ at h hsaved hsp
  obtain ⟨hr, -⟩ := restored_restoreUsed (L := L) hsaved hsp
  refine carries_silent h (by decide) fun h => ?_
  generalize L.runs restoreUsed s₁ = s₂ at h hr
  exact portSaveContext_switches h hfits ⟨hr.r, hr.lrSys, hr.spSys, hr.pc, hr.cpsr⟩ hr.spSvc hr.spIrq
    (fun ht => by cases ht) (by cases fpu <;> decide) (by cases fpu <;> decide)
    fun s' hs' => portRestoreContext_switches hs'

theorem testYield_switches (h : Carries L o s 0) (hfits : T.Fits o) (hroom : L.Room o.cpu)
    (hsaved : Saved L o s) (hsp : s.cpu.spSvc = o.cpu.spSvc - 28) :
    (switching T fpu).Continues .irq o (testYield fpu) s := by
  refine carries_silent h (by decide) fun h => ?_
  have hr1 : (L.runs readYield s).cpu.get r1 = L.sym .ulPortYieldRequired :=
    (get_loadVar (s := s) (b := r1) (d := r0) (v := .ulPortYieldRequired) rfl rfl (by decide)).1
  have hcalm := calm_readYield (L := L) (s := s)
  have hsaved := hsaved.calm hroom hcalm
  have hsp := hcalm.cpu.spSvc.trans hsp
  refine ⟨switches_branch h.masked h.tcb,
    fun _ => switchBeforeExit_switches h hfits hroom hsaved hsp hr1, fun _ => ?_⟩
  rw [← hfits.nesting] at h
  exact exitWithoutSwitch_switches h hsaved hsp

theorem irqEpilogue_switches (h : Carries L o s (L.nesting o.mem + 1))
    (hfits : L.nesting o.mem = 0 → T.Fits o)
    (hroom : L.Room o.cpu) (hheld : Held L o s) : (switching T fpu).Continues .irq o (irqEpilogue fpu) s := by
  obtain ⟨hcalm, hr3⟩ := calm_exitSnapshot (L := L) (s := s)
  refine carries_cell h (storesTo_block (v := .gR8Epi) rfl (by decide)) (by decide) (by decide) fun h => ?_
  have hheld := hheld.calm hroom hcalm
  refine carries_cell h (storesTo_unalignStack hheld.mode hr3) (by decide) (by decide) fun h => ?_
  obtain ⟨hsaved, hsp⟩ := saved_unalignStack hroom hheld hr3
  have hdec := calm_decrementNesting (L := L) (s := L.runs unalignStack (L.runs exitSnapshot s))
  have hsaved := hsaved.calm hroom hdec
  have hsp := hdec.cpu.spSvc.trans hsp
  generalize L.runs unalignStack (L.runs exitSnapshot s) = s₁ at h hsaved hsp
  obtain ⟨hmem, hflags⟩ := run_decrementNesting (L := L) (s := s₁)
  have hw : (s₁.mem (L.sym .ulPortInterruptNesting) - 1).toNat = L.nesting o.mem := by
    have hn : (s₁.mem (L.sym .ulPortInterruptNesting)).toNat = L.nesting o.mem + 1 := h.nesting
    rw [toNat_sub_eq (by rw [hn]; exact Nat.le_add_left _ _), hn]
    rfl
  have hnest : L.nesting (L.runs decrementNesting s₁).mem = L.nesting o.mem := by
    rw [Layout.nesting, hmem, Function.update_self, hw]
  refine carries_nesting h (storesTo_block rfl (by decide)) hnest fun h => ?_
  refine ⟨switches_branch h.masked h.tcb, fun _ => exitWithoutSwitch_switches h hsaved hsp, fun hb => ?_⟩
  have ho : L.nesting o.mem = 0 := by
    have hz : s₁.mem (L.sym .ulPortInterruptNesting) - 1 = 0 := bne_eq_false_iff_eq.mp (hflags.symm.trans hb)
    rw [← hw, hz]
    rfl
  rw [ho] at h
  exact testYield_switches h (hfits ho) hroom hsaved hsp

/-- Across a call. -/
theorem carries_call (h : Carries L o s n) (hf : f ≠ .vTaskSwitchContext) (hroom : L.Room o.cpu)
    (hheld : Held L o s) (hd : f = .vApplicationIRQHandler → Counted L o s)
    (hk : ∀ s', Carries L o s' n → Held L o s' → (switching T fpu).Continues .irq o k s') :
    (switching T fpu).Continues .irq o (.call f k) s := by
  refine ⟨⟨h.masked, fun _ => h.tcb, (fun i k' h => by cases h), fun k' h => hd ?_, fun k' h => absurd ?_ hf⟩,
    fun s' hs => hk s' ⟨hs.2.2.2, hs.1.nesting.trans h.nesting, (hs.1.tcb hf).trans h.tcb⟩ ?_⟩
  · cases h
    rfl
  · cases h
    rfl
  · exact hheld.returns hroom ⟨hs.1.toInside, hs.2⟩

/-- **`IRQ_Handler`**, with room on the stacks. -/
theorem irqHandler_switches (h : Carries L o s (L.nesting o.mem)) (hs : Entered o s) (hroom : L.Room o.cpu)
    (hbudget : 32 * L.nesting o.mem + o.cpu.spSvc.toNat ≤ L.svcHi) (hfits : L.nesting o.mem = 0 → T.Fits o) :
    (switching T fpu).Continues .irq o (irqHandler fpu) s := by
  have hhi := L.svcHi_le
  refine carries_stacks h (storesTo_saveUsed hroom hs) fun h => ?_
  obtain ⟨hsaved, hsp⟩ := saved_saveUsed hroom hs
  generalize L.runs saveUsed s = s₁ at h hsaved hsp
  have hnest : L.nesting (L.runs incrementNesting s₁).mem = L.nesting o.mem + 1 := by
    have hn : (s₁.mem (L.sym .ulPortInterruptNesting)).toNat = L.nesting o.mem := h.nesting
    rw [Layout.nesting, run_incrementNesting, Function.update_self, BitVec.toNat_add, hn]
    exact Nat.mod_eq_of_lt (show L.nesting o.mem + 1 < 2 ^ 32 by omega)
  refine carries_nesting h (storesTo_block rfl (by decide)) hnest fun h => ?_
  have hinc := calm_incrementNesting (L := L) (s := s₁)
  have hsaved := hsaved.calm hroom hinc
  have hsp := hinc.cpu.spSvc.trans hsp
  have hsp28 := (toNat_saved hroom).1
  have hlo := hroom.1.1
  have hle := hroom.1.2
  refine carries_stacks h (storesTo_alignStack hsaved.mode (by rw [hsp, hsp28]; omega)
    (by rw [hsp, hsp28]; omega)) fun h => ?_
  have hheld := held_alignStack hroom hsaved hsp
  generalize L.runs alignStack (L.runs incrementNesting s₁) = s₂ at h hheld
  refine carries_cell h (storesTo_block (v := .gR8Epi) rfl (by decide)) (by decide) (by decide) fun h => ?_
  have hheld := hheld.calm hroom calm_entrySnapshot
  refine carries_call h (by decide) hroom hheld (fun h => by cases h) fun s h hheld => ?_
  refine carries_silent h (by decide) fun h => ?_
  have hheld := hheld.calm hroom calm_keepIcciar
  refine carries_call h (by decide) hroom hheld (fun _ => ⟨h.nesting, ?_⟩) fun s h hheld => ?_
  · have hle := (hheld.toNat_spSvc hroom).2
    rw [h.nesting]
    omega
  refine carries_silent h (by decide) fun h => ?_
  have hheld := hheld.calm hroom calm_maskIrqs
  exact carries_call h (by decide) hroom hheld (fun h => by cases h) fun s h hheld =>
    irqEpilogue_switches h hfits hroom hheld

end Handler

/-! ## The system -/

section System

variable {L : Layout} {T : Tasks L} {fpu : Bool} {t : Trap} {o s s₀ : St} {f : CFun} {e : St} {k : Code}
  {a v : Word} {g : Regs}

theorem rest_setRegs (h : s.cpu.cpsr.mode = sysMode) :
    (s.cpu.setRegs g).spSvc = s.cpu.spSvc ∧ (s.cpu.setRegs g).spIrq = s.cpu.spIrq := by
  rw [spSvc_setRegs, spIrq_setRegs, h]
  exact ⟨rfl, rfl⟩

theorem AtRest.fits (h : AtRest T s) (hlo : T.lo (L.tcb s.mem) + 204 ≤ s.cpu.spSys.toNat)
    (hhi : s.cpu.spSys.toNat ≤ T.hi (L.tcb s.mem)) : T.Fits s :=
  ⟨h.tcb, hlo, hhi, h.nesting⟩

/-- An interrupted C function is a dispatched handler. -/
theorem Serves.dispatched (hin : Serves T f (enter L t f s₀) s) (hm : s.cpu.cpsr.masked = false)
    (hinv : Switches T fpu t o (.call f k) s₀) : Counted L o s₀ ∧ f = .vApplicationIRQHandler := by
  have hf : f = .vApplicationIRQHandler := by
    refine hin.masked.resolve_right ?_
    rw [hm]
    decide
  exact ⟨hinv.dispatch k (by rw [hf]), hf⟩

theorem switching_lawful (T : Tasks L) (fpu : Bool) : (switching T fpu).Lawful fpu where
  masked := Switches.masked
  regs_task h := by
    obtain ⟨hsvc, hirq⟩ := rest_setRegs h.mode
    exact ⟨h.mode, h.nesting, h.tcb, hsvc.trans h.spSvc, hirq.trans h.spIrq⟩
  regs_c h hsp hm := by
    refine ⟨h.toInside.regs hsp hm, h.nesting, h.tcb, h.tcbs, fun he => ?_⟩
    obtain ⟨hsvc, hirq⟩ := rest_setRegs (h.mode.trans he)
    exact ⟨hsvc.trans (h.rest he).1, hirq.trans (h.rest he).2⟩
  store_task := by
    rintro s a v ⟨hn, hp⟩ h
    have htcb : L.tcb (s.store a v).mem = L.tcb s.mem := by
      refine mem_store_of_ne fun ha => ?_
      cases (hp ha.symm).1
    exact ⟨h.mode, (nesting_store hn).trans h.nesting, by rw [htcb]; exact h.tcb, h.spSvc, h.spIrq⟩
  store_c := by
    rintro f e s fs a v ⟨hn, hp⟩ h hused
    refine ⟨h.toInside.store hused, (nesting_store hn).trans h.nesting, fun hf => ?_, fun he => ?_, h.rest⟩
    · refine (mem_store_of_ne fun ha => ?_).trans (h.tcb hf)
      have hch := (hp ha.symm).1
      cases f <;> first | exact hf rfl | cases hch
    · by_cases ha : a = L.sym .pxCurrentTCB
      · have htcb : L.tcb (s.store a v).mem = v := by
          rw [ha]
          exact mem_store_self
        exact htcb.symm ▸ (hp ha).2
      · have htcb : L.tcb (s.store a v).mem = L.tcb s.mem := mem_store_of_ne (Ne.symm ha)
        exact htcb.symm ▸ h.tcbs he
  call := by
    intro t o f k s h
    refine ⟨.refl ?_, rfl, fun _ => rfl, id, fun _ => ⟨rfl, rfl⟩⟩
    rw [enter, Cpu.setLr_cpsr]
    exact h.masked
  svc hmay h := svcHandler_switches h (h.fits (hmay rfl).1 (hmay rfl).2)
  take_task := by
    intro s hmay hm hroom h
    refine irqHandler_switches ⟨rfl, rfl, rfl⟩ ⟨rfl, rfl⟩ hroom ?_ fun _ => h.fits (hmay rfl).1 (hmay rfl).2
    rw [h.nesting]
    have := hroom.1.2
    omega
  take_c := by
    intro t o f k s₀ s hm hroom hinv hin
    obtain ⟨hc, rfl⟩ := hin.dispatched hm hinv
    have hnest : L.nesting s.mem = L.nesting s₀.mem := hin.nesting
    have hsp := hin.spSvc
    rw [enter, Cpu.setLr_spSvc] at hsp
    have hbudget := hc.budget
    refine irqHandler_switches ⟨rfl, rfl, rfl⟩ ⟨rfl, rfl⟩ hroom (by omega) fun h0 => ?_
    rw [hnest, hc.nesting] at h0
    cases h0
  exit_task := by
    rintro t o s ⟨hl, hnest, htcb⟩ h
    exact ⟨(congrArg Psr.mode hl.1.cpsr).trans h.mode, hnest.trans h.nesting, by rw [htcb]; exact h.tcb,
      hl.1.spSvc.trans h.spSvc, hl.1.spIrq.trans h.spIrq⟩
  exit_c := by
    rintro t o f e s hm ⟨hl, hnest, htcb⟩ h
    refine ⟨h.toInside.resumed hl, hnest.trans h.nesting, fun hf => htcb.trans (h.tcb hf), fun he => ?_,
      fun he => ⟨hl.1.spSvc.trans (h.rest he).1, hl.1.spIrq.trans (h.rest he).2⟩⟩
    rw [htcb]
    exact h.tcbs he
  rfeia := by
    rintro t o s ⟨hfits, hmode, hsvc, hirq, hnest, htcb, -⟩ h hsys
    have hrfe : (s.cpu.rfeia s.mem).spSvc = s.cpu.spSvc ∧ (s.cpu.rfeia s.mem).spIrq = s.cpu.spIrq := by
      rw [Cpu.rfeia, hmode]
      exact ⟨rfl, rfl⟩
    exact ⟨hsys, hnest, htcb, hrfe.1.trans (hsvc.trans h.spSvc), hrfe.2.trans (hirq.trans h.spIrq)⟩

/-- Below a count of zero there is only the task. -/
theorem bottom_of_nesting {fs : List Frame} (hg : (switching T fpu).Good fs o) (h : L.nesting o.mem = 0)
    (hm : fs = [.task] ∨ o.cpu.cpsr.masked = false) : fs = [.task] := by
  rcases hm with hfs | hm
  · exact hfs
  rcases hg.cases with ⟨rfl, -⟩ | ⟨t, k, o', fs, rfl, hk⟩ | ⟨f, e, t, k, o', fs, rfl, hin⟩
  · rfl
  · have hmasked : o.cpu.cpsr.masked = true := hk.here.masked
    rw [hm] at hmasked
    cases hmasked
  · obtain ⟨-, ⟨s₀, rfl, hk⟩, -⟩ := hg
    obtain ⟨hc, -⟩ := hin.dispatched hm hk.1
    have hnest : L.nesting o.mem = L.nesting s₀.mem := hin.nesting
    rw [hnest, hc.nesting] at h
    cases h

end System

end CR8Devkit.Port
