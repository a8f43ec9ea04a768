import CR8Devkit.Port.Tracking

/-!
# Saved contexts

* `OnStack`: a list of words in memory, with `OnStack.push` and `onStack_append` for a pop.
* `Sleeper`: a task that has been suspended; `Sleeper.words`: its context, lowest address first.
* `Stored`: the context is in memory, and the TCB points to it.
* **`suspended_portSaveContext`**, **`resumed_portRestoreContext`**: the two macros of `portASM`.
-/

namespace CR8Devkit.Port

open Handler

/-! ## Words on a stack -/

/-- The list stands in memory from address `a` on. -/
def OnStack (m : Mem) (a : Word) (ws : List Word) : Prop := loads m a ws.length = ws

section OnStack

variable {m m' : Mem} {a b : Word} {vs ws : List Word} {n k : ℕ}

theorem add_ofNat_succ (a : Word) (n : ℕ) :
    a + BitVec.ofNat 32 (4 * (n + 1)) = a + 4 + BitVec.ofNat 32 (4 * n) := by
  rw [Nat.mul_succ, Nat.add_comm, BitVec.ofNat_add, ← BitVec.add_assoc]
  rfl

theorem loads_add (m : Mem) (a : Word) (n k : ℕ) :
    loads m a (n + k) = loads m a n ++ loads m (a + BitVec.ofNat 32 (4 * n)) k := by
  induction n generalizing a with
  | zero =>
    rw [Nat.zero_add, Nat.mul_zero, BitVec.add_zero]
    rfl
  | succ n ih =>
    rw [add_ofNat_succ, Nat.succ_add]
    exact congrArg (m a :: ·) (ih (a + 4))

theorem length_loads (m : Mem) (a : Word) (n : ℕ) : (loads m a n).length = n := by
  induction n generalizing a with
  | zero => rfl
  | succ n ih => exact congrArg (· + 1) (ih (a + 4))

theorem loads_getElem (m : Mem) (a : Word) (n i : ℕ) (h : i < (loads m a n).length) :
    (loads m a n)[i] = m (a + BitVec.ofNat 32 (4 * i)) := by
  induction n generalizing a i with
  | zero => cases h
  | succ n ih =>
    cases i with
    | zero =>
      rw [Nat.mul_zero, BitVec.add_zero]
      rfl
    | succ i =>
      rw [add_ofNat_succ]
      exact ih (a + 4) i (Nat.lt_of_succ_lt_succ h)

/-- What is on top, and what is below it. -/
theorem onStack_append : OnStack m a (vs ++ ws) ↔
    OnStack m a vs ∧ OnStack m (a + BitVec.ofNat 32 (4 * vs.length)) ws := by
  unfold OnStack
  rw [List.length_append, loads_add]
  constructor
  · exact fun h => List.append_inj h (length_loads m a _)
  · rintro ⟨hvs, hws⟩
    rw [hvs, hws]

theorem onStack_cons {w : Word} : OnStack m a (w :: ws) ↔ m a = w ∧ OnStack m (a + 4) ws :=
  List.cons_eq_cons

theorem OnStack.congr (h : OnStack m a ws) (ha : a.toNat + 4 * ws.length ≤ 2 ^ 32)
    (hm : ∀ b : Word, a.toNat ≤ b.toNat → b.toNat < a.toNat + 4 * ws.length → m' b = m b) :
    OnStack m' a ws :=
  (loads_congr ha hm).trans h

/-- **Pushing** a list. -/
theorem OnStack.push (h : OnStack m a ws) (ha : a.toNat + 4 * ws.length ≤ 2 ^ 32)
    (hvs : 4 * vs.length ≤ a.toNat) :
    OnStack (m.store (words (a - BitVec.ofNat 32 (4 * vs.length)) vs))
      (a - BitVec.ofNat 32 (4 * vs.length)) (vs ++ ws) := by
  have hlt := a.isLt
  have hsub : (a - BitVec.ofNat 32 (4 * vs.length)).toNat = a.toNat - 4 * vs.length := by
    rw [toNat_sub_eq (by rw [BitVec.toNat_ofNat]; omega), BitVec.toNat_ofNat]
    omega
  refine onStack_append.mpr ⟨loads_store_words (by omega), ?_⟩
  rw [BitVec.sub_add_cancel]
  exact h.congr ha fun b hb _ => store_words_of_lt (by omega) (by omega)

end OnStack

/-! ## Contexts -/

def Layout.critical (L : Layout) (m : Mem) : Word := m (L.sym .ulCriticalNesting)

def Layout.flag (L : Layout) (m : Mem) : Word := m (L.sym .ulPortTaskHasFPUContext)

/-- A suspended task: how, the state it was interrupted in, and the state in which
`vTaskSwitchContext` was called for it. -/
structure Sleeper where
  trap : Trap
  orig : St
  saved : St

namespace Sleeper

variable (L : Layout) (fpu : Bool) (x : Sleeper)

/-- Where the task goes on: at the interrupted instruction, or behind its `SVC`. -/
def pc : Word :=
  match x.trap with
  | .irq => x.orig.cpu.pc
  | .svc => x.orig.cpu.svcEntry.lrSvc

/-- The floating-point part: the flag, and if it is set FPSCR and D0 to D15. -/
def fpWords : List Word :=
  if fpu then
    L.flag x.saved.mem ::
      if L.flag x.saved.mem = 0 then [] else x.saved.cpu.fpscr :: List.ofFn x.saved.cpu.d
  else []

def regWords : List Word := List.ofFn x.orig.cpu.r ++ [x.orig.cpu.lrSys, x.pc, x.orig.cpu.cpsr.toWord]

/-- The context, from its lowest address on. -/
def words : List Word := x.fpWords L fpu ++ L.critical x.saved.mem :: x.regWords

/-- What the TCB points to. -/
def top : Word := x.orig.cpu.spSys - BitVec.ofNat 32 (4 * (x.words L fpu).length)

end Sleeper

/-- The context is in memory below the stack pointer of the task, away from the variables, and the
TCB `u` points to it. -/
structure Stored (L : Layout) (fpu : Bool) (u : Word) (x : Sleeper) (m : Mem) : Prop where
  room : 4 * (x.words L fpu).length ≤ x.orig.cpu.spSys.toNat
  apart : ∀ a v, Below x.orig.cpu.spSys (4 * (x.words L fpu).length) a → ¬ L.Cell v a
  tcb : ∀ v, ¬ L.Cell v u
  sp : m u = x.top L fpu
  words : OnStack m (x.top L fpu) (x.words L fpu)

/-- The task goes on as it was suspended. -/
structure Resumed (L : Layout) (fpu : Bool) (x : Sleeper) (c : Cpu) (m : Mem) : Prop where
  r : c.r = x.orig.cpu.r
  spSys : c.spSys = x.orig.cpu.spSys
  lrSys : c.lrSys = x.orig.cpu.lrSys
  pc : c.pc = x.pc
  cpsr : c.cpsr = x.orig.cpu.cpsr
  critical : L.critical m = L.critical x.saved.mem
  flag : fpu = true → L.flag m = L.flag x.saved.mem
  floating : fpu = true → L.flag x.saved.mem ≠ 0 → c.d = x.saved.cpu.d ∧ c.fpscr = x.saved.cpu.fpscr

/-! ## Saving -/

/-- In SYS mode, with the list `ws` pushed since `o`. -/
structure Pushing (o s : St) (ws : List Word) : Prop where
  mode : s.cpu.cpsr.mode = sysMode
  spSvc : s.cpu.spSvc = o.cpu.spSvc
  spIrq : s.cpu.spIrq = o.cpu.spIrq
  d : s.cpu.d = o.cpu.d
  fpscr : s.cpu.fpscr = o.cpu.fpscr
  spSys : s.cpu.spSys = o.cpu.spSys - BitVec.ofNat 32 (4 * ws.length)
  stack : OnStack s.mem s.cpu.spSys ws
  mem : ∀ a, ¬ Below o.cpu.spSys (4 * ws.length) a → s.mem a = o.mem a

section Save

variable {L : Layout} {o s : St} {i : Instr} {is : List Instr} {vs ws : List Word} {a : Word}

/-- The floating-point registers change at two instructions only. -/
def Op.floats : Op → Bool
  | .vmsr _ | .vpop => true
  | _ => false

theorem set_fp (c : Cpu) (g : Reg) (w : Word) : (c.set g w).d = c.d ∧ (c.set g w).fpscr = c.fpscr := by
  cases g with
  | r i => exact ⟨rfl, rfl⟩
  | sp | lr =>
    simp only [Cpu.set, Cpu.setSpOf, Cpu.setLr]
    split_ifs <;> exact ⟨rfl, rfl⟩

theorem setAll_fp (c : Cpu) (l : List (Reg × Word)) :
    (c.setAll l).d = c.d ∧ (c.setAll l).fpscr = c.fpscr := by
  induction l generalizing c with
  | nil => exact ⟨rfl, rfl⟩
  | cons w l ih =>
    obtain ⟨hd, hf⟩ := set_fp c w.1 w.2
    exact ⟨(ih _).1.trans hd, (ih _).2.trans hf⟩

theorem setSpOf_fp (c : Cpu) (m : BitVec 5) (w : Word) :
    (c.setSpOf m w).d = c.d ∧ (c.setSpOf m w).fpscr = c.fpscr := by
  unfold Cpu.setSpOf
  split_ifs <;> exact ⟨rfl, rfl⟩

theorem run_fp (h : i.op.floats = false) :
    (i.run L s).cpu.d = s.cpu.d ∧ (i.run L s).cpu.fpscr = s.cpu.fpscr := by
  rw [Instr.run_cpu]
  obtain ⟨cond, op⟩ := i
  split_ifs
  · cases op with
    | ldrSym | ldr | mov | add | sub | and | mrsCpsr | mrsSpsr | fmrx => exact set_fp _ _ _
    | push | srsdb | vpush => exact setSpOf_fp _ _ _
    | pop l =>
      obtain ⟨hd, hf⟩ := setSpOf_fp s.cpu s.cpu.cpsr.mode (s.cpu.sp + BitVec.ofNat 32 (4 * l.length))
      exact ⟨(setAll_fp _ _).1.trans hd, (setAll_fp _ _).2.trans hf⟩
    | msrSpsr n =>
      simp only [Op.cpu, Cpu.setSpsr]
      split_ifs <;> exact ⟨rfl, rfl⟩
    | vmsr | vpop => cases h
    | _ => exact ⟨rfl, rfl⟩
  · exact ⟨rfl, rfl⟩

theorem floats_of_dest {op : Op} (h : op.dest.isSome = true) : op.floats = false := by
  cases op <;> first | rfl | cases h

theorem run_of_not_holds (h : i.cond.holds s.cpu.cpsr.nzcv = false) : i.run L s = s := by
  unfold Instr.run
  rw [h]
  rfl

/-- Between pushes. -/
theorem Pushing.dest (h : Pushing o s ws) (hi : i.op.dest.isSome = true) : Pushing o (i.run L s) ws := by
  have hcpu := (calm_dest (L := L) (s := s) hi).cpu
  obtain ⟨hd, hf⟩ := run_fp (L := L) (s := s) (floats_of_dest hi)
  have hmem : (i.run L s).mem = s.mem := by
    rw [Instr.run_mem, (dest_run (L := L) (s := s) hi).1]
    exact ite_self _
  exact ⟨hcpu.mode.trans h.mode, hcpu.spSvc.trans h.spSvc, hcpu.spIrq.trans h.spIrq, hd.trans h.d,
    hf.trans h.fpscr, hcpu.spSys.trans h.spSys, by rw [hmem, hcpu.spSys]; exact h.stack,
    by rw [hmem]; exact h.mem⟩

theorem Pushing.dests (h : Pushing o s ws) (hi : ∀ i ∈ is, i.op.dest.isSome = true) :
    Pushing o (L.runs is s) ws := by
  induction is generalizing s with
  | nil => exact h
  | cons i is ih => exact ih (h.dest (hi i List.mem_cons_self)) fun j hj => hi j (List.mem_cons_of_mem _ hj)

/-- **A push** in SYS mode. -/
theorem Pushing.push (h : Pushing o s ws) (hroom : 4 * (vs ++ ws).length ≤ o.cpu.spSys.toNat)
    (hc : i.cond.holds s.cpu.cpsr.nzcv = true)
    (hst : i.op.stores s.cpu = words (s.cpu.sp - BitVec.ofNat 32 (4 * vs.length)) vs)
    (hcpu : i.op.cpu L s.cpu s.mem =
      s.cpu.setSpOf s.cpu.cpsr.mode (s.cpu.sp - BitVec.ofNat 32 (4 * vs.length))) :
    Pushing o (i.run L s) (vs ++ ws) := by
  have hsp : s.cpu.sp = s.cpu.spSys := by
    rw [Cpu.sp, h.mode]
    rfl
  rw [h.mode, hsp] at hcpu
  rw [hsp] at hst
  have hlt := o.cpu.spSys.isLt
  rw [List.length_append] at hroom
  have hsub : s.cpu.spSys.toNat = o.cpu.spSys.toNat - 4 * ws.length := by
    rw [h.spSys, toNat_sub_eq (by rw [BitVec.toNat_ofNat]; omega), BitVec.toNat_ofNat]
    omega
  have hrun : i.run L s = { s with
      cpu := { s.cpu with spSys := s.cpu.spSys - BitVec.ofNat 32 (4 * vs.length) }
      mem := s.mem.store (words (s.cpu.spSys - BitVec.ofNat 32 (4 * vs.length)) vs)
      counted := s.counted ^^ i.op.counts L s.cpu } := by
    unfold Instr.run
    rw [if_pos hc, hcpu, hst]
    rfl
  rw [hrun]
  refine ⟨h.mode, h.spSvc, h.spIrq, h.d, h.fpscr, ?_, h.stack.push (by omega) (by omega), fun a ha => ?_⟩
  · show s.cpu.spSys - _ = _
    rw [h.spSys, BitVec.sub_sub, List.length_append, ← BitVec.ofNat_add, ← Nat.mul_add, Nat.add_comm]
  · rw [List.length_append] at ha
    rw [← h.mem a fun hb => ha ⟨by have := hb.1; omega, hb.2⟩]
    refine store_of_not_mem fun hmem => ha ?_
    obtain ⟨h1, h2⟩ := below_words s.cpu.spSys vs (by omega) a hmem
    exact ⟨by omega, by omega⟩

theorem Pushing.pushRegs {l : List Reg} {c : Cond} (h : Pushing o s ws)
    (hroom : 4 * (l.map s.cpu.get ++ ws).length ≤ o.cpu.spSys.toNat)
    (hc : c.holds s.cpu.cpsr.nzcv = true) :
    Pushing o ((Instr.mk c (.push l)).run L s) (l.map s.cpu.get ++ ws) := by
  have hlen : (l.map s.cpu.get).length = l.length := List.length_map _
  exact h.push hroom hc (by rw [hlen]; rfl) (by rw [hlen]; rfl)

/-- One register, of a known value. -/
theorem Pushing.pushReg {g : Reg} {c : Cond} {w : Word} (h : Pushing o s ws)
    (hroom : 4 * (ws.length + 1) ≤ o.cpu.spSys.toNat) (hc : c.holds s.cpu.cpsr.nzcv = true)
    (hw : s.cpu.get g = w) : Pushing o ((Instr.mk c (.push [g])).run L s) ([w] ++ ws) := by
  subst hw
  exact h.pushRegs (l := [g]) hroom hc

/-- The state in which `portSAVE_CONTEXT` begins. -/
structure Suspending (t : Trap) (o s : St) : Prop where
  r : s.cpu.r = o.cpu.r
  lrSys : s.cpu.lrSys = o.cpu.lrSys
  spSys : s.cpu.spSys = o.cpu.spSys
  lr : s.cpu.lr = (Sleeper.mk t o s).pc
  spsr : s.cpu.spsr = o.cpu.cpsr

theorem map_get_allRegs {c : Cpu} (h : c.cpsr.mode = sysMode) :
    allRegs.map c.get = List.ofFn c.r ++ [c.lrSys] := by
  have hlr : c.get .lr = c.lrSys := by
    show c.lr = _
    rw [Cpu.lr, h]
    rfl
  rw [allRegs, List.map_append, List.map_ofFn, List.map_singleton, hlr]
  rfl

/-- `SRSDB` and the change to SYS mode. -/
theorem pushing_srsdb (h : 8 ≤ s.cpu.spSys.toNat) :
    Pushing s (L.runs [Op.srsdb sysMode, Op.cps sysMode] s) [s.cpu.lr, s.cpu.spsr.toWord] := by
  have hlt := s.cpu.spSys.isLt
  have hempty : OnStack s.mem s.cpu.spSys [] := rfl
  have hlen : 4 * [s.cpu.lr, s.cpu.spsr.toWord].length ≤ s.cpu.spSys.toNat := h
  refine ⟨rfl, rfl, rfl, rfl, rfl, rfl, hempty.push (Nat.le_of_lt hlt) hlen, fun a ha => ?_⟩
  have hout : a ∉ (words (s.cpu.spSys - 8) [s.cpu.lr, s.cpu.spsr.toWord]).map Prod.fst :=
    fun hmem => ha (below_words s.cpu.spSys _ hlen a hmem)
  exact store_of_not_mem hout

/-- A variable is read between pushes. -/
theorem Pushing.get_loadVar {b d : Reg} {v : Sym} (h : Pushing o s ws) (hb : b.scratch = true)
    (hd : d.scratch = true) (hne : d ≠ b) (hv : ¬ Below o.cpu.spSys (4 * ws.length) (L.sym v)) :
    (L.runs [Op.ldrSym b v, Op.ldr d b 0] s).cpu.get d = o.mem (L.sym v) :=
  (Port.get_loadVar hb hd hne).2.trans (h.mem _ hv)

theorem pushing_pushContext {t : Trap} (h : Suspending t o s) (hroom : 68 ≤ s.cpu.spSys.toNat)
    (hv : ¬ Below s.cpu.spSys 64 (L.sym .ulCriticalNesting)) :
    Pushing s (L.runs pushContext s) (L.critical s.mem :: (Sleeper.mk t o s).regWords) := by
  have h2 := pushing_srsdb (L := L) (s := s) (by omega)
  generalize hs₁ : L.runs [Op.srsdb sysMode, Op.cps sysMode] s = s₁ at h2
  have hr : s₁.cpu.r = o.cpu.r := by
    rw [← hs₁]
    exact h.r
  have hlr : s₁.cpu.lrSys = o.cpu.lrSys := by
    rw [← hs₁]
    exact h.lrSys
  have hregs : allRegs.map s₁.cpu.get ++ [s.cpu.lr, s.cpu.spsr.toWord] = (Sleeper.mk t o s).regWords := by
    rw [map_get_allRegs h2.mode, hr, hlr, h.lr, h.spsr, List.append_assoc]
    rfl
  have h16 : ((Sleeper.mk t o s).regWords).length = 16 := by
    rw [Sleeper.regWords, List.length_append, List.length_ofFn]
    rfl
  have hpush := h2.pushRegs (L := L) (l := allRegs) (c := .al) (by rw [hregs, h16]; omega) rfl
  rw [hregs] at hpush
  generalize hs₂ : (Instr.mk .al (Op.push allRegs)).run L s₁ = s₂ at hpush
  have hload := hpush.get_loadVar (L := L) (b := r2) (d := r1) (v := .ulCriticalNesting) rfl rfl (by decide)
    (by rwa [h16])
  have hdest : Pushing s (L.runs [Op.ldrSym r2 .ulCriticalNesting, Op.ldr r1 r2 0] s₂) _ :=
    hpush.dests (by decide)
  subst hs₂ hs₁
  refine hdest.pushReg (c := .al) ?_ rfl hload
  rw [h16]
  omega

/-- Pushes leave the other registers and the flags alone. -/
theorem depth_run (h : 0 < i.op.depth) :
    (i.run L s).cpu.r = s.cpu.r ∧ (i.run L s).cpu.cpsr = s.cpu.cpsr := by
  rw [Instr.run_cpu]
  obtain ⟨cond, op⟩ := i
  split_ifs
  · cases op with
    | push | vpush => exact ⟨Cpu.setSpOf_r _ _ _, Cpu.setSpOf_cpsr _ _ _⟩
    | _ => cases h
  · exact ⟨rfl, rfl⟩

/-- FPSCR and D0 to D15, with the flag on top. -/
theorem Pushing.floating (h : Pushing o s ws) {w : Word} (hroom : 136 + 4 * ws.length ≤ o.cpu.spSys.toNat)
    (hne : Cond.ne.holds s.cpu.cpsr.nzcv = true) (hr : s.cpu.r 3 = w) :
    Pushing o (L.runs [⟨.ne, Op.fmrx r1⟩, ⟨.ne, Op.vpush⟩, ⟨.ne, Op.push [r1]⟩, Op.push [r3]] s)
      ([w] ++ ([o.cpu.fpscr] ++ (List.ofFn o.cpu.d ++ ws))) := by
  have h31 : (3 : Fin 13) ≠ 1 := by decide
  have hlen : (List.ofFn o.cpu.d).length = 32 := List.length_ofFn
  have hfmrx : ((Instr.mk .ne (Op.fmrx r1)).run L s).cpu = s.cpu.set r1 s.cpu.fpscr := by
    rw [Instr.run_cpu, if_pos hne]
    rfl
  have h1 := h.dest (L := L) (i := ⟨.ne, Op.fmrx r1⟩) rfl
  have hr1 : ((Instr.mk .ne (Op.fmrx r1)).run L s).cpu.r 1 = o.cpu.fpscr := by
    rw [hfmrx, ← h.fpscr]
    exact Function.update_self 1 s.cpu.fpscr s.cpu.r
  have hr3 : ((Instr.mk .ne (Op.fmrx r1)).run L s).cpu.r 3 = w := by
    rw [hfmrx, ← hr]
    exact Function.update_of_ne h31 s.cpu.fpscr s.cpu.r
  have hne1 : Cond.ne.holds ((Instr.mk .ne (Op.fmrx r1)).run L s).cpu.cpsr.nzcv = true := by
    rwa [hfmrx, Cpu.set_cpsr]
  rw [runs_cons]
  generalize (Instr.mk .ne (Op.fmrx r1)).run L s = s₁ at h1 hr1 hr3 hne1
  -- the double words
  have h2 : Pushing o ((Instr.mk .ne Op.vpush).run L s₁) (List.ofFn o.cpu.d ++ ws) := by
    rw [← h1.d]
    have hl : (List.ofFn s₁.cpu.d).length = 32 := List.length_ofFn
    refine h1.push ?_ hne1 (by rw [hl]; rfl) (by rw [hl]; rfl)
    rw [List.length_append, hl]
    omega
  obtain ⟨hr2, hcpsr⟩ := depth_run (L := L) (s := s₁) (i := ⟨.ne, Op.vpush⟩) (Nat.zero_lt_succ _)
  rw [runs_cons]
  generalize (Instr.mk .ne Op.vpush).run L s₁ = s₂ at h2 hr2 hcpsr
  rw [← hcpsr] at hne1
  rw [← hr2] at hr1 hr3
  -- FPSCR
  have h3 := h2.pushReg (L := L) (g := r1) (by rw [List.length_append, hlen]; omega) hne1 hr1
  have hr4 := (depth_run (L := L) (s := s₂) (i := ⟨.ne, Op.push [r1]⟩) (Nat.zero_lt_succ _)).1
  rw [runs_cons]
  generalize (Instr.mk .ne (Op.push [r1])).run L s₂ = s₃ at h3 hr4
  rw [← hr4] at hr3
  -- the flag
  refine h3.pushReg (g := r3) (c := .al) ?_ rfl hr3
  rw [List.length_append, List.length_append, List.length_singleton, hlen]
  omega

theorem pushing_pushFpu {t : Trap} (fpu : Bool) (h : Pushing o s ws) {q : St}
    (hroom : 136 + 4 * ws.length ≤ o.cpu.spSys.toNat)
    (hv : ¬ Below o.cpu.spSys (4 * ws.length) (L.sym .ulPortTaskHasFPUContext)) :
    Pushing o (L.runs (pushFpu fpu) s) ((Sleeper.mk t q o).fpWords L fpu ++ ws) := by
  cases fpu with
  | false => exact h
  | true =>
    have hload := h.get_loadVar (L := L) (b := r2) (d := r3) (v := .ulPortTaskHasFPUContext) rfl rfl
      (by decide) hv
    have hdest : Pushing o (L.runs [Op.ldrSym r2 .ulPortTaskHasFPUContext, Op.ldr r3 r2 0] s) ws :=
      h.dests (by decide)
    have hcmp := hdest.dest (L := L) (i := Op.cmp r3 (.imm 0)) rfl
    have hflags := (ne_holds_cmp (L := L)
      (s := L.runs [Op.ldrSym r2 .ulPortTaskHasFPUContext, Op.ldr r3 r2 0] s) r3 0).trans
        (congrArg (· != (0 : Word)) hload)
    have hr3 := (get_run (L := L) (i := Op.cmp r3 (.imm 0)) (g := r3) rfl rfl).trans hload
    show Pushing o (L.runs [⟨.ne, Op.fmrx r1⟩, ⟨.ne, Op.vpush⟩, ⟨.ne, Op.push [r1]⟩, Op.push [r3]]
      ((Instr.mk .al (Op.cmp r3 (.imm 0))).run L
        (L.runs [Op.ldrSym r2 .ulPortTaskHasFPUContext, Op.ldr r3 r2 0] s))) _
    generalize (Instr.mk .al (Op.cmp r3 (.imm 0))).run L
      (L.runs [Op.ldrSym r2 .ulPortTaskHasFPUContext, Op.ldr r3 r2 0] s) = s₁ at hcmp hflags hr3
    have hwords : (Sleeper.mk t q o).fpWords L true = L.flag o.mem ::
        if L.flag o.mem = 0 then [] else o.cpu.fpscr :: List.ofFn o.cpu.d := rfl
    rw [hwords]
    split_ifs with hz
    · have hne : Cond.ne.holds s₁.cpu.cpsr.nzcv = false := by
        rw [hflags]
        exact bne_eq_false_iff_eq.mpr hz
      rw [runs_cons, run_of_not_holds hne, runs_cons, run_of_not_holds hne, runs_cons, run_of_not_holds hne]
      exact hcmp.pushReg (c := .al) (by omega) rfl hr3
    · have hne : Cond.ne.holds s₁.cpu.cpsr.nzcv = true := by
        rw [hflags]
        exact bne_iff_ne.mpr hz
      have hpush := hcmp.floating (L := L) hroom hne hr3
      rwa [← List.append_assoc, ← List.append_assoc] at hpush

theorem length_regWords (x : Sleeper) : x.regWords.length = 16 := by
  rw [Sleeper.regWords, List.length_append, List.length_ofFn]
  rfl

theorem length_fpWords (x : Sleeper) (fpu : Bool) : (x.fpWords L fpu).length ≤ 34 := by
  have hlen : (List.ofFn x.saved.cpu.d).length = 32 := List.length_ofFn
  unfold Sleeper.fpWords
  split_ifs <;> simp only [List.length_cons, List.length_nil, hlen] <;> omega

theorem length_words (x : Sleeper) (fpu : Bool) : 4 * (x.words L fpu).length ≤ 204 := by
  have hlen := length_fpWords (L := L) x fpu
  rw [Sleeper.words, List.length_append, List.length_cons, length_regWords]
  omega

theorem Below.mono {n k : ℕ} {sp : Word} (h : Below sp n a) (hn : n ≤ k) : Below sp k a :=
  ⟨by have := h.1; omega, h.2⟩

theorem cell_sym {v : Sym} (h : 0 < v.size) : L.Cell v (L.sym v) := ⟨0, h, (BitVec.add_zero _).symm⟩

/-- What is stored of a task depends on few parts of its last state. -/
theorem words_congr {t : Trap} {fpu : Bool} {s' : St} (hc : L.critical s'.mem = L.critical s.mem)
    (hf : L.flag s'.mem = L.flag s.mem) (hd : s'.cpu.d = s.cpu.d) (hp : s'.cpu.fpscr = s.cpu.fpscr) :
    (Sleeper.mk t o s').words L fpu = (Sleeper.mk t o s).words L fpu := by
  simp only [Sleeper.words, Sleeper.fpWords, hc, hf, hd, hp]
  rfl

/-- Where `vTaskSwitchContext` is called, from state `s` on. -/
structure Suspended (L : Layout) (fpu : Bool) (t : Trap) (o s s' : St) : Prop where
  stored : Stored L fpu (L.tcb s.mem) ⟨t, o, s'⟩ s'.mem
  mode : s'.cpu.cpsr.mode = sysMode
  spSvc : s'.cpu.spSvc = s.cpu.spSvc
  spIrq : s'.cpu.spIrq = s.cpu.spIrq
  mem : ∀ a v, L.Cell v a → s'.mem a = s.mem a

theorem run_storeSp (hmode : s.cpu.cpsr.mode = sysMode) :
    (∃ r, (L.runs storeSp s).cpu = { s.cpu with r := r }) ∧
      (L.runs storeSp s).mem = Function.update s.mem (L.tcb s.mem) s.cpu.spSys := by
  have hsp : s.cpu.sp = s.cpu.spSys := by
    rw [Cpu.sp, hmode]
    rfl
  refine ⟨⟨_, rfl⟩, ?_⟩
  rw [← hsp]
  simp only [storeSp, runs_cons, runs_nil, run_al, Op.cpu, Op.stores, Cpu.get, Cpu.set, Mem.store, r0, r1,
    Function.update_self, BitVec.ofNat_eq_ofNat, BitVec.add_zero]
  rfl

/-- **`portSAVE_CONTEXT`.** -/
theorem suspended_portSaveContext {t : Trap} (fpu : Bool) (h : Suspending t o s)
    (hroom : 204 ≤ s.cpu.spSys.toNat) (hcells : ∀ a v, Below s.cpu.spSys 204 a → ¬ L.Cell v a)
    (htcb : ∀ v, ¬ L.Cell v (L.tcb s.mem)) (hown : ¬ Below s.cpu.spSys 204 (L.tcb s.mem)) :
    Suspended L fpu t o s (L.runs storeSp (L.runs (pushFpu fpu) (L.runs pushContext s))) := by
  have hout : ∀ v : Sym, 0 < v.size → ∀ n ≤ 204, ¬ Below s.cpu.spSys n (L.sym v) :=
    fun v hv n hn hb => hcells _ v (hb.mono hn) (cell_sym hv)
  have hpush := pushing_pushContext (L := L) h (by omega) (hout _ (by decide) 64 (by decide))
  have hlen : (L.critical s.mem :: (Sleeper.mk t o s).regWords).length = 17 := by
    rw [List.length_cons, length_regWords]
  have hfpu := pushing_pushFpu (L := L) (t := t) (q := o) fpu hpush (by omega)
    (hout _ (by decide) _ (by omega))
  generalize L.runs (pushFpu fpu) (L.runs pushContext s) = s₁ at hfpu
  have hws : (Sleeper.mk t o s).fpWords L fpu ++ L.critical s.mem :: (Sleeper.mk t o s).regWords =
    (Sleeper.mk t o s).words L fpu := rfl
  rw [hws] at hfpu
  have hle := length_words (L := L) (Sleeper.mk t o s) fpu
  obtain ⟨⟨r, hcpu⟩, hmem⟩ := run_storeSp (L := L) hfpu.mode
  have hcell₁ : ∀ a v, L.Cell v a → s₁.mem a = s.mem a :=
    fun a v hv => hfpu.mem a fun hb => hcells a v (hb.mono hle) hv
  have htcb₁ : L.tcb s₁.mem = L.tcb s.mem := hcell₁ _ _ (cell_sym (by decide))
  rw [htcb₁] at hmem
  have hcell : ∀ a v, L.Cell v a → (L.runs storeSp s₁).mem a = s.mem a := by
    intro a v hv
    have hne : a ≠ L.tcb s.mem := by
      rintro rfl
      exact htcb v hv
    rw [hmem, Function.update_of_ne hne]
    exact hcell₁ a v hv
  generalize L.runs storeSp s₁ = s₂ at hcpu hmem hcell
  have hcong : (Sleeper.mk t o s₂).words L fpu = (Sleeper.mk t o s).words L fpu :=
    words_congr (hcell _ _ (cell_sym (by decide))) (hcell _ _ (cell_sym (by decide)))
      (by rw [hcpu]; exact hfpu.d) (by rw [hcpu]; exact hfpu.fpscr)
  have hsp : s₁.cpu.spSys = (Sleeper.mk t o s₂).top L fpu := by
    rw [hfpu.spSys, h.spSys, ← hcong]
    rfl
  have hstack : OnStack s₂.mem s₁.cpu.spSys ((Sleeper.mk t o s₂).words L fpu) := by
    rw [hcong]
    have hlt := s.cpu.spSys.isLt
    have hsub : s₁.cpu.spSys.toNat = s.cpu.spSys.toNat - 4 * ((Sleeper.mk t o s).words L fpu).length := by
      rw [hfpu.spSys, toNat_sub_eq (by rw [BitVec.toNat_ofNat]; omega), BitVec.toNat_ofNat]
      omega
    refine hfpu.stack.congr (by omega) fun b hb hb' => ?_
    rw [hmem]
    refine Function.update_of_ne ?_ _ _
    rintro rfl
    exact hown ⟨by omega, by omega⟩
  refine ⟨⟨?_, ?_, htcb, ?_, ?_⟩, ?_, ?_, ?_, hcell⟩
  · rw [hcong, ← h.spSys]
    exact Nat.le_trans hle hroom
  · rw [hcong, ← h.spSys]
    exact fun a v hb => hcells a v (hb.mono hle)
  · rw [hmem, ← hsp]
    exact Function.update_self _ _ _
  · rwa [← hsp]
  · rw [hcpu]
    exact hfpu.mode
  · rw [hcpu]
    exact hfpu.spSvc
  · rw [hcpu]
    exact hfpu.spIrq

end Save

/-! ## Restoring -/

theorem setAll_append (c : Cpu) (l l' : List (Reg × Word)) : c.setAll (l ++ l') = (c.setAll l).setAll l' := by
  induction l generalizing c with
  | nil => rfl
  | cons w l ih => exact ih _

/-- A list of different registers is popped. -/
theorem setAll_ofFn {n : ℕ} (g : Fin n → Fin 13) (f : Fin n → Word) (c : Cpu) :
    ∃ r, c.setAll ((List.ofFn fun i => Reg.r (g i)).zip (List.ofFn f)) = { c with r := r } ∧
      (∀ j, (∀ i, g i ≠ j) → r j = c.r j) ∧ (g.Injective → ∀ i, r (g i) = f i) := by
  induction n generalizing c with
  | zero => exact ⟨c.r, rfl, fun _ _ => rfl, fun _ i => i.elim0⟩
  | succ n ih =>
    rw [List.ofFn_succ, List.ofFn_succ, List.zip_cons_cons]
    obtain ⟨r, hr, hout, hin⟩ := ih (fun i => g i.succ) (fun i => f i.succ) (c.set (.r (g 0)) (f 0))
    refine ⟨r, hr, fun j hj => ?_, fun hg i => ?_⟩
    · rw [hout j fun i => hj i.succ]
      exact Function.update_of_ne (fun h => hj 0 h.symm) _ _
    · cases i using Fin.cases with
      | zero =>
        rw [hout _ fun i h => Fin.succ_ne_zero i (hg h)]
        exact Function.update_self _ _ _
      | succ i => exact hin (fun i j h => Fin.succ_inj.mp (hg h)) i

theorem setAll_allRegs (c : Cpu) (f : Fin 13 → Word) (w : Word) :
    c.setAll (allRegs.zip (List.ofFn f ++ [w])) = ({ c with r := f } : Cpu).setLr w := by
  rw [allRegs, List.zip_append (by rw [List.length_ofFn, List.length_ofFn]), setAll_append]
  obtain ⟨r, hr, -, hin⟩ := setAll_ofFn id f c
  have hf : r = f := funext (hin Function.injective_id)
  rw [hf] at hr
  exact congrArg (Cpu.setLr · w) hr

/-- In SYS mode, with the list `ws` still on the stack of the task. -/
structure Popping (L : Layout) (x : Sleeper) (s : St) (ws : List Word) : Prop where
  mode : s.cpu.cpsr.mode = sysMode
  room : 4 * ws.length ≤ x.orig.cpu.spSys.toNat
  apart : ∀ a v, Below x.orig.cpu.spSys (4 * ws.length) a → ¬ L.Cell v a
  spSys : s.cpu.spSys = x.orig.cpu.spSys - BitVec.ofNat 32 (4 * ws.length)
  stack : OnStack s.mem s.cpu.spSys ws

section Restore

variable {L : Layout} {fpu : Bool} {x : Sleeper} {s s' : St} {i : Instr} {is : List Instr} {ws : List Word}
  {w : Word}
  {v : Sym}

theorem run_loadSp (hmode : s.cpu.cpsr.mode = sysMode) :
    (∃ r, (L.runs loadSp s).cpu = { s.cpu with r := r, spSys := s.mem (L.tcb s.mem) }) ∧
      (L.runs loadSp s).mem = s.mem := by
  have hset : ∀ (c : Cpu) (w : Word), c.cpsr.mode = sysMode → c.set .sp w = { c with spSys := w } := by
    intro c w hc
    show c.setSpOf c.cpsr.mode w = _
    rw [hc]
    rfl
  refine ⟨⟨Function.update (Function.update s.cpu.r 0 (L.sym .pxCurrentTCB)) 1 (L.tcb s.mem), ?_⟩, rfl⟩
  simp only [loadSp, runs_cons, runs_nil, run_al, Op.cpu, Op.stores, Mem.store]
  refine (hset _ _ ?_).trans ?_
  · exact hmode
  simp only [Cpu.get, Cpu.set, Function.update_self, BitVec.ofNat_eq_ofNat, BitVec.add_zero]
  rfl

/-- The stack pointer of the task is loaded. -/
theorem Stored.popping (fpu : Bool) (h : Stored L fpu (L.tcb s.mem) x s.mem)
    (hmode : s.cpu.cpsr.mode = sysMode) :
    Popping L x (L.runs loadSp s) (x.words L fpu) := by
  obtain ⟨⟨r, hcpu⟩, hmem⟩ := run_loadSp (L := L) hmode
  refine ⟨by rw [hcpu]; exact hmode, h.room, h.apart, by rw [hcpu]; exact h.sp, ?_⟩
  rw [hcpu, hmem]
  show OnStack s.mem (s.mem (L.tcb s.mem)) _
  rw [h.sp]
  exact h.words

/-- Words are taken from the stack. -/
theorem Popping.pop (vs : List Word) (h : Popping L x s (vs ++ ws)) (hmode : s'.cpu.cpsr.mode = sysMode)
    (hsp : s'.cpu.spSys = s.cpu.spSys + BitVec.ofNat 32 (4 * vs.length))
    (hmem : ∀ a, (∀ v, ¬ L.Cell v a) → s'.mem a = s.mem a) : Popping L x s' ws := by
  have hroom := h.room
  have hlt := x.orig.cpu.spSys.isLt
  rw [List.length_append] at hroom
  have hsp' : s'.cpu.spSys = x.orig.cpu.spSys - BitVec.ofNat 32 (4 * ws.length) := by
    rw [hsp, h.spSys, List.length_append, Nat.add_comm, Nat.mul_add, BitVec.ofNat_add, ← BitVec.sub_sub,
      BitVec.sub_add_cancel]
  have hsub : s'.cpu.spSys.toNat = x.orig.cpu.spSys.toNat - 4 * ws.length := by
    rw [hsp', toNat_sub_eq (by rw [BitVec.toNat_ofNat]; omega), BitVec.toNat_ofNat]
    omega
  have hapart : ∀ a v, Below x.orig.cpu.spSys (4 * ws.length) a → ¬ L.Cell v a := by
    refine fun a v ha => h.apart a v (ha.mono ?_)
    rw [List.length_append]
    omega
  have hstack := (onStack_append.mp h.stack).2
  rw [← hsp] at hstack
  exact ⟨hmode, by omega, hapart, hsp', hstack.congr (by omega) fun b hb hb' =>
    hmem b fun v => hapart b v ⟨by omega, by omega⟩⟩

/-- A word is taken from the stack and stored in a variable. -/
def popVar (v : Sym) : List Instr := [Op.ldrSym r0 v, Op.pop [r1], Op.str r1 r0 0]

theorem run_popVar (hmode : s.cpu.cpsr.mode = sysMode) : (L.runs (popVar v) s).cpu = { s.cpu with
      r := Function.update (Function.update s.cpu.r 0 (L.sym v)) 1 (s.mem s.cpu.spSys)
      spSys := s.cpu.spSys + 4 } ∧
    (L.runs (popVar v) s).mem = Function.update s.mem (L.sym v) (s.mem s.cpu.spSys) := by
  have h01 : (0 : Fin 13) ≠ 1 := by decide
  have hsvc : sysMode ≠ svcMode := by decide
  have hirq : sysMode ≠ irqMode := by decide
  simp only [popVar, runs_cons, runs_nil, run_al, Op.cpu, Op.stores]
  simp only [Cpu.get, Cpu.set, Cpu.setAll, Cpu.sp, Cpu.spOf, Cpu.setSpOf, hmode, hsvc, hirq, if_false, r1,
    loads, List.zip, List.zipWith, List.length, Mem.store, Nat.mul_one, Nat.zero_add, BitVec.ofNat_eq_ofNat,
    Function.update_self, Function.update_of_ne h01, BitVec.add_zero, and_self]

theorem Popping.popVar (h : Popping L x s (w :: ws)) (hv : 0 < v.size) :
    Popping L x (L.runs (popVar v) s) ws ∧ (L.runs (popVar v) s).mem = Function.update s.mem (L.sym v) w ∧
      (L.runs (popVar v) s).cpu.r 1 = w := by
  obtain ⟨hcpu, hmem⟩ := run_popVar (L := L) (v := v) h.mode
  rw [(onStack_cons.mp h.stack).1] at hcpu hmem
  refine ⟨h.pop [w] (by rw [hcpu]; exact h.mode) (by rw [hcpu]; rfl) fun a ha => ?_, hmem, ?_⟩
  · rw [hmem]
    refine Function.update_of_ne ?_ _ _
    rintro rfl
    exact ha v (cell_sym hv)
  · rw [hcpu]
    show Function.update (Function.update s.cpu.r 0 (L.sym v)) 1 w 1 = w
    exact Function.update_self _ _ _

theorem run_floats (hmode : s.cpu.cpsr.mode = sysMode) (hne : Cond.ne.holds s.cpu.cpsr.nzcv = true) :
    (L.runs [⟨.ne, Op.pop [r0]⟩, ⟨.ne, Op.vpop⟩, ⟨.ne, Op.vmsr r0⟩] s).cpu = { s.cpu with
      r := Function.update s.cpu.r 0 (s.mem s.cpu.spSys)
      spSys := s.cpu.spSys + 4 + 128
      d := fun i => s.mem (s.cpu.spSys + 4 + BitVec.ofNat 32 (4 * i))
      fpscr := s.mem s.cpu.spSys } ∧
    (L.runs [⟨.ne, Op.pop [r0]⟩, ⟨.ne, Op.vpop⟩, ⟨.ne, Op.vmsr r0⟩] s).mem = s.mem := by
  have hsvc : sysMode ≠ svcMode := by decide
  have hirq : sysMode ≠ irqMode := by decide
  simp only [runs_cons, runs_nil, Instr.run, Op.cpu, Op.stores, Cpu.get, Cpu.set, Cpu.setAll, Cpu.sp, Cpu.spOf,
    Cpu.setSpOf, hmode, hne, hsvc, hirq, if_true, if_false, r0, loads, List.zip, List.zipWith, List.length,
    Mem.store, Nat.mul_one, Nat.zero_add, BitVec.ofNat_eq_ofNat, Function.update_self, and_self]

/-- FPSCR and the floating-point registers, behind a flag that is set. -/
theorem Popping.popFloats (h : Popping L x s (x.saved.cpu.fpscr :: List.ofFn x.saved.cpu.d ++ ws))
    (hne : Cond.ne.holds s.cpu.cpsr.nzcv = true) :
    Popping L x (L.runs [⟨.ne, Op.pop [r0]⟩, ⟨.ne, Op.vpop⟩, ⟨.ne, Op.vmsr r0⟩] s) ws ∧
      (L.runs [⟨.ne, Op.pop [r0]⟩, ⟨.ne, Op.vpop⟩, ⟨.ne, Op.vmsr r0⟩] s).mem = s.mem ∧
      (L.runs [⟨.ne, Op.pop [r0]⟩, ⟨.ne, Op.vpop⟩, ⟨.ne, Op.vmsr r0⟩] s).cpu.d = x.saved.cpu.d ∧
      (L.runs [⟨.ne, Op.pop [r0]⟩, ⟨.ne, Op.vpop⟩, ⟨.ne, Op.vmsr r0⟩] s).cpu.fpscr =
        x.saved.cpu.fpscr := by
  obtain ⟨hcpu, hm⟩ := run_floats (L := L) h.mode hne
  generalize L.runs [⟨.ne, Op.pop [r0]⟩, ⟨.ne, Op.vpop⟩, ⟨.ne, Op.vmsr r0⟩] s = s' at hcpu hm
  obtain ⟨hfpscr, hstack⟩ := onStack_cons.mp h.stack
  have hlen : (List.ofFn x.saved.cpu.d).length = 32 := List.length_ofFn
  have hd : s'.cpu.d = x.saved.cpu.d := by
    funext i
    have hi : i.val < (loads s.mem (s.cpu.spSys + 4) 32).length := by
      rw [length_loads]
      exact i.isLt
    have hget := loads_getElem s.mem (s.cpu.spSys + 4) 32 i.val hi
    have hloads := (onStack_append.mp hstack).1
    unfold OnStack at hloads
    rw [hlen] at hloads
    simp only [hloads, List.getElem_ofFn] at hget
    rw [hcpu]
    exact hget.symm
  refine ⟨h.pop (x.saved.cpu.fpscr :: List.ofFn x.saved.cpu.d) (by rw [hcpu]; exact h.mode) ?_
    fun a _ => by rw [hm], hm, hd, ?_⟩
  · rw [hcpu, List.length_cons, hlen]
    exact BitVec.add_assoc _ _ _
  · rw [hcpu]
    exact hfpscr

/-- **The floating-point context** is back, if the task has one. -/
theorem Popping.popFpu (h : Popping L x s (x.fpWords L fpu ++ ws)) :
    Popping L x (L.runs (popFpu fpu) s) ws ∧
    (fpu = true → L.flag (L.runs (popFpu fpu) s).mem = L.flag x.saved.mem) ∧
    (fpu = true → L.flag x.saved.mem ≠ 0 → (L.runs (popFpu fpu) s).cpu.d = x.saved.cpu.d ∧
      (L.runs (popFpu fpu) s).cpu.fpscr = x.saved.cpu.fpscr) := by
  cases fpu with
  | false => exact ⟨h, (fun h => by cases h), fun h => by cases h⟩
  | true =>
    have hwords : x.fpWords L true ++ ws = L.flag x.saved.mem ::
        ((if L.flag x.saved.mem = 0 then [] else x.saved.cpu.fpscr :: List.ofFn x.saved.cpu.d) ++ ws) := rfl
    rw [hwords] at h
    obtain ⟨hpop, hmem, hr1⟩ := h.popVar (v := .ulPortTaskHasFPUContext) (by decide)
    have hflag := congrFun hmem (L.sym .ulPortTaskHasFPUContext)
    rw [Function.update_self] at hflag
    have hrun : L.runs (Port.popFpu true) s = L.runs [⟨.ne, Op.pop [r0]⟩, ⟨.ne, Op.vpop⟩, ⟨.ne, Op.vmsr r0⟩]
      ((Instr.mk .al (Op.cmp r1 (.imm 0))).run L (L.runs (Port.popVar .ulPortTaskHasFPUContext) s)) := rfl
    rw [hrun]
    have hcmp := (ne_holds_cmp (L := L) (s := L.runs (Port.popVar .ulPortTaskHasFPUContext) s) r1 0).trans
      (congrArg (· != (0 : Word)) hr1)
    generalize L.runs (Port.popVar .ulPortTaskHasFPUContext) s = s₁ at hpop hmem hr1 hflag hcmp
    have hcpu : ((Instr.mk .al (Op.cmp r1 (.imm 0))).run L s₁).cpu.spSys = s₁.cpu.spSys := rfl
    have hpop : Popping L x ((Instr.mk .al (Op.cmp r1 (.imm 0))).run L s₁) _ :=
      hpop.pop [] hpop.mode (by rw [hcpu]; exact (BitVec.add_zero _).symm) fun _ _ => rfl
    have hmem : ((Instr.mk .al (Op.cmp r1 (.imm 0))).run L s₁).mem (L.sym .ulPortTaskHasFPUContext) =
      L.flag x.saved.mem := hflag
    generalize (Instr.mk .al (Op.cmp r1 (.imm 0))).run L s₁ = s₂ at hpop hmem hcmp
    by_cases hz : L.flag x.saved.mem = 0
    · have hne : Cond.ne.holds s₂.cpu.cpsr.nzcv = false := by
        rw [hcmp]
        exact bne_eq_false_iff_eq.mpr hz
      rw [if_pos hz] at hpop
      rw [runs_cons, run_of_not_holds hne, runs_cons, run_of_not_holds hne, runs_cons, run_of_not_holds hne]
      exact ⟨hpop, fun _ => hmem, fun _ h => absurd hz h⟩
    · have hne : Cond.ne.holds s₂.cpu.cpsr.nzcv = true := by
        rw [hcmp]
        exact bne_iff_ne.mpr hz
      rw [if_neg hz] at hpop
      obtain ⟨hpop, hm, hd, hfpscr⟩ := hpop.popFloats hne
      exact ⟨hpop, fun _ => (congrFun hm _).trans hmem, fun _ _ => ⟨hd, hfpscr⟩⟩

theorem runs_fp (is : List Instr) (h : ∀ i ∈ is, i.op.floats = false) :
    (L.runs is s).cpu.d = s.cpu.d ∧ (L.runs is s).cpu.fpscr = s.cpu.fpscr := by
  induction is generalizing s with
  | nil => exact ⟨rfl, rfl⟩
  | cons i is ih =>
    obtain ⟨hd, hf⟩ := run_fp (L := L) (s := s) (h i List.mem_cons_self)
    obtain ⟨hd', hf'⟩ := ih (s := i.run L s) fun j hj => h j (List.mem_cons_of_mem _ hj)
    exact ⟨hd'.trans hd, hf'.trans hf⟩

theorem run_popRegs {f : Fin 13 → Word} (hmode : s.cpu.cpsr.mode = sysMode)
    (h : OnStack s.mem s.cpu.spSys (List.ofFn f ++ [w])) :
    ((Instr.mk .al (Op.pop allRegs)).run L s).cpu = { s.cpu with
      r := f
      lrSys := w
      spSys := s.cpu.spSys + 56 } ∧
    ((Instr.mk .al (Op.pop allRegs)).run L s).mem = s.mem := by
  refine ⟨?_, rfl⟩
  have hlen : (List.ofFn f ++ [w]).length = allRegs.length := by
    rw [allRegs, List.length_append, List.length_append, List.length_ofFn, List.length_ofFn]
    rfl
  have hsp : s.cpu.sp = s.cpu.spSys := by
    rw [Cpu.sp, hmode]
    rfl
  unfold OnStack at h
  rw [hlen] at h
  rw [run_al]
  show (s.cpu.setSpOf s.cpu.cpsr.mode _).setAll (allRegs.zip (loads s.mem s.cpu.sp allRegs.length)) = _
  rw [hsp, h, setAll_allRegs, hmode]
  show Cpu.setLr { s.cpu with r := f, spSys := _ } w = _
  rw [Cpu.setLr]
  show (if s.cpu.cpsr.mode = svcMode then _ else _) = _
  rw [hmode]
  rfl

/-- **The registers** are back. -/
theorem Popping.popContext (h : Popping L x s (L.critical x.saved.mem :: x.regWords)) :
    Popping L x (L.runs popContext s) [x.pc, x.orig.cpu.cpsr.toWord] ∧
    L.critical (L.runs popContext s).mem = L.critical x.saved.mem ∧
    L.flag (L.runs popContext s).mem = L.flag s.mem ∧
    (L.runs popContext s).cpu.r = x.orig.cpu.r ∧ (L.runs popContext s).cpu.lrSys = x.orig.cpu.lrSys := by
  obtain ⟨hpop, hmem, -⟩ := h.popVar (v := .ulCriticalNesting) (by decide)
  have hrun : L.runs Port.popContext s =
    (Instr.mk .al (Op.pop allRegs)).run L (L.runs (Port.popVar .ulCriticalNesting) s) := rfl
  rw [hrun]
  generalize L.runs (Port.popVar .ulCriticalNesting) s = s₁ at hpop hmem
  have hregs : x.regWords =
      (List.ofFn x.orig.cpu.r ++ [x.orig.cpu.lrSys]) ++ [x.pc, x.orig.cpu.cpsr.toWord] := by
    rw [List.append_assoc]
    rfl
  rw [hregs] at hpop
  obtain ⟨hcpu, hm⟩ := run_popRegs (L := L) hpop.mode (onStack_append.mp hpop.stack).1
  generalize (Instr.mk .al (Op.pop allRegs)).run L s₁ = s₂ at hcpu hm
  refine ⟨hpop.pop _ (by rw [hcpu]; exact hpop.mode) ?_ fun a _ => by rw [hm], ?_, ?_, by rw [hcpu],
    by rw [hcpu]⟩
  · rw [hcpu, List.length_append, List.length_ofFn]
    rfl
  · show s₂.mem _ = _
    rw [hm, hmem]
    exact Function.update_self _ _ _
  · show s₂.mem _ = _
    rw [hm, hmem]
    exact Function.update_of_ne (sym_ne (by decide) (by decide) (by decide)) _ _

/-- **`portRESTORE_CONTEXT`.** -/
theorem resumed_portRestoreContext (h : Stored L fpu (L.tcb s.mem) x s.mem)
    (hmode : s.cpu.cpsr.mode = sysMode)
    (hs' : s' = L.runs popContext (L.runs (popFpu fpu) (L.runs loadSp s))) :
    Resumed L fpu x (s'.cpu.rfeia s'.mem) s'.mem := by
  obtain ⟨hpop, hflag, hfp⟩ := (h.popping fpu hmode).popFpu
  obtain ⟨hpop, hcrit, hflag', hr, hlr⟩ := hpop.popContext
  obtain ⟨hd, hf⟩ := runs_fp (L := L) (s := L.runs (popFpu fpu) (L.runs loadSp s)) popContext (by decide)
  rw [← hs'] at hpop hcrit hflag' hr hlr hd hf
  obtain ⟨hpc, hcpsr⟩ := onStack_cons.mp hpop.stack
  replace hcpsr := (onStack_cons.mp hcpsr).1
  have hsp : s'.cpu.sp = s'.cpu.spSys := by
    rw [Cpu.sp, hpop.mode]
    rfl
  have hrfe : s'.cpu.rfeia s'.mem = { s'.cpu with
      spSys := s'.cpu.spSys + 8
      pc := s'.mem s'.cpu.spSys
      cpsr := .ofWord (s'.mem (s'.cpu.spSys + 4)) } := by
    rw [Cpu.rfeia, hsp, hpop.mode]
    rfl
  rw [hrfe]
  refine ⟨hr, ?_, hlr, hpc, ?_, hcrit, fun h => hflag'.trans (hflag h), fun h hne => ?_⟩
  · show s'.cpu.spSys + 8 = _
    rw [hpop.spSys]
    exact BitVec.sub_add_cancel _ _
  · show Psr.ofWord _ = _
    rw [hcpsr, Psr.ofWord_toWord]
  · obtain ⟨hd', hf'⟩ := hfp h hne
    exact ⟨hd.trans hd', hf.trans hf'⟩

end Restore

end CR8Devkit.Port
