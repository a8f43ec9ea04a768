import CR8Devkit.Port.Switching

/-!
# The stack pointer at the calls of C functions

* `Grown`: words pushed in SYS mode; `frameWords`: how many `portSAVE_CONTEXT` pushes.
* `AtCall`: where the stack pointer is when a handler calls a C function; `irqHandler_calls`,
  `svcHandler_calls`.
* `AtCall.aligned_iff`: when it is a multiple of eight there.
* **`aligned_of_run`**: over every run.
-/

namespace CR8Devkit.Port

open Handler Transition

/-- What a called C function may rely on. -/
def Aligned (c : Cpu) : Prop := c.sp.toNat % 8 = 0

instance (c : Cpu) : Decidable (Aligned c) := inferInstanceAs (Decidable (_ = _))

/-! ## Pushes in SYS mode -/

/-- The floating-point part of a context, with the flag. -/
def fpuWords (fpu : Bool) (flag : Word) : ℕ := if fpu then (if flag = 0 then 1 else 34) else 0

/-- The words of a context. -/
def frameWords (fpu : Bool) (flag : Word) : ℕ := 17 + fpuWords fpu flag

/-- In SYS mode, with `n` words pushed since the stack pointer was `sp`. -/
structure Grown (sp : Word) (n : ℕ) (s : St) : Prop where
  mode : s.cpu.cpsr.mode = sysMode
  spSys : s.cpu.spSys = sp - BitVec.ofNat 32 (4 * n)

section Pushes

variable {L : Layout} {s : St} {i : Instr} {is : List Instr} {sp : Word} {n m : ℕ}

theorem Grown.dest (h : Grown sp n s) (hi : i.op.dest.isSome = true) : Grown sp n (i.run L s) := by
  obtain ⟨-, hmode, hsp⟩ := dest_run (L := L) (s := s) hi
  exact ⟨hmode.trans h.mode, hsp.trans h.spSys⟩

theorem Grown.dests (h : Grown sp n s) (hi : ∀ i ∈ is, i.op.dest.isSome = true) :
    Grown sp n (L.runs is s) := by
  induction is generalizing s with
  | nil => exact h
  | cons i is ih => exact ih (h.dest (hi i List.mem_cons_self)) fun j hj => hi j (List.mem_cons_of_mem _ hj)

/-- A push of `m` words. -/
theorem Grown.push (h : Grown sp n s) (hc : i.cond.holds s.cpu.cpsr.nzcv = true)
    (hcpu : i.op.cpu L s.cpu s.mem =
      s.cpu.setSpOf s.cpu.cpsr.mode (s.cpu.sp - BitVec.ofNat 32 (4 * m))) :
    Grown sp (n + m) (i.run L s) := by
  have hsp : s.cpu.sp = s.cpu.spSys := by
    rw [Cpu.sp, h.mode]
    rfl
  have hrun : (i.run L s).cpu = { s.cpu with spSys := s.cpu.spSys - BitVec.ofNat 32 (4 * m) } := by
    rw [Instr.run_cpu, if_pos hc, hcpu, hsp, h.mode]
    rfl
  constructor
  · rw [hrun]
    exact h.mode
  · rw [hrun]
    show s.cpu.spSys - _ = _
    rw [h.spSys, BitVec.sub_sub, ← BitVec.ofNat_add, ← Nat.mul_add]

/-- Two words by `SRSDB`, fourteen registers and the critical nesting count. -/
theorem grown_pushContext : Grown s.cpu.spSys 17 (L.runs pushContext s) := by
  refine ⟨rfl, ?_⟩
  show s.cpu.spSys - 8 - 56 - 4 = _
  rw [BitVec.sub_sub, BitVec.sub_sub]
  rfl

/-- FPSCR, D0 to D15 and the flag. -/
theorem grown_floats (h : Grown sp n s) (hne : Cond.ne.holds s.cpu.cpsr.nzcv = true) :
    Grown sp (n + 32 + 1 + 1)
        (L.runs [⟨.ne, Op.fmrx r1⟩, ⟨.ne, Op.vpush⟩, ⟨.ne, Op.push [r1]⟩, Op.push [r3]] s) ∧
      (L.runs [⟨.ne, Op.fmrx r1⟩, ⟨.ne, Op.vpush⟩, ⟨.ne, Op.push [r1]⟩, Op.push [r3]] s).cpu.r 3 =
        s.cpu.r 3 := by
  have h1 := h.dest (L := L) (i := ⟨.ne, Op.fmrx r1⟩) rfl
  have hr1 : ((Instr.mk .ne (Op.fmrx r1)).run L s).cpu.r 3 = s.cpu.r 3 :=
    get_run (L := L) (i := ⟨.ne, Op.fmrx r1⟩) (g := r3) rfl rfl
  have hne1 : Cond.ne.holds ((Instr.mk .ne (Op.fmrx r1)).run L s).cpu.cpsr.nzcv = true := by
    rw [Instr.run_cpu, if_pos hne]
    exact hne
  rw [runs_cons, ← hr1]
  generalize (Instr.mk .ne (Op.fmrx r1)).run L s = s₁ at h1 hne1
  have h2 := h1.push (L := L) (i := ⟨.ne, Op.vpush⟩) (m := 32) hne1 rfl
  obtain ⟨hr2, hcpsr⟩ := depth_run (L := L) (s := s₁) (i := ⟨.ne, Op.vpush⟩) (Nat.zero_lt_succ _)
  rw [runs_cons, ← hr2]
  rw [← hcpsr] at hne1
  generalize (Instr.mk .ne Op.vpush).run L s₁ = s₂ at h2 hne1
  have h3 := h2.push (L := L) (i := ⟨.ne, Op.push [r1]⟩) (m := 1) hne1 rfl
  have hr3 := (depth_run (L := L) (s := s₂) (i := ⟨.ne, Op.push [r1]⟩) (Nat.zero_lt_succ _)).1
  rw [runs_cons, ← hr3]
  generalize (Instr.mk .ne (Op.push [r1])).run L s₂ = s₃ at h3
  have hr4 := (depth_run (L := L) (s := s₃) (i := Op.push [r3]) (Nat.zero_lt_succ _)).1
  exact ⟨h3.push (L := L) (i := Op.push [r3]) (m := 1) rfl rfl, congrFun hr4 3⟩

/-- The flag stays in r3. -/
theorem grown_pushFpu (fpu : Bool) (h : Grown sp n s) :
    Grown sp (n + fpuWords fpu (L.flag s.mem)) (L.runs (pushFpu fpu) s) ∧
      fpuWords fpu ((L.runs (pushFpu fpu) s).cpu.r 3) = fpuWords fpu (L.flag s.mem) := by
  cases fpu with
  | false => exact ⟨h, rfl⟩
  | true =>
    have hload := (get_loadVar (L := L) (s := s) (b := r2) (d := r3) (v := .ulPortTaskHasFPUContext) rfl rfl
      (by decide)).2
    have hdest : Grown sp n (L.runs [Op.ldrSym r2 .ulPortTaskHasFPUContext, Op.ldr r3 r2 0] s) :=
      h.dests (by decide)
    have hcmp := hdest.dest (L := L) (i := Op.cmp r3 (.imm 0)) rfl
    have hflags := (ne_holds_cmp (L := L)
      (s := L.runs [Op.ldrSym r2 .ulPortTaskHasFPUContext, Op.ldr r3 r2 0] s) r3 0).trans
        (congrArg (· != (0 : Word)) hload)
    have hr3 : ((Instr.mk .al (Op.cmp r3 (.imm 0))).run L
        (L.runs [Op.ldrSym r2 .ulPortTaskHasFPUContext, Op.ldr r3 r2 0] s)).cpu.r 3 = L.flag s.mem :=
      (get_run (L := L) (i := Op.cmp r3 (.imm 0)) (g := r3) rfl rfl).trans hload
    have hsplit : L.runs (pushFpu true) s =
        L.runs [⟨.ne, Op.fmrx r1⟩, ⟨.ne, Op.vpush⟩, ⟨.ne, Op.push [r1]⟩, Op.push [r3]]
          ((Instr.mk .al (Op.cmp r3 (.imm 0))).run L
            (L.runs [Op.ldrSym r2 .ulPortTaskHasFPUContext, Op.ldr r3 r2 0] s)) := rfl
    rw [hsplit]
    generalize (Instr.mk .al (Op.cmp r3 (.imm 0))).run L
      (L.runs [Op.ldrSym r2 .ulPortTaskHasFPUContext, Op.ldr r3 r2 0] s) = s₁ at hcmp hflags hr3
    by_cases hz : L.flag s.mem = 0
    · have hne : Cond.ne.holds s₁.cpu.cpsr.nzcv = false := by
        rw [hflags]
        exact bne_eq_false_iff_eq.mpr hz
      have hwords : fpuWords true (L.flag s.mem) = 1 := if_pos hz
      rw [runs_cons, run_of_not_holds hne, runs_cons, run_of_not_holds hne, runs_cons, run_of_not_holds hne,
        hwords]
      have hr := congrFun (depth_run (L := L) (s := s₁) (i := Op.push [r3]) (Nat.zero_lt_succ _)).1 3
      refine ⟨hcmp.push (L := L) (i := Op.push [r3]) (m := 1) rfl rfl, ?_⟩
      rw [runs_cons, runs_nil, hr, hr3, hwords]
    · have hne : Cond.ne.holds s₁.cpu.cpsr.nzcv = true := by
        rw [hflags]
        exact bne_iff_ne.mpr hz
      have hwords : fpuWords true (L.flag s.mem) = 34 := if_neg hz
      obtain ⟨hgrown, hr⟩ := grown_floats (L := L) hcmp hne
      rw [hr, hr3, hwords]
      exact ⟨hgrown, rfl⟩

end Pushes

/-! ## Calls -/

/-- The context that a task with these registers gets does not reach the flag. -/
def Layout.Clear (L : Layout) (fpu : Bool) (c : Cpu) : Prop :=
  fpu = true → 204 ≤ c.spSys.toNat ∧ ¬ Below c.spSys 204 (L.sym .ulPortTaskHasFPUContext)

/-- Where the stack pointer is when a handler that has interrupted `o` calls a function: below the
used registers and the alignment word, or below a context, with the flag that was read in r3. -/
inductive AtCall (L : Layout) (fpu : Bool) (o s : St) : Trap → CFun → Prop
  | irq {f : CFun} (hf : f ≠ .vTaskSwitchContext) (hsp : s.cpu.sp = o.cpu.spSvc - 28 - pad o - 4) :
      AtCall L fpu o s .irq f
  | switch {t : Trap}
      (hsp : s.cpu.sp = o.cpu.spSys - BitVec.ofNat 32 (4 * frameWords fpu (s.cpu.r 3)))
      (hflag : t = .svc → L.Clear fpu o.cpu →
        frameWords fpu (s.cpu.r 3) = frameWords fpu (L.flag o.mem)) :
      AtCall L fpu o s t .vTaskSwitchContext

/-- At a point of a handler that has interrupted `o`. -/
def Calling (L : Layout) (fpu : Bool) (t : Trap) (o : St) (k : Code) (s : St) : Prop :=
  Masked s ∧ ∀ f k', k = .call f k' → AtCall L fpu o s t f

abbrev Calls (L : Layout) (fpu : Bool) (t : Trap) (o : St) (k : Code) (s : St) : Prop :=
  (machine L t (Returns L)).Safe (Calling L fpu t o) (fun _ _ => True) k s

/-- In SVC mode, with the stack pointer of the task of `o`. -/
structure AtSvc (o s : St) : Prop where
  mode : s.cpu.cpsr.mode = svcMode
  spSys : s.cpu.spSys = o.cpu.spSys

section Calls

variable {L : Layout} {fpu : Bool} {t : Trap} {o s s' : St} {k : Code} {is : List Instr}

theorem AtSvc.calm (h : AtSvc o s) (hc : Calm L s s') : AtSvc o s' :=
  ⟨hc.cpu.mode.trans h.mode, hc.cpu.spSys.trans h.spSys⟩

theorem calls_line (hm : Masked s) (hk : Masked (L.runs is s) → Calls L fpu t o k (L.runs is s)) :
    Calls L fpu t o (.block is k) s :=
  Machine.safe_block hm (fun _ _ _ hm => ⟨hm, fun _ _ h => by cases h⟩) (fun _ _ _ => masked_run) hk

/-- Code without calls. -/
theorem calls_none (hk : k.calls = []) (hm : Masked s) : Calls L fpu t o k s := by
  have hnone : ∀ {k : Code}, (∀ f ∈ k.calls, False) → ∀ f k', k ≠ .call f k' := by
    rintro k hk f k' rfl
    exact hk f List.mem_cons_self
  refine Machine.safe_of_calls (Q := fun _ => False) hm (by rw [hk]; exact fun f hf => by cases hf)
    (fun k s hk hm => ⟨hm, fun f k' h => (hnone hk f k' h).elim⟩) (fun _ _ => masked_run)
    (fun _ _ _ hf => hf.elim) fun _ _ _ _ => trivial

/-- **`portSAVE_CONTEXT`** and the call of `vTaskSwitchContext`. -/
theorem portSaveContext_calls (hk : k.calls = []) (hm : Masked s) (hsp : s.cpu.spSys = o.cpu.spSys)
    (hflag : t = .svc → L.Clear fpu o.cpu →
      fpuWords fpu (L.flag (L.runs pushContext s).mem) = fpuWords fpu (L.flag o.mem)) :
    Calls L fpu t o (portSaveContext fpu <| .block [Op.ldrSym r0 .vTaskSwitchContext] <|
      .call .vTaskSwitchContext k) s := by
  refine calls_line hm fun hm => ?_
  have hpush := grown_pushContext (L := L) (s := s)
  generalize L.runs pushContext s = s₁ at hm hpush hflag
  refine calls_line hm fun hm => ?_
  obtain ⟨hgrown, hr3⟩ := grown_pushFpu (L := L) fpu hpush
  rw [← hr3] at hgrown hflag
  generalize L.runs (pushFpu fpu) s₁ = s₂ at hm hgrown hflag
  refine calls_line hm fun hm => calls_line hm fun hm => ?_
  -- the stack pointer is stored in the TCB
  have hcpu : (L.runs [Op.ldrSym r0 .vTaskSwitchContext] (L.runs storeSp s₂)).cpu.spSys = s₂.cpu.spSys := rfl
  have hmode : (L.runs [Op.ldrSym r0 .vTaskSwitchContext] (L.runs storeSp s₂)).cpu.cpsr.mode = sysMode :=
    hgrown.mode
  have hr : (L.runs [Op.ldrSym r0 .vTaskSwitchContext] (L.runs storeSp s₂)).cpu.r 3 = s₂.cpu.r 3 := rfl
  generalize L.runs [Op.ldrSym r0 .vTaskSwitchContext] (L.runs storeSp s₂) = s₃ at hm hcpu hmode hr
  refine ⟨⟨hm, fun f k' h => ?_⟩, fun s' hs => calls_none hk hs.2.2.2⟩
  cases h
  refine .switch ?_ fun ht hclear => ?_
  · rw [Cpu.sp, hmode, hr, ← hsp]
    exact hcpu.trans hgrown.spSys
  · rw [hr, frameWords, hflag ht hclear]
    rfl

/-- **`SVC_Handler`.** -/
theorem svcHandler_calls (fpu : Bool) :
    Calls L fpu .svc o (svcHandler fpu) { o with cpu := o.cpu.svcEntry, counted := false } := by
  refine portSaveContext_calls (by cases fpu <;> decide) rfl rfl fun _ hclear => ?_
  cases fpu with
  | false => rfl
  | true =>
    obtain ⟨hroom, hflag⟩ := hclear rfl
    have hst := (storesTo_pushContext (L := L)
      (s := { o with cpu := o.cpu.svcEntry, counted := false }) hroom).1
    exact congrArg (fpuWords true) (mem_runs_of_storesTo hst hflag)

theorem spSys_restoreUsed (h : s.cpu.cpsr.mode = svcMode) :
    (L.runs restoreUsed s).cpu.spSys = s.cpu.spSys := by
  simp only [restoreUsed, runs_cons, runs_nil, run_al, Op.cpu, Op.stores]
  simp only [Cpu.get, Cpu.set, Cpu.setAll, Cpu.setLr, Cpu.lr, Cpu.sp, Cpu.spOf, Cpu.setSpOf, Cpu.setSpsr,
    h, irqMode_ne_svcMode, if_true, if_false, usedRegs, List.length, loads, List.zip, List.zipWith]

theorem switchBeforeExit_calls (hm : Masked s) (h : AtSvc o s) :
    Calls L fpu .irq o (switchBeforeExit fpu) s := by
  refine calls_line hm fun hm => ?_
  have h1 := h.calm (L := L) calm_countExit
  refine calls_line hm fun hm => ?_
  have h2 : AtSvc o (L.runs clearYield (L.runs countExit s)) := ⟨h1.mode, h1.spSys⟩
  refine calls_line hm fun hm => ?_
  have hsp := (spSys_restoreUsed (L := L) h2.mode).trans h2.spSys
  exact portSaveContext_calls (by cases fpu <;> decide) hm hsp fun ht => by cases ht

theorem irqEpilogue_calls (hm : Masked s) (h : AtSvc o s) : Calls L fpu .irq o (irqEpilogue fpu) s := by
  refine calls_line hm fun hm => ?_
  obtain ⟨hcalm, hr⟩ := calm_exitSnapshot (L := L) (s := s)
  have h1 := h.calm hcalm
  refine calls_line hm fun hm => ?_
  have h2 : AtSvc o (L.runs unalignStack (L.runs exitSnapshot s)) := by
    have hcpu := (runs_unalignStack h1.mode hr).1
    constructor
    · rw [hcpu]
      exact h1.mode
    · rw [hcpu]
      exact h1.spSys
  refine calls_line hm fun hm => ?_
  have h3 := h2.calm (L := L) calm_decrementNesting
  refine ⟨⟨hm, fun _ _ h => by cases h⟩, fun _ => calls_none rfl hm, fun _ => ?_⟩
  refine calls_line hm fun hm => ?_
  have h4 := h3.calm (L := L) calm_readYield
  exact ⟨⟨hm, fun _ _ h => by cases h⟩, fun _ => switchBeforeExit_calls hm h4, fun _ => calls_none rfl hm⟩

/-- **`IRQ_Handler`.** -/
theorem irqHandler_calls (fpu : Bool) (hroom : L.Room o.cpu) (h : Entered o s) :
    Calls L fpu .irq o (irqHandler fpu) s := by
  refine safe_irqHandler (fun i k s hm => ⟨hm, fun _ _ h => by cases h⟩)
    (fun f k s hf hm hheld => ⟨hm, fun f' k' h => ?_⟩)
    (fun s hm hheld => irqEpilogue_calls hm ⟨hheld.mode, hheld.spSys⟩) hroom h
  cases h
  refine .irq hf ?_
  rw [Cpu.sp, hheld.mode]
  exact hheld.spSvc

end Calls

/-! ## Alignment -/

/-- The context of a task with this stack pointer ends at a multiple of eight. -/
def Level (fpu : Bool) (flag : Word) (c : Cpu) : Prop := c.spSys.toNat % 8 = 4 * frameWords fpu flag % 8

instance (fpu : Bool) (flag : Word) (c : Cpu) : Decidable (Level fpu flag c) :=
  inferInstanceAs (Decidable (_ = _))

instance (L : Layout) (fpu : Bool) (c : Cpu) : Decidable (L.Clear fpu c) :=
  inferInstanceAs (Decidable (_ → _ ∧ ¬ (_ ∧ _)))

/-- Steps without interrupts, in which each yield finds a level stack pointer. -/
def LevelYields (L : Layout) (fpu : Bool) (c : Config) : Event → Prop
  | .take => False
  | .svc => Level fpu (L.flag c.st.mem) c.st.cpu ∧ L.Clear fpu c.st.cpu
  | _ => True

instance (L : Layout) (fpu : Bool) (c : Config) : (ev : Event) → Decidable (LevelYields L fpu c ev)
  | .take => isFalse id
  | .svc => inferInstanceAs (Decidable (_ ∧ _))
  | .regs _ | .store _ _ | .run | .ret => isTrue trivial

section Alignment

variable {L : Layout} {fpu : Bool} {t : Trap} {f : CFun} {o s s₀ : St} {k : Code} {fs : List Frame}
  {evs : List Event} {c : Config}

theorem toNat_and_four (x : Word) : (x &&& 4).toNat = 4 * (x.toNat / 4 % 2) := by
  have h := BitVec.and_twoPow x 2
  have hfour : BitVec.twoPow 32 2 = (4 : Word) := rfl
  rw [hfour] at h
  rw [h, BitVec.getLsbD, Nat.testBit_eq_decide_div_mod_eq]
  rcases Nat.mod_two_eq_zero_or_one (x.toNat / 4) with hbit | hbit <;> simp [hbit]

/-- **One word too many**: the alignment word undoes the alignment. -/
theorem alignStack_mod_eight (x : Word) : (x - (x &&& 4) - 4).toNat % 8 ≠ 0 := by
  have h := toNat_and_four x
  have hlt := x.isLt
  generalize x &&& 4 = y at h
  bv_omega

theorem sub_words_mod_eight (x : Word) (n : ℕ) :
    (x - BitVec.ofNat 32 (4 * n)).toNat % 8 = 0 ↔ x.toNat % 8 = 4 * n % 8 := by
  have hlt := x.isLt
  rw [BitVec.toNat_sub, BitVec.toNat_ofNat]
  omega

/-- **Where the stack pointer is aligned.** -/
theorem AtCall.aligned_iff (h : AtCall L fpu o s t f) :
    Aligned s.cpu ↔ f = .vTaskSwitchContext ∧ Level fpu (s.cpu.r 3) o.cpu := by
  unfold Aligned
  cases h with
  | irq hf hsp =>
    rw [hsp]
    constructor
    · intro ha
      exact absurd ha (alignStack_mod_eight (o.cpu.spSvc - 28))
    · intro hs
      exact absurd hs.1 hf
  | switch hsp _ =>
    rw [hsp, sub_words_mod_eight]
    exact ⟨fun h => ⟨rfl, h⟩, And.right⟩

/-- A yield. -/
theorem AtCall.aligned_svc (h : AtCall L fpu o s .svc f) (hclear : L.Clear fpu o.cpu) :
    Aligned s.cpu ↔ Level fpu (L.flag o.mem) o.cpu := by
  rw [h.aligned_iff]
  cases h with
  | switch _ hflag =>
    unfold Level
    rw [hflag rfl hclear]
    exact ⟨And.right, fun h => ⟨rfl, h⟩⟩

theorem calling_lawful (L : Layout) (fpu : Bool) :
    (stackingWith L (fun _ _ => True) (Calling L fpu)).Lawful fpu :=
  stackingWith_lawful And.left (fun _ => svcHandler_calls fpu) fun _ => irqHandler_calls fpu

/-- **Over every run** the stack pointer is where `AtCall` says. -/
theorem atCall_of_run (h₀ : s₀.cpu.cpsr.mode = sysMode)
    (hrun : Run (ofNext (next L fpu)) ⟨s₀, [.task]⟩ evs c) (hc : c.frames = .asm t (.call f k) o :: fs) :
    AtCall L fpu o c.st t f := by
  have hg := stackingWith_of_run (calling_lawful L fpu) h₀ (hrun.guard fun _ _ _ => trivial)
  rw [hc] at hg
  exact hg.1.here.2 f k rfl

/-- At a point of `SVC_Handler`, which a level task has called. -/
def Yielding (L : Layout) (fpu : Bool) (t : Trap) (o : St) (k : Code) (s : St) : Prop :=
  Calling L fpu t o k s ∧ t = .svc ∧ Level fpu (L.flag o.mem) o.cpu ∧ L.Clear fpu o.cpu

theorem yielding_lawful (L : Layout) (fpu : Bool) :
    (stackingWith L (LevelYields L fpu) (Yielding L fpu)).Lawful fpu := by
  refine stackingWith_lawful (fun h => h.1.1) (fun hmay => ?_) fun hint => ?_
  · exact (svcHandler_calls fpu).imp fun _ _ h => ⟨h, rfl, hmay⟩
  · -- `vTaskSwitchContext` runs with IRQs masked
    rcases hint with hmay | ⟨t, o', f, k, s, ⟨hcall, rfl, -⟩, hin, hm⟩
    · exact hmay.elim
    · have hf : f = .vTaskSwitchContext := by
        cases hcall.2 f k rfl
        rfl
      rcases hin.masked with hv | hmasked
      · rw [hf] at hv
        cases hv
      · rw [hm] at hmasked
        cases hmasked

theorem aligned_of_levelYields (h₀ : s₀.cpu.cpsr.mode = sysMode)
    (hrun : Run (guarded (ofNext (next L fpu)) (LevelYields L fpu)) ⟨s₀, [.task]⟩ evs c)
    (hc : c.frames = .asm t (.call f k) o :: fs) : Aligned c.st.cpu := by
  have hg := stackingWith_of_run (yielding_lawful L fpu) h₀ hrun
  rw [hc] at hg
  obtain ⟨hcall, rfl, hlevel, hclear⟩ := hg.1.here
  exact ((hcall.2 f k rfl).aligned_svc hclear).mpr hlevel

/-- **In every run.** Without interrupts, and with a level stack pointer at each yield, every C
function is called at a multiple of eight. In any run the functions of `IRQ_Handler` never are, and
`vTaskSwitchContext` is where the task's stack pointer is level for the flag that was read; at a
yield that is the flag in memory. -/
theorem aligned_of_run {L : Layout} {fpu : Bool} {s₀ : St} (h₀ : s₀.cpu.cpsr.mode = sysMode) :
    (∀ evs c t f k o fs, Run (guarded (ofNext (next L fpu)) (LevelYields L fpu)) ⟨s₀, [.task]⟩ evs c →
      c.frames = .asm t (.call f k) o :: fs → Aligned c.st.cpu) ∧
    ∀ evs c t f k o fs, Run (ofNext (next L fpu)) ⟨s₀, [.task]⟩ evs c →
      c.frames = .asm t (.call f k) o :: fs →
        (Aligned c.st.cpu ↔ f = .vTaskSwitchContext ∧ Level fpu (c.st.cpu.r 3) o.cpu) ∧
          (t = .svc → L.Clear fpu o.cpu → (Aligned c.st.cpu ↔ Level fpu (L.flag o.mem) o.cpu)) := by
  refine ⟨fun evs c t f k o fs hrun hc => aligned_of_levelYields h₀ hrun hc,
    fun evs c t f k o fs hrun hc => ?_⟩
  have hcall := atCall_of_run h₀ hrun hc
  refine ⟨hcall.aligned_iff, ?_⟩
  rintro rfl hclear
  exact hcall.aligned_svc hclear

/-- `none` if no function is about to be called. -/
def pendingCall (c : Config) : Option (Trap × CFun × Bool) :=
  match c.frames with
  | .asm t (.call f _) _ :: _ => some (t, f, decide (Aligned c.st.cpu))
  | _ => none

theorem of_pendingCall {b : Bool} (h : pendingCall c = some (t, f, b)) :
    ∃ k o fs, c.frames = .asm t (.call f k) o :: fs ∧ (Aligned c.st.cpu ↔ b = true) := by
  unfold pendingCall at h
  split at h
  · rename_i hfs
    cases h
    exact ⟨_, _, _, hfs, decide_eq_true_iff.symm⟩
  · cases h

/-- The 17 words of its context bring its stack pointer to a multiple of eight. -/
def levelTask : St := { sampleTask with cpu := { sampleTask.cpu with spSys := 0x8004 } }

def yielding : List Event := .svc :: .replicate 10 .run

theorem pendingCall_yielding : (exec (fun c ev => if LevelYields sample false c ev then next sample false c ev
    else none) ⟨levelTask, [.task]⟩ yielding).bind pendingCall = some (.svc, .vTaskSwitchContext, true) := by
  decide +kernel

theorem aligned_of_run_yielding : ∃ c k o fs,
    exec (fun c ev => if LevelYields sample false c ev then next sample false c ev else none)
      ⟨levelTask, [.task]⟩ yielding = some c ∧
    c.frames = .asm .svc (.call .vTaskSwitchContext k) o :: fs ∧ Aligned c.st.cpu ∧
    Level false (c.st.cpu.r 3) o.cpu := by
  obtain ⟨c, hexec, hc⟩ := Option.bind_eq_some_iff.mp pendingCall_yielding
  obtain ⟨k, o, fs, hfs, -⟩ := of_pendingCall hc
  have hrun := run_of_exec_guarded hexec
  have ha : Aligned c.st.cpu := (aligned_of_run rfl).1 _ c _ _ _ _ _ hrun hfs
  have hplain : Run (ofNext (next sample false)) ⟨levelTask, [.task]⟩ yielding c := hrun.unguard
  exact ⟨c, k, o, fs, hexec, hfs, ha, (((aligned_of_run rfl).2 _ c _ _ _ _ _ hplain hfs).1.mp ha).2⟩

/-- C code keeps its stack pointer at multiples of four. -/
def KeepsWords (_ : Config) : Event → Prop
  | .regs g => g.sp.toNat % 4 = 0
  | _ => True

instance (c : Config) : (ev : Event) → Decidable (KeepsWords c ev)
  | .regs _ => inferInstanceAs (Decidable (_ = _))
  | .take | .svc | .store _ _ | .run | .ret => isTrue trivial

/-- From stack pointers at multiples of eight a call is reached at which the stack pointer is not. -/
def Misaligned (t : Trap) (f : CFun) : Prop :=
  ∃ evs c k o fs, Run (guarded (ofNext (next sample false)) KeepsWords) ⟨sampleTask, [.task]⟩ evs c ∧
    c.frames = .asm t (.call f k) o :: fs ∧ ¬ Aligned c.st.cpu

theorem misaligned_of_exec (evs : List Event)
    (h : (exec (fun c ev => if KeepsWords c ev then next sample false c ev else none)
      ⟨sampleTask, [.task]⟩ evs).bind pendingCall = some (t, f, false)) : Misaligned t f := by
  obtain ⟨c, hexec, hc⟩ := Option.bind_eq_some_iff.mp h
  obtain ⟨k, o, fs, hfs, ha⟩ := of_pendingCall hc
  exact ⟨evs, c, k, o, fs, run_of_exec_guarded hexec, hfs, fun h => Bool.false_ne_true (ha.mp h)⟩

/-- Up to `vTaskSwitchContext`, when the dispatched handler has asked for a switch. -/
def switched : List Event :=
  dispatched ++ [.store (sampleSym .ulPortYieldRequired) 1] ++ finished 49

/-- **No function is called at a multiple of eight**, when all stack pointers start at one. -/
theorem misaligned_everywhere :
    (sampleTask.cpu.spSys.toNat % 8 = 0 ∧ sampleTask.cpu.spSvc.toNat % 8 = 0 ∧
      sampleTask.cpu.spIrq.toNat % 8 = 0) ∧
    Misaligned .irq .freeRTOSGetActiveIRQ ∧ Misaligned .irq .vApplicationIRQHandler ∧
    Misaligned .irq .freeRTOSEndOfInterrupt ∧ Misaligned .irq .vTaskSwitchContext ∧
    Misaligned .svc .vTaskSwitchContext :=
  ⟨by decide, misaligned_of_exec (.take :: .replicate 18 .run) (by decide +kernel),
    misaligned_of_exec (.take :: .replicate 19 .run ++ [.ret, .run]) (by decide +kernel),
    misaligned_of_exec (dispatched ++ [.ret] ++ .replicate 4 .run) (by decide +kernel),
    misaligned_of_exec switched (by decide +kernel), misaligned_of_exec yielding (by decide +kernel)⟩

end Alignment

end CR8Devkit.Port
