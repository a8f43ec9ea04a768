import CR8Devkit.Port.Creation

/-!
# The scheduler starts, and tasks come and go

* `xPortStartScheduler`: from the boot code to the first task.
* `Schedule`, `advance`, `Allowed`: the system with tasks that are created and deleted while it
  runs.
* **`tasks_begin`**: over every run from there every task begins as it was created.
-/

namespace CR8Devkit.Port

open Handler Transition

/-! ## The start -/

def portApsrUserMode : BitVec 5 := 0x10

/-- `prepare` masks the interrupts and sets up the tick; in User mode `configASSERT` fails. -/
def xPortStartScheduler (L : Layout) (fpu : Bool) (prepare : St → St) (s : St) : Option St :=
  if s.cpu.cpsr.mode ≠ portApsrUserMode then some (vPortRestoreTaskContext L fpu (prepare s)) else none

/-! ## The system -/

/-- The system, and what the tasks have been created with that have not begun. -/
structure Schedule where
  sys : System
  fresh : Word → Option NewTask

/-- A task creates or deletes another, or anything else happens. -/
inductive Act
  | event (ev : Event)
  | create (u : Word) (n : NewTask)
  | delete (u : Word)

section Schedule

variable (L : Layout) (fpu : Bool) (support : FpuSupport) (prvTaskExitError : Word)

/-- Behind `RFEIA` the task has begun. -/
def Schedule.begun (c : Schedule) : Event → Word → Option NewTask
  | .run =>
    match c.sys.conf.frames with
    | .asm _ (.exit .rfeia) _ :: _ => Function.update c.fresh (L.tcb c.sys.conf.st.mem) none
    | _ => c.fresh
  | _ => c.fresh

def advance (c : Schedule) : Act → Option Schedule
  | .event ev => (step L fpu c.sys ev).map fun d => ⟨d, c.begun L ev⟩
  | .create u n => some
      ⟨⟨c.sys.conf, Function.update c.sys.asleep u (some (newcomer L support prvTaskExitError n))⟩,
        Function.update c.fresh u (some n)⟩
  | .delete u => some ⟨⟨c.sys.conf, Function.update c.sys.asleep u none⟩, Function.update c.fresh u none⟩

/-- A task other than the current one is created in memory that no other task has. -/
structure Tasks.Creates {L : Layout} (T : Tasks L) (support : FpuSupport) (prvTaskExitError : Word)
    (c : Schedule) (u : Word) (n : NewTask) : Prop where
  other : u ≠ L.tcb c.sys.conf.st.mem
  takes : T.Takes n u
  created : Created L support prvTaskExitError n u c.sys.conf.st.mem

/-- The C code is orderly, also where it creates and deletes tasks. -/
def Tasks.Allowed {L : Layout} (T : Tasks L) (fpu : Bool) (support : FpuSupport) (prvTaskExitError : Word)
    (c : Schedule) : Act → Prop
  | .event ev => T.Orderly fpu c.sys ev
  | .create u n => T.Creates support prvTaskExitError c u n
  | .delete u => u ≠ L.tcb c.sys.conf.st.mem

/-- Tasks have been created, and the TCB pointer is on one of them. -/
structure Tasks.Ready {L : Layout} (T : Tasks L) (support : FpuSupport) (prvTaskExitError : Word)
    (fresh : Word → Option NewTask) (s : St) : Prop where
  takes : ∀ u, ∀ n ∈ fresh u, T.Takes n u
  created : ∀ u, ∀ n ∈ fresh u, Created L support prvTaskExitError n u s.mem
  current : (fresh (L.tcb s.mem)).isSome = true
  nesting : L.nesting s.mem = 0
  spSvc : s.cpu.spSvc = T.svcRest
  spIrq : s.cpu.spIrq = T.irqRest

/-- All but the first are still to begin. -/
def Schedule.start (fresh : Word → Option NewTask) (s s' : St) : Schedule where
  sys := ⟨⟨s', [.task]⟩, fun u => if u = L.tcb s.mem then none else
    (fresh u).map (newcomer L support prvTaskExitError)⟩
  fresh := Function.update fresh (L.tcb s.mem) none

end Schedule

/-! ## Every run -/

/-- A task that has not begun is asleep in front of its first instruction. -/
structure Tasks.Waiting {L : Layout} (T : Tasks L) (fpu : Bool) (support : FpuSupport)
    (prvTaskExitError : Word) (c : Schedule) : Prop extends T.Inv fpu c.sys where
  fresh : ∀ u, ∀ n ∈ c.fresh u, c.sys.asleep u = some (newcomer L support prvTaskExitError n)

section Runs

variable {L : Layout} {T : Tasks L} {fpu : Bool} {support : FpuSupport} {prvTaskExitError u : Word}
  {n : NewTask}
  {c c' : Schedule} {d : System} {ev : Event} {act : Act} {fresh : Word → Option NewTask} {prepare : St → St}
  {s s' : St}

/-- The record changes for another task. -/
theorem Tasks.Recorded.update {c : System} {y : Option Sleeper} (h : T.Recorded fpu c)
    (hu : u ≠ L.tcb c.conf.st.mem) (hy : ∀ x ∈ y, T.Holds fpu c.conf.st.mem u x) :
    T.Recorded fpu ⟨c.conf, Function.update c.asleep u y⟩ := by
  refine ⟨fun w x hx => ?_, fun hg => ?_⟩
  · by_cases hw : w = u
    · subst hw
      replace hx : Function.update c.asleep w y w = some x := hx
      rw [Function.update_self] at hx
      exact hy x hx
    · replace hx : Function.update c.asleep u y w = some x := hx
      rw [Function.update_of_ne hw] at hx
      exact h.holds w x hx
  · exact (Function.update_of_ne hu.symm y c.asleep).trans (h.awake hg)

/-- The running task has begun; so nothing is put down for a task that has not. -/
theorem Tasks.Waiting.record (h : T.Waiting fpu support prvTaskExitError c) (hn : c.begun L ev u = some n) :
    c.sys.record L ev u = some (newcomer L support prvTaskExitError n) := by
  have hfresh := h.fresh u n
  have hawake := h.awake
  obtain ⟨⟨⟨s, fs⟩, asleep⟩, fresh⟩ := c
  cases ev with
  | take | svc | regs | store | ret => exact hfresh hn
  | run =>
    rcases fs with _ | ⟨_ | ⟨t, k, o⟩ | ⟨f, e⟩, fs⟩
    · exact hfresh hn
    · exact hfresh hn
    · cases k with
      | op | branch => exact hfresh hn
      | call f k =>
        have hold := hfresh hn
        by_cases hf : f = .vTaskSwitchContext
        · subst hf
          have hnone := hawake Tasks.not_gone_call
          refine (Function.update_of_ne ?_ _ _).trans hold
          rintro rfl
          rw [hnone] at hold
          cases hold
        · cases f <;> first | exact hold | exact absurd rfl hf
      | exit ex =>
        cases ex with
        | movsPcLr => exact hfresh hn
        | rfeia =>
          by_cases hu : u = L.tcb s.mem
          · replace hn : Function.update fresh (L.tcb s.mem) none u = some n := hn
            rw [hu, Function.update_self] at hn
            cases hn
          · replace hn : Function.update fresh (L.tcb s.mem) none u = some n := hn
            rw [Function.update_of_ne hu] at hn
            exact (Function.update_of_ne hu _ _).trans (hfresh hn)
    · exact hfresh hn

theorem Tasks.Waiting.event (h : T.Waiting fpu support prvTaskExitError c) (hord : T.Orderly fpu c.sys ev)
    (hs : advance L fpu support prvTaskExitError c (.event ev) = some c') :
    T.Waiting fpu support prvTaskExitError c' := by
  obtain ⟨d, hd, rfl⟩ := Option.map_eq_some_iff.mp hs
  refine ⟨h.toInv.step hord hd, fun u n hn => ?_⟩
  obtain ⟨e, -, rfl⟩ := Option.map_eq_some_iff.mp hd
  exact h.record hn

/-- A step, and a task created or deleted. -/
theorem Tasks.Waiting.advance (hag : Agree support fpu) (h : T.Waiting fpu support prvTaskExitError c)
    (hal : T.Allowed fpu support prvTaskExitError c act)
    (hs : advance L fpu support prvTaskExitError c act = some c') :
    T.Waiting fpu support prvTaskExitError c' := by
  cases act with
  | event ev => exact h.event hal hs
  | create u n =>
    cases hs
    refine ⟨⟨h.toRecorded.update hal.other fun x hx => ?_, h.good⟩, fun w k hk => ?_⟩
    · cases hx
      exact holds_newcomer hal.takes hag hal.created
    · replace hk : Function.update c.fresh u (some n) w = some k := hk
      show Function.update c.sys.asleep u _ w = _
      by_cases hw : w = u
      · subst hw
        rw [Function.update_self] at hk ⊢
        cases hk
        rfl
      · rw [Function.update_of_ne hw] at hk ⊢
        exact h.fresh w k hk
  | delete u =>
    cases hs
    refine ⟨⟨h.toRecorded.update hal (fun x hx => by cases hx), h.good⟩, fun w k hk => ?_⟩
    replace hk : Function.update c.fresh u none w = some k := hk
    show Function.update c.sys.asleep u _ w = _
    by_cases hw : w = u
    · subst hw
      rw [Function.update_self] at hk
      cases hk
    · rw [Function.update_of_ne hw] at hk ⊢
      exact h.fresh w k hk

/-- `vPortRestoreTaskContext` stores the count and the flag of the task. -/
theorem mem_vPortRestoreTaskContext {a : Word} (hc : ¬ L.Cell .ulCriticalNesting a)
    (hf : ¬ L.Cell .ulPortTaskHasFPUContext a) : (vPortRestoreTaskContext L fpu s).mem a = s.mem a := by
  show (L.runs popContext
    (L.runs (popFpu fpu) (L.runs loadSp (L.runs [Op.cps sysMode, Op.dsb, Op.isb] s)))).mem a = _
  rw [mem_runs_of_storesTo storesTo_popContext hc, mem_runs_of_storesTo (storesTo_popFpu fpu) hf]
  rfl

theorem rest_vPortRestoreTaskContext (L : Layout) (fpu : Bool) (s : St) :
    (vPortRestoreTaskContext L fpu s).cpu.spSvc = s.cpu.spSvc ∧
    (vPortRestoreTaskContext L fpu s).cpu.spIrq = s.cpu.spIrq := by
  have h₀ : AtSys s (L.runs [Op.cps sysMode, Op.dsb, Op.isb] s) := ⟨rfl, rfl, rfl⟩
  have h₁ : AtSys s (L.runs (popFpu fpu) (L.runs loadSp (L.runs [Op.cps sysMode, Op.dsb, Op.isb] s))) :=
    (h₀.runs (by decide)).runs (by cases fpu <;> decide)
  have h : AtSys s (L.runs popContext
    (L.runs (popFpu fpu) (L.runs loadSp (L.runs [Op.cps sysMode, Op.dsb, Op.isb] s)))) :=
    h₁.runs (by decide)
  have hset : ∀ c : Cpu, c.cpsr.mode = sysMode → ∀ w, c.setSpOf c.cpsr.mode w = { c with spSys := w } := by
    intro c hc w
    rw [hc]
    rfl
  rw [vPortRestoreTaskContext, Cpu.rfeia, hset _ h.mode]
  exact ⟨h.spSvc, h.spIrq⟩

/-- In front of the first task. -/
theorem start_of_ready (hag : Agree support fpu) (h : T.Ready support prvTaskExitError fresh (prepare s))
    (hs : xPortStartScheduler L fpu prepare s = some s') :
    T.Waiting fpu support prvTaskExitError (.start L support prvTaskExitError fresh (prepare s) s') ∧
      ∀ n ∈ fresh (L.tcb (prepare s).mem), Begins L fpu support prvTaskExitError n s' := by
  obtain ⟨-, hs⟩ := Option.ite_none_right_eq_some.mp hs
  obtain rfl := Option.some.inj hs
  generalize prepare s = s at h
  have hbegins : ∀ n ∈ fresh (L.tcb s.mem), Begins L fpu support prvTaskExitError n
    (vPortRestoreTaskContext L fpu s) :=
    fun n hn => begins_of_agree (h.takes _ n hn) (h.created _ n hn) hag
  obtain ⟨n, hn⟩ := Option.isSome_iff_exists.mp h.current
  obtain ⟨hsvc, hirq⟩ := rest_vPortRestoreTaskContext L fpu s
  have hvar : ∀ v : Sym, v ≠ .ulCriticalNesting → v ≠ .ulPortTaskHasFPUContext → 0 < v.size →
      (vPortRestoreTaskContext L fpu s).mem (L.sym v) = s.mem (L.sym v) :=
    fun v hc hf hv => mem_vPortRestoreTaskContext (not_cell_sym hc.symm hv) (not_cell_sym hf.symm hv)
  have htcb : L.tcb (vPortRestoreTaskContext L fpu s).mem = L.tcb s.mem :=
    hvar .pxCurrentTCB (by decide) (by decide) (by decide)
  have hnest : L.nesting (vPortRestoreTaskContext L fpu s).mem = L.nesting s.mem :=
    congrArg BitVec.toNat (hvar .ulPortInterruptNesting (by decide) (by decide) (by decide))
  have hrest : AtRest T (vPortRestoreTaskContext L fpu s) := by
    refine ⟨(hbegins n hn).mode, hnest.trans h.nesting, ?_, hsvc.trans h.spSvc, hirq.trans h.spIrq⟩
    rw [htcb]
    exact (h.takes _ n hn).tcb
  refine ⟨⟨⟨⟨fun u x hx => ?_, fun _ => ?_⟩, hrest⟩, fun u n hn => ?_⟩, hbegins⟩
  · -- the frames that have been built are where no variable is
    replace hx : (if u = L.tcb s.mem then none else _) = some x := hx
    split_ifs at hx
    obtain ⟨k, hk, rfl⟩ := Option.map_eq_some_iff.mp hx
    have htakes := h.takes u k hk
    obtain ⟨m₀, hu, hframe⟩ := h.created u k hk
    refine holds_newcomer htakes hag ⟨m₀, ?_, fun a ha => ?_⟩
    · rw [← hu]
      exact mem_vPortRestoreTaskContext (T.tcb_sym u htakes.tcb _) (T.tcb_sym u htakes.tcb _)
    · rw [← hframe a ha]
      exact mem_vPortRestoreTaskContext (htakes.not_cell ha) (htakes.not_cell ha)
  · exact if_pos htcb
  · replace hn : Function.update fresh (L.tcb s.mem) none u = some n := hn
    by_cases hu : u = L.tcb s.mem
    · rw [hu, Function.update_self] at hn
      cases hn
    · rw [Function.update_of_ne hu] at hn
      exact (if_neg hu).trans (congrArg (Option.map _) hn)

end Runs

/-- **Every task begins as it was created**: the one that the scheduler starts with, and whenever
afterwards `portRESTORE_CONTEXT` is through and the TCB pointer is on a task that has not begun. -/
theorem tasks_begin {L : Layout} {T : Tasks L} {fpu : Bool} {support : FpuSupport} {prvTaskExitError : Word}
    {fresh : Word → Option NewTask} {prepare : St → St} {s s' : St} (hag : Agree support fpu)
    (h : T.Ready support prvTaskExitError fresh (prepare s))
    (hs : xPortStartScheduler L fpu prepare s = some s') :
    (∀ n ∈ fresh (L.tcb (prepare s).mem), Begins L fpu support prvTaskExitError n s') ∧
      ∀ (acts : List Act) (c : Schedule) (t : Trap) (o : St) (fs : List Frame) (n : NewTask),
        Run (guarded (ofNext (advance L fpu support prvTaskExitError))
          (T.Allowed fpu support prvTaskExitError))
          (.start L support prvTaskExitError fresh (prepare s) s') acts c →
        c.sys.conf.frames = .asm t (.exit .rfeia) o :: fs → c.fresh (L.tcb c.sys.conf.st.mem) = some n →
        ∃ c', advance L fpu support prvTaskExitError c (.event .run) = some c' ∧
          c'.sys.conf.frames = [.task] ∧
          Begins L fpu support prvTaskExitError n c'.sys.conf.st ∧
          c'.sys.conf.st.cpu.spSvc = T.svcRest ∧ c'.sys.conf.st.cpu.spIrq = T.irqRest := by
  obtain ⟨hstart, hbegins⟩ := start_of_ready hag h hs
  refine ⟨hbegins, fun acts c t o fs n hrun hc hn => ?_⟩
  have hwait := hrun.inv (I := T.Waiting fpu support prvTaskExitError) hstart
    fun hi hs => hi.advance hag hs.1 hs.2
  obtain ⟨d, hstep, hframes, hres, hrest⟩ := hwait.restored hc (hwait.fresh _ n hn)
  exact ⟨⟨d, c.begun L .run⟩, by rw [advance, hstep]; rfl, hframes, begins_of_resumed hres,
    hrest.spSvc, hrest.spIrq⟩

/-! ## Two new tasks -/

def sampleOther : NewTask := ⟨0x7ff8, 0x9100, 0x66⟩

def sampleFresh : Word → Option NewTask := fun u =>
  if u = 0xb000 then some sampleOther else if u = 0xb100 then some sampleNew else none

/-- Both frames are built, and the TCB pointer is on the first. -/
def sampleBoot : St :=
  let b := pxPortInitialiseStack sample .always 0x9999 sampleNew fun _ => 0
  let b' := pxPortInitialiseStack sample .always 0x9999 sampleOther b.mem
  { sampleTask with mem := b'.mem.store [(0xb100, b.px), (0xb000, b'.px), (0x1010, 0xb000)] }

theorem sampleTakes_other : sampleTasks.Takes sampleOther 0xb000 where
  tcb := List.mem_cons_self
  lo := by decide
  hi := by decide
  top := by decide

theorem sampleFresh_cases {u : Word} {n : NewTask} (h : n ∈ sampleFresh u) :
    u = 0xb000 ∧ n = sampleOther ∨ u = 0xb100 ∧ n = sampleNew := by
  replace h : sampleFresh u = some n := h
  unfold sampleFresh at h
  split_ifs at h with h₁ h₂
  · exact .inl ⟨h₁, (Option.some.inj h).symm⟩
  · exact .inr ⟨h₂, (Option.some.inj h).symm⟩

/-- What `sampleBoot` stores behind the frames. -/
theorem mem_sampleBoot {a : Word} (h : 0x4000 ≤ a.toNat) (h' : a.toNat < 0xb000) : sampleBoot.mem a =
    (pxPortInitialiseStack sample .always 0x9999 sampleOther
      (pxPortInitialiseStack sample .always 0x9999 sampleNew fun _ => 0).mem).mem a := by
  have h₁ : a ≠ 0xb100 := by
    rintro rfl
    exact absurd h' (by decide)
  have h₂ : a ≠ 0xb000 := by
    rintro rfl
    exact absurd h' (by decide)
  have h₃ : a ≠ 0x1010 := by
    rintro rfl
    exact absurd h (by decide)
  refine (Function.update_of_ne h₃ _ _).trans ?_
  exact (Function.update_of_ne h₂ _ _).trans (Function.update_of_ne h₁ _ _)

theorem mem_sampleBoot_tcb :
    sampleBoot.mem 0xb000 = (pxPortInitialiseStack sample .always 0x9999 sampleOther
      (pxPortInitialiseStack sample .always 0x9999 sampleNew fun _ => 0).mem).px ∧
    sampleBoot.mem 0xb100 = (pxPortInitialiseStack sample .always 0x9999 sampleNew fun _ => 0).px := by
  decide +kernel

theorem ready_sampleBoot : sampleTasks.Ready .always 0x9999 sampleFresh sampleBoot where
  takes u n hn := by
    obtain ⟨rfl, rfl⟩ | ⟨rfl, rfl⟩ := sampleFresh_cases hn
    · exact sampleTakes_other
    · exact sampleTakes
  created u n hn := by
    obtain ⟨rfl, rfl⟩ | ⟨rfl, rfl⟩ := sampleFresh_cases hn
    · refine ⟨_, ?_, fun a ha => mem_sampleBoot ?_ ?_⟩
      · exact mem_sampleBoot_tcb.1
      · have h : 0x7ffc ≤ a.toNat + 216 := ha.1
        omega
      · have h : a.toNat < 0x7ffc := ha.2
        omega
    · have hfilled := filled_pxPortInitialiseStack (L := sample) (n := sampleOther) .always 0x9999
        (m := (pxPortInitialiseStack sample .always 0x9999 sampleNew fun _ => 0).mem)
        (by decide) fun hb => sampleTakes_other.not_cell hb (cell_sym (by decide))
      refine ⟨fun _ => 0, mem_sampleBoot_tcb.2, fun a ha => ?_⟩
      have h : 0x8ffc ≤ a.toNat + 216 := ha.1
      have h' : a.toNat < 0x8ffc := ha.2
      rw [mem_sampleBoot (by omega) (by omega), hfilled.mem]
      · exact Function.update_of_ne (by rintro rfl; exact absurd h (by decide)) _ _
      · rintro ⟨-, hb⟩
        have hb : a.toNat < 0x7ffc := hb
        omega
  current := by decide +kernel
  nesting := by decide +kernel
  spSvc := rfl
  spIrq := rfl

/-- The first task yields, and the second is chosen. -/
def yieldToNew : List Event :=
  [.svc] ++ .replicate 18 .run ++ [.store 0x1010 0xb100, .ret] ++ .replicate 23 .run

def sampleSchedule : Schedule :=
  .start sample .always 0x9999 sampleFresh sampleBoot (vPortRestoreTaskContext sample true sampleBoot)

theorem restoring_yieldToNew : (exec (fun c ev => if sampleTasks.Orderly true c.sys ev then
    advance sample true .always 0x9999 c (.event ev) else none) sampleSchedule yieldToNew).map (fun c =>
      (restoring c.sys.conf.frames, c.fresh (sample.tcb c.sys.conf.st.mem) == some sampleNew)) =
        some (true, true) := by
  decide +kernel

theorem tasks_begin_sampleBoot : ∃ (c : Schedule) (c' : Schedule),
    Run (guarded (ofNext (advance sample true .always 0x9999)) (sampleTasks.Allowed true .always 0x9999))
      sampleSchedule (yieldToNew.map .event) c ∧
    advance sample true .always 0x9999 c (.event .run) = some c' ∧
    Begins sample true .always 0x9999 sampleNew c'.sys.conf.st := by
  obtain ⟨c, hexec, hc⟩ := Option.map_eq_some_iff.mp restoring_yieldToNew
  obtain ⟨t, o, fs, hfs⟩ := of_restoring (congrArg Prod.fst hc)
  have hrun : Run (guarded (ofNext (advance sample true .always 0x9999))
    (sampleTasks.Allowed true .always 0x9999))
      sampleSchedule (yieldToNew.map .event) c := (run_of_exec_guarded hexec).map Act.event id
  obtain ⟨c', hstep, -, hbegins, -⟩ := (tasks_begin (by decide)
    (show sampleTasks.Ready .always 0x9999 sampleFresh (id sampleBoot) from ready_sampleBoot) rfl).2
      _ c t o fs
      sampleNew hrun hfs (eq_of_beq (congrArg Prod.snd hc))
  exact ⟨c, c', hrun, hstep, hbegins⟩

end CR8Devkit.Port
