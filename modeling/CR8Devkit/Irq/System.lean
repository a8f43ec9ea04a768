import CR8Devkit.Port.Interrupts
import CR8Devkit.BlackBox.Probe
import CR8Devkit.Irq.Handler

/-!
# The port with the C code of an interrupt

The machine of the port, where `FreeRTOS_GetActiveIRQ`, `vApplicationIRQHandler` and
`FreeRTOS_EndOfInterrupt` do what their C code says. Tasks, the dispatched handlers and the rest of
the C code stay as free as they are there.

* `Phase`: how far an activation of `IRQ_Handler` has come; `Vars`: the variables of the C code.
* `Stmt.run`: one statement; `View.track`: what a step of the port means for the interrupt
  controller.
* `next`: one step of the system; `port_of_run`: every run of it is a run of the port.
-/

namespace CR8Devkit.Irq

open Port (Layout Config Event Frame CFun Trap r0)
open BlackBox (Loc Linker r8NestProbe r8BadIntid r8IrqGuard)
open Transition

/-! ## Activations -/

/-- An acknowledged interrupt: the value read from ICCIAR, and its priority byte at that time. -/
structure Ack where
  icciar : Word
  priority : BitVec 8

/-- An activation before its acknowledge; before, in (with the statements still to run) and after
`vApplicationIRQHandler`; and after its end of interrupt. -/
inductive Phase
  | entered
  | acked (a : Ack)
  | handling (a : Ack) (todo : List Stmt)
  | handled (a : Ack)
  | ended

namespace Phase

/-- `BLX f`, with `r` in r0. -/
def called (b : Bsp) (f : CFun) (r : Word) (p : Phase) : Phase :=
  match f, p with
  | .vApplicationIRQHandler, acked a => handling a (vApplicationIRQHandler b r)
  | .freeRTOSEndOfInterrupt, handled _ => ended
  | _, p => p

/-- `f` returns; `FreeRTOS_GetActiveIRQ` has acknowledged `a`. -/
def returned (f : CFun) (a : Ack) (p : Phase) : Phase :=
  match f, p with
  | .freeRTOSGetActiveIRQ, entered => acked a
  | .vApplicationIRQHandler, handling a _ => handled a
  | _, p => p

/-- The interrupt that has been acknowledged and not yet ended. -/
def live : Phase → Option Ack
  | acked a | handling a _ | handled a => some a
  | _ => none

end Phase

/-- What the interrupt controller sees: a read of ICCIAR and a write to ICCEOIR. -/
inductive GicEvent
  | ack (icciar : Word)
  | eoi (icciar : Word)
  deriving DecidableEq

/-- `FreeRTOS_GetActiveIRQ` returns `r`. -/
def acknowledge (f : CFun) (r : Word) : List GicEvent := if f = .freeRTOSGetActiveIRQ then [.ack r] else []

/-- `FreeRTOS_EndOfInterrupt` is called with `r`. -/
def endOfInterrupt (f : CFun) (r : Word) : List GicEvent :=
  if f = .freeRTOSEndOfInterrupt then [.eoi r] else []

/-! ## Variables -/

/-- `g_current_interrupt_num`, and the cells that `r8_blackbox.c` knows. -/
structure Vars where
  num : ℕ → BitVec 16
  mem : BlackBox.Mem

namespace Vars

variable (v : Vars)

/-- `g_current_interrupt_pointer`, a `uint8_t`. -/
def pointer : BitVec 8 := (v.mem (.sram .currentInterruptPointer)).setWidth 8

def setPointer (p : BitVec 8) : Vars :=
  { v with mem := Function.update v.mem (.sram .currentInterruptPointer) (p.setWidth 32) }

def exec (c : BlackBox.Code Unit) : Vars := { v with mem := (c.exec v.mem).2 }

end Vars

/-- `g_r8_yield_defer++`. -/
def countYield : BlackBox.Code Unit := do
  let n ← Access.Prog.get (.sram .yieldDefer)
  Access.Prog.set (.sram .yieldDefer) (n + 1)

/-- One statement, in state `s` of the machine; the dispatched handler is not run here. -/
def Stmt.run (L : Layout) (k : Linker) (s : Port.St) : Stmt → Vars → Vars
  | .remain n, v => { v.setPointer (v.pointer + 1) with num := Function.update v.num v.pointer.toNat n }
  | .nestProbe, v => v.exec (r8NestProbe (v.pointer.setWidth 32))
  | .badIntid x, v => v.exec (r8BadIntid (x.setWidth 32))
  | .release, v => v.setPointer (v.pointer - 1)
  | .countDeferred, v =>
    if v.pointer ≠ 0 ∧ s.mem (L.sym .ulPortYieldRequired) ≠ 0 then v.exec countYield else v
  | .irqGuard i, v => v.exec (r8IrqGuard k ⟨i, s.cpu.sp, s.cpu.spIrq⟩)
  | .dmb, v | .enableIrq, v | .vector _, v | .disableIrq, v => v

/-! ## The system -/

/-- The activations, newest first (one of `SVC_Handler` counts as ended), the variables, the
distributor, and what the interrupt controller has seen so far. -/
structure View where
  acts : List Phase
  vars : Vars
  gic : Gic
  log : List GicEvent

structure Sys where
  port : Config
  view : View

/-- A dispatched handler is running its own code. -/
def runsVector : List Stmt → Bool
  | .vector _ :: _ => true
  | _ => false

/-- The mask bit is changed by the dispatched handler only, or by a statement; and the function
returns behind its last statement. -/
def Sys.permits (σ : Sys) (ev : Event) : Bool :=
  match σ.port.frames, σ.view.acts, ev with
  | .c .vApplicationIRQHandler _ :: _, .handling _ todo :: _, .regs g =>
    runsVector todo || g.masked == σ.port.st.cpu.cpsr.masked
  | .c .vApplicationIRQHandler _ :: _, .handling _ todo :: _, .ret => todo.isEmpty
  | _, _, _ => true

/-- What a step of the port means for the activations and the interrupt controller. The argument of
a C function is in r0, and so is its result. -/
def View.track (b : Bsp) (c : Config) (v : View) (ev : Event) : View :=
  let r := c.st.cpu.get r0
  match c.frames, ev with
  | _, .take => { v with acts := .entered :: v.acts }
  | _, .svc => { v with acts := .ended :: v.acts }
  | .c f _ :: _, .ret =>
    { v with
      acts := v.acts.modifyHead (.returned f ⟨r, v.gic.icdipr (gicIntid r).toNat⟩)
      log := v.log ++ acknowledge f r }
  | .asm _ (.call f _) _ :: _, .run =>
    { v with acts := v.acts.modifyHead (.called b f r), log := v.log ++ endOfInterrupt f r }
  | .asm _ (.exit _) _ :: _, .run => { v with acts := v.acts.tail }
  | _, _ => v

/-- The registers as they are, with the mask bit set to `m`. -/
def maskRegs (c : Port.Cpu) (m : Bool) : Port.Regs where
  r := c.r
  sp := c.sp
  lr := c.lr
  pc := c.pc
  nzcv := c.cpsr.nzcv
  hi := c.cpsr.hi
  masked := m
  ft := c.cpsr.ft
  d := c.d
  fpscr := c.fpscr

/-- `__enable_irq` and `__disable_irq` are steps of the port, the other statements leave it alone. -/
def Stmt.port (L : Layout) (fpu : Bool) (c : Config) : Stmt → Option Config
  | .enableIrq => Port.next L fpu c (.regs (maskRegs c.st.cpu false))
  | .disableIrq => Port.next L fpu c (.regs (maskRegs c.st.cpu true))
  | _ => some c

/-- `stmt` is the next statement of the running `vApplicationIRQHandler`, or the return of the
vector it has called; `poke` is a store of other C code to one of the cells; `cfg` is a call of
`R_BSP_IrqCfg`. -/
inductive Act
  | port (ev : Event)
  | stmt
  | poke (a : Loc) (w : Word)
  | cfg (irq priority context : Word)

def next (L : Layout) (fpu : Bool) (b : Bsp) (k : Linker) (σ : Sys) : Act → Option Sys
  | .port ev =>
    if σ.permits ev then
      (Port.next L fpu σ.port ev).map fun c => ⟨c, σ.view.track b σ.port ev⟩
    else none
  | .stmt =>
    match σ.port.frames, σ.view.acts with
    | .c .vApplicationIRQHandler _ :: _, .handling a (st :: todo) :: ps =>
      (st.port L fpu σ.port).map fun c =>
        ⟨c, { σ.view with acts := .handling a todo :: ps, vars := st.run L k σ.port.st σ.view.vars }⟩
    | _, _ => none
  | .poke a w =>
    match a with
    | .sram v =>
      if v.counts then none
      else some { σ with view.vars.mem := Function.update σ.view.vars.mem a w }
    | _ => some { σ with view.vars.mem := Function.update σ.view.vars.mem a w }
  | .cfg irq priority context =>
    some { σ with view.gic := rBspIrqCfg b irq priority context σ.view.gic }

/-! ## What a step does -/

/-- Each action, where it happens. -/
inductive ActStep (L : Layout) (fpu : Bool) (b : Bsp) (k : Linker) (σ : Sys) : Act → Sys → Prop
  | port {ev : Event} {c : Config} (hperm : σ.permits ev = true) (hc : Port.next L fpu σ.port ev = some c) :
      ActStep L fpu b k σ (.port ev) ⟨c, σ.view.track b σ.port ev⟩
  | stmt {e : Port.St} {fs : List Frame} {a : Ack} {st : Stmt} {todo : List Stmt} {ps : List Phase}
      {c : Config} (hfs : σ.port.frames = .c .vApplicationIRQHandler e :: fs)
      (hv : σ.view.acts = .handling a (st :: todo) :: ps) (hc : st.port L fpu σ.port = some c) :
      ActStep L fpu b k σ .stmt
        ⟨c, { σ.view with acts := .handling a todo :: ps, vars := st.run L k σ.port.st σ.view.vars }⟩
  | poke {a : Loc} {w : Word} (ha : ∀ x : BlackBox.Sram, x.counts = true → .sram x ≠ a) :
      ActStep L fpu b k σ (.poke a w) { σ with view.vars.mem := Function.update σ.view.vars.mem a w }
  | cfg {irq priority context : Word} : ActStep L fpu b k σ (.cfg irq priority context)
      { σ with view.gic := rBspIrqCfg b irq priority context σ.view.gic }

/-- **The cases of a step.** -/
theorem actStep_of_next {L : Layout} {fpu : Bool} {b : Bsp} {k : Linker} {σ σ' : Sys} {a : Act}
    (h : next L fpu b k σ a = some σ') : ActStep L fpu b k σ a σ' := by
  cases a with
  | port ev =>
    simp only [next] at h
    split_ifs at h with hperm
    obtain ⟨c, hc, rfl⟩ := Option.map_eq_some_iff.mp h
    exact .port hperm hc
  | stmt =>
    simp only [next] at h
    split at h
    · next hfs hv =>
      obtain ⟨c, hc, rfl⟩ := Option.map_eq_some_iff.mp h
      exact .stmt hfs hv hc
    · cases h
  | poke a w =>
    cases a with
    | sram x =>
      simp only [next] at h
      split_ifs at h with hx
      cases h
      refine .poke fun y hy heq => ?_
      cases heq
      exact hx hy
    | _ =>
      cases h
      exact .poke fun y _ heq => by cases heq
  | cfg irq priority context =>
    cases h
    exact .cfg

/-! ## Runs -/

section Runs

variable {L : Layout} {fpu : Bool} {b : Bsp} {k : Linker} {σ σ' : Sys} {a : Act} {as : List Act}

/-- A statement is at most one step of the port. -/
theorem port_of_stmt {st : Stmt} {c c' : Config} (h : st.port L fpu c = some c') :
    c' = c ∨ ∃ ev, Port.next L fpu c ev = some c' := by
  cases st with
  | enableIrq => exact .inr ⟨.regs (maskRegs c.st.cpu false), h⟩
  | disableIrq => exact .inr ⟨.regs (maskRegs c.st.cpu true), h⟩
  | _ => exact .inl (Option.some.inj h).symm

theorem port_of_next (h : next L fpu b k σ a = some σ') :
    σ'.port = σ.port ∨ ∃ ev, Port.next L fpu σ.port ev = some σ'.port := by
  cases actStep_of_next h with
  | port _ hc => exact .inr ⟨_, hc⟩
  | stmt _ _ hc => exact port_of_stmt hc
  | poke | cfg => exact .inl rfl

/-- **The system is the port**: every run of it is a run of the port, with some steps left out. -/
theorem port_of_run (h : Run (ofNext (next L fpu b k)) σ as σ') :
    ∃ evs, Run (ofNext (Port.next L fpu)) σ.port evs σ'.port := by
  induction h with
  | nil => exact ⟨[], .nil⟩
  | snoc _ hs ih =>
    obtain ⟨evs, hrun⟩ := ih
    rcases port_of_next hs with heq | ⟨ev, hev⟩
    · exact ⟨evs, heq ▸ hrun⟩
    · exact ⟨evs ++ [ev], hrun.snoc hev⟩

end Runs

end CR8Devkit.Irq
