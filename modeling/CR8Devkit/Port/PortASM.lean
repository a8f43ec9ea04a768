import CR8Devkit.Port.Machine

/-!
# `portASM`

The assembly of the port, instruction by instruction, with the diagnostic code that fills `g_r8_epi`
and `g_r8_sw`; `fpu` says whether tasks have a floating-point context.

* `St`, `Instr.run`: what runs under a handler, and one instruction.
* `portSaveContext`, `portRestoreContext`, `svcHandler`, `irqHandler`.
-/

namespace CR8Devkit.Port

open Handler

/-! ## States -/

/-- The processor and the memory; and for the record whether the running activation is between its
two stores to `ulPortInterruptNesting`, whether `ulPortYieldRequired` was set when the present tree
of interrupts began, whether a handler has set it since, and the context switches of the tree. -/
structure St where
  cpu : Cpu
  mem : Mem
  counted : Bool
  pending : Bool
  asked : Bool
  switches : ℕ

/-- `STR` to `ulPortInterruptNesting`. -/
def Op.counts (L : Layout) (op : Op) (c : Cpu) : Bool :=
  match op with
  | .str _ b i => c.get b + i == L.sym .ulPortInterruptNesting
  | _ => false

/-- One instruction, which does nothing if its condition fails. -/
def Instr.run (L : Layout) (i : Instr) (s : St) : St :=
  if i.cond.holds s.cpu.cpsr.nzcv then
    { s with
      cpu := i.op.cpu L s.cpu s.mem
      mem := s.mem.store (i.op.stores s.cpu)
      counted := s.counted ^^ i.op.counts L s.cpu }
  else s

theorem run_al (L : Layout) (op : Op) (s : St) : (Instr.mk .al op).run L s = { s with
    cpu := op.cpu L s.cpu s.mem
    mem := s.mem.store (op.stores s.cpu)
    counted := s.counted ^^ op.counts L s.cpu } := rfl

theorem Instr.run_cpu (L : Layout) (i : Instr) (s : St) : (i.run L s).cpu =
    if i.cond.holds s.cpu.cpsr.nzcv then i.op.cpu L s.cpu s.mem else s.cpu := by
  unfold run
  split <;> rfl

theorem Instr.run_mem (L : Layout) (i : Instr) (s : St) : (i.run L s).mem =
    if i.cond.holds s.cpu.cpsr.nzcv then s.mem.store (i.op.stores s.cpu) else s.mem := by
  unfold run
  split <;> rfl

/-- A sequence of instructions. -/
def Layout.runs (L : Layout) (is : List Instr) (s : St) : St := Handler.runs (Instr.run L) is s

theorem runs_nil (L : Layout) (s : St) : L.runs [] s = s := rfl

theorem runs_cons (L : Layout) (i : Instr) (is : List Instr) (s : St) :
    L.runs (i :: is) s = L.runs is (i.run L s) := rfl

/-! ## Code -/

/-- The ways out of a handler. -/
inductive Exit
  | movsPcLr | rfeia
  deriving DecidableEq

abbrev Code := Handler.Code Instr Cond CFun Exit

abbrev r0 : Reg := .r 0
abbrev r1 : Reg := .r 1
abbrev r2 : Reg := .r 2
abbrev r3 : Reg := .r 3
abbrev r4 : Reg := .r 4
abbrev r12 : Reg := .r 12

open Op Operand CR8Devkit.Port.Sym
open Reg (sp lr)

/-- r0 to r12 and r14. -/
def allRegs : List Reg := List.ofFn (Reg.r ·) ++ [lr]

/-- What every context has: the return state, r0 to r12 and the task's lr, and its critical nesting
count. -/
def pushContext : List Instr := [srsdb sysMode, cps sysMode, push allRegs,
  ldrSym r2 ulCriticalNesting, ldr r1 r2 0, push [r1]]

/-- The floating-point registers if the task has them, and in any case the flag. -/
def pushFpu (fpu : Bool) : List Instr :=
  if fpu then [ldrSym r2 ulPortTaskHasFPUContext, ldr r3 r2 0, cmp r3 (imm 0), ⟨.ne, fmrx r1⟩,
    ⟨.ne, vpush⟩, ⟨.ne, push [r1]⟩, push [r3]]
  else []

/-- The first word of the TCB is the stack pointer. -/
def storeSp : List Instr := [ldrSym r0 pxCurrentTCB, ldr r1 r0 0, str sp r1 0]

/-- The whole context of the running task goes to its own stack. -/
def portSaveContext (fpu : Bool) (k : Code) : Code :=
  .block pushContext <| .block (pushFpu fpu) <| .block storeSp k

/-- The stack pointer of the task that the TCB pointer is on. -/
def loadSp : List Instr := [ldrSym r0 pxCurrentTCB, ldr r1 r0 0, ldr sp r1 0]

/-- In the opposite order of `pushFpu`. -/
def popFpu (fpu : Bool) : List Instr :=
  if fpu then [ldrSym r0 ulPortTaskHasFPUContext, pop [r1], str r1 r0 0, cmp r1 (imm 0),
    ⟨.ne, pop [r0]⟩, ⟨.ne, vpop⟩, ⟨.ne, vmsr r0⟩]
  else []

/-- All but the return state, which `RFEIA` pops. -/
def popContext : List Instr := [ldrSym r0 ulCriticalNesting, pop [r1], str r1 r0 0, pop allRegs]

/-- The task that the TCB pointer is on goes on. -/
def portRestoreContext (fpu : Bool) : Code :=
  .block loadSp <| .block (popFpu fpu) <| .block popContext <| .exit .rfeia

/-- The diagnostic count of switches by `SVC`. -/
def countSvc : List Instr := [ldrSym r3 gR8Sw, ldr r2 r3 8, add r2 r2 (imm 1), str r2 r3 8,
  ldrSym r2 ulPortInterruptNesting, ldr r2 r2 0, ldr r4 r3 12, cmp r2 (reg r4), ⟨.hi, str r2 r3 12⟩]

/-- A task yields. -/
def svcHandler (fpu : Bool) : Code :=
  portSaveContext fpu <|
  .block [ldrSym r0 vTaskSwitchContext] <|
  .call .vTaskSwitchContext <|
  .block countSvc <|
  portRestoreContext fpu

/-- What `IRQ_Handler` keeps on the SVC stack. -/
def usedRegs : List Reg := [r0, r1, r2, r3, r4, r12, lr]

/-- Reload them, and the return address and SPSR of IRQ mode. -/
def restoreUsed : List Instr := [pop usedRegs, cps irqMode, pop [lr], msrSpsr lr, pop [lr]]

/-- Back to what was interrupted. -/
def exitWithoutSwitch : Code := .block restoreUsed <| .exit .movsPcLr

/-- The diagnostic count of switches by `IRQ_Handler`. -/
def countExit : List Instr := [ldrSym r3 gR8Sw, ldr r2 r3 0, add r2 r2 (imm 1), str r2 r3 0,
  ldrSym r2 ulPortInterruptNesting, ldr r2 r2 0, ldr r4 r3 4, cmp r2 (reg r4), ⟨.hi, str r2 r3 4⟩]

/-- The address of `ulPortYieldRequired` is still in r1. -/
def clearYield : List Instr := [mov r0 (imm 0), str r0 r1 0]

/-- The flag is cleared before anything is restored. -/
def switchBeforeExit (fpu : Bool) : Code :=
  .block countExit <|
  .block clearYield <|
  .block restoreUsed <|
  portSaveContext fpu <|
  .block [ldrSym r0 vTaskSwitchContext] <|
  .call .vTaskSwitchContext <|
  portRestoreContext fpu

/-- Return address and SPSR to the IRQ stack, the used registers to the SVC stack. -/
def saveUsed : List Instr := [sub lr lr (imm 4), push [lr], mrsSpsr lr, push [lr], cps svcMode,
  push usedRegs]

/-- One more activation is live. -/
def incrementNesting : List Instr := [ldrSym r3 ulPortInterruptNesting, ldr r2 r3 0,
  add r2 r2 (imm 1), str r2 r3 0]

/-- r2 is pushed behind the alignment. -/
def alignStack : List Instr := [mov r2 (reg sp), and r2 r2 (imm 4), sub sp sp (reg r2), push [r2]]

/-- Into `g_r8_epi`. -/
def entrySnapshot : List Instr := [ldrSym r3 gR8Epi, str sp r3 12, ldr r1 sp 0, str r1 r3 16]

/-- r4 survives the C functions. -/
def keepIcciar : List Instr := [mov r4 (reg r0)]

/-- Nothing nests from here on; the acknowledged interrupt is to be ended. -/
def maskIrqs : List Instr := [cpsidI, dsb, isb, mov r0 (reg r4)]

/-- Into `g_r8_epi`, with a count of the exits at which IRQs were not masked. -/
def exitSnapshot : List Instr := [ldrSym r3 gR8Epi, mrsCpsr r1, str r1 r3 20, tst r1 (imm 0x80),
  ⟨.eq, ldr r1 r3 24⟩, ⟨.eq, add r1 r1 (imm 1)⟩, ⟨.eq, str r1 r3 24⟩, str r4 r3 28, str sp r3 0]

/-- What `alignStack` has done is undone. -/
def unalignStack : List Instr := [pop [r2], str r2 r3 4, add sp sp (reg r2), str sp r3 8]

/-- With the flags of the new count. -/
def decrementNesting : List Instr := [ldrSym r1 ulPortInterruptNesting, ldr r0 r1 0,
  sub r0 r0 (imm 1), str r0 r1 0, cmp r0 (imm 0)]

/-- With the flags of `ulPortYieldRequired`. -/
def readYield : List Instr := [ldrSym r1 ulPortYieldRequired, ldr r0 r1 0, cmp r0 (imm 0)]

/-- `BNE switch_before_exit`, or the fall into `exit_without_switch`. -/
def testYield (fpu : Bool) : Code :=
  .block readYield <|
  .branch .ne (switchBeforeExit fpu) exitWithoutSwitch

/-- From the end of the interrupt on: a nested activation never switches. -/
def irqEpilogue (fpu : Bool) : Code :=
  .block exitSnapshot <|
  .block unalignStack <|
  .block decrementNesting <|
  .branch .ne exitWithoutSwitch (testYield fpu)

/-- The handler of every IRQ. -/
def irqHandler (fpu : Bool) : Code :=
  .block saveUsed <|
  .block incrementNesting <|
  .block alignStack <|
  .block entrySnapshot <|
  .call .freeRTOSGetActiveIRQ <|
  .block keepIcciar <|
  .call .vApplicationIRQHandler <|
  .block maskIrqs <|
  .call .freeRTOSEndOfInterrupt <|
  irqEpilogue fpu

end CR8Devkit.Port
