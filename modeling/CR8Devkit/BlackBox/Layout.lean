import CR8Devkit.Lib.Access
import Mathlib.Data.Fintype.Prod
import Mathlib.Data.List.FinRange
import Mathlib.Algebra.GroupWithZero.Nat

/-!
# The R8 black box: its fields and the memory around it

* `Field`: the fields of `r8_blackbox_t`, one cell for each word and each byte of `fault_task`;
  `Field.all` lists them in the order of the structure.
* `Sram`: the diagnostic variables in SRAM, which the pump and the fault entries copy into the box.
* `Loc`, `Mem`: every cell a fault entry can access.
* `r8BbSet`, `memset`: the macro `R8_BB_SET` and the wipe of the whole box.
-/

namespace CR8Devkit.BlackBox

open Access

abbrev Word := BitVec 32

/-! The sizes of the arrays, whose indices are written as literals. -/

instance pairSize : NeZero 2 := ⟨Nat.succ_ne_zero 1⟩
instance ringWidth : NeZero 3 := ⟨Nat.succ_ne_zero 2⟩
instance swSize : NeZero 4 := ⟨Nat.succ_ne_zero 3⟩
instance ringSize : NeZero 8 := ⟨Nat.succ_ne_zero 7⟩

/-- The fields of `r8_blackbox_t`, in order. -/
inductive Field
  | magic | version | bootCount | uptimeTicks | hbIpi | hbSensor | hbEptcb | mhuIsr | semGive
  | semTake | semTimeout | notifOk | notifErr | sendOk | sendErr | mtxBlock | bootStage
  | faultType | faultArg0 | faultArg1 | faultLr | faultTask (i : Fin 16) | svcUsed | irqUsed
  | sysUsed | stackPaint | faultSpSvc | faultSpIrq | irqLast | irqCount | irqBad | irqSeen
  | irqCulprit | irqW28 | irqW32 | irqSp | irqPrev | svcRest | irqWordAddr | irqWordExp
  | irqWordGot | guardSpMin | guardSpMax | restMin | restMax | faultWord | faultWordAddr | nestMax
  | guardSkipped | irqOff | irqDepth | faultSpMin | faultSpMax | faultDepth | faultIrq | ringIdx
  | ring (k : Fin 8) (j : Fin 3) | yieldDefer | yieldApply | tickCount | snsStage | epiSpBefore
  | epiR2 | epiSpAfter | tickRtos | epiEntryAddr | epiEntryVal | ringWord (k : Fin 8) (j : Fin 2)
  | swExitCnt | swExitNest | swSvcCnt | swSvcNest | ringIrq (k : Fin 8) (j : Fin 3) | epiCpsr
  | epiUnmasked | epiIcciar | badIntidCnt | badIntidFirst | badIntidLast | badIntidMax
  | nestEvents
  deriving DecidableEq

namespace Field

/-- All cells of the box by ascending address. -/
def all : List Field := List.flatten [
  [.magic, .version, .bootCount, .uptimeTicks, .hbIpi, .hbSensor, .hbEptcb, .mhuIsr, .semGive,
    .semTake, .semTimeout, .notifOk, .notifErr, .sendOk, .sendErr, .mtxBlock, .bootStage,
    .faultType, .faultArg0, .faultArg1, .faultLr],
  (List.finRange 16).map faultTask,
  [.svcUsed, .irqUsed, .sysUsed, .stackPaint, .faultSpSvc, .faultSpIrq, .irqLast, .irqCount,
    .irqBad, .irqSeen, .irqCulprit, .irqW28, .irqW32, .irqSp, .irqPrev, .svcRest, .irqWordAddr,
    .irqWordExp, .irqWordGot, .guardSpMin, .guardSpMax, .restMin, .restMax, .faultWord,
    .faultWordAddr, .nestMax, .guardSkipped, .irqOff, .irqDepth, .faultSpMin, .faultSpMax,
    .faultDepth, .faultIrq, .ringIdx],
  (List.finRange 8).flatMap fun k => (List.finRange 3).map (ring k),
  [.yieldDefer, .yieldApply, .tickCount, .snsStage, .epiSpBefore, .epiR2, .epiSpAfter,
    .tickRtos, .epiEntryAddr, .epiEntryVal],
  (List.finRange 8).flatMap fun k => (List.finRange 2).map (ringWord k),
  [.swExitCnt, .swExitNest, .swSvcCnt, .swSvcNest],
  (List.finRange 8).flatMap fun k => (List.finRange 3).map (ringIrq k),
  [.epiCpsr, .epiUnmasked, .epiIcciar, .badIntidCnt, .badIntidFirst, .badIntidLast,
    .badIntidMax, .nestEvents]]

theorem mem_all (f : Field) : f ∈ all := by
  cases f with
  | faultTask i => simp [all]
  | ring k j => simp [all]
  | ringWord k j => simp [all]
  | ringIrq k j => simp [all]
  | _ => exact List.mem_of_elem_eq_true rfl

end Field

/-- The diagnostic variables `g_r8_…` in SRAM, libmetal's `g_metal_mutex_blocks`, FSP's
`g_current_interrupt_pointer` and the two counters of the FreeRTOS heap. -/
inductive Sram
  | nestMax | spMin | spMax | nestSkip | nestEvents | yieldDefer | epi (i : Fin 8) | sw (i : Fin 4)
  | currentInterruptPointer | irqLast | ringIdx | ring (k : Fin 8) (j : Fin 3)
  | rw (k : Fin 8) (j : Fin 2) | ri (k : Fin 8) (j : Fin 3) | wordAddr | wordExp | wordOff | irqPrev
  | irqCount | yieldApply | scanLast | metalMutexBlocks | xFreeBytesRemaining
  | xMinimumEverFreeBytesRemaining
  deriving DecidableEq

/-- The strings a fault entry passes on: the task's name and the literals. -/
inductive Str
  | pcTaskName | malloc | dataAbort | prefetch | undefined
  deriving DecidableEq

/-- The literals; the task is `rpmsg`. -/
def Str.text : Str → List Char
  | .pcTaskName => ['r', 'p', 'm', 's', 'g']
  | .malloc => ['m', 'a', 'l', 'l', 'o', 'c']
  | .dataAbort => ['d', 'a', 't', 'a', '_', 'a', 'b', 'o', 'r', 't']
  | .prefetch => ['p', 'r', 'e', 'f', 'e', 't', 'c', 'h']
  | .undefined => ['u', 'n', 'd', 'e', 'f']

/-- A cell of memory: a cell of the box, a variable, a character, or the stack word at an address.
The only address a fault entry dereferences is `g_r8_word_addr`, which calibration places in the SVC
stack. -/
inductive Loc
  | bb (f : Field)
  | sram (v : Sram)
  | char (s : Str) (i : ℕ)
  | word (a : ℕ)
  deriving DecidableEq

abbrev Mem := Loc → Word

/-- `m` with the strings in place. -/
def Mem.withStrings (m : Mem) : Mem
  | .char s i => ((s.text.getD i (Char.ofNat 0)).toNat : Word)
  | a => m a

/-- C code as the accesses it makes. -/
abbrev Code := Prog Loc Word

def r8BbMagic : Word := 0x42423852
def r8BbVersion : Word := 21

/-- The box is initialised: `R8_BB->magic` reads `R8_BB_MAGIC`. -/
def Ready (m : Mem) : Prop := m (.bb .magic) = r8BbMagic

instance (m : Mem) : Decidable (Ready m) := by unfold Ready; infer_instance

/-- `R8_BB_SET(field, val)`: nothing at all happens without the magic. -/
def r8BbSet (f : Field) (val : Code Word) : Code Unit := do
  let magic ← Prog.get (.bb .magic)
  if magic = r8BbMagic then do
    let v ← val
    Prog.set (.bb f) v
  else pure ()

/-- `R8_BB_INC(field)`. -/
def r8BbInc (f : Field) : Code Unit := do
  let magic ← Prog.get (.bb .magic)
  if magic = r8BbMagic then do
    let v ← Prog.get (.bb f)
    Prog.set (.bb f) (v + 1)
  else pure ()

/-- Clear some cells of the box in order. -/
def wipe : List Field → Code Unit
  | [] => pure ()
  | f :: fs => do
    Prog.set (.bb f) 0
    wipe fs

/-- `memset((void *) R8_BB, 0, sizeof(r8_blackbox_t))`. -/
def memset : Code Unit := wipe Field.all

end CR8Devkit.BlackBox
