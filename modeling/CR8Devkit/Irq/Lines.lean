import CR8Devkit.Irq.Handler
import CR8Devkit.Lib.Fields

/-!
# The interrupt controller, line by line

* `Intc`, `Select`: the registers and tables of `bsp_irq.c`, and what `bsp_irq_cfg` selects.
* `Call`: the functions that configure interrupts, and what the hardware does in between.
* `Line`, `Intc.line`: what all this says about one INTID; `Call.effect`: what a call does to it.
* **`line_run`**: a sequence of calls does to every INTID what it does to it call by call.
* **`selected_bspIrqCfg`**: the events behind the select interrupts.
-/

namespace CR8Devkit.Irq

/-! ## Registers and tables -/

/-- With the active bits, the select registers, and the control registers of the processor interface
and of the distributor. -/
structure Intc extends Gic where
  active : ℕ → Word
  intr8sel : ℕ → Word
  iccicrEn : Bool
  iccpmrP : Word
  iccbprBp : Word
  icddcrEn : Bool

/-- `BSP_FEATURE_ICU_HAS_SELECT_INT`, `BSP_SELECT_INT_NUM`, `BSP_SELECT_INT_START_ELEMENT`,
`BSP_FEATURE_ICU_FIXED_INTSEL_COUNT`, `IRQSEL_NONE` and `BSP_FEATURE_INTC_BINARY_POINT`; and the
tables `g_interrupt_event_link_select` and `g_gic_sel_int_detect_type`. -/
structure Select where
  hasSelectInt : Bool
  selectIntNum : ℕ
  startElement : ℕ
  fixedIntselCount : ℕ
  irqselNone : Word
  binaryPoint : Word
  eventLinkSelect : ℕ → Word
  selIntDetectType : Word → BitVec 8

/-! ## The functions -/

/-- `R_BSP_IrqDisable`: zeros written to `GICD_ICDICERn` have no effect. -/
def rBspIrqDisable (b : Bsp) (irq : Word) (g : Gic) : Gic :=
  let n := irqNo b irq
  { g with enabled := Function.update g.enabled (n / 32) (g.enabled (n / 32) &&& ~~~((1 : Word) <<< (n % 32))) }

/-- `R_BSP_IrqCfgEnable`. -/
def rBspIrqCfgEnable (b : Bsp) (irq priority context : Word) (g : Gic) : Gic :=
  rBspIrqEnable b irq (rBspIrqCfg b irq priority context g)

/-- The first loop of `bsp_irq_cfg`, with `cnt` iterations left. -/
def retype (c : Select) : ℕ → ℕ → ℕ → (ℕ → BitVec 8) → ℕ → BitVec 8
  | 0, _, _, t => t
  | cnt + 1, irqNum, selectNum, t =>
    if c.eventLinkSelect selectNum ≠ c.irqselNone then
      retype c cnt (irqNum + 1) (selectNum + 1)
        (Function.update t irqNum (c.selIntDetectType (c.eventLinkSelect selectNum)))
    else t

/-- The last loop, which stops at the first `IRQSEL_NONE`. -/
def selectEvents (c : Select) : ℕ → ℕ → (ℕ → Word) → ℕ → Word
  | 0, _, r => r
  | cnt + 1, selNum, r =>
    if c.eventLinkSelect selNum ≠ c.irqselNone then
      let selRegisterNum := selNum / 3
      let selBitNum := selNum % 3
      let spiSel := r selRegisterNum &&& ~~~((0x3ff : Word) <<< (10 * selBitNum))
      let spiSel := spiSel ||| c.eventLinkSelect selNum <<< (10 * selBitNum)
      selectEvents c cnt (selNum + 1) (Function.update r selRegisterNum spiSel)
    else r

/-- `BSP_PRV_ALL_BIT_CLEAR` to the first registers: each bit written as one is cleared. -/
def clearRegs (max : ℕ) (r : ℕ → Word) : ℕ → Word := fun n => if n < max then r n &&& ~~~0xffffffff else r n

def bspIrqCfg (b : Bsp) (c : Select) (g : Intc) : Intc :=
  let g := { g with iccicrEn := false, iccpmrP := b.priorityMask, iccbprBp := c.binaryPoint }
  let g := { g with iccicrEn := true, icddcrEn := false }
  let irqNum := c.fixedIntselCount + c.startElement + b.cortexEntries
  let g := if c.hasSelectInt then
      { g with detectType := retype c c.selectIntNum irqNum c.startElement g.detectType }
    else g
  let g := { g with pending := clearRegs 13 g.pending, active := clearRegs 13 g.active, icddcrEn := true }
  if c.hasSelectInt then { g with intr8sel := selectEvents c c.selectIntNum c.startElement g.intr8sel } else g

/-- The last three are the hardware: an interrupt comes in, is acknowledged, and is ended. -/
inductive Call
  | irqDetectTypeSet (irq : Word) (detectType : BitVec 8)
  | irqStatusClear (irq : Word)
  | irqClearPending (irq : Word)
  | irqCfg (irq priority context : Word)
  | irqEnableNoClear (irq : Word)
  | irqEnable (irq : Word)
  | irqDisable (irq : Word)
  | irqCfgEnable (irq priority context : Word)
  | irqGroupSet (irq group : Word)
  | bspIrqCfg
  | raised (x : ℕ)
  | acknowledged (x : ℕ)
  | ended (x : ℕ)

/-- Bit `x` of the registers. -/
def setBit (r : ℕ → Word) (x : ℕ) (v : Bool) : ℕ → Word := Fields.put 32 r x (BitVec.ofBool v)

def Call.run (b : Bsp) (c : Select) (g : Intc) : Call → Intc
  | irqDetectTypeSet irq t => { g with toGic := rBspIrqDetectTypeSet b irq t g.toGic }
  | irqStatusClear _ => g
  | irqClearPending irq => { g with toGic := rBspIrqClearPending b irq g.toGic }
  | irqCfg irq priority context => { g with toGic := rBspIrqCfg b irq priority context g.toGic }
  | irqEnableNoClear irq => { g with toGic := rBspIrqEnableNoClear b irq g.toGic }
  | irqEnable irq => { g with toGic := rBspIrqEnable b irq g.toGic }
  | irqDisable irq => { g with toGic := rBspIrqDisable b irq g.toGic }
  | irqCfgEnable irq priority context => { g with toGic := rBspIrqCfgEnable b irq priority context g.toGic }
  | irqGroupSet _ _ => g
  | .bspIrqCfg => Irq.bspIrqCfg b c g
  | raised x => { g with pending := setBit g.pending x true }
  | acknowledged x => { g with pending := setBit g.pending x false, active := setBit g.active x true }
  | ended x => { g with active := setBit g.active x false }

/-! ## One line -/

/-- What there is about one INTID. -/
@[ext]
structure Line where
  detect : BitVec 2
  priority : BitVec 8
  target : BitVec 8
  enabled : Bool
  pending : Bool
  active : Bool
  detectType : BitVec 8
  context : Word
  deriving DecidableEq

def Intc.line (g : Intc) (x : ℕ) : Line where
  detect := Fields.get 2 16 g.icdicfr x
  priority := g.icdipr x
  target := g.icdiptr x
  enabled := g.isEnabled x
  pending := (g.pending (x / 32)).getLsbD (x % 32)
  active := (g.active (x / 32)).getLsbD (x % 32)
  detectType := g.detectType x
  context := g.isrContext x

/-- How many events the loops of `bsp_irq_cfg` go through. -/
def linkedFrom (c : Select) : ℕ → ℕ → ℕ
  | 0, _ => 0
  | cnt + 1, selNum => if c.eventLinkSelect selNum ≠ c.irqselNone
      then linkedFrom c cnt (selNum + 1) + 1 else 0

def Select.linked (c : Select) : ℕ := linkedFrom c c.selectIntNum c.startElement

/-- The INTID of the first select interrupt. -/
def Select.first (b : Bsp) (c : Select) : ℕ := c.fixedIntselCount + c.startElement + b.cortexEntries

namespace Line

/-- `R_BSP_IrqCfg`. -/
def cfg (b : Bsp) (priority context : Word) (l : Line) : Line :=
  { l with
    detect := l.detectType.setWidth 2
    priority := setPriority b priority
    target := (1 : BitVec 8) <<< b.coreNum
    context := context }

/-- `R_BSP_IrqClearPending`, for all INTIDs that share the register. -/
def clearPending (n x : ℕ) (l : Line) : Line := if x / 32 = n / 32 then { l with pending := false } else l

/-- `bsp_irq_cfg`. -/
def boot (b : Bsp) (c : Select) (x : ℕ) (l : Line) : Line :=
  { l with
    detectType :=
      if c.hasSelectInt = true ∧ c.first b ≤ x ∧ x < c.first b + c.linked then
        c.selIntDetectType (c.eventLinkSelect (c.startElement + (x - c.first b)))
      else l.detectType
    pending := l.pending && !decide (x / 32 < 13)
    active := l.active && !decide (x / 32 < 13) }

end Line

/-- What a call does to INTID `x`. -/
def Call.effect (b : Bsp) (c : Select) (x : ℕ) (l : Line) : Call → Line
  | irqDetectTypeSet irq t => if x = irqNo b irq then { l with detect := t.setWidth 2 } else l
  | irqStatusClear _ | irqGroupSet _ _ => l
  | irqClearPending irq => l.clearPending (irqNo b irq) x
  | irqCfg irq priority context => if x = irqNo b irq then l.cfg b priority context else l
  | irqEnableNoClear irq => if x = irqNo b irq then { l with enabled := true } else l
  | irqEnable irq =>
    let l := l.clearPending (irqNo b irq) x
    if x = irqNo b irq then { l with enabled := true } else l
  | irqDisable irq => if x = irqNo b irq then { l with enabled := false } else l
  | irqCfgEnable irq priority context =>
    let l := l.clearPending (irqNo b irq) x
    if x = irqNo b irq then { l.cfg b priority context with enabled := true } else l
  | .bspIrqCfg => l.boot b c x
  | raised y => if x = y then { l with pending := true } else l
  | acknowledged y => if x = y then { l with pending := false, active := true } else l
  | ended y => if x = y then { l with active := false } else l

/-! ## What each function does to a line -/

section Lines

variable {b : Bsp} {c : Select} {g : Gic} {i : Intc} {x y n : ℕ} {irq priority context : Word} {r : ℕ → Word}

theorem byteAddr_eq (n : ℕ) : byteAddr n = n := Nat.div_add_mod n 4

theorem update_apply {α : Type*} (f : ℕ → α) (n x : ℕ) (v : α) :
    Function.update f n v x = if x = n then v else f x := by
  split_ifs with h
  · rw [h, Function.update_self]
  · exact Function.update_of_ne h _ _

/-- The bit of an INTID is a field of width one. -/
theorem getLsbD_eq_get (r : ℕ → Word) (x : ℕ) :
    (r (x / 32)).getLsbD (x % 32) = (Fields.get 1 32 r x).getLsbD 0 := by
  rw [Fields.getLsbD_get, Nat.one_mul]
  rfl

theorem bit_setBit (v : Bool) : ((setBit r y v) (x / 32)).getLsbD (x % 32) =
    if x = y then v else (r (x / 32)).getLsbD (x % 32) := by
  rw [getLsbD_eq_get, setBit, Fields.get_put (by decide) (by decide)]
  split_ifs
  · cases v <;> rfl
  · rw [getLsbD_eq_get]

/-- A value that fits the mask fits it where it is shifted to. -/
theorem fits_shiftLeft {v mask : Word} (h : v &&& ~~~mask = 0) (shift : ℕ) :
    v <<< shift &&& ~~~(mask <<< shift) = 0 := by
  refine BitVec.eq_of_getLsbD_eq fun j hj => ?_
  have hbit := congrArg (fun u : Word => u.getLsbD (j - shift)) h
  replace hbit : (v &&& ~~~mask).getLsbD (j - shift) = false := hbit.trans BitVec.getLsbD_zero
  have hlt : j - shift < 32 := by omega
  rw [BitVec.getLsbD_and, BitVec.getLsbD_not, decide_eq_true hlt, Bool.true_and] at hbit
  rw [BitVec.getLsbD_and, BitVec.getLsbD_not, BitVec.getLsbD_shiftLeft, BitVec.getLsbD_shiftLeft, decide_eq_true hj,
    Bool.true_and, Bool.true_and]
  refine Eq.trans ?_ BitVec.getLsbD_zero.symm
  cases decide (j < shift) with
  | true => rfl
  | false => exact hbit

/-- A detect type of two bits, as a value for the register. -/
theorem fits_detectType {t : BitVec 8} (ht : t.toNat < 4) : t.setWidth 32 &&& ~~~(3 : Word) = 0 ∧
    (t.setWidth 2).setWidth 32 = (t.setWidth 32 : Word) := by
  have hlt : t.toNat = 0 ∨ t.toNat = 1 ∨ t.toNat = 2 ∨ t.toNat = 3 := by omega
  have heq : t = BitVec.ofNat 8 t.toNat := (BitVec.ofNat_toNat 8 t).symm
  rcases hlt with h | h | h | h <;> rw [heq, h] <;> decide

/-- The two bits of the detect type. -/
theorem detect_rBspIrqDetectTypeSet (hb : b.Accesses) (irq : Word) {t : BitVec 8} (ht : t.toNat < 4) :
    Fields.get 2 16 (rBspIrqDetectTypeSet b irq t g).icdicfr x =
      if x = irqNo b irq then t.setWidth 2 else Fields.get 2 16 g.icdicfr x := by
  obtain ⟨hfits, hwidth⟩ := fits_detectType ht
  have hput : (rBspIrqDetectTypeSet b irq t g).icdicfr =
      Fields.put 16 g.icdicfr (irqNo b irq) (t.setWidth 2) := by
    refine congrArg (Function.update g.icdicfr (irqNo b irq / 16)) ?_
    rw [hb.write _ _ _ _ (fits_shiftLeft hfits _), Fields.replace, hwidth, Nat.mul_comm (irqNo b irq % 16) 2]
    rfl
  rw [hput, Fields.get_put (by decide) (by decide)]

/-- The second write to `GICD_ICDICPRn` clears the whole register. -/
theorem pending_rBspIrqClearPending (hb : b.Accesses) : (rBspIrqClearPending b irq g).pending =
    Function.update g.pending (irqNo b irq / 32) 0 := by
  have hself : ∀ v w : Word, v &&& ~~~w &&& ~~~(v &&& ~~~w &&& ~~~w ||| w) = 0 := by
    intro v w
    refine BitVec.eq_of_getLsbD_eq fun j hj => ?_
    simp only [BitVec.getLsbD_and, BitVec.getLsbD_or, BitVec.getLsbD_not, decide_eq_true hj, Bool.true_and]
    cases v.getLsbD j <;> cases w.getLsbD j <;> simp
  funext m
  show Function.update (Function.update g.pending _ _) _ _ m = _
  rw [update_apply, update_apply, update_apply]
  split_ifs with hm
  · show Function.update g.pending _ _ _ &&& ~~~b.ioRegWrite32 (Function.update g.pending _ _ _) _ _ _ = _
    rw [Function.update_self, hb.write _ _ _ _ (fits_shiftLeft (by decide) _)]
    exact hself _ _
  · rfl

theorem line_rBspIrqClearPending (hb : b.Accesses) (irq : Word) :
    (Intc.line { i with toGic := rBspIrqClearPending b irq i.toGic } x) =
    (i.line x).clearPending (irqNo b irq) x := by
  have hline : Intc.line { i with toGic := rBspIrqClearPending b irq i.toGic } x =
    { i.line x with pending := ((rBspIrqClearPending b irq i.toGic).pending (x / 32)).getLsbD (x % 32) } := rfl
  rw [hline, pending_rBspIrqClearPending hb, update_apply, Line.clearPending]
  split_ifs
  · have hzero : (0 : Word).getLsbD (x % 32) = false := BitVec.getLsbD_zero
    rw [hzero]
  · rfl

/-- Only the line that is configured changes. -/
theorem line_rBspIrqCfg (hb : b.Accesses) (ht : (i.detectType (irqNo b irq)).toNat < 4) :
    (Intc.line { i with toGic := rBspIrqCfg b irq priority context i.toGic } x) =
    if x = irqNo b irq then (i.line x).cfg b priority context else i.line x := by
  have hdetect := detect_rBspIrqDetectTypeSet (g := i.toGic) (x := x) hb irq ht
  have hline : Intc.line { i with toGic := rBspIrqCfg b irq priority context i.toGic } x = { i.line x with
    detect := Fields.get 2 16 (rBspIrqDetectTypeSet b irq (i.detectType (irqNo b irq)) i.toGic).icdicfr x
    priority := Function.update i.icdipr (byteAddr (irqNo b irq)) (setPriority b priority) x
    target := Function.update i.icdiptr (byteAddr (irqNo b irq)) ((1 : BitVec 8) <<< b.coreNum) x
    context := Function.update i.isrContext (irqNo b irq) context x } := rfl
  rw [hline, hdetect, byteAddr_eq, update_apply, update_apply, update_apply]
  split_ifs with hx
  · subst hx
    rfl
  · rfl

theorem line_enabled (e : ℕ → Word) (v : Bool)
    (h : (e (x / 32)).getLsbD (x % 32) = if x = n then v else (i.enabled (x / 32)).getLsbD (x % 32)) :
    (Intc.line { i with enabled := e } x) = if x = n then { i.line x with enabled := v } else i.line x := by
  have hline : Intc.line { i with enabled := e } x =
    { i.line x with enabled := (e (x / 32)).getLsbD (x % 32) } := rfl
  rw [hline, h]
  split_ifs <;> rfl

theorem bit_rBspIrqEnableNoClear (irq : Word) :
    ((rBspIrqEnableNoClear b irq g).enabled (x / 32)).getLsbD (x % 32) =
    if x = irqNo b irq then true else (g.enabled (x / 32)).getLsbD (x % 32) := by
  have h := isEnabled_rBspIrqEnable b irq g x
  have h' : (rBspIrqEnable b irq g).isEnabled x =
    ((rBspIrqEnableNoClear b irq g).enabled (x / 32)).getLsbD (x % 32) := rfl
  rw [← h', h]
  by_cases hx : x = irqNo b irq
  · rw [decide_eq_true hx, if_pos hx, Bool.or_true]
  · rw [decide_eq_false hx, if_neg hx, Bool.or_false]
    rfl

theorem bit_rBspIrqDisable : ((rBspIrqDisable b irq g).enabled (x / 32)).getLsbD (x % 32) =
    if x = irqNo b irq then false else (g.enabled (x / 32)).getLsbD (x % 32) := by
  have hput : (rBspIrqDisable b irq g).enabled = setBit g.enabled (irqNo b irq) false := by
    refine congrArg (Function.update g.enabled (irqNo b irq / 32)) ?_
    have hmask : Fields.mask 1 = 1 := rfl
    rw [Fields.replace, hmask, Nat.one_mul]
    have hzero : (0 : Word) <<< (irqNo b irq % 32) = 0 := BitVec.zero_shiftLeft _
    show _ = _ ||| (0 : Word) <<< _
    rw [hzero]
    exact (BitVec.or_zero).symm
  rw [hput, bit_setBit]

/-! ## `bsp_irq_cfg` -/

theorem retype_apply (cnt irqNum selNum : ℕ) (t : ℕ → BitVec 8) (x : ℕ) : retype c cnt irqNum selNum t x =
    if irqNum ≤ x ∧ x < irqNum + linkedFrom c cnt selNum then
      c.selIntDetectType (c.eventLinkSelect (selNum + (x - irqNum)))
    else t x := by
  induction cnt generalizing irqNum selNum t with
  | zero => exact (if_neg fun h => absurd h.2 (Nat.not_lt.mpr h.1)).symm
  | succ cnt ih =>
    unfold retype linkedFrom
    by_cases h : c.eventLinkSelect selNum ≠ c.irqselNone
    · rw [if_pos h, if_pos h, ih, update_apply]
      by_cases hx : x = irqNum
      · subst hx
        rw [if_neg (by omega), if_pos rfl, if_pos (by omega), Nat.sub_self, Nat.add_zero]
      · rw [if_neg hx]
        by_cases hin : irqNum + 1 ≤ x ∧ x < irqNum + 1 + linkedFrom c cnt (selNum + 1)
        · rw [if_pos hin, if_pos (by omega),
            show selNum + 1 + (x - (irqNum + 1)) = selNum + (x - irqNum) by omega]
        · rw [if_neg hin, if_neg (by omega)]
    · rw [if_neg h, if_neg h]
      exact (if_neg fun h => absurd h.2 (Nat.not_lt.mpr h.1)).symm

theorem get_selectEvents (cnt selNum : ℕ) (y : ℕ)
    (h10 : ∀ j < linkedFrom c cnt selNum, (c.eventLinkSelect (selNum + j)).toNat < 2 ^ 10) :
    Fields.get 10 3 (selectEvents c cnt selNum r) y =
      if selNum ≤ y ∧ y < selNum + linkedFrom c cnt selNum then (c.eventLinkSelect y).setWidth 10
      else Fields.get 10 3 r y := by
  induction cnt generalizing selNum r with
  | zero => exact (if_neg fun h => absurd h.2 (Nat.not_lt.mpr h.1)).symm
  | succ cnt ih =>
    unfold linkedFrom at h10
    unfold selectEvents linkedFrom
    by_cases h : c.eventLinkSelect selNum ≠ c.irqselNone
    · rw [if_pos h] at h10
      have h0 : (c.eventLinkSelect selNum).toNat < 2 ^ 10 := h10 0 (Nat.succ_pos _)
      -- an event of ten bits fits in its field
      have hfit : ((c.eventLinkSelect selNum).setWidth 10).setWidth 32 = c.eventLinkSelect selNum := by
        refine BitVec.eq_of_toNat_eq ?_
        rw [BitVec.toNat_setWidth, BitVec.toNat_setWidth, Nat.mod_eq_of_lt h0]
        exact Nat.mod_eq_of_lt (c.eventLinkSelect selNum).isLt
      have hput : Function.update r (selNum / 3)
        (r (selNum / 3) &&& ~~~((0x3ff : Word) <<< (10 * (selNum % 3))) |||
          c.eventLinkSelect selNum <<< (10 * (selNum % 3))) =
          Fields.put 3 r selNum ((c.eventLinkSelect selNum).setWidth 10) := by
        rw [Fields.put, Fields.replace, hfit]
        rfl
      rw [if_pos h, if_pos h]
      show Fields.get 10 3 (selectEvents c cnt (selNum + 1) (Function.update r (selNum / 3) _)) y = _
      rw [hput, ih (selNum + 1) fun j hj => ?_, Fields.get_put (by decide) (by decide)]
      · by_cases hy : y = selNum
        · subst hy
          rw [if_neg (by omega), if_pos rfl, if_pos (by omega)]
        · rw [if_neg hy]
          by_cases hin : selNum + 1 ≤ y ∧ y < selNum + 1 + linkedFrom c cnt (selNum + 1)
          · rw [if_pos hin, if_pos (by omega)]
          · rw [if_neg hin, if_neg (by omega)]
      · rw [Nat.add_assoc, Nat.add_comm 1 j]
        exact h10 (j + 1) (Nat.succ_lt_succ hj)
    · rw [if_neg h, if_neg h]
      exact (if_neg fun h => absurd h.2 (Nat.not_lt.mpr h.1)).symm

theorem bit_clearRegs (max : ℕ) : (clearRegs max r (x / 32)).getLsbD (x % 32) =
    ((r (x / 32)).getLsbD (x % 32) && !decide (x / 32 < max)) := by
  have hall : (~~~0xffffffff : Word) = 0 := by decide
  unfold clearRegs
  split_ifs with h
  · have hzero : (0 : Word).getLsbD (x % 32) = false := BitVec.getLsbD_zero
    rw [hall, decide_eq_true h, BitVec.getLsbD_and, hzero, Bool.and_false]
    exact (Bool.and_false _).symm
  · rw [decide_eq_false h]
    exact (Bool.and_true _).symm

theorem line_bspIrqCfg : (bspIrqCfg b c i).line x = (i.line x).boot b c x := by
  have htype : (bspIrqCfg b c i).detectType x = ((i.line x).boot b c x).detectType := by
    unfold bspIrqCfg Line.boot
    by_cases h : c.hasSelectInt = true
    · simp only [h, if_true, true_and]
      exact retype_apply _ _ _ _ _
    · simp only [Bool.eq_false_iff.mpr h, if_false, Bool.false_eq_true, false_and]
      rfl
  have hrest : (bspIrqCfg b c i).line x = { i.line x with
    pending := (clearRegs 13 i.pending (x / 32)).getLsbD (x % 32)
    active := (clearRegs 13 i.active (x / 32)).getLsbD (x % 32)
    detectType := (bspIrqCfg b c i).detectType x } := by
    unfold bspIrqCfg
    cases c.hasSelectInt <;> rfl
  rw [hrest, htype, bit_clearRegs, bit_clearRegs]
  rfl

/-! ## Any calls -/

/-- A detect type of two bits. -/
def Call.Fits : Call → Prop
  | irqDetectTypeSet _ t => t.toNat < 4
  | _ => True

/-- The detect types of the tables have two bits. -/
structure Typed (c : Select) (i : Intc) : Prop where
  fixed : ∀ n, (i.detectType n).toNat < 4
  select : ∀ e, (c.selIntDetectType e).toNat < 4

theorem line_setPending (y : ℕ) (v : Bool) :
    Intc.line { i with pending := setBit i.pending y v } x =
      if x = y then { i.line x with pending := v } else i.line x := by
  have hline : Intc.line { i with pending := setBit i.pending y v } x =
    { i.line x with pending := (setBit i.pending y v (x / 32)).getLsbD (x % 32) } := rfl
  rw [hline, bit_setBit]
  split_ifs <;> rfl

theorem line_setActive (y : ℕ) (v : Bool) :
    Intc.line { i with active := setBit i.active y v } x =
      if x = y then { i.line x with active := v } else i.line x := by
  have hline : Intc.line { i with active := setBit i.active y v } x =
    { i.line x with active := (setBit i.active y v (x / 32)).getLsbD (x % 32) } := rfl
  rw [hline, bit_setBit]
  split_ifs <;> rfl

/-- What a call does to a line. -/
theorem line_call (hb : b.Accesses) (hi : Typed c i) {call : Call} (hcall : call.Fits) :
    (call.run b c i).line x = call.effect b c x (i.line x) := by
  cases call with
  | irqDetectTypeSet irq t =>
    have hline : Intc.line { i with toGic := rBspIrqDetectTypeSet b irq t i.toGic } x = { i.line x with
      detect := Fields.get 2 16 (rBspIrqDetectTypeSet b irq t i.toGic).icdicfr x } := rfl
    show Intc.line { i with toGic := rBspIrqDetectTypeSet b irq t i.toGic } x = ite _ _ _
    rw [hline, detect_rBspIrqDetectTypeSet hb irq hcall]
    split_ifs <;> rfl
  | irqStatusClear irq | irqGroupSet irq group => rfl
  | irqClearPending irq => exact line_rBspIrqClearPending hb irq
  | irqCfg irq priority context => exact line_rBspIrqCfg hb (hi.fixed _)
  | irqEnableNoClear irq => exact line_enabled _ true (bit_rBspIrqEnableNoClear irq)
  | irqEnable irq =>
    have h := line_enabled (i := { i with toGic := rBspIrqClearPending b irq i.toGic }) (x := x) _ true
      (bit_rBspIrqEnableNoClear (b := b) irq)
    rw [line_rBspIrqClearPending hb] at h
    exact h
  | irqDisable irq => exact line_enabled _ false bit_rBspIrqDisable
  | irqCfgEnable irq priority context =>
    have h := line_enabled (i :=
      { i with toGic := rBspIrqClearPending b irq (rBspIrqCfg b irq priority context i.toGic) })
      (x := x) _ true (bit_rBspIrqEnableNoClear (b := b) irq)
    have hclear := line_rBspIrqClearPending
      (i := { i with toGic := rBspIrqCfg b irq priority context i.toGic })
      (x := x) hb irq
    rw [hclear, line_rBspIrqCfg hb (hi.fixed _)] at h
    refine h.trans ?_
    show _ = ite _ _ _
    by_cases hx : x = irqNo b irq
    · rw [if_pos hx, if_pos hx, if_pos hx, Line.clearPending, Line.clearPending]
      split_ifs <;> rfl
    · rw [if_neg hx, if_neg hx, if_neg hx]
  | bspIrqCfg => exact line_bspIrqCfg
  | raised y => exact line_setPending y true
  | acknowledged y =>
    refine (line_setActive (i := { i with pending := setBit i.pending y false }) y true).trans ?_
    rw [line_setPending]
    show _ = ite _ _ _
    split_ifs <;> rfl
  | ended y => exact line_setActive y false

/-- Only `bsp_irq_cfg` writes detect types to the table. -/
theorem Typed.run (hi : Typed c i) (call : Call) : Typed c (call.run b c i) := by
  refine ⟨fun n => ?_, hi.select⟩
  cases call with
  | bspIrqCfg =>
    have hline := congrArg Line.detectType (line_bspIrqCfg (b := b) (c := c) (i := i) (x := n))
    replace hline : (bspIrqCfg b c i).detectType n = ite _ _ _ := hline
    show ((bspIrqCfg b c i).detectType n).toNat < 4
    rw [hline]
    split_ifs
    · exact hi.select _
    · exact hi.fixed n
  | _ => exact hi.fixed n

theorem Typed.foldl (hi : Typed c i) (calls : List Call) : Typed c (calls.foldl (Call.run b c) i) := by
  induction calls generalizing i with
  | nil => exact hi
  | cons call calls ih => exact ih (hi.run call)

end Lines

/-- What `bsp_irq_cfg` has selected, beside the select registers `r` that there were. -/
structure Selected (b : Bsp) (c : Select) (r : ℕ → Word) (i : Intc) : Prop where
  fields : ∀ y, Fields.get 10 3 i.intr8sel y =
    if c.startElement ≤ y ∧ y < c.startElement + c.linked then (c.eventLinkSelect y).setWidth 10
    else Fields.get 10 3 r y
  types : ∀ j < c.linked, i.detectType (c.first b + j) =
    c.selIntDetectType (c.eventLinkSelect (c.startElement + j))

section Selected

variable {b : Bsp} {c : Select} {r : ℕ → Word} {i : Intc}

theorem intr8sel_bspIrqCfg (h : c.hasSelectInt = true) :
    (bspIrqCfg b c i).intr8sel = selectEvents c c.selectIntNum c.startElement i.intr8sel := by
  unfold bspIrqCfg
  simp only [h, if_true]

theorem detectType_bspIrqCfg (h : c.hasSelectInt = true) {j : ℕ} (hj : j < c.linked) :
    (bspIrqCfg b c i).detectType (c.first b + j) =
      c.selIntDetectType (c.eventLinkSelect (c.startElement + j)) := by
  have hline := congrArg Line.detectType (line_bspIrqCfg (b := b) (c := c) (i := i) (x := c.first b + j))
  refine hline.trans ((if_pos ⟨h, Nat.le_add_right _ _, Nat.add_lt_add_left hj _⟩).trans ?_)
  rw [Nat.add_sub_cancel_left]

/-- Other calls leave the selection alone, and `bsp_irq_cfg` makes it once more. -/
theorem Selected.run (h : c.hasSelectInt = true)
    (h10 : ∀ j < c.linked, (c.eventLinkSelect (c.startElement + j)).toNat < 2 ^ 10) (hi : Selected b c r i)
    (call : Call) : Selected b c r (call.run b c i) := by
  cases call with
  | bspIrqCfg =>
    refine ⟨fun y => ?_, fun j hj => detectType_bspIrqCfg h hj⟩
    show Fields.get 10 3 (bspIrqCfg b c i).intr8sel y = _
    rw [intr8sel_bspIrqCfg h, get_selectEvents _ _ _ h10, hi.fields]
    by_cases hy : c.startElement ≤ y ∧ y < c.startElement + c.linked
    · rw [if_pos hy]
      exact if_pos hy
    · rw [if_neg hy]
      exact if_neg hy
  | _ => exact ⟨hi.fields, hi.types⟩

/-- **The select interrupts**: after `bsp_irq_cfg` and whatever calls follow, the select registers
hold the events up to the first `IRQSEL_NONE`, ten bits each, and are otherwise as they were; and
`R_BSP_IrqCfg` gives the interrupt of each of these events the detect type of the event. -/
theorem selected_bspIrqCfg (hb : b.Accesses) (hi : Typed c i) (h : c.hasSelectInt = true)
    (h10 : ∀ j < c.linked, (c.eventLinkSelect (c.startElement + j)).toNat < 2 ^ 10) (calls : List Call) :
    (∀ y, Fields.get 10 3 (calls.foldl (Call.run b c) (bspIrqCfg b c i)).intr8sel y =
      if c.startElement ≤ y ∧ y < c.startElement + c.linked then (c.eventLinkSelect y).setWidth 10
      else Fields.get 10 3 i.intr8sel y) ∧
    ∀ j < c.linked, ∀ irq priority context, irqNo b irq = c.first b + j →
      (Intc.line ((Call.irqCfg irq priority context).run b c (calls.foldl (Call.run b c) (bspIrqCfg b c i)))
        (c.first b + j)).detect =
          (c.selIntDetectType (c.eventLinkSelect (c.startElement + j))).setWidth 2 := by
  have h₀ : Selected b c i.intr8sel (bspIrqCfg b c i) := by
    refine ⟨fun y => ?_, fun j hj => detectType_bspIrqCfg h hj⟩
    rw [intr8sel_bspIrqCfg h, get_selectEvents _ _ _ h10]
    rfl
  have hrun : ∀ (calls : List Call) (k : Intc), Selected b c i.intr8sel k →
      Selected b c i.intr8sel (calls.foldl (Call.run b c) k) := by
    intro calls
    induction calls with
    | nil => exact fun _ => id
    | cons call calls ih => exact fun k hk => ih _ (hk.run h h10 call)
  have hsel := hrun calls _ h₀
  refine ⟨hsel.fields, fun j hj irq priority context hirq => ?_⟩
  have hcfg : (Call.irqCfg irq priority context).effect b c (c.first b + j)
      ((calls.foldl (Call.run b c) (bspIrqCfg b c i)).line (c.first b + j)) =
      ((calls.foldl (Call.run b c) (bspIrqCfg b c i)).line (c.first b + j)).cfg b priority context :=
        if_pos hirq.symm
  have htyped : Typed c (calls.foldl (Call.run b c) (bspIrqCfg b c i)) := (hi.run .bspIrqCfg).foldl calls
  have hfits : (Call.irqCfg irq priority context).Fits := trivial
  rw [line_call hb htyped hfits, hcfg, ← hsel.types j hj]
  rfl

end Selected

/-- Two events behind the start element, and none behind them. -/
def sampleSelect : Select where
  hasSelectInt := true
  selectIntNum := 4
  startElement := 1
  fixedIntselCount := 8
  irqselNone := 0x3ff
  binaryPoint := 3
  eventLinkSelect n := if n = 1 then 0x005 else if n = 2 then 0x155 else 0x3ff
  selIntDetectType e := if e = 0x155 then 2 else 0

def sampleIntc : Intc where
  icdicfr _ := 0
  icdipr _ := 0
  icdiptr _ := 0
  enabled _ := 0
  pending _ := 0
  detectType _ := 0
  isrContext _ := 0
  active _ := 0
  intr8sel _ := 0x3fffffff
  iccicrEn := false
  iccpmrP := 0
  iccbprBp := 0
  icddcrEn := false

theorem linked_sampleSelect : sampleSelect.linked = 2 := rfl

theorem accesses_sampleBsp : sampleBsp.Accesses where
  write _ _ _ _ _ := rfl
  read _ _ _ := rfl

theorem typed_sampleIntc : Typed sampleSelect sampleIntc where
  fixed _ := Nat.zero_lt_succ 3
  select e := by
    show (if e = 0x155 then (2 : BitVec 8) else 0).toNat < 4
    split_ifs <;> decide

/-- The interrupt of the second event gets its detect type. -/
theorem selected_bspIrqCfg_sampleSelect :
    Fields.get 10 3 (bspIrqCfg sampleBsp sampleSelect sampleIntc).intr8sel 2 = 0x155 ∧
    (Intc.line ((Call.irqCfg 10 5 0).run sampleBsp sampleSelect (bspIrqCfg sampleBsp sampleSelect sampleIntc))
      (sampleSelect.first sampleBsp + 1)).detect = 2 := by
  obtain ⟨hfields, htypes⟩ := selected_bspIrqCfg accesses_sampleBsp typed_sampleIntc rfl
    (fun j hj => by
      rw [linked_sampleSelect] at hj
      match j, hj with
      | 0, _ => decide
      | 1, _ => decide) []
  refine ⟨(hfields 2).trans ?_, (htypes 1 (by decide) 10 5 0 ?_).trans ?_⟩ <;> decide

/-- IRQ 10 is configured and comes in; so does INTID 75, in the next register. -/
def sampleCalls : List Call :=
  [.bspIrqCfg, .irqCfgEnable 10 5 0x77, .raised 42, .raised 75, .acknowledged 42, .irqClearPending 20]

end CR8Devkit.Irq
