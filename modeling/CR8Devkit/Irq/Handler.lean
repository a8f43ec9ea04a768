import Mathlib.Logic.Function.Basic
import Mathlib.Algebra.Group.Nat.Defs
import Mathlib.Tactic.SplitIfs

/-!
# `bsp_irq`: configuring an interrupt and dispatching it

* `Bsp`: the constants of the FSP and the weak probes; `Gic`: the registers and tables that are
  written.
* `rBspIrqCfg`, `rBspIrqEnable`: both address an interrupt by `irqNo`.
* `bspCommonInterruptHandler`, `vApplicationIRQHandler`: their statements for one value of ICCIAR.
* `dispatches_iff`: which INTIDs are dispatched, dropped or reported as they should be.
-/

namespace CR8Devkit.Irq

abbrev Word := BitVec 32

/-- `BSP_ICU_VECTOR_MAX_ENTRIES`, `BSP_CORTEX_VECTOR_TABLE_ENTRIES`, `BSP_GIC_SPECIAL_ID`,
`BSP_FEATURE_INTC_IRQ_PRIORITY_MASK` and `BSP_CR8_CORE_NUM`; whether the firmware defines
`r8_nest_probe`, `r8_bad_intid` and `r8_irq_guard`; and the FSP's accesses to a field of a register:
`R_BSP_IoRegWrite32`, with the old value of the register first, and `R_BSP_IoRegRead32`. -/
structure Bsp where
  vectorMax : ℕ
  cortexEntries : ℕ
  specialId : ℕ
  priorityMask : Word
  coreNum : ℕ
  nestProbe : Bool
  badIntid : Bool
  irqGuard : Bool
  ioRegWrite32 : Word → Word → ℕ → Word → Word
  ioRegRead32 : Word → ℕ → Word → Word

/-- A value that fits the field is written to it and the rest of the register kept; a field is read
as a number. -/
structure Bsp.Accesses (b : Bsp) : Prop where
  write : ∀ (old value : Word) (shift : ℕ) (mask : Word), value <<< shift &&& ~~~mask = 0 →
    b.ioRegWrite32 old value shift mask = old &&& ~~~mask ||| value <<< shift
  read : ∀ (reg : Word) (shift : ℕ) (mask : Word), b.ioRegRead32 reg shift mask = (reg &&& mask) >>> shift

/-- The entries of `g_vector_table`, as it is declared. -/
def Bsp.tableSize (b : Bsp) : ℕ := b.vectorMax + b.cortexEntries

/-! ## Configuring -/

/-- Distributor registers, by words or bytes, and the tables that go with them. -/
structure Gic where
  icdicfr : ℕ → Word
  icdipr : ℕ → BitVec 8
  icdiptr : ℕ → BitVec 8
  enabled : ℕ → Word
  pending : ℕ → Word
  detectType : ℕ → BitVec 8
  isrContext : ℕ → Word

/-- The number by which an IRQ is configured. -/
def irqNo (b : Bsp) (irq : Word) : ℕ := (irq + BitVec.ofNat 32 b.cortexEntries).toNat

/-- `R_BSP_IrqDetectTypeSet`: two bits for each interrupt. -/
def rBspIrqDetectTypeSet (b : Bsp) (irq : Word) (detectType : BitVec 8) (g : Gic) : Gic :=
  let n := irqNo b irq
  let shift := n % 16 * 2
  let w := b.ioRegWrite32 (g.icdicfr (n / 16)) (detectType.setWidth 32) shift ((3 : Word) <<< shift)
  { g with icdicfr := Function.update g.icdicfr (n / 16) w }

/-- The priority byte: the argument is shifted before it is cut to eight bits. -/
def setPriority (b : Bsp) (priority : Word) : BitVec 8 :=
  (priority <<< 4 &&& b.priorityMask).setWidth 8

/-- The byte of an interrupt in the priority and target registers. -/
def byteAddr (n : ℕ) : ℕ := 4 * (n / 4) + n % 4

/-- `R_BSP_IrqCfg`. With `BSP_IO_NONMASK_ACCESS_8` the FSP stores the whole byte. -/
def rBspIrqCfg (b : Bsp) (irq priority context : Word) (g : Gic) : Gic :=
  let n := irqNo b irq
  let g := rBspIrqDetectTypeSet b irq (g.detectType n) g
  { g with
    icdipr := Function.update g.icdipr (byteAddr n) (setPriority b priority)
    icdiptr := Function.update g.icdiptr (byteAddr n) ((1 : BitVec 8) <<< b.coreNum)
    isrContext := Function.update g.isrContext n context }

/-- A write to `GICD_ICDICPRn` clears the bits that are written as one. -/
def clearPending (n : ℕ) (w : Word) (g : Gic) : Gic :=
  { g with pending := Function.update g.pending n (g.pending n &&& ~~~w) }

/-- `R_BSP_IrqClearPending`: the second write sends back every pending bit of the register. -/
def rBspIrqClearPending (b : Bsp) (irq : Word) (g : Gic) : Gic :=
  let n := irqNo b irq
  let shift := n % 32
  let mask := (1 : Word) <<< shift
  let g := clearPending (n / 32) mask g
  clearPending (n / 32) (b.ioRegWrite32 (g.pending (n / 32)) 1 shift mask) g

/-- `R_BSP_IrqEnableNoClear`: with `BSP_IO_NONMASK_ACCESS_32` the FSP stores the whole word, and zeros
written to `GICD_ICDISERn` have no effect. -/
def rBspIrqEnableNoClear (b : Bsp) (irq : Word) (g : Gic) : Gic :=
  let n := irqNo b irq
  let w := g.enabled (n / 32) ||| (1 : Word) <<< (n % 32)
  { g with enabled := Function.update g.enabled (n / 32) w }

/-- `R_BSP_IrqEnable`. -/
def rBspIrqEnable (b : Bsp) (irq : Word) (g : Gic) : Gic :=
  rBspIrqEnableNoClear b irq (rBspIrqClearPending b irq g)

/-- The enable bit of an INTID. -/
def Gic.isEnabled (g : Gic) (x : ℕ) : Bool := (g.enabled (x / 32)).getLsbD (x % 32)

/-- **Enabling** an IRQ enables the INTID it is configured by, and no other. -/
theorem isEnabled_rBspIrqEnable (b : Bsp) (irq : Word) (g : Gic) (x : ℕ) :
    (rBspIrqEnable b irq g).isEnabled x = (g.isEnabled x || decide (x = irqNo b irq)) := by
  show (Function.update g.enabled (irqNo b irq / 32)
    (g.enabled (irqNo b irq / 32) ||| (1 : Word) <<< (irqNo b irq % 32)) (x / 32)).getLsbD (x % 32) = _
  by_cases hx : x / 32 = irqNo b irq / 32
  · have hmod : x % 32 = irqNo b irq % 32 ↔ x = irqNo b irq := by omega
    have hbit : ((1 : Word) <<< (irqNo b irq % 32)).getLsbD (x % 32) = decide (x = irqNo b irq) := by
      have hlt : irqNo b irq % 32 < 32 := Nat.mod_lt _ (by decide)
      have hpow : (1 : Word) <<< (irqNo b irq % 32) = BitVec.twoPow 32 (irqNo b irq % 32) := rfl
      have hdec : decide (x % 32 = irqNo b irq % 32) = decide (x = irqNo b irq) :=
        decide_eq_decide.mpr hmod
      rw [hpow, BitVec.getLsbD_twoPow, ← hdec]
      simp [hlt, eq_comm]
    rw [hx, Function.update_self, BitVec.getLsbD_or, hbit, ← hx]
    rfl
  · have hne : x ≠ irqNo b irq := fun h => hx (congrArg (· / 32) h)
    rw [Function.update_of_ne hx, decide_eq_false hne, Bool.or_false]
    rfl

/-- The INTIDs that the two functions set up. -/
def SetUp (b : Bsp) (x : ℕ) : Prop := ∃ irq : Word, irq.toNat < b.vectorMax ∧ x = irqNo b irq

theorem irqNo_eq {b : Bsp} {irq : Word} (hirq : irq.toNat < b.vectorMax) (hb : b.tableSize ≤ 2 ^ 32) :
    irqNo b irq = irq.toNat + b.cortexEntries := by
  unfold Bsp.tableSize at hb
  rw [irqNo, BitVec.toNat_add, BitVec.toNat_ofNat]
  omega

/-- They lie behind the processor's own vectors, up to the end of the table. -/
theorem setUp_iff {b : Bsp} (hb : b.tableSize ≤ 2 ^ 32) (x : ℕ) :
    SetUp b x ↔ b.cortexEntries ≤ x ∧ x < b.tableSize := by
  constructor
  · rintro ⟨irq, hirq, rfl⟩
    rw [irqNo_eq hirq hb]
    unfold Bsp.tableSize
    omega
  · rintro ⟨hlo, hhi⟩
    have hhi' : x < b.vectorMax + b.cortexEntries := hhi
    have hirq : (BitVec.ofNat 32 (x - b.cortexEntries)).toNat = x - b.cortexEntries := by
      rw [BitVec.toNat_ofNat]
      exact Nat.mod_eq_of_lt (by omega)
    refine ⟨BitVec.ofNat 32 (x - b.cortexEntries), by omega, ?_⟩
    rw [irqNo_eq (by omega) hb, hirq]
    omega

/-! ## Dispatching -/

/-- The INTID in a value of ICCIAR. -/
def gicIntid (id : Word) : BitVec 16 := (id &&& 0x3ff).setWidth 16

inductive Stmt
  | remain (n : BitVec 16)
  | nestProbe
  | dmb
  | enableIrq
  | vector (x : ℕ)
  | badIntid (x : BitVec 16)
  | disableIrq
  | release
  | countDeferred
  | irqGuard (icciar : Word)
  deriving DecidableEq

def Bsp.isSpecial (b : Bsp) (id : Word) : Bool := (gicIntid id).toNat == b.specialId

/-- The branch behind `__enable_irq`: the index is checked against `BSP_ICU_VECTOR_MAX_ENTRIES`. -/
def dispatch (b : Bsp) (x : BitVec 16) : List Stmt :=
  if x.toNat < b.vectorMax then [.vector x.toNat]
  else if b.badIntid then [.badIntid x]
  else []

def probe (b : Bsp) : List Stmt := if b.nestProbe then [.nestProbe] else []

/-- `bsp_common_interrupt_handler`. -/
def bspCommonInterruptHandler (b : Bsp) (id : Word) : List Stmt :=
  if b.isSpecial id then []
  else .remain (gicIntid id - BitVec.ofNat 16 b.cortexEntries) :: probe b ++
    [.dmb, .enableIrq] ++ dispatch b (gicIntid id) ++ [.disableIrq, .release]

/-- `vApplicationIRQHandler`. -/
def vApplicationIRQHandler (b : Bsp) (ulICCIAR : Word) : List Stmt :=
  bspCommonInterruptHandler b ulICCIAR ++
    .countDeferred :: if b.irqGuard then [.irqGuard ulICCIAR] else []

/-! ### The order of the statements -/

/-- No statement of a stage runs before one of an earlier stage. -/
def Stmt.stage : Stmt → ℕ
  | remain _ => 0
  | nestProbe => 1
  | dmb => 2
  | enableIrq => 3
  | vector _ | badIntid _ => 4
  | disableIrq => 5
  | release => 6
  | countDeferred => 7
  | irqGuard _ => 8

/-- IRQs may be enabled where the statement stands. -/
def Stmt.isOpen (st : Stmt) : Bool := 4 ≤ st.stage && st.stage ≤ 5

section Order

variable {b : Bsp} {id : Word} {st t : Stmt} {l : List Stmt}

theorem sorted_handler (b : Bsp) (id : Word) :
    (vApplicationIRQHandler b id).Pairwise (·.stage < ·.stage) := by
  unfold vApplicationIRQHandler bspCommonInterruptHandler probe dispatch
  split_ifs <;> simp [Stmt.stage]

theorem mem_vApplicationIRQHandler (h : b.isSpecial id = false) (ht : t = .disableIrq ∨ t = .release) :
    t ∈ vApplicationIRQHandler b id := by
  unfold vApplicationIRQHandler bspCommonInterruptHandler
  rw [h]
  rcases ht with rfl | rfl <;> simp

/-- A special INTID is not put on the stack of interrupt numbers. -/
theorem stage_of_special (h : b.isSpecial id = true) (ht : t ∈ vApplicationIRQHandler b id) :
    7 ≤ t.stage := by
  unfold vApplicationIRQHandler bspCommonInterruptHandler at ht
  rw [if_pos h] at ht
  split_ifs at ht <;> simp at ht
  · rcases ht with rfl | rfl <;> simp [Stmt.stage]
  · subst ht
    simp [Stmt.stage]

theorem eq_of_remain_mem {n : BitVec 16} (h : .remain n ∈ vApplicationIRQHandler b id) :
    n = gicIntid id - BitVec.ofNat 16 b.cortexEntries := by
  unfold vApplicationIRQHandler bspCommonInterruptHandler probe dispatch at h
  split_ifs at h <;> simp at h <;> exact h

theorem eq_of_vector_mem {x : ℕ} (h : .vector x ∈ vApplicationIRQHandler b id) :
    x = (gicIntid id).toNat := by
  unfold vApplicationIRQHandler bspCommonInterruptHandler probe dispatch at h
  split_ifs at h <;> simp_all

/-- What is still to run stands behind the next statement. -/
theorem stage_lt_of_suffix (h : st :: l <:+ vApplicationIRQHandler b id) (ht : t ∈ l) :
    st.stage < t.stage :=
  (List.pairwise_cons.mp ((sorted_handler b id).sublist h.sublist)).1 t ht

/-- **The statement after the next** is of a later stage, but not behind any that must still run. -/
theorem next_stage (h : st :: l <:+ vApplicationIRQHandler b id) (ht : t ∈ vApplicationIRQHandler b id)
    (hlt : st.stage < t.stage) : ∃ u l', l = u :: l' ∧ st.stage < u.stage ∧ u.stage ≤ t.stage := by
  have hsorted := sorted_handler b id
  obtain ⟨pre, hpre⟩ := h
  have hmem : t ∈ l := by
    rw [← hpre] at ht hsorted
    rcases List.mem_append.mp ht with ht | ht
    · have := (List.pairwise_append.mp hsorted).2.2 t ht st List.mem_cons_self
      omega
    · rcases List.mem_cons.mp ht with rfl | ht
      · omega
      · exact ht
  have hl : (st :: l).Pairwise (·.stage < ·.stage) := by
    refine hsorted.sublist ?_
    rw [← hpre]
    exact List.sublist_append_right _ _
  obtain ⟨hst, hl⟩ := List.pairwise_cons.mp hl
  cases l with
  | nil => cases hmem
  | cons u l' =>
    refine ⟨u, l', rfl, hst u List.mem_cons_self, ?_⟩
    rcases List.mem_cons.mp hmem with rfl | hmem
    · exact Nat.le_refl _
    · exact Nat.le_of_lt ((List.pairwise_cons.mp hl).1 t hmem)

end Order

/-! ### The bound of the check -/

/-- The entries of `g_vector_table` that are called. -/
def vectors (l : List Stmt) : List ℕ :=
  l.filterMap fun | .vector x => some x | _ => none

/-- The INTIDs that are given to `r8_bad_intid`. -/
def reports (l : List Stmt) : List ℕ :=
  l.filterMap fun | .badIntid x => some x.toNat | _ => none

/-- What the handler should do with an interrupt: stay inside the table, call the vector of an INTID
that is set up, and report what is beyond the table, if the firmware has `r8_bad_intid`. -/
structure Dispatches (b : Bsp) (id : Word) : Prop where
  inside : ∀ x ∈ vectors (bspCommonInterruptHandler b id), x < b.tableSize
  once : SetUp b (gicIntid id).toNat →
    vectors (bspCommonInterruptHandler b id) = [(gicIntid id).toNat]
  reported : b.badIntid = true → reports (bspCommonInterruptHandler b id) =
    if b.tableSize ≤ (gicIntid id).toNat ∧ (gicIntid id).toNat ≠ b.specialId then
      [(gicIntid id).toNat] else []

section Dispatch

variable {b : Bsp} {id : Word}

theorem vectors_append (l l' : List Stmt) : vectors (l ++ l') = vectors l ++ vectors l' :=
  List.filterMap_append

theorem reports_append (l l' : List Stmt) : reports (l ++ l') = reports l ++ reports l' :=
  List.filterMap_append

/-- Only the branch calls a vector. -/
theorem vectors_handler (h : (gicIntid id).toNat ≠ b.specialId) :
    vectors (bspCommonInterruptHandler b id) =
      if (gicIntid id).toNat < b.vectorMax then [(gicIntid id).toNat] else [] := by
  have hsp : b.isSpecial id = false := beq_eq_false_iff_ne.mpr h
  have hprobe : vectors (probe b) = [] := by
    unfold probe
    split_ifs <;> rfl
  have hdispatch : vectors (dispatch b (gicIntid id)) =
      if (gicIntid id).toNat < b.vectorMax then [(gicIntid id).toNat] else [] := by
    unfold dispatch
    split_ifs <;> rfl
  rw [bspCommonInterruptHandler, hsp, if_neg Bool.false_ne_true, vectors_append, vectors_append,
    vectors_append, hdispatch]
  show vectors (probe b) ++ _ ++ _ ++ _ = _
  rw [hprobe]
  exact List.append_nil _

/-- Only the branch reports, and only with `r8_bad_intid` at hand. -/
theorem reports_handler (h : (gicIntid id).toNat ≠ b.specialId) (hb : b.badIntid = true) :
    reports (bspCommonInterruptHandler b id) =
      if (gicIntid id).toNat < b.vectorMax then [] else [(gicIntid id).toNat] := by
  have hsp : b.isSpecial id = false := beq_eq_false_iff_ne.mpr h
  have hprobe : reports (probe b) = [] := by
    unfold probe
    split_ifs <;> rfl
  have hdispatch : reports (dispatch b (gicIntid id)) =
      if (gicIntid id).toNat < b.vectorMax then [] else [(gicIntid id).toNat] := by
    unfold dispatch
    rw [if_pos hb]
    split_ifs <;> rfl
  rw [bspCommonInterruptHandler, hsp, if_neg Bool.false_ne_true, reports_append, reports_append,
    reports_append, hdispatch]
  show reports (probe b) ++ _ ++ _ ++ _ = _
  rw [hprobe]
  exact List.append_nil _

theorem handler_special (h : (gicIntid id).toNat = b.specialId) : bspCommonInterruptHandler b id = [] :=
  if_pos (beq_iff_eq.mpr h)

/-- The INTIDs between the bound of the check and the end of the table. -/
def Dropped (b : Bsp) (x : ℕ) : Prop :=
  b.vectorMax ≤ x ∧ x < b.tableSize ∧ (b.badIntid = true ∨ b.cortexEntries ≤ x)

instance (b : Bsp) (x : ℕ) : Decidable (Dropped b x) := inferInstanceAs (Decidable (_ ∧ _ ∧ _))

/-- **The bound.** An interrupt is handled as it should be exactly when its INTID is not one of the
last `BSP_CORTEX_VECTOR_TABLE_ENTRIES` of the table. -/
theorem dispatches_iff (b : Bsp) (hb : b.tableSize ≤ b.specialId) (hs : b.specialId ≤ 0x3ff) (id : Word) :
    Dispatches b id ↔ ¬ Dropped b (gicIntid id).toNat := by
  have hset := setUp_iff (b := b) (by omega) (gicIntid id).toNat
  have hlt : b.vectorMax ≤ b.tableSize := Nat.le_add_right _ _
  by_cases hsp : (gicIntid id).toNat = b.specialId
  · -- a special INTID lies beyond the table and is ignored
    have hnone := handler_special hsp
    refine ⟨fun _ hd => ?_, fun _ => ⟨fun x hx => ?_, fun hup => ?_, fun _ => ?_⟩⟩
    · have := hd.2.1
      omega
    · rw [hnone] at hx
      cases hx
    · have := (hset.mp hup).2
      omega
    · rw [hnone, if_neg fun h => h.2 hsp]
      rfl
  have hvec := vectors_handler (b := b) hsp
  constructor
  · rintro h ⟨hlo, hhi, hlinked | hcortex⟩
    · have hrep := h.reported hlinked
      rw [reports_handler hsp hlinked, if_neg (by omega), if_neg (by omega)] at hrep
      cases hrep
    · have honce := h.once (hset.mpr ⟨hcortex, hhi⟩)
      rw [hvec, if_neg (by omega)] at honce
      cases honce
  · intro h
    refine ⟨fun x hx => ?_, fun hup => ?_, fun hlinked => ?_⟩
    · rw [hvec] at hx
      split_ifs at hx with hx'
      · rw [List.mem_singleton.mp hx]
        omega
      · cases hx
    · rw [hvec, if_pos]
      by_contra hge
      exact h ⟨by omega, (hset.mp hup).2, .inr (hset.mp hup).1⟩
    · rw [reports_handler hsp hlinked]
      by_cases hx : (gicIntid id).toNat < b.vectorMax
      · rw [if_pos hx, if_neg (by omega)]
      · have hge : b.tableSize ≤ (gicIntid id).toNat := by
          by_contra hlt
          exact h ⟨by omega, by omega, .inl hlinked⟩
        rw [if_neg hx, if_pos ⟨hge, hsp⟩]

end Dispatch

/-- A table of 480 vectors behind the 32 of the processor. -/
def sampleBsp : Bsp where
  vectorMax := 480
  cortexEntries := 32
  specialId := 1023
  priorityMask := 0xf8
  coreNum := 0
  nestProbe := true
  badIntid := true
  irqGuard := true
  ioRegWrite32 old value shift mask := old &&& ~~~mask ||| value <<< shift
  ioRegRead32 reg shift mask := (reg &&& mask) >>> shift

theorem dispatches_iff_tick : Dispatches sampleBsp 53 :=
  (dispatches_iff sampleBsp (by decide) (by decide) 53).mpr (by decide)

/-- IRQ 448 is set up as INTID 480, which is inside the table, and never dispatched. -/
theorem not_dispatches : ¬ ∀ (b : Bsp) (id : Word), 0 < b.vectorMax → 0 < b.cortexEntries →
    b.tableSize ≤ b.specialId → b.specialId ≤ 0x3ff → Dispatches b id := by
  intro h
  have honce := (h sampleBsp 480 (by decide) (by decide) (by decide) (by decide)).once
    ⟨448, by decide, by decide⟩
  exact absurd honce (by decide)

end CR8Devkit.Irq
