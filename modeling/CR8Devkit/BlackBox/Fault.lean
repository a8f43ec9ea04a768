import CR8Devkit.BlackBox.Layout
import CR8Devkit.Lib.Transition

/-!
# Fault entries and the post-mortem record

* `r8BlackboxFault`: the helper that latches the first fault; `Entry`, `Entry.handler`: the five
  fault entries up to their call of `r8_disarm_outputs`.
* `Field.inRecord`: the fields of the post-mortem record.
* `handler_ready`: no entry takes the magic away from an initialised box; `handler_latched`: once a
  fault is latched, an entry other than `Abort_Handler` stores nothing.
* `record_kept`: along every run in which no Data Abort is taken after the first fault, the record
  stays as the first fault left it.
-/

namespace CR8Devkit.BlackBox

open Access Access.Prog

/-! ## The helper -/

def r8FaultNone : Word := 0
def r8FaultStackOverflow : Word := 1
def r8FaultMallocFailed : Word := 2
def r8FaultDataAbort : Word := 3
def r8FaultPrefetchAbort : Word := 4
def r8FaultUndefInstr : Word := 5

/-- `fault_task[i]`. -/
def faultTaskAt (i : ℕ) : Loc := .bb (.faultTask (Fin.ofNat 16 i))

/-- The copy loop of `r8_blackbox_fault`: `n` characters may still follow before the terminator. -/
def copyTask (s : Str) : ℕ → ℕ → Code Unit
  | 0, i => set (faultTaskAt i) 0
  | n + 1, i => do
    let c ← get (.char s i)
    if c = 0 then set (faultTaskAt i) 0
    else do
      set (faultTaskAt i) c
      copyTask s n (i + 1)

/-- The name, unless it is a null pointer. -/
def copyName : Option Str → Code Unit
  | none => pure ()
  | some s => copyTask s 15 0

/-- A box that was never initialised is wiped and given its magic first. -/
def ensureMagic : Code Unit := do
  let magic ← get (.bb .magic)
  if magic = r8BbMagic then pure ()
  else do
    memset
    set (.bb .magic) r8BbMagic
    set (.bb .version) r8BbVersion

/-- Everything the record of one fault holds except its type. -/
def latchArgs (a0 a1 lr : Word) (task : Option Str) : Code Unit := do
  set (.bb .faultArg0) a0
  set (.bb .faultArg1) a1
  set (.bb .faultLr) lr
  copyName task

/-- The first fault only; the type is stored last. -/
def latch (type a0 a1 lr : Word) (task : Option Str) : Code Unit := do
  let t ← get (.bb .faultType)
  if t = r8FaultNone then do
    latchArgs a0 a1 lr task
    set (.bb .faultType) type
  else pure ()

/-- `r8_blackbox_fault`. -/
def r8BlackboxFault (type a0 a1 lr : Word) (task : Option Str) : Code Unit := do
  ensureMagic
  latch type a0 a1 lr task

/-! ## `Abort_Handler` -/

/-- The mode stacks, as the linker script places them: base address and size in words. -/
structure Linker where
  svcBase : ℕ
  svcWords : ℕ
  irqBase : ℕ
  irqWords : ℕ
  sysBase : ℕ
  sysWords : ℕ

def r8Paint : Word := 0xA5A5A5A5

/-- `r8_used_one` from address `p`, with `n` words left up to the limit. -/
def r8UsedOne : ℕ → ℕ → Code Word
  | 0, _ => pure 0
  | n + 1, p => do
    let v ← get (.word p)
    if v = r8Paint then r8UsedOne n (p + 4) else pure (BitVec.ofNat 32 (4 * (n + 1)))

/-- `r8_stack_scan`. -/
def r8StackScan (k : Linker) : Code Unit := do
  r8BbSet .svcUsed (r8UsedOne k.svcWords k.svcBase)
  r8BbSet .irqUsed (r8UsedOne k.irqWords k.irqBase)
  r8BbSet .sysUsed (r8UsedOne k.sysWords k.sysBase)

/-- The registers a fault entry reads: the banked stack pointers, the CP15 fault registers and its
return address. -/
structure Regs where
  spSvc : Word
  spIrq : Word
  dfsr : Word
  dfar : Word
  ifsr : Word
  ifar : Word
  lr : Word

/-- `R8_BB_SET(field, variable)` for each pair in turn. -/
def mirror : List (Field × Sram) → Code Unit
  | [] => pure ()
  | (f, v) :: l => do
    r8BbSet f (get (.sram v))
    mirror l

/-- The variables `Abort_Handler` copies, in its order. -/
def abortMirrors : List (Field × Sram) :=
  [(.nestMax, .nestMax), (.guardSpMin, .spMin), (.guardSpMax, .spMax), (.guardSkipped, .nestSkip),
    (.nestEvents, .nestEvents), (.yieldDefer, .yieldDefer), (.epiSpBefore, .epi 0),
    (.epiR2, .epi 1), (.epiSpAfter, .epi 2), (.epiEntryAddr, .epi 3), (.epiEntryVal, .epi 4),
    (.swExitCnt, .sw 0), (.swExitNest, .sw 1), (.swSvcCnt, .sw 2), (.swSvcNest, .sw 3),
    (.epiCpsr, .epi 5), (.epiUnmasked, .epi 6), (.epiIcciar, .epi 7), (.faultSpMin, .spMin),
    (.faultSpMax, .spMax), (.faultDepth, .currentInterruptPointer), (.faultIrq, .irqLast),
    (.ringIdx, .ringIdx)]

/-- `field = variable` for each pair in turn, once the magic has been tested. -/
def copyCells : List (Field × Sram) → Code Unit
  | [] => pure ()
  | (f, v) :: l => do
    let x ← get (.sram v)
    set (.bb f) x
    copyCells l

/-- The cells of ring slot `k`, in the order of the copy loop. -/
def slotCells (k : Fin 8) : List (Field × Sram) :=
  [(.ring k 0, .ring k 0), (.ring k 1, .ring k 1), (.ring k 2, .ring k 2),
    (.ringWord k 0, .rw k 0), (.ringWord k 1, .rw k 1), (.ringIrq k 0, .ri k 0),
    (.ringIrq k 1, .ri k 1), (.ringIrq k 2, .ri k 2)]

/-- The snapshot of the last eight interrupts. -/
def copyRings : Code Unit := do
  let magic ← get (.bb .magic)
  if magic = r8BbMagic then copyCells ((List.finRange 8).flatMap slotCells) else pure ()

/-- The alignment word, once its address is calibrated. -/
def copyWord : Code Unit := do
  let a ← get (.sram .wordAddr)
  if a = 0 then pure ()
  else do
    r8BbSet .faultWordAddr (get (.sram .wordAddr))
    r8BbSet .faultWord do
      let a ← get (.sram .wordAddr)
      get (.word a.toNat)

/-- What `Abort_Handler` stores before it calls `r8_blackbox_fault`. -/
def abortRecord (k : Linker) (r : Regs) : Code Unit := do
  mirror abortMirrors
  copyRings
  copyWord
  r8BbSet .faultSpSvc (pure r.spSvc)
  r8BbSet .faultSpIrq (pure r.spIrq)
  r8StackScan k

/-- `Abort_Handler` up to `r8_disarm_outputs`. -/
def abortHandler (k : Linker) (r : Regs) : Code Unit := do
  abortRecord k r
  r8BlackboxFault r8FaultDataAbort r.dfar r.dfsr r.lr (some .dataAbort)

/-! ## The five entries -/

/-- A fault entry with what it is called with. `left` is the free stack in words: 0, unless
`uxTaskGetStackHighWaterMark` is compiled in. -/
inductive Entry
  | stackOverflow (xTask left lr : Word) (name : Option Str)
  | mallocFailed (lr : Word)
  | dataAbort (r : Regs)
  | prefetchAbort (r : Regs)
  | undefined (r : Regs)

def xPortGetFreeHeapSize : Code Word := get (.sram .xFreeBytesRemaining)

def xPortGetMinimumEverFreeHeapSize : Code Word := get (.sram .xMinimumEverFreeBytesRemaining)

/-- The entry up to its call of `r8_disarm_outputs`. -/
def Entry.handler (k : Linker) : Entry → Code Unit
  | .stackOverflow xTask left lr name =>
    r8BlackboxFault r8FaultStackOverflow xTask (left * 4) lr name
  | .mallocFailed lr => do
    let free ← xPortGetFreeHeapSize
    let minFree ← xPortGetMinimumEverFreeHeapSize
    r8BlackboxFault r8FaultMallocFailed free minFree lr (some .malloc)
  | .dataAbort r => abortHandler k r
  | .prefetchAbort r =>
    r8BlackboxFault r8FaultPrefetchAbort r.ifar r.ifsr r.lr (some .prefetch)
  | .undefined r => r8BlackboxFault r8FaultUndefInstr 0 0 r.lr (some .undefined)

/-- The entry is `Abort_Handler`. -/
def Entry.isDataAbort : Entry → Bool
  | .dataAbort _ => true
  | _ => false

/-! ## The record and what can happen to it -/

/-- The fields of the post-mortem record. -/
def Field.inRecord : Field → Bool
  | .faultType | .faultArg0 | .faultArg1 | .faultLr | .faultTask _ | .faultSpSvc | .faultSpIrq
  | .faultSpMin | .faultSpMax | .faultDepth | .faultIrq | .faultWord | .faultWordAddr | .ringIdx
  | .ring _ _ | .ringWord _ _ | .ringIrq _ _ => true
  | _ => false

/-- The record reads the same in both memories. -/
def SameRecord (m m' : Mem) : Prop := ∀ f : Field, f.inRecord = true → m' (.bb f) = m (.bb f)

/-- A fault entry, or anything else the core does until the next `r8_blackbox_init`. -/
inductive Event
  | entry (e : Entry)
  | other

/-- One event. An entry may be cut short by the next fault at any of its accesses; nothing but the
fault entries writes to the record or to the magic. -/
def happens (k : Linker) (m : Mem) : Event → Mem → Prop
  | .entry e, m' => m' ∈ (e.handler k).states m
  | .other, m' => SameRecord m m' ∧ m' (.bb .magic) = m (.bb .magic)

/-- `Abort_Handler` is entered only while no fault is latched. -/
def AbortFirst (m : Mem) : Event → Prop
  | .entry e => e.isDataAbort = true → m (.bb .faultType) = r8FaultNone
  | .other => True

/-! ### Stores of the pieces -/

variable {m m' : Mem}

theorem storesIn_r8BbSet {P : Loc → Prop} {f : Field} {val : Code Word} (hf : P (.bb f))
    (hv : val.StoresIn P) : (r8BbSet f val).StoresIn P :=
  storesIn_get_bind fun _ =>
    storesIn_ite (fun _ => hv.bind fun _ => storesIn_set hf) fun _ => trivial

theorem storesIn_mirror {P : Loc → Prop} (l : List (Field × Sram)) (h : ∀ x ∈ l, P (.bb x.1)) :
    (mirror l).StoresIn P := by
  induction l with
  | nil => exact trivial
  | cons x l ih =>
    obtain ⟨hx, hl⟩ := List.forall_mem_cons.mp h
    exact (storesIn_r8BbSet hx storesIn_get).bind fun _ => ih hl

theorem storesIn_copyCells {P : Loc → Prop} (l : List (Field × Sram)) (h : ∀ x ∈ l, P (.bb x.1)) :
    (copyCells l).StoresIn P := by
  induction l with
  | nil => exact trivial
  | cons x l ih =>
    obtain ⟨hx, hl⟩ := List.forall_mem_cons.mp h
    exact storesIn_get_bind fun _ => storesIn_set_bind hx (ih hl)

theorem storesIn_r8UsedOne {P : Loc → Prop} (n p : ℕ) : (r8UsedOne n p).StoresIn P := by
  induction n generalizing p with
  | zero => exact trivial
  | succ n ih => exact storesIn_get_bind fun _ => storesIn_ite (fun _ => ih _) fun _ => trivial

theorem storesIn_copyTask {P : Loc → Prop} (s : Str) (n i : ℕ) (h : ∀ j, P (.bb (.faultTask j))) :
    (copyTask s n i).StoresIn P := by
  induction n generalizing i with
  | zero => exact storesIn_set (h _)
  | succ n ih =>
    exact storesIn_get_bind fun _ => storesIn_ite (fun _ => storesIn_set (h _)) fun _ =>
      storesIn_set_bind (h _) (ih _)

/-- What the recording part of `Abort_Handler` stores to. -/
def OutsideLatch (a : Loc) : Prop := ∃ f, a = .bb f ∧ f ≠ .magic ∧ f ≠ .faultType

theorem storesIn_copyWord : copyWord.StoresIn OutsideLatch :=
  storesIn_get_bind fun _ => storesIn_ite (fun _ => trivial) fun _ =>
    (storesIn_r8BbSet ⟨_, rfl, by decide⟩ storesIn_get).bind fun _ =>
      storesIn_r8BbSet ⟨_, rfl, by decide⟩ (storesIn_get_bind fun _ => storesIn_get)

theorem storesIn_r8StackScan (k : Linker) : (r8StackScan k).StoresIn OutsideLatch :=
  (storesIn_r8BbSet ⟨_, rfl, by decide⟩ (storesIn_r8UsedOne _ _)).bind fun _ =>
    (storesIn_r8BbSet ⟨_, rfl, by decide⟩ (storesIn_r8UsedOne _ _)).bind fun _ =>
      storesIn_r8BbSet ⟨_, rfl, by decide⟩ (storesIn_r8UsedOne _ _)

theorem abortMirrors_outside : ∀ x ∈ abortMirrors, x.1 ≠ .magic ∧ x.1 ≠ .faultType := by decide

theorem slotCells_outside :
    ∀ x ∈ (List.finRange 8).flatMap slotCells, x.1 ≠ .magic ∧ x.1 ≠ .faultType := by
  decide

theorem storesIn_abortMirrors : (mirror abortMirrors).StoresIn OutsideLatch :=
  storesIn_mirror _ fun x hx => ⟨x.1, rfl, abortMirrors_outside x hx⟩

theorem storesIn_copyRings : copyRings.StoresIn OutsideLatch :=
  storesIn_get_bind fun _ => storesIn_ite
    (fun _ => storesIn_copyCells _ fun x hx => ⟨x.1, rfl, slotCells_outside x hx⟩) fun _ => trivial

/-- The recording part of `Abort_Handler` stores to the box only, and neither to the magic nor to
the fault type. -/
theorem storesIn_abortRecord (k : Linker) (r : Regs) :
    (abortRecord k r).StoresIn OutsideLatch :=
  storesIn_abortMirrors.bind fun _ => storesIn_copyRings.bind fun _ =>
    storesIn_copyWord.bind fun _ =>
      (storesIn_r8BbSet ⟨_, rfl, by decide⟩ storesIn_pure).bind fun _ =>
        (storesIn_r8BbSet ⟨_, rfl, by decide⟩ storesIn_pure).bind fun _ => storesIn_r8StackScan k

/-- The fields the latch writes. -/
def Field.inLatch : Field → Bool
  | .faultType | .faultArg0 | .faultArg1 | .faultLr | .faultTask _ => true
  | _ => false

theorem storesIn_latchArgs {P : Loc → Prop}
    (h : ∀ f : Field, f.inLatch = true → f ≠ .faultType → P (.bb f)) (a0 a1 lr : Word)
    (task : Option Str) : (latchArgs a0 a1 lr task).StoresIn P := by
  refine storesIn_set_bind (h _ rfl nofun) (storesIn_set_bind (h _ rfl nofun)
    (storesIn_set_bind (h _ rfl nofun) ?_))
  cases task with
  | none => exact trivial
  | some s => exact storesIn_copyTask s _ _ fun j => h _ rfl nofun

theorem storesIn_latch (type a0 a1 lr : Word) (task : Option Str) :
    (latch type a0 a1 lr task).StoresIn fun a => ∃ f : Field, a = .bb f ∧ f.inLatch = true :=
  storesIn_get_bind fun _ => storesIn_ite
    (fun _ => (storesIn_latchArgs (fun f hf _ => ⟨f, rfl, hf⟩) a0 a1 lr task).bind fun _ =>
      storesIn_set ⟨_, rfl, rfl⟩)
    fun _ => trivial

/-! ### The helper on an initialised box -/

theorem exec_ensureMagic_of_ready (h : Ready m) : ensureMagic.exec m = ((), m) :=
  congrArg (Prog.exec · m) (if_pos h)

theorem moments_ensureMagic_of_ready (h : Ready m) : ensureMagic.moments m = [m] :=
  congrArg (m :: Prog.moments · m) (if_pos h)

/-- On an initialised box the helper goes straight to the latch. -/
theorem fault_states (h : Ready m) {type a0 a1 lr : Word} {task : Option Str}
    (hm : m' ∈ (r8BlackboxFault type a0 a1 lr task).states m) :
    m' = m ∨ m' ∈ (latch type a0 a1 lr task).states m := by
  rcases mem_states_bind.mp hm with hm | hm
  · rw [moments_ensureMagic_of_ready h] at hm
    exact .inl (List.mem_singleton.mp hm)
  · rw [exec_ensureMagic_of_ready h] at hm
    exact .inr hm

/-- A latched fault makes the latch a single load. -/
theorem latch_states (h : m (.bb .faultType) ≠ r8FaultNone) {type a0 a1 lr : Word}
    {task : Option Str} (hm : m' ∈ (latch type a0 a1 lr task).states m) : m' = m := by
  have hs : (latch type a0 a1 lr task).states m = [m, m] :=
    congrArg (fun p : Code Unit => m :: p.states m) (if_neg h)
  rw [hs] at hm
  simpa using hm

theorem fault_ready (h : Ready m) {type a0 a1 lr : Word} {task : Option Str}
    (hm : m' ∈ (r8BlackboxFault type a0 a1 lr task).states m) : Ready m' := by
  rcases fault_states h hm with rfl | hm
  · exact h
  · refine (states_frame (storesIn_latch type a0 a1 lr task) hm ?_).trans h
    rintro ⟨f, hf, hrec⟩
    rw [← Loc.bb.inj hf] at hrec
    cases hrec

theorem fault_latched (h : Ready m) (hl : m (.bb .faultType) ≠ r8FaultNone)
    {type a0 a1 lr : Word} {task : Option Str}
    (hm : m' ∈ (r8BlackboxFault type a0 a1 lr task).states m) : m' = m := by
  rcases fault_states h hm with rfl | hm
  · rfl
  · exact latch_states hl hm

theorem abortRecord_magic (k : Linker) (r : Regs) (hm : m' ∈ (abortRecord k r).states m) :
    m' (.bb .magic) = m (.bb .magic) := by
  refine states_frame (storesIn_abortRecord k r) hm ?_
  rintro ⟨f, hf, hmagic, -⟩
  exact hmagic (Loc.bb.inj hf).symm

/-! ### The entries -/

/-- Every entry but `Abort_Handler` goes to the helper without a store. -/
theorem handler_states {k : Linker} {e : Entry} (he : e.isDataAbort = false)
    (hm : m' ∈ (e.handler k).states m) : m' = m ∨
      ∃ type a0 a1 lr task, m' ∈ (r8BlackboxFault type a0 a1 lr task).states m := by
  cases e with
  | dataAbort r => cases he
  | mallocFailed lr =>
    rcases mem_states_get_bind.mp hm with rfl | hm
    · exact .inl rfl
    rcases mem_states_get_bind.mp hm with rfl | hm
    · exact .inl rfl
    · exact .inr ⟨_, _, _, _, _, hm⟩
  | _ => exact .inr ⟨_, _, _, _, _, hm⟩

/-- **No entry takes the magic away** from an initialised box. -/
theorem handler_ready (k : Linker) (e : Entry) (h : Ready m) (hm : m' ∈ (e.handler k).states m) :
    Ready m' := by
  cases he : e.isDataAbort with
  | false =>
    rcases handler_states he hm with rfl | ⟨type, a0, a1, lr, task, hm⟩
    · exact h
    · exact fault_ready h hm
  | true =>
    cases e with
    | dataAbort r =>
      rcases mem_states_bind.mp hm with hm | hm
      · exact (abortRecord_magic k r (mem_states_of_moments hm)).trans h
      · exact fault_ready ((abortRecord_magic k r (exec_mem_states _ m)).trans h) hm
    | _ => cases he

/-- **After the first fault, an entry other than `Abort_Handler` stores nothing.** -/
theorem handler_latched (k : Linker) (e : Entry) (he : e.isDataAbort = false) (h : Ready m)
    (hl : m (.bb .faultType) ≠ r8FaultNone) (hm : m' ∈ (e.handler k).states m) : m' = m := by
  rcases handler_states he hm with rfl | ⟨type, a0, a1, lr, task, hm⟩
  · rfl
  · exact fault_latched h hl hm

/-! ### Runs -/

theorem SameRecord.refl (m : Mem) : SameRecord m m := fun _ _ => rfl

theorem happens_ready {k : Linker} {e : Event} (h : Ready m) (hs : happens k m e m') :
    Ready m' := by
  cases e with
  | entry e => exact handler_ready k e h hs
  | other => exact hs.2.trans h

/-- One event after the first fault. -/
theorem happens_latched {k : Linker} {e : Event} (h : Ready m)
    (hl : m (.bb .faultType) ≠ r8FaultNone) (hg : AbortFirst m e) (hs : happens k m e m') :
    SameRecord m m' := by
  cases e with
  | entry e =>
    have he : e.isDataAbort = false := by
      by_contra hd
      exact hl (hg (by simpa using hd))
    rw [handler_latched k e he h hl hs]
    exact .refl m
  | other => exact hs.1

/-- **The record stays as the first fault left it** along every run in which `Abort_Handler` is not
entered after that fault. -/
theorem record_kept {k : Linker} {m₀ m₁ m₂ : Mem} {es es' : List Event} (h₀ : Ready m₀)
    (h₁ : Transition.Run (Transition.guarded (happens k) AbortFirst) m₀ es m₁)
    (hl : m₁ (.bb .faultType) ≠ r8FaultNone)
    (h₂ : Transition.Run (Transition.guarded (happens k) AbortFirst) m₁ es' m₂) :
    SameRecord m₁ m₂ := by
  have hready : Ready m₁ := h₁.inv h₀ fun h hs => happens_ready h hs.2
  refine (h₂.inv (I := fun m => Ready m ∧ SameRecord m₁ m) ⟨hready, .refl m₁⟩ ?_).2
  rintro m e m' ⟨hr, hsame⟩ ⟨hg, hs⟩
  have hl' : m (.bb .faultType) ≠ r8FaultNone := by rwa [hsame .faultType rfl]
  exact ⟨happens_ready hr hs,
    fun f hf => (happens_latched hr hl' hg hs f hf).trans (hsame f hf)⟩

/-! ### Two faults in either order -/

/-- An initialised box in which one interrupt has been logged. -/
def oneInterrupt : Mem := Mem.withStrings fun a =>
  if a = .bb .magic then r8BbMagic else if a = .sram .ringIdx then 1 else 0

def bench : Linker := ⟨0x10000, 1024, 0x11000, 1024, 0x12000, 1024⟩

def overflow : Entry := .stackOverflow 0x100 4 0x200 (some .pcTaskName)
def abort : Entry := .dataAbort ⟨0x10f00, 0x11f00, 8, 0xffff0000, 0, 0, 0x300⟩

/-- The memory after a whole entry. -/
def Entry.after (e : Entry) (m : Mem) : Mem := ((e.handler bench).exec m).2

theorem happens_after (e : Entry) (m : Mem) : happens bench m (.entry e) (e.after m) :=
  exec_mem_states _ _

theorem record_kept_abort_overflow :
    SameRecord (abort.after oneInterrupt) (overflow.after (abort.after oneInterrupt)) := by
  have h₁ : AbortFirst oneInterrupt (.entry abort) := fun _ => rfl
  have h₂ : AbortFirst (abort.after oneInterrupt) (.entry overflow) := fun h => nomatch h
  have hready : Ready oneInterrupt := rfl
  exact record_kept (k := bench) hready (.single ⟨h₁, happens_after abort _⟩) (by decide +kernel)
    (.single ⟨h₂, happens_after overflow _⟩)

/-- The stack overflow is latched first; the abort then changes `ring_idx`. -/
theorem not_record_kept : ¬ ∀ (k : Linker) (m₀ m₁ m₂ : Mem) (es es' : List Event), Ready m₀ →
    Transition.Run (happens k) m₀ es m₁ → m₁ (.bb .faultType) ≠ r8FaultNone →
    Transition.Run (happens k) m₁ es' m₂ → SameRecord m₁ m₂ := by
  intro h
  have hsame := h bench oneInterrupt _ _ _ _ rfl (.single (happens_after overflow _))
    (by decide +kernel) (.single (happens_after abort _))
  have hidx : (abort.after (overflow.after oneInterrupt)) (.bb .ringIdx) ≠
      overflow.after oneInterrupt (.bb .ringIdx) := by decide +kernel
  exact hidx (hsame .ringIdx rfl)

end CR8Devkit.BlackBox
