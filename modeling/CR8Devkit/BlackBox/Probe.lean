import CR8Devkit.BlackBox.Fault

/-!
# The probes that run while the firmware is alive

* `r8BlackboxInit`: the box at start-up, with `r8StackPaint`.
* `r8BlackboxPump`: the periodic copy of the diagnostic variables into the box, with
  `r8IrqGuardCalibrate`; `pumpMirrors` and `calibrateMirrors` are the variables it copies.
* `r8IrqGuard`, `r8NestProbe`, `r8BadIntid`: what every interrupt records.
* `ProbeCell`: the cells that the probes store to.
* `exec_mirror`, `exec_copyCells`: what a list of copies leaves in the box.
-/

namespace CR8Devkit.BlackBox

open Access Access.Prog

/-! ## Start-up -/

/-- Fill `n` words from address `p` on. -/
def paint : ℕ → ℕ → Code Unit
  | 0, _ => pure ()
  | n + 1, p => do
    set (.word p) r8Paint
    paint n (p + 4)

/-- `r8_paint_one`: the stack in use is painted only up to 64 bytes below its pointer. -/
def r8PaintOne (base words : ℕ) (sp : Word) : Code Word :=
  if base < sp.toNat ∧ sp.toNat ≤ base + 4 * words then
    let top := ((sp - 64) &&& ~~~3).toNat
    if top ≤ base then pure 0
    else do
      paint ((top - base + 3) / 4) base
      pure 1
  else do
    paint words base
    pure 1

/-- The stack pointers of the three modes. -/
structure ModeSps where
  svc : Word
  irq : Word
  sys : Word

/-- `r8_stack_paint`. -/
def r8StackPaint (k : Linker) (sp : ModeSps) : Code Unit := do
  let svc ← r8PaintOne k.svcBase k.svcWords sp.svc
  let irq ← r8PaintOne k.irqBase k.irqWords sp.irq
  let sys ← r8PaintOne k.sysBase k.sysWords sp.sys
  r8BbSet .stackPaint (pure ((if svc = 0 then 0 else 1) ||| (if irq = 0 then 0 else 2) |||
    (if sys = 0 then 0 else 4)))

/-- The boots counted so far; a box without magic starts from 0. -/
def bootCount : Code Word := do
  let magic ← get (.bb .magic)
  if magic = r8BbMagic then get (.bb .bootCount) else pure 0

/-- `r8_blackbox_init`: the magic is stored after everything else. -/
def r8BlackboxInit (k : Linker) (sp : ModeSps) : Code Unit := do
  let boots ← bootCount
  memset
  set (.bb .version) r8BbVersion
  set (.bb .bootCount) (boots + 1)
  set (.bb .faultType) r8FaultNone
  set (.bb .magic) r8BbMagic
  r8StackPaint k sp

/-! ## The pump -/

/-- The variables `r8_blackbox_pump` copies itself, in its order. -/
def pumpMirrors : List (Field × Sram) :=
  [(.irqLast, .irqLast), (.irqCount, .irqCount), (.epiSpBefore, .epi 0), (.epiR2, .epi 1),
    (.epiSpAfter, .epi 2), (.epiEntryAddr, .epi 3), (.epiEntryVal, .epi 4), (.swExitCnt, .sw 0),
    (.swExitNest, .sw 1), (.swSvcCnt, .sw 2), (.swSvcNest, .sw 3), (.epiCpsr, .epi 5),
    (.epiUnmasked, .epi 6), (.epiIcciar, .epi 7)]

/-- The variables `r8_irq_guard_calibrate` copies. -/
def calibrateMirrors : List (Field × Sram) :=
  [(.guardSpMin, .spMin), (.guardSpMax, .spMax), (.nestMax, .nestMax), (.guardSkipped, .nestSkip),
    (.nestEvents, .nestEvents), (.yieldDefer, .yieldDefer), (.yieldApply, .yieldApply)]

/-- The lower end of the range of the resting stack pointer; 0 means none yet. -/
def noteRestMin (rest : Word) : Code Unit := do
  let lo ← get (.bb .restMin)
  if lo = 0 then r8BbSet .restMin (pure rest)
  else do
    let lo ← get (.bb .restMin)
    if rest < lo then r8BbSet .restMin (pure rest) else pure ()

/-- The upper end. -/
def noteRestMax (rest : Word) : Code Unit := do
  let hi ← get (.bb .restMax)
  if hi < rest then r8BbSet .restMax (pure rest) else pure ()

/-- The address of the alignment word, calibrated once. -/
def calibrateOnce (rest : Word) : Code Unit := do
  let a ← get (.sram .wordAddr)
  if a ≠ 0 then pure ()
  else do
    let align := (rest - 28) &&& 4
    r8BbSet .svcRest (pure rest)
    r8BbSet .irqWordExp (pure align)
    r8BbSet .irqWordAddr (pure (rest - 28 - align - 4))
    set (.sram .wordExp) align
    set (.sram .wordAddr) (rest - 28 - align - 4)

/-- The pointer lies in the SVC stack. -/
def Linker.InSvc (k : Linker) (sp : Word) : Prop :=
  k.svcBase < sp.toNat ∧ sp.toNat ≤ k.svcBase + 4 * k.svcWords

instance (k : Linker) (sp : Word) : Decidable (k.InSvc sp) := by
  unfold Linker.InSvc; infer_instance

/-- `r8_irq_guard_calibrate`; `rest` is what it reads as `sp_svc`. -/
def r8IrqGuardCalibrate (k : Linker) (rest : Word) : Code Unit :=
  if k.InSvc rest then do
    noteRestMin rest
    noteRestMax rest
    mirror calibrateMirrors
    calibrateOnce rest
  else pure ()

/-- What one call of the pump reads from the kernel and the processor, and `configTICK_RATE_HZ`. -/
structure Pump where
  hz : Word
  now : Word
  rest : Word

/-- The stack scan, at most once a second. -/
def throttledScan (k : Linker) (u : Pump) : Code Unit := do
  let last ← get (.sram .scanLast)
  if u.hz ≤ u.now - last then do
    set (.sram .scanLast) u.now
    r8StackScan k
  else pure ()

/-- `r8_blackbox_pump`. -/
def r8BlackboxPump (k : Linker) (u : Pump) : Code Unit := do
  r8BbSet .mtxBlock (get (.sram .metalMutexBlocks))
  r8BbSet .uptimeTicks (pure u.now)
  throttledScan k u
  mirror pumpMirrors
  r8IrqGuardCalibrate k u.rest

/-! ## What an interrupt records -/

/-- The first INTID outside the vector table is kept. -/
def noteFirstBad (intid : Word) : Code Unit := do
  let first ← get (.bb .badIntidFirst)
  if first = 0 then set (.bb .badIntidFirst) intid else pure ()

/-- `r8_bad_intid`. -/
def r8BadIntid (intid : Word) : Code Unit := do
  r8BbInc .badIntidCnt
  let magic ← get (.bb .magic)
  if magic = r8BbMagic then do
    noteFirstBad intid
    set (.bb .badIntidLast) intid
  else pure ()

/-- The deepest nesting so far. -/
def noteDepth (depth : Word) : Code Unit := do
  let top ← get (.sram .nestMax)
  if top < depth then set (.sram .nestMax) depth else pure ()

/-- `r8_nest_probe`. -/
def r8NestProbe (depth : Word) : Code Unit := do
  noteDepth depth
  if 2 ≤ depth then do
    let n ← get (.sram .nestEvents)
    set (.sram .nestEvents) (n + 1)
  else pure ()

/-- The registers `r8_irq_guard` reads: its argument, its own `sp` and `sp_irq`. -/
structure Guard where
  icciar : Word
  sp : Word
  spIrq : Word

/-- The lower end of the range of the guard's `sp`; 0 means none yet. -/
def noteSpMin (sp : Word) : Code Unit := do
  let lo ← get (.sram .spMin)
  if lo = 0 then set (.sram .spMin) sp
  else do
    let lo ← get (.sram .spMin)
    if sp < lo then set (.sram .spMin) sp else pure ()

/-- The upper end. -/
def noteSpMax (sp : Word) : Code Unit := do
  let hi ← get (.sram .spMax)
  if hi < sp then set (.sram .spMax) sp else pure ()

/-- The saved return state, read only when `sp_irq` lies in the IRQ stack. -/
def noteReturn (k : Linker) (i : Fin 8) (si : Word) : Code Unit := do
  set (.sram (.ri i 0)) si
  if k.irqBase ≤ si.toNat ∧ si.toNat < k.irqBase + 4 * k.irqWords then do
    let spsr ← get (.word si.toNat)
    set (.sram (.ri i 1)) spsr
    let pc ← get (.word (si + 4).toNat)
    set (.sram (.ri i 2)) pc
  else do
    set (.sram (.ri i 1)) 0
    set (.sram (.ri i 2)) 0

/-- The alignment word at address `a`, once its offset is known. -/
def wordAt (a : Word) : Code Word := do
  let off ← get (.sram .wordOff)
  if off ≠ 0 then get (.word a.toNat) else pure 0

/-- One slot of the ring. -/
def noteRing (k : Linker) (g : Guard) : Code Unit := do
  let idx ← get (.sram .ringIdx)
  let i := Fin.ofNat 8 idx.toNat
  set (.sram (.ring i 0)) g.icciar
  set (.sram (.ring i 1)) g.sp
  let depth ← get (.sram .currentInterruptPointer)
  set (.sram (.ring i 2)) depth
  let off ← get (.sram .wordOff)
  set (.sram (.rw i 0)) (g.sp + off)
  let v ← wordAt (g.sp + off)
  set (.sram (.rw i 1)) v
  noteReturn k i g.spIrq
  set (.sram .ringIdx) (BitVec.ofNat 32 (idx.toNat % 8) + 1)

/-- The first damaged alignment word is described in the box. -/
def noteDamage (g : Guard) (got : Word) : Code Unit := do
  r8BbInc .irqBad
  let magic ← get (.bb .magic)
  if magic = r8BbMagic then do
    let seen ← get (.bb .irqSeen)
    if seen = 0 then do
      r8BbSet .irqCulprit (pure g.icciar)
      r8BbSet .irqWordGot (pure got)
      r8BbSet .irqSp (pure g.sp)
      r8BbSet .irqPrev (get (.sram .irqPrev))
      r8BbSet .irqDepth (get (.sram .currentInterruptPointer))
      r8BbSet .irqOff (get (.sram .wordOff))
      r8BbSet .irqSeen (pure 1)
    else pure ()
  else pure ()

/-- The alignment word can only be 0 or 4. -/
def checkWord (g : Guard) : Code Unit := do
  let off ← get (.sram .wordOff)
  let got ← get (.word (g.sp + off).toNat)
  if got = 0 ∨ got = 4 then pure () else noteDamage g got

/-- The check, once calibrated; until then a nested interrupt is skipped. -/
def guardCheck (addr : Word) (g : Guard) : Code Unit := do
  let off ← get (.sram .wordOff)
  if off = 0 then do
    let depth ← get (.sram .currentInterruptPointer)
    if depth ≠ 0 then do
      let n ← get (.sram .nestSkip)
      set (.sram .nestSkip) (n + 1)
    else do
      set (.sram .wordOff) (addr - g.sp)
      checkWord g
  else checkWord g

/-- `r8_irq_guard`. -/
def r8IrqGuard (k : Linker) (g : Guard) : Code Unit := do
  let addr ← get (.sram .wordAddr)
  let last ← get (.sram .irqLast)
  set (.sram .irqPrev) last
  set (.sram .irqLast) g.icciar
  let n ← get (.sram .irqCount)
  set (.sram .irqCount) (n + 1)
  noteSpMin g.sp
  noteSpMax g.sp
  noteRing k g
  if addr = 0 then pure () else guardCheck addr g

/-! ## What the probes store to -/

/-- The fields that `r8_bad_intid` and `r8_irq_guard` store to. -/
def Field.noted : Field → Bool
  | .badIntidCnt | .badIntidFirst | .badIntidLast | .irqBad | .irqCulprit | .irqWordGot | .irqSp
  | .irqPrev | .irqDepth | .irqOff | .irqSeen => true
  | _ => false

/-- The variables that are left to the dispatcher and to `r8_nest_probe`. -/
def Sram.counts : Sram → Bool
  | .currentInterruptPointer | .nestMax | .nestEvents => true
  | _ => false

def ProbeCell (a : Loc) : Prop :=
  (∀ f, a = .bb f → f.noted = true) ∧ ∀ v, a = .sram v → v.counts = false

theorem probe_bb {f : Field} (hf : f.noted = true) : ProbeCell (.bb f) :=
  ⟨fun _ h => Loc.bb.inj h ▸ hf, fun _ => nofun⟩

theorem probe_sram {v : Sram} (hv : v.counts = false) : ProbeCell (.sram v) :=
  ⟨fun _ => nofun, fun _ h => Loc.sram.inj h ▸ hv⟩

theorem storesIn_r8BbInc {P : Loc → Prop} {f : Field} (hf : P (.bb f)) : (r8BbInc f).StoresIn P :=
  storesIn_get_bind fun _ =>
    storesIn_ite (fun _ => storesIn_get_bind fun _ => storesIn_set hf) fun _ => trivial

theorem storesIn_r8BadIntid (intid : Word) : (r8BadIntid intid).StoresIn ProbeCell :=
  (storesIn_r8BbInc (probe_bb rfl)).bind fun _ => storesIn_get_bind fun _ => storesIn_ite
    (fun _ => (show (noteFirstBad intid).StoresIn ProbeCell from storesIn_get_bind fun _ =>
      storesIn_ite (fun _ => storesIn_set (probe_bb rfl)) fun _ => trivial).bind
        fun _ => storesIn_set (probe_bb rfl))
    fun _ => trivial

section Calibrate

variable {P : Loc → Prop} (rest : Word)

theorem storesIn_noteRestMin (h : P (.bb .restMin)) : (noteRestMin rest).StoresIn P :=
  storesIn_get_bind fun _ => storesIn_ite (fun _ => storesIn_r8BbSet h storesIn_pure)
    fun _ => storesIn_get_bind fun _ => storesIn_ite (fun _ => storesIn_r8BbSet h storesIn_pure)
      fun _ => trivial

theorem storesIn_noteRestMax (h : P (.bb .restMax)) : (noteRestMax rest).StoresIn P :=
  storesIn_get_bind fun _ => storesIn_ite (fun _ => storesIn_r8BbSet h storesIn_pure) fun _ => trivial

theorem storesIn_calibrateOnce (hrest : P (.bb .svcRest)) (hbits : P (.bb .irqWordExp))
    (haddr : P (.bb .irqWordAddr)) (hexp : P (.sram .wordExp)) (hword : P (.sram .wordAddr)) :
    (calibrateOnce rest).StoresIn P :=
  storesIn_get_bind fun _ => storesIn_ite (fun _ => trivial) fun _ =>
    (storesIn_r8BbSet hrest storesIn_pure).bind fun _ =>
    (storesIn_r8BbSet hbits storesIn_pure).bind fun _ =>
    (storesIn_r8BbSet haddr storesIn_pure).bind fun _ => storesIn_set_bind hexp (storesIn_set hword)

end Calibrate

/-- The ring and its index. -/
def Sram.inRing : Sram → Bool
  | .ringIdx | .ring _ _ | .rw _ _ | .ri _ _ => true
  | _ => false

section Guard

variable {P : Loc → Prop} (k : Linker) (g : Guard)

theorem storesIn_noteSpMin (h : P (.sram .spMin)) (sp : Word) : (noteSpMin sp).StoresIn P :=
  storesIn_get_bind fun _ => storesIn_ite (fun _ => storesIn_set h)
    fun _ => storesIn_get_bind fun _ => storesIn_ite (fun _ => storesIn_set h) fun _ => trivial

theorem storesIn_noteSpMax (h : P (.sram .spMax)) (sp : Word) : (noteSpMax sp).StoresIn P :=
  storesIn_get_bind fun _ => storesIn_ite (fun _ => storesIn_set h) fun _ => trivial

theorem storesIn_noteRing (h : ∀ v : Sram, v.inRing = true → P (.sram v)) :
    (noteRing k g).StoresIn P := by
  have hreturn : ∀ i, (noteReturn k i g.spIrq).StoresIn P := fun i =>
    storesIn_set_bind (h _ rfl) (storesIn_ite
      (fun _ => storesIn_get_bind fun _ => storesIn_set_bind (h _ rfl)
        (storesIn_get_bind fun _ => storesIn_set (h _ rfl)))
      fun _ => storesIn_set_bind (h _ rfl) (storesIn_set (h _ rfl)))
  have hword : ∀ a, (wordAt a).StoresIn P := fun a =>
    storesIn_get_bind fun _ => storesIn_ite (fun _ => storesIn_get) fun _ => trivial
  exact storesIn_get_bind fun _ => storesIn_set_bind (h _ rfl) <| storesIn_set_bind (h _ rfl) <|
    storesIn_get_bind fun _ => storesIn_set_bind (h _ rfl) <| storesIn_get_bind fun _ =>
    storesIn_set_bind (h _ rfl) <| (hword _).bind fun _ => storesIn_set_bind (h _ rfl) <|
    (hreturn _).bind fun _ => storesIn_set (h _ rfl)

theorem storesIn_noteDamage (h : ∀ f : Field, f.noted = true → P (.bb f)) (got : Word) :
    (noteDamage g got).StoresIn P :=
  (storesIn_r8BbInc (h _ rfl)).bind fun _ => storesIn_get_bind fun _ => storesIn_ite
    (fun _ => storesIn_get_bind fun _ => storesIn_ite
      (fun _ => (storesIn_r8BbSet (h _ rfl) storesIn_pure).bind fun _ =>
        (storesIn_r8BbSet (h _ rfl) storesIn_pure).bind fun _ =>
        (storesIn_r8BbSet (h _ rfl) storesIn_pure).bind fun _ =>
        (storesIn_r8BbSet (h _ rfl) storesIn_get).bind fun _ =>
        (storesIn_r8BbSet (h _ rfl) storesIn_get).bind fun _ =>
        (storesIn_r8BbSet (h _ rfl) storesIn_get).bind fun _ =>
        storesIn_r8BbSet (h _ rfl) storesIn_pure)
      fun _ => trivial)
    fun _ => trivial

theorem storesIn_guardCheck (h : ∀ f : Field, f.noted = true → P (.bb f)) (hskip : P (.sram .nestSkip))
    (hoff : P (.sram .wordOff)) (addr : Word) : (guardCheck addr g).StoresIn P := by
  have hcheck : (checkWord g).StoresIn P := storesIn_get_bind fun _ =>
    storesIn_get_bind fun _ => storesIn_ite (fun _ => trivial) fun _ => storesIn_noteDamage _ h _
  exact storesIn_get_bind fun _ => storesIn_ite
    (fun _ => storesIn_get_bind fun _ => storesIn_ite
      (fun _ => storesIn_get_bind fun _ => storesIn_set hskip)
      fun _ => storesIn_set_bind hoff hcheck)
    fun _ => hcheck

theorem counts_of_inRing {v : Sram} (h : v.inRing = true) : v.counts = false := by
  cases v <;> first | rfl | cases h

theorem storesIn_r8IrqGuard : (r8IrqGuard k g).StoresIn ProbeCell :=
  storesIn_get_bind fun _ => storesIn_get_bind fun _ =>
    storesIn_set_bind (probe_sram rfl) <| storesIn_set_bind (probe_sram rfl) <|
    storesIn_get_bind fun _ => storesIn_set_bind (probe_sram rfl) <|
    (storesIn_noteSpMin (probe_sram rfl) _).bind fun _ =>
    (storesIn_noteSpMax (probe_sram rfl) _).bind fun _ =>
    (storesIn_noteRing k g fun _ hv => probe_sram (counts_of_inRing hv)).bind fun _ =>
    storesIn_ite (fun _ => trivial) fun _ =>
      storesIn_guardCheck g (fun _ => probe_bb) (probe_sram rfl) (probe_sram rfl) _

end Guard

/-! ## What the copies leave in the box -/

variable {m : Mem}

theorem exec_r8BbSet (h : Ready m) (f : Field) (v : Sram) :
    (r8BbSet f (get (.sram v))).exec m = ((), Function.update m (.bb f) (m (.sram v))) :=
  congrArg (Prog.exec · m) (if_pos h)

theorem mirror_cons (f : Field) (v : Sram) (l : List (Field × Sram)) :
    mirror ((f, v) :: l) = (do r8BbSet f (get (.sram v)); mirror l) := rfl

/-- Storing to a cell of the box that is not the magic leaves it initialised. -/
theorem Ready.update (h : Ready m) {f : Field} (hf : f ≠ .magic) (x : Word) :
    Ready (Function.update m (.bb f) x) := by
  have hne : Loc.bb .magic ≠ .bb f := fun e => hf (Loc.bb.inj e).symm
  unfold Ready
  rw [Function.update_of_ne hne]
  exact h

/-- In an initialised box the guarded copies are the plain ones. -/
theorem exec_mirror (h : Ready m) (l : List (Field × Sram)) (hl : ∀ x ∈ l, x.1 ≠ .magic) :
    (mirror l).exec m = (copyCells l).exec m := by
  induction l generalizing m with
  | nil => rfl
  | cons x l ih =>
    obtain ⟨hx, hl⟩ := List.forall_mem_cons.mp hl
    rw [mirror_cons, exec_bind, exec_r8BbSet h]
    exact ih (h.update hx _) hl

/-- The copies store to their fields only. -/
theorem copyCells_keeps (l : List (Field × Sram)) {a : Loc} (ha : ∀ x ∈ l, a ≠ .bb x.1) :
    ((copyCells l).exec m).2 a = m a :=
  exec_frame (storesIn_copyCells (P := fun a => ∃ x ∈ l, a = .bb x.1) l fun x hx => ⟨x, hx, rfl⟩)
    fun ⟨x, hx, hax⟩ => ha x hx hax

/-- **Each field holds its variable afterwards**, if no field is copied twice. -/
theorem exec_copyCells (l : List (Field × Sram)) (hl : (l.map Prod.fst).Nodup) {x : Field × Sram}
    (hx : x ∈ l) : ((copyCells l).exec m).2 (.bb x.1) = m (.sram x.2) := by
  induction l generalizing m with
  | nil => cases hx
  | cons y l ih =>
    obtain ⟨hy, hl⟩ := List.nodup_cons.mp hl
    change ((copyCells l).exec (Function.update m (.bb y.1) (m (.sram y.2)))).2 (.bb x.1) = _
    rcases List.mem_cons.mp hx with rfl | hx
    · have hne : ∀ z ∈ l, Loc.bb x.1 ≠ .bb z.1 := fun z hz e =>
        hy (List.mem_map.mpr ⟨z, hz, (Loc.bb.inj e).symm⟩)
      rw [copyCells_keeps l hne, Function.update_self]
    · have hne : Loc.sram x.2 ≠ .bb y.1 := nofun
      rw [ih hl hx, Function.update_of_ne hne]

end CR8Devkit.BlackBox
