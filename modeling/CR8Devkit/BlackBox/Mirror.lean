import CR8Devkit.BlackBox.Probe
import CR8Devkit.BlackBox.Reentry
import CR8Devkit.Lib.Interference

/-!
# The copies of the diagnostic variables at the time of a fault

* `Field.source`: the variable that a field of the box mirrors; `Mirrored`: every mirrored field
  equals its variable.
* `acts`: what the core does before a fault, with interrupts between any two accesses of the pump;
  `Latches`: the fault entry that makes `fault_type` non-zero.
* `Entry.skips`: the mirrored fields that an entry does not copy itself.
* `elsewhere_r8IrqGuard`: an interrupt leaves the copies alone.
* `mirrored_iff`: the evidence is that of the fault exactly when the skipped copies were current.
-/

namespace CR8Devkit.BlackBox

open Access Access.Prog Transition

/-- The variable that a field mirrors. -/
def Field.source : Field → Option Sram
  | .irqLast => some .irqLast
  | .irqCount => some .irqCount
  | .nestMax => some .nestMax
  | .nestEvents => some .nestEvents
  | .guardSpMin => some .spMin
  | .guardSpMax => some .spMax
  | .guardSkipped => some .nestSkip
  | .yieldDefer => some .yieldDefer
  | .yieldApply => some .yieldApply
  | .epiSpBefore => some (.epi 0)
  | .epiR2 => some (.epi 1)
  | .epiSpAfter => some (.epi 2)
  | .epiEntryAddr => some (.epi 3)
  | .epiEntryVal => some (.epi 4)
  | .epiCpsr => some (.epi 5)
  | .epiUnmasked => some (.epi 6)
  | .epiIcciar => some (.epi 7)
  | .swExitCnt => some (.sw 0)
  | .swExitNest => some (.sw 1)
  | .swSvcCnt => some (.sw 2)
  | .swSvcNest => some (.sw 3)
  | .faultSpMin => some .spMin
  | .faultSpMax => some .spMax
  | .faultDepth => some .currentInterruptPointer
  | .faultIrq => some .irqLast
  | .ringIdx => some .ringIdx
  | .ring k j => some (.ring k j)
  | .ringWord k j => some (.rw k j)
  | .ringIrq k j => some (.ri k j)
  | _ => none

/-- Every mirrored field equals its variable. -/
def Mirrored (m : Mem) : Prop := ∀ f v, f.source = some v → m (.bb f) = m (.sram v)

/-- The fields that nothing but the pump and the fault entries writes: the mirrored ones, the magic
and the fault type. -/
def Field.held (f : Field) : Bool := f.source.isSome || f == .magic || f == .faultType

/-- What interrupts, `SVC_Handler` and the other tasks may do to the memory. -/
def Elsewhere (m m' : Mem) : Prop := ∀ f : Field, f.held = true → m' (.bb f) = m (.bb f)

/-- What the core does before a fault. -/
inductive Act
  | elsewhere
  | pump (u : Pump)

/-- One act; a fault may cut the pump short. -/
def acts (k : Linker) (m : Mem) : Act → Mem → Prop
  | .elsewhere, m' => Elsewhere m m'
  | .pump u, m' => (r8BlackboxPump k u).Passes Elsewhere m m'

/-- Interrupts stay masked in the exception handlers; the two hooks are called as they come. -/
def Entry.around : Entry → Mem → Mem → Prop
  | .stackOverflow _ _ _ _ | .mallocFailed _ => Elsewhere
  | .dataAbort _ | .prefetchAbort _ | .undefined _ => Eq

/-- A run that ends with entry `e`, taken in `m`, making `fault_type` non-zero in `m'`. -/
structure Latches (k : Linker) (m₀ : Mem) (as : List Act) (e : Entry) (m m' : Mem) : Prop where
  run : Run (acts k) m₀ as m
  first : First m
  latch : (e.handler k).Under e.around m () m'

/-- The mirrored fields that the entry does not copy from their variables. -/
def Entry.skips : Entry → Field → Bool
  | .dataAbort _, f => f == .irqLast || f == .irqCount || f == .yieldApply
  | _, _ => true

/-- The copies that the entry leaves alone were current: those it skips in an initialised box, and
the zeros of a box it has to wipe. -/
def Current (e : Entry) (m m' : Mem) : Prop := ∀ f v, f.source = some v →
  if Ready m then e.skips f = true → m (.bb f) = m' (.sram v) else m' (.sram v) = 0

/-! ## Interrupts between the accesses -/

variable {m m' : Mem}

theorem Elsewhere.refl (m : Mem) : Elsewhere m m := fun _ _ => rfl

theorem Elsewhere.trans {m₁ : Mem} (h : Elsewhere m m₁) (h' : Elsewhere m₁ m') : Elsewhere m m' :=
  fun f hf => (h' f hf).trans (h f hf)

theorem Elsewhere.ready (h : Elsewhere m m') : Ready m' ↔ Ready m := by
  unfold Ready
  rw [h .magic rfl]

theorem Entry.around_elsewhere (e : Entry) (h : e.around m m') : Elsewhere m m' := by
  cases e with
  | stackOverflow => exact h
  | mallocFailed => exact h
  | dataAbort r => exact h ▸ .refl m
  | prefetchAbort r => exact h ▸ .refl m
  | undefined r => exact h ▸ .refl m

theorem held_of_source {f : Field} {v : Sram} (h : f.source = some v) : f.held = true := by
  simp [Field.held, h]

/-- A cell that interrupts may store to. -/
def Unheld (a : Loc) : Prop := ∀ f, a = .bb f → f.held = false

theorem elsewhere_of_storesIn {p : Code Unit} (hp : p.StoresIn Unheld) :
    Elsewhere m (p.exec m).2 := by
  intro f hf
  refine exec_frame hp fun h => ?_
  rw [h f rfl] at hf
  cases hf

/-! ### The probes of an interrupt -/

theorem unheld_of_noted {f : Field} (h : f.noted = true) : f.held = false := by
  cases f <;> first | rfl | cases h

theorem ProbeCell.unheld {a : Loc} (h : ProbeCell a) : Unheld a := fun f hf => unheld_of_noted (h.1 f hf)

/-- **The guard is an instance of `Elsewhere`**: it leaves the copies in the box alone. -/
theorem elsewhere_r8IrqGuard (k : Linker) (g : Guard) : Elsewhere m ((r8IrqGuard k g).exec m).2 :=
  elsewhere_of_storesIn ((storesIn_r8IrqGuard k g).mono fun _ => ProbeCell.unheld)

/-! ## The helper under interference -/

theorem source_of_inLatch {f : Field} (h : f.inLatch = true) : f.source = none := by
  cases f <;> first | rfl | cases h

theorem latch_keeps {type a0 a1 lr : Word} {task : Option Str}
    (h : (latch type a0 a1 lr task).Under Elsewhere m () m') {f : Field} {v : Sram}
    (hf : f.source = some v) : m' (.bb f) = m (.bb f) := by
  refine under_frame (storesIn_latch type a0 a1 lr task) (fun h => h f (held_of_source hf)) ?_ h
  rintro ⟨g, hg, hlatch⟩
  obtain rfl := Loc.bb.inj hg
  rw [source_of_inLatch hlatch] at hf
  cases hf

/-- On an initialised box the helper touches no mirrored field. -/
theorem fault_keeps (hr : Ready m) {type a0 a1 lr : Word} {task : Option Str}
    (h : (r8BlackboxFault type a0 a1 lr task).Under Elsewhere m () m') {f : Field} {v : Sram}
    (hf : f.source = some v) : m' (.bb f) = m (.bb f) := by
  obtain ⟨_, m₂, h₁, h₂⟩ := under_bind.mp h
  obtain ⟨m₁, he, h₁⟩ := under_get_bind.mp h₁
  rw [if_pos (show m₁ (.bb .magic) = r8BbMagic from he.ready.mpr hr)] at h₁
  obtain ⟨-, rfl⟩ := h₁
  rw [latch_keeps h₂ hf, he f (held_of_source hf)]

theorem wipe_zero {l : List Field} (h : (wipe l).Under Elsewhere m () m') {f : Field}
    (hf : f.held = true) (h0 : f ∈ l ∨ m (.bb f) = 0) : m' (.bb f) = 0 := by
  induction l generalizing m with
  | nil =>
    obtain ⟨-, rfl⟩ := h
    simpa using h0
  | cons g l ih =>
    obtain ⟨m₁, he, h⟩ := h
    refine ih h ?_
    by_cases hfg : f = g
    · exact .inr (hfg ▸ Function.update_self _ _ _)
    · have hne : Loc.bb f ≠ .bb g := fun e => hfg (Loc.bb.inj e)
      rw [Function.update_of_ne hne, he f hf]
      exact h0.imp_left fun h => (List.mem_cons.mp h).resolve_left hfg

/-- A box without magic has its held fields cleared before anything is latched. -/
theorem ensureMagic_wipes (hr : ¬ Ready m) (h : ensureMagic.Under Elsewhere m () m') {f : Field}
    (hf : f.held = true) (hm : f ≠ .magic) : m' (.bb f) = 0 := by
  obtain ⟨m₁, he, h⟩ := under_get_bind.mp h
  rw [if_neg (fun h : m₁ (.bb .magic) = r8BbMagic => hr (he.ready.mp h))] at h
  obtain ⟨_, m₃, hw, m₄, h₄, m₅, h₅, -, rfl⟩ := under_bind.mp h
  have hz : m₃ (.bb f) = 0 := wipe_zero hw hf (.inl (Field.mem_all f))
  have hne : Loc.bb f ≠ .bb .magic := fun e => hm (Loc.bb.inj e)
  have hv : Loc.bb f ≠ .bb .version := by rintro ⟨⟩; cases hf
  rw [Function.update_of_ne hv, h₅ f hf, Function.update_of_ne hne, h₄ f hf, hz]

theorem fault_wipes (hr : ¬ Ready m) {type a0 a1 lr : Word} {task : Option Str}
    (h : (r8BlackboxFault type a0 a1 lr task).Under Elsewhere m () m') {f : Field} {v : Sram}
    (hf : f.source = some v) : m' (.bb f) = 0 := by
  obtain ⟨_, m₁, h₁, h₂⟩ := under_bind.mp h
  have hm : f ≠ .magic := by rintro rfl; cases hf
  rw [latch_keeps h₂ hf, ensureMagic_wipes hr h₁ (held_of_source hf) hm]

/-! ### The type is stored -/

theorem ensureMagic_first (hf : First m) (h : ensureMagic.Under Elsewhere m () m') :
    m' (.bb .faultType) = r8FaultNone := by
  by_cases hr : Ready m
  · obtain ⟨m₁, he, h⟩ := under_get_bind.mp h
    rw [if_pos (show m₁ (.bb .magic) = r8BbMagic from he.ready.mpr hr)] at h
    obtain ⟨-, rfl⟩ := h
    rw [he .faultType rfl]
    exact hf.resolve_left (not_not_intro hr)
  · exact ensureMagic_wipes hr h rfl nofun

theorem latch_type (h0 : m (.bb .faultType) = r8FaultNone) {type a0 a1 lr : Word}
    {task : Option Str} (h : (latch type a0 a1 lr task).Under Elsewhere m () m') :
    m' (.bb .faultType) = type := by
  obtain ⟨m₁, he, h⟩ := under_get_bind.mp h
  rw [if_pos ((he .faultType rfl).trans h0)] at h
  obtain ⟨_, m₂, -, m₃, -, -, rfl⟩ := under_bind.mp h
  exact Function.update_self _ _ _

theorem fault_type (hf : First m) {type a0 a1 lr : Word} {task : Option Str}
    (h : (r8BlackboxFault type a0 a1 lr task).Under Elsewhere m () m') :
    m' (.bb .faultType) = type := by
  obtain ⟨_, m₁, h₁, h₂⟩ := under_bind.mp h
  exact latch_type (ensureMagic_first hf h₁) h₂

/-- A wait in front of the helper. -/
theorem fault_after {m₁ : Mem} {type a0 a1 lr : Word} {task : Option Str} (he : Elsewhere m m₁)
    (h : (r8BlackboxFault type a0 a1 lr task).Under Elsewhere m₁ () m') :
    (r8BlackboxFault type a0 a1 lr task).Under Elsewhere m () m' := by
  obtain ⟨m₂, h₁, h₂⟩ := h
  exact ⟨m₂, he.trans h₁, h₂⟩

/-- The type an entry records. -/
def Entry.type : Entry → Word
  | .stackOverflow _ _ _ _ => r8FaultStackOverflow
  | .mallocFailed _ => r8FaultMallocFailed
  | .dataAbort _ => r8FaultDataAbort
  | .prefetchAbort _ => r8FaultPrefetchAbort
  | .undefined _ => r8FaultUndefInstr

/-- Every entry but `Abort_Handler` is the helper, under interference that it may have let pass
before. -/
theorem handler_under {k : Linker} {e : Entry} (he : e.isDataAbort = false)
    (h : (e.handler k).Under e.around m () m') :
    ∃ a0 a1 lr task, (r8BlackboxFault e.type a0 a1 lr task).Under Elsewhere m () m' := by
  replace h := h.mono (Entry.around_elsewhere e)
  cases e with
  | dataAbort r => cases he
  | mallocFailed lr =>
    obtain ⟨m₁, h₁, m₂, h₂, h⟩ := h
    exact ⟨_, _, _, _, fault_after (h₁.trans h₂) h⟩
  | _ => exact ⟨_, _, _, _, h⟩

/-- **The entry stores its type**, which is not zero. -/
theorem Latches.type {k : Linker} {m₀ : Mem} {as : List Act} {e : Entry}
    (h : Latches k m₀ as e m m') : m' (.bb .faultType) = e.type := by
  cases he : e.isDataAbort with
  | false =>
    obtain ⟨a0, a1, lr, task, hu⟩ := handler_under he h.latch
    exact fault_type h.first hu
  | true =>
    cases e with
    | dataAbort r =>
      obtain ⟨_, m₁, h₁, h₂⟩ := under_bind.mp h.latch
      have hview : SameView m m₁ := by
        have := view_of_exec (m := m) (storesIn_abortRecord k r)
        rwa [under_eq.mp h₁] at this
      exact fault_type (hview.first.mpr h.first) (h₂.mono fun e => e ▸ .refl _)
    | _ => cases he

/-! ## `Abort_Handler` -/

/-- All variables `Abort_Handler` copies. -/
def abortCells : List (Field × Sram) := abortMirrors ++ (List.finRange 8).flatMap slotCells

theorem abortCells_nodup : (abortCells.map Prod.fst).Nodup := by decide

theorem mem_abortCells {f : Field} {v : Sram} (h : f.source = some v) {r : Regs}
    (hs : (Entry.dataAbort r).skips f = false) : (f, v) ∈ abortCells := by
  cases f with
  | ring k j => cases h; clear hs; decide +revert
  | ringWord k j => cases h; clear hs; decide +revert
  | ringIrq k j => cases h; clear hs; decide +revert
  | _ => first | cases h; done | cases hs; done | (cases h; decide)

theorem skipped_not_mem {f : Field} {r : Regs} (hs : (Entry.dataAbort r).skips f = true) :
    ∀ x ∈ abortCells, x.1 ≠ f := by
  have h : f = .irqLast ∨ f = .irqCount ∨ f = .yieldApply := by
    simpa [Entry.skips, or_assoc] using hs
  rcases h with rfl | rfl | rfl <;> decide

theorem exec_copyCells_append (l l' : List (Field × Sram)) :
    ((copyCells (l ++ l')).exec m).2 = ((copyCells l').exec ((copyCells l).exec m).2).2 := by
  induction l generalizing m with
  | nil => rfl
  | cons x l ih => exact ih

theorem exec_copyRings (h : Ready m) :
    copyRings.exec m = (copyCells ((List.finRange 8).flatMap slotCells)).exec m := by
  change Prog.exec (if m (.bb .magic) = r8BbMagic
    then copyCells ((List.finRange 8).flatMap slotCells) else pure ()) m = _
  rw [if_pos (show m (.bb .magic) = r8BbMagic from h)]

/-- A cell of the box that mirrors nothing. -/
def Unmirrored (a : Loc) : Prop := ∃ f : Field, a = .bb f ∧ f.source = none

theorem storesIn_copyWord_unmirrored : copyWord.StoresIn Unmirrored :=
  storesIn_get_bind fun _ => storesIn_ite (fun _ => trivial) fun _ =>
    (storesIn_r8BbSet ⟨_, rfl, rfl⟩ storesIn_get).bind fun _ =>
      storesIn_r8BbSet ⟨_, rfl, rfl⟩ (storesIn_get_bind fun _ => storesIn_get)

theorem storesIn_scan_unmirrored (k : Linker) : (r8StackScan k).StoresIn Unmirrored :=
  (storesIn_r8BbSet ⟨_, rfl, rfl⟩ (storesIn_r8UsedOne _ _)).bind fun _ =>
    (storesIn_r8BbSet ⟨_, rfl, rfl⟩ (storesIn_r8UsedOne _ _)).bind fun _ =>
      storesIn_r8BbSet ⟨_, rfl, rfl⟩ (storesIn_r8UsedOne _ _)

/-- On an initialised box the mirrored fields are copied as a whole. -/
theorem exec_abortRecord (h : Ready m) (k : Linker) (r : Regs) {a : Loc} (ha : ¬ Unmirrored a) :
    ((abortRecord k r).exec m).2 a = ((copyCells abortCells).exec m).2 a := by
  have hm : ∀ x ∈ abortMirrors, x.1 ≠ .magic := fun x hx => (abortMirrors_outside x hx).1
  have hr : Ready ((copyCells abortMirrors).exec m).2 := by
    unfold Ready
    rw [copyCells_keeps _ fun x hx e => hm x hx (Loc.bb.inj e).symm]
    exact h
  have htail : (do copyWord
                   r8BbSet .faultSpSvc (pure r.spSvc)
                   r8BbSet .faultSpIrq (pure r.spIrq)
                   r8StackScan k : Code Unit).StoresIn Unmirrored :=
    storesIn_copyWord_unmirrored.bind fun _ =>
      (storesIn_r8BbSet ⟨_, rfl, rfl⟩ storesIn_pure).bind fun _ =>
        (storesIn_r8BbSet ⟨_, rfl, rfl⟩ storesIn_pure).bind fun _ => storesIn_scan_unmirrored k
  unfold abortRecord abortCells
  rw [exec_bind, exec_mirror h _ hm, exec_bind, exec_copyRings hr, exec_copyCells_append]
  exact exec_frame htail ha

/-! ## Exactness -/

theorem storesIn_abort (k : Linker) (r : Regs) :
    (abortHandler k r).StoresIn fun a => ∃ f, a = .bb f :=
  ((storesIn_abortRecord k r).mono fun _ ⟨f, hf, _⟩ => ⟨f, hf⟩).bind fun _ => storesIn_fault _ _ _ _ _

/-- `Abort_Handler` on an initialised box: the skipped fields stay, the others are copied. -/
theorem abort_copies (hr : Ready m) {k : Linker} {r : Regs}
    (h : (abortHandler k r).Under Eq m () m') {f : Field} {v : Sram} (hf : f.source = some v) :
    m' (.bb f) = if (Entry.dataAbort r).skips f = true then m (.bb f) else m (.sram v) := by
  obtain ⟨_, m₁, h₁, h₂⟩ := under_bind.mp h
  have he : (abortRecord k r).exec m = ((), m₁) := under_eq.mp h₁
  have hm₁ : ∀ a, ¬ Unmirrored a → m₁ a = ((copyCells abortCells).exec m).2 a := fun a ha => by
    rw [← exec_abortRecord hr k r ha, he]
  have hr₁ : Ready m₁ := by
    have hmagic := abortRecord_magic k r (exec_mem_states _ m)
    rw [he] at hmagic
    exact hmagic.trans hr
  have hbb : ¬ Unmirrored (.bb f) := by
    rintro ⟨g, hg, hsrc⟩
    obtain rfl := Loc.bb.inj hg
    rw [hf] at hsrc
    cases hsrc
  rw [fault_keeps hr₁ (h₂.mono fun e => e ▸ .refl _) hf, hm₁ _ hbb]
  split_ifs with hs
  · exact copyCells_keeps _ fun x hx e => skipped_not_mem hs x hx (Loc.bb.inj e).symm
  · exact exec_copyCells _ abortCells_nodup (mem_abortCells hf (by simpa using hs))

theorem abort_wipes (hr : ¬ Ready m) {k : Linker} {r : Regs}
    (h : (abortHandler k r).Under Eq m () m') {f : Field} {v : Sram} (hf : f.source = some v) :
    m' (.bb f) = 0 := by
  obtain ⟨_, m₁, h₁, h₂⟩ := under_bind.mp h
  have hmagic := abortRecord_magic k r (exec_mem_states _ m)
  rw [under_eq.mp h₁] at hmagic
  have hr₁ : ¬ Ready m₁ := fun hr₁ => hr (hmagic.symm.trans hr₁)
  exact fault_wipes hr₁ (h₂.mono fun e => e ▸ .refl _) hf

/-- What an entry leaves in a mirrored field, when the variables are as at the end. -/
theorem handler_field {k : Linker} {e : Entry} (h : (e.handler k).Under e.around m () m')
    {f : Field} {v : Sram} (hf : f.source = some v) : m' (.bb f) =
      if Ready m then (if e.skips f = true then m (.bb f) else m' (.sram v)) else 0 := by
  cases he : e.isDataAbort with
  | false =>
    obtain ⟨a0, a1, lr, task, hu⟩ := handler_under he h
    have hskip : e.skips f = true := by
      cases e with
      | dataAbort r => cases he
      | _ => rfl
    by_cases hr : Ready m
    · rw [if_pos hr, if_pos hskip]
      exact fault_keeps hr hu hf
    · rw [if_neg hr]
      exact fault_wipes hr hu hf
  | true =>
    cases e with
    | dataAbort r =>
      have hsram : m' (.sram v) = m (.sram v) :=
        under_frame (E := Eq) (storesIn_abort k r) (fun e => e ▸ rfl) nofun h
      rw [hsram]
      by_cases hr : Ready m
      · rw [if_pos hr]
        exact abort_copies hr h hf
      · rw [if_neg hr]
        exact abort_wipes hr h hf
    | _ => cases he

/-- **When `fault_type` becomes non-zero, every mirrored field equals its variable exactly when the
copies that the entry leaves alone were current.** -/
theorem mirrored_iff {k : Linker} {m₀ m m' : Mem} {as : List Act} {e : Entry}
    (h : Latches k m₀ as e m m') : Mirrored m' ↔ Current e m m' := by
  unfold Mirrored Current
  refine forall₃_congr fun f v hf => ?_
  rw [handler_field h.latch hf]
  by_cases hr : Ready m
  · simp only [if_pos hr]
    by_cases hs : e.skips f = true
    · rw [if_pos hs, forall_prop_of_true hs]
    · rw [if_neg hs]
      exact iff_of_true rfl fun h => absurd h hs
  · simp only [if_neg hr, eq_comm]

/-! ### One interrupt after the last pump -/

/-- A freshly initialised box. -/
def fresh : Mem := Mem.withStrings fun a => if a = .bb .magic then r8BbMagic else 0

/-- One interrupt with `ICCIAR` 0x2f. -/
def firstGuard : Guard := ⟨0x2f, 0x10f80, 0x11ff8⟩

def logged : Mem := ((r8IrqGuard bench firstGuard).exec fresh).2

theorem latches_logged : Latches bench fresh [.elsewhere] abort logged (abort.after logged) where
  run := .single (elsewhere_r8IrqGuard bench firstGuard)
  first := .inr (by decide +kernel)
  latch := under_eq.mpr rfl

theorem mirrored_iff_logged :
    Mirrored (abort.after logged) ↔ Current abort logged (abort.after logged) :=
  mirrored_iff latches_logged

/-- The Data Abort leaves `irq_last` at the pump's old copy. -/
theorem not_mirrored : ¬ ∀ (k : Linker) (m₀ m m' : Mem) (as : List Act) (e : Entry),
    Latches k m₀ as e m m' → Mirrored m' := by
  intro h
  have hlast : abort.after logged (.bb .irqLast) ≠ abort.after logged (.sram .irqLast) := by
    decide +kernel
  exact hlast (h _ _ _ _ _ _ latches_logged .irqLast .irqLast rfl)

end CR8Devkit.BlackBox
