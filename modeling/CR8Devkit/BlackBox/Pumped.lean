import CR8Devkit.BlackBox.Mirror

/-!
# What the pump keeps current

* `storesIn_pump`: the pump stores to the fields it copies and to fields nothing here depends on.
* `pump_current`: after an undisturbed pump every field it copies is current, so that a Data Abort
  right after it leaves the evidence right (`mirrored_of_pumped`).
* `Started`: the box as `r8_blackbox_init` leaves it; `not_mirrored_of_recorded`: once an interrupt
  has been recorded, only `Abort_Handler` can leave the evidence right.
-/

namespace CR8Devkit.BlackBox

open Access Access.Prog Transition

variable {m m' : Mem}

/-! ## Where the pump stores -/

/-- The field is one the pump copies. -/
def Field.pumped (f : Field) : Bool := (pumpMirrors ++ calibrateMirrors).any fun x => x.1 == f

/-- A cell the pump may store to. -/
def PumpCell (a : Loc) : Prop := ∀ f, a = .bb f → f.pumped = true ∨ f.held = false

/-- A cell that no copy reads or writes. -/
def Neutral (a : Loc) : Prop :=
  (∀ f, a = .bb f → f.held = false) ∧ ∀ (f : Field) v, f.source = some v → a ≠ .sram v

theorem neutral_bb {f : Field} (hf : f.held = false) : Neutral (.bb f) :=
  ⟨fun _ h => Loc.bb.inj h ▸ hf, fun _ _ _ => nofun⟩

theorem neutral_sram {v : Sram} (hv : ∀ f : Field, f.source ≠ some v) : Neutral (.sram v) :=
  ⟨fun _ => nofun, fun f _ hf h => hv f (Loc.sram.inj h ▸ hf)⟩

theorem Neutral.pump {a : Loc} (h : Neutral a) : PumpCell a := fun f hf => .inr (h.1 f hf)

theorem source_ne {v : Sram} (hv : v = .scanLast ∨ v = .wordExp ∨ v = .wordAddr) (f : Field) :
    f.source ≠ some v := by
  rcases hv with rfl | rfl | rfl <;> cases f <;> simp [Field.source]

theorem storesIn_throttledScan (k : Linker) (u : Pump) : (throttledScan k u).StoresIn Neutral :=
  storesIn_get_bind fun _ => storesIn_ite
    (fun _ => storesIn_set_bind (neutral_sram (source_ne (.inl rfl)))
      ((storesIn_r8BbSet (neutral_bb rfl) (storesIn_r8UsedOne _ _)).bind fun _ =>
        (storesIn_r8BbSet (neutral_bb rfl) (storesIn_r8UsedOne _ _)).bind fun _ =>
          storesIn_r8BbSet (neutral_bb rfl) (storesIn_r8UsedOne _ _)))
    fun _ => trivial

theorem neutral_calibrateOnce (rest : Word) : (calibrateOnce rest).StoresIn Neutral :=
  storesIn_calibrateOnce rest (neutral_bb rfl) (neutral_bb rfl) (neutral_bb rfl)
    (neutral_sram (source_ne (.inr (.inl rfl)))) (neutral_sram (source_ne (.inr (.inr rfl))))

theorem storesIn_pumped {l : List (Field × Sram)} (hl : ∀ x ∈ l, x.1.pumped = true) :
    (mirror l).StoresIn PumpCell :=
  storesIn_mirror l fun x hx _ hf => .inl (Loc.bb.inj hf ▸ hl x hx)

theorem storesIn_calibrate (k : Linker) (rest : Word) :
    (r8IrqGuardCalibrate k rest).StoresIn PumpCell :=
  storesIn_ite
    (fun _ => (storesIn_noteRestMin rest (neutral_bb rfl).pump).bind fun _ =>
      (storesIn_noteRestMax rest (neutral_bb rfl).pump).bind fun _ =>
        (storesIn_pumped (by decide)).bind fun _ =>
          (neutral_calibrateOnce rest).mono fun _ => Neutral.pump)
    fun _ => trivial

/-- The pump stores to the fields it copies and to fields that nothing here depends on. -/
theorem storesIn_pump (k : Linker) (u : Pump) : (r8BlackboxPump k u).StoresIn PumpCell :=
  (storesIn_r8BbSet (neutral_bb rfl).pump storesIn_get).bind fun _ =>
    (storesIn_r8BbSet (neutral_bb rfl).pump storesIn_pure).bind fun _ =>
      ((storesIn_throttledScan k u).mono fun _ => Neutral.pump).bind fun _ =>
        (storesIn_pumped (by decide)).bind fun _ => storesIn_calibrate k u.rest

/-! ## An undisturbed pump -/

/-- Nothing that a copy depends on differs. -/
def SameCopies (m m' : Mem) : Prop := ∀ a, ¬ Neutral a → m' a = m a

theorem sameCopies_of_storesIn {p : Code Unit} (hp : p.StoresIn Neutral) :
    SameCopies m (p.exec m).2 := fun _ ha => exec_frame hp ha

theorem SameCopies.trans {m₁ m₂ m₃ : Mem} (h₁ : SameCopies m₁ m₂) (h₂ : SameCopies m₂ m₃) :
    SameCopies m₁ m₃ := fun a ha => (h₂ a ha).trans (h₁ a ha)

theorem not_neutral_bb {f : Field} (hf : f.held = true) : ¬ Neutral (.bb f) := fun h => by
  rw [h.1 f rfl] at hf
  cases hf

theorem not_neutral_sram {f : Field} {v : Sram} (hf : f.source = some v) : ¬ Neutral (.sram v) :=
  fun h => h.2 f v hf rfl

theorem SameCopies.ready (h : SameCopies m m') : Ready m' ↔ Ready m := by
  unfold Ready
  rw [h _ (not_neutral_bb rfl)]

theorem ready_mirror (h : Ready m) {l : List (Field × Sram)} (hl : ∀ x ∈ l, x.1 ≠ .magic) :
    Ready ((mirror l).exec m).2 := by
  rw [exec_mirror h l hl]
  unfold Ready
  rw [copyCells_keeps l fun x hx e => hl x hx (Loc.bb.inj e).symm]
  exact h

theorem mirror_sram (h : Ready m) {l : List (Field × Sram)} (hl : ∀ x ∈ l, x.1 ≠ .magic)
    (v : Sram) : ((mirror l).exec m).2 (.sram v) = m (.sram v) := by
  rw [exec_mirror h l hl]
  exact copyCells_keeps l fun x _ => nofun

theorem pumped_mem {f : Field} {v : Sram} (hf : f.source = some v) (hp : f.pumped = true) :
    (f, v) ∈ pumpMirrors ∨ (f, v) ∈ calibrateMirrors := by
  cases f <;> first | (cases hf; decide) | cases hp

/-- A list of copies leaves its fields current and the others as they were. -/
theorem mirror_field (h : Ready m) {l : List (Field × Sram)} (hl : ∀ x ∈ l, x.1 ≠ .magic)
    (hd : (l.map Prod.fst).Nodup) (f : Field) (v : Sram) :
    ((f, v) ∈ l → ((mirror l).exec m).2 (.bb f) = m (.sram v)) ∧
      ((∀ x ∈ l, x.1 ≠ f) → ((mirror l).exec m).2 (.bb f) = m (.bb f)) := by
  rw [exec_mirror h l hl]
  exact ⟨exec_copyCells l hd, fun hf => copyCells_keeps l fun x hx e => hf x hx (Loc.bb.inj e).symm⟩

theorem calibrate_current (h : Ready m) {k : Linker} {rest : Word} (hk : k.InSvc rest) {f : Field}
    {v : Sram} (hf : f.source = some v) :
    ((r8IrqGuardCalibrate k rest).exec m).2 (.sram v) = m (.sram v) ∧
      ((f, v) ∈ calibrateMirrors →
        ((r8IrqGuardCalibrate k rest).exec m).2 (.bb f) = m (.sram v)) ∧
      ((∀ x ∈ calibrateMirrors, x.1 ≠ f) →
        ((r8IrqGuardCalibrate k rest).exec m).2 (.bb f) = m (.bb f)) := by
  unfold r8IrqGuardCalibrate
  rw [if_pos hk, exec_bind, exec_bind, exec_bind]
  have hmin := sameCopies_of_storesIn (m := m) (storesIn_noteRestMin rest (neutral_bb rfl))
  have hmax := hmin.trans (sameCopies_of_storesIn (storesIn_noteRestMax rest (neutral_bb rfl)))
  have hr := hmax.ready.mpr h
  have hlast : ∀ m', SameCopies m' ((calibrateOnce rest).exec m').2 := fun m' =>
    sameCopies_of_storesIn (neutral_calibrateOnce rest)
  have hb := not_neutral_bb (held_of_source hf)
  have hs := not_neutral_sram hf
  obtain ⟨hin, hout⟩ := mirror_field hr (l := calibrateMirrors) (by decide) (by decide) f v
  refine ⟨?_, fun hx => ?_, fun hx => ?_⟩
  · rw [hlast _ _ hs, mirror_sram hr (by decide), hmax _ hs]
  · rw [hlast _ _ hb, hin hx, hmax _ hs]
  · rw [hlast _ _ hb, hout hx, hmax _ hb]

/-- **After an undisturbed pump every field it copies is current.** -/
theorem pump_current (h : Ready m) {k : Linker} {u : Pump} (hk : k.InSvc u.rest) {f : Field}
    {v : Sram} (hf : f.source = some v) (hp : f.pumped = true) :
    ((r8BlackboxPump k u).exec m).2 (.bb f) = ((r8BlackboxPump k u).exec m).2 (.sram v) := by
  unfold r8BlackboxPump
  rw [exec_bind, exec_bind, exec_bind, exec_bind]
  have h₁ := sameCopies_of_storesIn (m := m)
    (storesIn_r8BbSet (neutral_bb (f := .mtxBlock) rfl) (storesIn_get (a := .sram .metalMutexBlocks)))
  have h₂ := h₁.trans (sameCopies_of_storesIn
    (storesIn_r8BbSet (neutral_bb (f := .uptimeTicks) rfl) (storesIn_pure (r := u.now))))
  have h₃ := h₂.trans (sameCopies_of_storesIn (storesIn_throttledScan k u))
  have hr := h₃.ready.mpr h
  have hmirror : Ready _ := ready_mirror hr (l := pumpMirrors) (by decide)
  obtain ⟨hsram, hin, hout⟩ := calibrate_current hmirror hk hf
  rw [hsram]
  by_cases hx : (f, v) ∈ calibrateMirrors
  · exact hin hx
  · have hmem := (pumped_mem hf hp).resolve_right hx
    have hne : ∀ x ∈ calibrateMirrors, x.1 ≠ f := by
      rintro x hx' rfl
      have hsrc : ∀ x ∈ calibrateMirrors, x.1.source = some x.2 := by decide
      rw [hsrc x hx', Option.some_inj] at hf
      exact hx (hf ▸ hx')
    rw [hout hne, (mirror_field hr (by decide) (by decide) f v).1 hmem,
      mirror_sram hr (by decide)]

/-! ## Runs from start-up -/

/-- The memory as `r8_blackbox_init` leaves it. -/
def Started (k : Linker) (m : Mem) : Prop := ∃ sp m₀, m = ((r8BlackboxInit k sp).exec m₀).2

theorem storesIn_paint (n p : ℕ) : (paint n p).StoresIn Neutral := by
  induction n generalizing p with
  | zero => exact trivial
  | succ n ih => exact storesIn_set_bind ⟨fun _ => nofun, fun _ _ _ => nofun⟩ (ih _)

theorem storesIn_paintOne (base words : ℕ) (sp : Word) :
    (r8PaintOne base words sp).StoresIn Neutral :=
  storesIn_ite
    (fun _ => storesIn_ite (fun _ => trivial)
      fun _ => (storesIn_paint _ _).bind fun _ => storesIn_pure)
    fun _ => (storesIn_paint _ _).bind fun _ => storesIn_pure

theorem storesIn_stackPaint (k : Linker) (sp : ModeSps) : (r8StackPaint k sp).StoresIn Neutral :=
  (storesIn_paintOne _ _ _).bind fun _ => (storesIn_paintOne _ _ _).bind fun _ =>
    (storesIn_paintOne _ _ _).bind fun _ => storesIn_r8BbSet (neutral_bb rfl) storesIn_pure

/-- The initialised box apart from the paint. -/
theorem exec_init (k : Linker) (sp : ModeSps) (m : Mem) : ∃ m₁ boots, SameCopies
    (Function.update (Function.update (Function.update (Function.update (memset.exec m₁).2
      (.bb .version) r8BbVersion) (.bb .bootCount) boots) (.bb .faultType) r8FaultNone)
      (.bb .magic) r8BbMagic) ((r8BlackboxInit k sp).exec m).2 := by
  refine ⟨(bootCount.exec m).2, (bootCount.exec m).1 + 1, ?_⟩
  unfold r8BlackboxInit
  rw [exec_bind, exec_bind]
  exact sameCopies_of_storesIn (storesIn_stackPaint k sp)

/-- What `r8_blackbox_init` guarantees and every act before a fault keeps. -/
structure Silent (m : Mem) : Prop where
  ready : Ready m
  zero : ∀ f v, f.source = some v → f.pumped = false → m (.bb f) = 0

theorem Started.silent {k : Linker} (h : Started k m) : Silent m := by
  obtain ⟨sp, m₀, rfl⟩ := h
  obtain ⟨m₁, boots, h⟩ := exec_init k sp m₀
  refine ⟨h.ready.mpr (Function.update_self _ _ _), fun f v hf _ => ?_⟩
  have hne : ∀ g : Field, g.source = none → Loc.bb f ≠ .bb g := fun g hg e => by
    rw [Loc.bb.inj e, hg] at hf
    cases hf
  rw [h _ (not_neutral_bb (held_of_source hf)), Function.update_of_ne (hne .magic rfl),
    Function.update_of_ne (hne .faultType rfl), Function.update_of_ne (hne .bootCount rfl),
    Function.update_of_ne (hne .version rfl)]
  exact (exec_wipe _ f).trans (if_pos (Field.mem_all f))

theorem Silent.step {k : Linker} {a : Act} (h : Silent m) (hs : acts k m a m') : Silent m' := by
  have hkeep : ∀ f : Field, f.held = true → f.pumped = false → m' (.bb f) = m (.bb f) := by
    intro f hf hp
    cases a with
    | elsewhere => exact hs f hf
    | pump u =>
      refine passes_frame (storesIn_pump k u) (fun h => h f hf) (fun hc => ?_) hs
      have := hc f rfl
      simp [hf, hp] at this
  exact ⟨(hkeep .magic rfl rfl).trans h.ready,
    fun f v hf hp => (hkeep f (held_of_source hf) hp).trans (h.zero f v hf hp)⟩

/-- From start-up on, the variables that only `Abort_Handler` copies have to be zero still when
another entry is taken. -/
theorem mirrored_iff_of_started {k : Linker} {m₀ m m' : Mem} {as : List Act} {e : Entry}
    (h₀ : Started k m₀) (h : Latches k m₀ as e m m') : Mirrored m' ↔
      ∀ f v, f.source = some v → e.skips f = true →
        if f.pumped = true then m (.bb f) = m' (.sram v) else m' (.sram v) = 0 := by
  have hm : Silent m := h.run.inv h₀.silent Silent.step
  rw [mirrored_iff h]
  refine forall₃_congr fun f v hf => ?_
  rw [if_pos hm.ready]
  by_cases hp : f.pumped = true
  · rw [if_pos hp]
  · rw [if_neg hp, hm.zero f v hf (by simpa using hp)]
    exact imp_congr_right fun _ => eq_comm

/-- **Once an interrupt has been recorded, only `Abort_Handler` can leave the evidence right.** -/
theorem not_mirrored_of_recorded {k : Linker} {m₀ m m' : Mem} {as : List Act} {e : Entry}
    (h₀ : Started k m₀) (h : Latches k m₀ as e m m') (he : e.isDataAbort = false)
    (hidx : m' (.sram .ringIdx) ≠ 0) : ¬ Mirrored m' := by
  rw [mirrored_iff_of_started h₀ h]
  intro hall
  refine hidx (hall .ringIdx .ringIdx rfl ?_)
  cases e with
  | dataAbort r => cases he
  | _ => rfl

/-- A Data Abort right after an undisturbed pump leaves the evidence right. -/
theorem mirrored_of_pumped {k : Linker} {m₀ m m' : Mem} {as : List Act} {r : Regs} {u : Pump}
    (hr : Ready m) (hk : k.InSvc u.rest)
    (h : Latches k m₀ as (.dataAbort r) ((r8BlackboxPump k u).exec m).2 m') : Mirrored m' := by
  refine (mirrored_iff h).mpr fun f v hf => ?_
  have hsram : m' (.sram v) = ((r8BlackboxPump k u).exec m).2 (.sram v) :=
    under_frame (E := Eq) (storesIn_abort k r) (fun e => e ▸ rfl) nofun h.latch
  have hready : Ready ((r8BlackboxPump k u).exec m).2 :=
    (exec_frame (storesIn_pump k u) fun hc => by cases hc .magic rfl <;> contradiction).trans hr
  rw [if_pos hready, hsram]
  intro hs
  refine pump_current hr hk hf ?_
  have h3 : f = .irqLast ∨ f = .irqCount ∨ f = .yieldApply := by
    simpa [Entry.skips, or_assoc] using hs
  rcases h3 with rfl | rfl | rfl <;> decide

end CR8Devkit.BlackBox
