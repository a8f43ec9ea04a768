import CR8Devkit.BlackBox.Reentry
import CR8Devkit.BlackBox.Probe
import CR8Devkit.Lib.Interleaving

/-!
# Interrupts during `r8_blackbox_init`

* `Op`: what interrupt handlers do to the box, each time at once: `R8_BB_INC`, `R8_BB_SET` and
  `r8_bad_intid`. Without the magic they do nothing (`act_of_not_ready`).
* `Published`: the magic has been stored last, over a box that holds the new version and boot count
  and is cleared elsewhere; whatever else is in the box now was stored after that.
* `published_of_ready`: once the wipe has begun, a box with its magic is published.
-/

namespace CR8Devkit.BlackBox

open Access Access.Prog

/-- The fields that only start-up and the fault helper store to. -/
def Field.startup : Field → Bool
  | .magic | .version | .bootCount => true
  | _ => false

/-- Nowhere are the macros applied to the other three. -/
abbrev Counter := { f : Field // f.startup = false }

/-- An operation of an interrupt handler. -/
inductive Op
  | inc (f : Counter)
  | set (f : Counter) (val : Word)
  | badIntid (intid : Word)
  deriving DecidableEq

def Op.code : Op → Code Unit
  | .inc f => r8BbInc f.1
  | .set f val => r8BbSet f.1 (pure val)
  | .badIntid intid => r8BadIntid intid

/-- The operation, undivided. -/
def Op.act (o : Op) (m : Mem) : Mem := (o.code.exec m).2

/-- The boot count of the present boot, when memory `m` was found. -/
def bootsFrom (m : Mem) : Word := if Ready m then m (.bb .bootCount) + 1 else 1

/-- A box that has just been published. -/
structure Fresh (boots : Word) (m : Mem) : Prop where
  magic : m (.bb .magic) = r8BbMagic
  version : m (.bb .version) = r8BbVersion
  bootCount : m (.bb .bootCount) = boots
  cleared : ∀ f : Field, f.startup = false → m (.bb f) = 0

/-- What start-up itself stores to behind the magic: the paint, and `R8_BB_SET(stack_paint, ok)`. -/
def PaintCell (a : Loc) : Prop := (∃ p, a = .word p) ∨ a = .bb .stackPaint

abbrev Turns := List (Turn Loc Word Op)

/-- In memory `m`, reached by `es`, the box has been published over the memory `m₁` of that moment. -/
structure Published (boots : Word) (es : Turns) (m : Mem) : Prop where
  fresh : ∃ es₁ es₂ m₁, es = es₁ ++ .store (.bb .magic) r8BbMagic :: es₂ ∧ Fresh boots m₁ ∧
    m = replay Op.act es₂ m₁ ∧ ∀ a v, Turn.store a v ∈ es₂ → PaintCell a
  version : m (.bb .version) = r8BbVersion
  bootCount : m (.bb .bootCount) = boots

/-! ## The operations -/

section Operations

variable {m : Mem} {f : Field}

theorem storesIn_op (o : Op) : o.code.StoresIn fun a => ∃ f : Field, a = .bb f ∧ f.startup = false := by
  cases o with
  | inc f => exact storesIn_r8BbInc ⟨f, rfl, f.2⟩
  | set f val => exact storesIn_r8BbSet ⟨f, rfl, f.2⟩ storesIn_pure
  | badIntid intid =>
    refine (storesIn_r8BbInc ⟨_, rfl, rfl⟩).bind fun _ => storesIn_get_bind fun _ => storesIn_ite
      (fun _ => ?_) fun _ => trivial
    refine StoresIn.bind ?_ fun _ => storesIn_set ⟨_, rfl, rfl⟩
    exact storesIn_get_bind fun _ => storesIn_ite (fun _ => storesIn_set ⟨_, rfl, rfl⟩) fun _ => trivial

/-- The operations leave the three fields of start-up alone. -/
theorem act_startup (o : Op) (m : Mem) (hf : f.startup = true) : o.act m (.bb f) = m (.bb f) := by
  refine exec_frame (storesIn_op o) ?_
  rintro ⟨g, hg, hs⟩
  rw [← Loc.bb.inj hg, hf] at hs
  cases hs

/-- **Without the magic the operations do nothing.** -/
theorem act_of_not_ready (o : Op) (h : ¬ Ready m) : o.act m = m := by
  have hinc : ∀ f, ((r8BbInc f).exec m).2 = m := fun f =>
    congrArg (fun p : Code Unit => (p.exec m).2) (if_neg h)
  cases o with
  | inc f => exact hinc f
  | set f val => exact congrArg (fun p : Code Unit => (p.exec m).2) (if_neg h)
  | badIntid intid =>
    show ((r8BadIntid intid).exec m).2 = m
    unfold r8BadIntid
    rw [exec_bind, hinc]
    exact congrArg (fun p : Code Unit => (p.exec m).2) (if_neg h)

end Operations

/-! ## Start-up in parts -/

/-- Between the two stores to the magic. -/
def fill (boots : Word) : Code Unit := do
  wipe Field.all.tail
  set (.bb .version) r8BbVersion
  set (.bb .bootCount) (boots + 1)
  set (.bb .faultType) r8FaultNone

/-- `r8_blackbox_init` in its parts. -/
def initParts (k : Linker) (sp : ModeSps) : Code Unit :=
  bootCount >>= fun boots => store (.bb .magic) 0 <| fill boots >>= fun _ =>
    store (.bb .magic) r8BbMagic <| r8StackPaint k sp

theorem r8BlackboxInit_eq (k : Linker) (sp : ModeSps) : r8BlackboxInit k sp = initParts k sp := by
  have hmemset : memset = store (.bb .magic) 0 (wipe Field.all.tail) := by
    have hall : Field.all = .magic :: Field.all.tail := rfl
    unfold memset
    conv_lhs => rw [hall]
    rfl
  have hfill : ∀ boots (p : Code Unit), fill boots >>= (fun _ => p) = wipe Field.all.tail >>= fun _ =>
      store (.bb .version) r8BbVersion <| store (.bb .bootCount) (boots + 1) <|
        store (.bb .faultType) r8FaultNone p := fun boots p => bind_assoc _ _ _
  unfold r8BlackboxInit initParts
  simp only [hmemset, hfill]
  rfl

section Phases

variable {m m' : Mem} {es : Turns} {r : Word} {p : Code Word} {q : Code Unit}

theorem storesIn_bootCount : bootCount.StoresIn fun _ => False :=
  storesIn_get_bind fun _ => storesIn_ite (fun _ => storesIn_get) fun _ => trivial

theorem others_startup {f : Field} (hf : f.startup = true) (hes : Others es) :
    replay Op.act es m (.bb f) = m (.bb f) :=
  hes.inv (I := fun m₁ => m₁ (.bb f) = m (.bb f)) rfl fun o m₁ h => (act_startup o m₁ hf).trans h

theorem others_quiet (hr : ¬ Ready m) (hes : Others es) : replay Op.act es m = m :=
  hes.inv (I := fun m₁ => m₁ = m) rfl fun o m₁ h => by rw [h, act_of_not_ready o hr]

/-- Reading the old count, whatever operations come in between. -/
theorem bootCount_result (h : Runs Op.act bootCount m es (ret r) m') : r + 1 = bootsFrom m := by
  rcases runs_load h with ⟨hret, -⟩ | ⟨es₁, es₂, -, hes₁, h⟩
  · cases hret
  rw [others_startup rfl hes₁] at h
  have hcount : replay Op.act es₁ m (.bb .bootCount) = m (.bb .bootCount) := others_startup rfl hes₁
  generalize replay Op.act es₁ m = m₁ at h hcount
  change Runs Op.act (if m (.bb .magic) = r8BbMagic then get (.bb .bootCount) else pure 0) m₁ es₂
    (ret r) m' at h
  by_cases hmagic : m (.bb .magic) = r8BbMagic
  · rw [if_pos hmagic] at h
    rw [show bootsFrom m = m (.bb .bootCount) + 1 from if_pos hmagic]
    rcases runs_load h with ⟨hret, -⟩ | ⟨es₃, es₄, -, hes₃, h⟩
    · cases hret
    · have hr := (runs_ret h).1
      rw [others_startup rfl hes₃, hcount] at hr
      cases hr
      rfl
  · rw [if_neg hmagic] at h
    rw [show bootsFrom m = 1 from if_neg hmagic]
    have hr := (runs_ret h).1
    cases hr
    rfl

theorem storesIn_fill (boots : Word) : (fill boots).StoresIn fun a => a ≠ .bb .magic := by
  have hwipe : ∀ l : List Field, .magic ∉ l → (wipe l).StoresIn fun a => a ≠ .bb .magic := by
    intro l hl
    induction l with
    | nil => exact trivial
    | cons f l ih =>
      refine storesIn_set_bind (fun h => hl ?_) (ih fun h => hl (List.mem_cons_of_mem f h))
      rw [Loc.bb.inj h]
      exact List.mem_cons_self
  exact (hwipe _ (by decide)).bind fun _ => storesIn_set_bind (by simp) <|
    storesIn_set_bind (by simp) <| storesIn_set (by simp)

/-- **What is published**: the new version and boot count over a cleared box. -/
theorem fresh_fill (boots : Word) : Fresh (boots + 1)
    (Function.update ((fill boots).exec m).2 (.bb .magic) r8BbMagic) := by
  have hexec : ((fill boots).exec m).2 = Function.update (Function.update (Function.update
      ((wipe Field.all.tail).exec m).2 (.bb .version) r8BbVersion) (.bb .bootCount) (boots + 1))
      (.bb .faultType) r8FaultNone := by
    unfold fill
    rw [exec_bind]
    rfl
  rw [hexec]
  refine ⟨by simp, by simp, by simp, fun f hf => ?_⟩
  have hne : f ≠ .magic ∧ f ≠ .version ∧ f ≠ .bootCount := by
    refine ⟨?_, ?_, ?_⟩ <;> rintro rfl <;> cases hf
  have hmem : f ∈ Field.all.tail := (List.mem_cons.mp (Field.mem_all f)).resolve_left hne.1
  by_cases hft : f = .faultType
  · simp [hft, r8FaultNone]
  · simp [hne.1, hne.2.1, hne.2.2, hft, exec_wipe, hmem]

theorem storesIn_r8PaintOne (base words : ℕ) (sp : Word) :
    (r8PaintOne base words sp).StoresIn PaintCell := by
  have hpaint : ∀ n p, (BlackBox.paint n p).StoresIn PaintCell := by
    intro n
    induction n with
    | zero => exact fun p => trivial
    | succ n ih => exact fun p => storesIn_set_bind (.inl ⟨p, rfl⟩) (ih _)
  exact storesIn_ite
    (fun _ => storesIn_ite (fun _ => trivial) fun _ => (hpaint _ _).bind fun _ => storesIn_pure)
    fun _ => (hpaint _ _).bind fun _ => storesIn_pure

theorem storesIn_r8StackPaint (k : Linker) (sp : ModeSps) : (r8StackPaint k sp).StoresIn PaintCell :=
  (storesIn_r8PaintOne _ _ _).bind fun _ => (storesIn_r8PaintOne _ _ _).bind fun _ =>
    (storesIn_r8PaintOne _ _ _).bind fun _ => storesIn_r8BbSet (.inr rfl) storesIn_pure

end Phases

/-! ## The whole of start-up -/

section Init

variable {m m' : Mem} {es : Turns} {boots : Word} {p q : Code Unit} {k : Linker} {sp : ModeSps}

/-- Behind the magic. -/
theorem published_paint {m₁ : Mem} {es₁ : Turns} (hfresh : Fresh boots m₁)
    (h : Runs Op.act (r8StackPaint k sp) m₁ es q m) :
    Published boots (es₁ ++ .store (.bb .magic) r8BbMagic :: es) m := by
  have hstores := storesIn_r8StackPaint k sp
  have hframe : ∀ f : Field, f.startup = true → m (.bb f) = m₁ (.bb f) := by
    intro f hf
    refine h.frame hstores ?_ fun o m' => act_startup o m' hf
    rintro (⟨p, hp⟩ | hp)
    · cases hp
    · rw [Loc.bb.inj hp] at hf
      cases hf
  exact ⟨⟨es₁, es, m₁, rfl, hfresh, h.replay, fun a v hs => h.stores hstores hs⟩,
    (hframe _ rfl).trans hfresh.version, (hframe _ rfl).trans hfresh.bootCount⟩

/-- The magic is still to come: the box is not initialised, or it is published. -/
theorem published_magic (hr : ¬ Ready m) (hfresh : Fresh boots (Function.update m (.bb .magic) r8BbMagic))
    (h : Runs Op.act (store (.bb .magic) r8BbMagic (r8StackPaint k sp)) m es q m') :
    ¬ Ready m' ∨ Published boots es m' := by
  rcases runs_store h with ⟨-, hes⟩ | ⟨es₁, es₂, rfl, hes₁, h'⟩
  · left
    rwa [h.replay, others_quiet hr hes]
  · rw [others_quiet hr hes₁] at h'
    exact .inr (published_paint hfresh h')

theorem Published.after (h : Published boots es m) (es₁ : Turns) : Published boots (es₁ ++ es) m := by
  obtain ⟨es₂, es₃, m₁, rfl, hrest⟩ := h.fresh
  exact ⟨⟨es₁ ++ es₂, es₃, m₁, (List.append_assoc _ _ _).symm, hrest⟩, h.version, h.bootCount⟩

theorem not_mem_others {a : Loc} {v : Word} (h : Others es) : Turn.store a v ∉ es := by
  intro hmem
  obtain ⟨o, ho⟩ := h _ hmem
  cases ho

/-- **From the first store of the wipe on**, the box is either not initialised or published. -/
theorem published_of_wiped (h : Runs Op.act
    (store (.bb .magic) 0 <| fill boots >>= fun _ => store (.bb .magic) r8BbMagic <| r8StackPaint k sp)
    m es q m') (hbegun : Turn.store (.bb .magic) 0 ∈ es) :
    ¬ Ready m' ∨ Published (boots + 1) es m' := by
  rcases runs_store h with ⟨-, hes⟩ | ⟨es₁, es₂, rfl, -, h⟩
  · exact absurd hbegun (not_mem_others hes)
  have hr : ¬ Ready (Function.update (replay Op.act es₁ m) (.bb .magic) 0) := by
    rw [Ready, Function.update_self]
    decide
  have hkeep : ∀ (m : Mem) (a : Loc) (v : Word), ¬ Ready m → a ≠ .bb .magic →
      ¬ Ready (Function.update m a v) := by
    intro m a v hm ha
    rwa [Ready, Function.update_of_ne (Ne.symm ha)]
  generalize Function.update (replay Op.act es₁ m) (.bb .magic) 0 = m₁ at hr h
  rcases runs_bind h with ⟨p', -, hp⟩ | ⟨r, m₂, es₃, es₄, rfl, hp, h⟩
  · exact .inl (hp.undisturbed hr (fun o m => act_of_not_ready o) (storesIn_fill boots) hkeep).1
  · obtain ⟨hr₂, hexec⟩ := hp.undisturbed hr (fun o m => act_of_not_ready o) (storesIn_fill boots) hkeep
    have hm₂ : m₂ = ((fill boots).exec m₁).2 := congrArg Prod.snd hexec
    have hfresh : Fresh (boots + 1) (Function.update m₂ (.bb .magic) r8BbMagic) := by
      rw [hm₂]
      exact fresh_fill boots
    refine (published_magic hr₂ hfresh h).imp_right fun hpub => ?_
    have hafter := hpub.after (es₁ ++ .store (.bb .magic) 0 :: es₃)
    rwa [List.append_assoc, List.cons_append] at hafter

/-- **The magic appears last**: at every moment after the wipe has begun, a box that carries its
magic holds the new version and boot count, and elsewhere only what was stored after the magic. -/
theorem published_of_ready {k : Linker} {sp : ModeSps} {m m' : Mem} {es : Turns} {q : Code Unit}
    (h : Runs Op.act (r8BlackboxInit k sp) m es q m') (hbegun : Turn.store (.bb .magic) 0 ∈ es)
    (hr : Ready m') : Published (bootsFrom m) es m' := by
  rw [r8BlackboxInit_eq] at h
  rcases runs_bind h with ⟨p', -, hp⟩ | ⟨r, m₁, es₁, es₂, rfl, hp, h⟩
  · exact (hp.stores storesIn_bootCount hbegun).elim
  · have hbegun₂ : Turn.store (.bb .magic) 0 ∈ es₂ :=
      (List.mem_append.mp hbegun).resolve_left fun hmem => hp.stores storesIn_bootCount hmem
    rw [← bootCount_result hp]
    exact ((published_of_wiped h hbegun₂).resolve_left (not_not_intro hr)).after es₁

/-! ### A reboot -/

/-- Two words for each stack. -/
def smallStacks : Linker := ⟨0x10000, 2, 0x11000, 2, 0x12000, 2⟩

/-- The box as the sixth boot has left it, with a counter at 9. -/
def sixthBoot : Mem := fun a =>
  if a = .bb .magic then r8BbMagic else if a = .bb .bootCount then 6 else
    if a = .bb .mhuIsr then 9 else 0

def reboot : Code Unit := r8BlackboxInit smallStacks ⟨0x10008, 0x11008, 0x12008⟩

/-- Before the box is read, in the middle of the wipe, and behind the magic. -/
def handlers (n : ℕ) : List Op :=
  if n = 0 ∨ n = 30 then [.inc ⟨.mhuIsr, rfl⟩]
    else if n = 163 then [.inc ⟨.mhuIsr, rfl⟩, .badIntid 0x1F4] else []

/-- Only the last ones count. -/
theorem published_of_ready_reboot :
    Published 7 (turns Op.act handlers reboot sixthBoot)
      (replay Op.act (turns Op.act handlers reboot sixthBoot) sixthBoot) ∧
    replay Op.act (turns Op.act handlers reboot sixthBoot) sixthBoot (.bb .mhuIsr) = 1 := by
  obtain ⟨r, hrun⟩ : ∃ r, Prog.Runs Op.act reboot sixthBoot (turns Op.act handlers reboot sixthBoot)
      (.ret r) (replay Op.act (turns Op.act handlers reboot sixthBoot) sixthBoot) :=
    runs_turns handlers reboot sixthBoot
  exact ⟨published_of_ready hrun (by decide +kernel) (by decide +kernel), by decide +kernel⟩

end Init

end CR8Devkit.BlackBox
