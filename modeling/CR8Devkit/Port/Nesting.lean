import CR8Devkit.Port.Restore
import CR8Devkit.Port.Tracking

/-!
# The nesting count and the yield flag

* `Open`, `Settled`: where the yield requests of a tree of interrupts stand, before and after its
  end.
* `counting`: what tasks, C functions and handlers do to the nesting count and the yield flag;
  `irqHandler_tracks`, `svcHandler_tracks`: the handlers keep it.
-/

namespace CR8Devkit.Port

open Handler Transition

/-! ## The discipline -/

/-- At `switch_before_exit`, in `SVC_Handler` or behind them: the code can only resume a task. -/
def Switching (k : Code) : Prop := ∀ e ∈ k.exits, e = .rfeia

instance (k : Code) : Decidable (Switching k) := inferInstanceAs (Decidable (∀ _ ∈ _, _))

/-- The requests of the present tree of interrupts are in the flag, and nothing has been switched. -/
structure Open (L : Layout) (s : St) : Prop where
  yield : L.yield s.mem ≠ 0 ↔ s.pending = true ∨ s.asked = true
  switches : s.switches = 0

/-- The requests of the last tree have been served, by one switch. -/
structure Settled (L : Layout) (s : St) : Prop where
  served : s.asked = true → s.switches = 1 ∧ L.yield s.mem = 0
  spared : s.pending = false → s.asked = false → s.switches = 0

/-- Where `vApplicationIRQHandler` is called, with room on the SVC stack for every activation
counted. -/
structure Dispatching (L : Layout) (s : St) : Prop where
  counted : s.counted = true
  opened : Open L s
  tcb : L.Free (L.tcb s.mem)
  budget : 32 * L.nesting s.mem + s.cpu.spSvc.toNat ≤ L.svcHi

/-- At code `k` of a handler that has interrupted `o`. -/
structure Tracks (L : Layout) (t : Trap) (o : St) (k : Code) (s : St) : Prop where
  masked : Masked s
  count : L.nesting s.mem = L.nesting o.mem + s.counted.toNat
  svc : t = .svc → s.counted = false
  outermost : Switching k → L.nesting o.mem = 0
  dispatch : ∀ k', k = .call .vApplicationIRQHandler k' → Dispatching L s

/-- At the exits. -/
def Ends (L : Layout) (o : St) : Exit → St → Prop
  | .movsPcLr, s => Leaves L o .movsPcLr s ∧ L.nesting s.mem = L.nesting o.mem ∧ Open L s ∧
      L.Free (L.tcb s.mem) ∧ (L.nesting o.mem = 0 → L.yield s.mem = 0)
  | .rfeia, s => L.nesting s.mem = 0 ∧ L.Free (L.tcb s.mem) ∧ Settled L s

/-- A C function: only dispatched handlers ask for a switch. -/
structure Behaves (L : Layout) (f : CFun) (e s : St) : Prop extends Inside L f e s where
  nesting : L.nesting s.mem = L.nesting e.mem
  counted : s.counted = e.counted
  tcb : L.Free (L.tcb e.mem) → L.Free (L.tcb s.mem)
  opened : Open L e → Open L s
  quiet : f = .vApplicationIRQHandler ∨ L.yield s.mem = L.yield e.mem ∧ s.pending = e.pending ∧
    s.asked = e.asked ∧ s.switches = e.switches

/-- A task. -/
structure Idle (L : Layout) (s : St) : Prop where
  mode : s.cpu.cpsr.mode = sysMode
  nesting : L.nesting s.mem = 0
  counted : s.counted = false
  tcb : L.Free (L.tcb s.mem)
  settled : Settled L s

/-- A dispatched handler is running. -/
def dispatching : List Frame → Bool
  | .c .vApplicationIRQHandler _ :: _ => true
  | _ => false

/-- A task is running. -/
def tasking : List Frame → Bool
  | [.task] => true
  | _ => false

/-- The C code leaves the nesting count to the handlers, asks for a switch only in a dispatched
handler, and keeps TCBs and the stacks of tasks apart from the port's variables. -/
def Tidy (L : Layout) (c : Config) : Event → Prop
  | .store a v => a ≠ L.sym .ulPortInterruptNesting ∧
      (a = L.sym .ulPortYieldRequired → dispatching c.frames = true ∧ v ≠ 0) ∧
      (a = L.sym .pxCurrentTCB → L.Free v)
  | .take | .svc => tasking c.frames = true → L.TaskRoom 204 c.st.cpu.spSys
  | _ => True

instance (L : Layout) (c : Config) (ev : Event) : Decidable (Tidy L c ev) :=
  match ev with
  | .store _ _ => inferInstanceAs (Decidable (_ ∧ _ ∧ _))
  | .take | .svc => inferInstanceAs (Decidable (_ → _))
  | .regs _ | .run | .ret => inferInstanceAs (Decidable True)

def counting (L : Layout) : Discipline L where
  may := Tidy L
  base := Idle L
  inside := Behaves L
  inv := Tracks L
  post := fun _ => Ends L

/-! ## Blocks -/

section Rules

variable {L : Layout} {t : Trap} {o s s' : St} {k : Code} {is : List Instr} {fpu : Bool}

theorem Settled.congr (h : Settled L s) (hy : L.yield s'.mem = L.yield s.mem)
    (hp : s'.pending = s.pending) (ha : s'.asked = s.asked) (hw : s'.switches = s.switches) :
    Settled L s' := by
  refine ⟨fun hasked => ?_, fun hpending hasked => ?_⟩
  · rw [hw, hy]
    exact h.served (ha.symm.trans hasked)
  · rw [hw]
    exact h.spared (hp.symm.trans hpending) (ha.symm.trans hasked)

theorem Keeps.settled (hk : Keeps L s s') (h : Settled L s) : Settled L s' :=
  h.congr hk.yield hk.pending hk.asked hk.switches

theorem Keeps.opened (hk : Keeps L s s') (h : Open L s) : Open L s' := by
  refine ⟨?_, hk.switches.trans h.switches⟩
  rw [hk.yield, hk.pending, hk.asked]
  exact h.yield

theorem Keeps.free_tcb (hk : Keeps L s s') (h : L.Free (L.tcb s.mem)) : L.Free (L.tcb s'.mem) := by
  rwa [hk.tcb]

theorem switching_block : Switching (.block is k) ↔ Switching k := by
  rw [Switching, Code.exits_block, Switching]

/-- A block that leaves the variables alone. -/
theorem tracks_block (hm : Masked s) (hcount : L.nesting s.mem = L.nesting o.mem + s.counted.toNat)
    (hsvc : t = .svc → s.counted = false) (hsw : Switching k → L.nesting o.mem = 0)
    (hav : Avoid L is s)
    (hk : Masked (L.runs is s) → Keeps L s (L.runs is s) → (counting L).Continues t o k (L.runs is s)) :
    (counting L).Continues t o (.block is k) s := by
  induction is generalizing s with
  | nil => exact hk hm (.refl s)
  | cons i is ih =>
    have hkeep := keeps_run hav.1
    refine ⟨⟨hm, hcount, hsvc, fun h => hsw (switching_block.mp h), fun k' h => by cases h⟩,
      ih (masked_run hm) ?_ ?_ hav.2 fun hm' hk' => hk hm' (hkeep.trans hk')⟩
    · show L.nesting (i.run L s).mem = L.nesting o.mem + (i.run L s).counted.toNat
      rw [hkeep.nesting, hkeep.counted, hcount]
    · intro ht
      exact hkeep.counted.trans (hsvc ht)

/-! ## Context switches -/

/-- No activation is counted, neither this one nor one below. -/
structure Zero (L : Layout) (o s : St) : Prop where
  masked : Masked s
  below : L.nesting o.mem = 0
  nesting : L.nesting s.mem = 0
  counted : s.counted = false

theorem Zero.tracks (h : Zero L o s) (hd : ∀ k', k = .call .vApplicationIRQHandler k' → Dispatching L s) :
    Tracks L t o k s := by
  refine ⟨h.masked, ?_, fun _ => h.counted, fun _ => h.below, hd⟩
  rw [h.nesting, h.below, h.counted]
  rfl

theorem Zero.keeps (h : Zero L o s) (hm : Masked s') (hk : Keeps L s s') : Zero L o s' :=
  ⟨hm, h.below, hk.nesting.trans h.nesting, hk.counted.trans h.counted⟩

theorem zero_block (h : Zero L o s) (hav : Avoid L is s)
    (hk : Zero L o (L.runs is s) → Keeps L s (L.runs is s) →
      (counting L).Continues t o k (L.runs is s)) :
    (counting L).Continues t o (.block is k) s :=
  tracks_block h.masked (h.tracks (k := .exit .rfeia) (t := t) fun k' h => by cases h).count
    (fun _ => h.counted) (fun _ => h.below) hav fun hm hkeep => hk (h.keeps hm hkeep) hkeep

theorem portRestoreContext_tracks (h : Zero L o s) (htcb : L.Free (L.tcb s.mem)) (hset : Settled L s) :
    (counting L).Continues t o (portRestoreContext fpu) s := by
  refine zero_block h (avoid_of_silent (by decide)) fun h h1 => ?_
  refine zero_block h (avoid_popFpu fpu) fun h h2 => ?_
  refine zero_block h avoid_popContext fun h h3 => ?_
  have hkeep := (h1.trans h2).trans h3
  exact ⟨h.tracks (fun k' h => by cases h), h.nesting, hkeep.free_tcb htcb, hkeep.settled hset⟩

/-- A context is saved and `vTaskSwitchContext` called. -/
theorem portSaveContext_tracks (h : Zero L o s) (hroom : L.TaskRoom 204 s.cpu.spSys)
    (htcb : L.Free (L.tcb s.mem))
    (hk : ∀ s₁ s', Keeps L s s₁ → Zero L o s' →
      Behaves L .vTaskSwitchContext (enter L t .vTaskSwitchContext s₁) s' →
      (counting L).Continues t o k s') :
    (counting L).Continues t o (portSaveContext fpu <| .block [Op.ldrSym r0 .vTaskSwitchContext] <|
      .call .vTaskSwitchContext k) s := by
  refine zero_block h (avoid_pushContext hroom) fun h h1 => ?_
  refine zero_block h (avoid_pushFpu fpu hroom) fun h h2 => ?_
  have hkeep := h1.trans h2
  refine zero_block h (avoid_storeSp (hkeep.free_tcb htcb)) fun h h3 => ?_
  refine zero_block h (avoid_of_silent (by decide)) fun h h4 => ?_
  have hkeep := (hkeep.trans h3).trans h4
  refine ⟨h.tracks (fun k' h => by cases h), fun s' hs => hk _ s' hkeep ?_ hs.1⟩
  exact ⟨hs.2.2.2, h.below, hs.1.nesting.trans h.nesting, hs.1.counted.trans h.counted⟩

/-- **`SVC_Handler`.** -/
theorem svcHandler_tracks (h : Idle L o) (hroom : L.TaskRoom 204 o.cpu.spSys) :
    (counting L).Continues .svc o (svcHandler fpu)
      { o with cpu := o.cpu.svcEntry, counted := false } := by
  have hzero : Zero L o { o with cpu := o.cpu.svcEntry, counted := false } :=
    ⟨rfl, h.nesting, h.nesting, rfl⟩
  refine portSaveContext_tracks hzero hroom h.tcb fun s₁ s' hkeep hz hb => ?_
  obtain ⟨hy, hp, ha, hw⟩ := hb.quiet.resolve_left (by decide)
  have hset : Settled L s' := h.settled.congr (hy.trans hkeep.yield) (hp.trans hkeep.pending)
    (ha.trans hkeep.asked) (hw.trans hkeep.switches)
  have htcb : L.Free (L.tcb s'.mem) := hb.tcb (hkeep.free_tcb h.tcb)
  refine zero_block hz avoid_countSvc fun hz h1 => ?_
  exact portRestoreContext_tracks hz (h1.free_tcb htcb) (h1.settled hset)

end Rules

/-! ## The handler -/

/-- Before the tree of interrupts is served; `b` says whether the activation is counted. -/
structure Live (L : Layout) (o s : St) (b : Bool) : Prop where
  masked : Masked s
  counted : s.counted = b
  nesting : L.nesting s.mem = L.nesting o.mem + b.toNat
  opened : Open L s
  tcb : L.Free (L.tcb s.mem)

/-- The requests have been taken out of the flag, and the switch is still to come. -/
structure Taken (L : Layout) (o s : St) : Prop extends Zero L o s where
  yield : L.yield s.mem = 0
  requested : s.pending = true ∨ s.asked = true
  switches : s.switches = 0
  tcb : L.Free (L.tcb s.mem)

section Handler

variable {L : Layout} {o s s' : St} {k : Code} {is : List Instr} {b fpu : Bool} {f : CFun}

theorem Live.count (h : Live L o s b) : L.nesting s.mem = L.nesting o.mem + s.counted.toNat := by
  rw [h.counted]
  exact h.nesting

theorem Live.tracks (h : Live L o s b) (hsw : Switching k → L.nesting o.mem = 0)
    (hd : ∀ k', k = .call .vApplicationIRQHandler k' → Dispatching L s) : Tracks L .irq o k s :=
  ⟨h.masked, h.count, (fun ht => by cases ht), hsw, hd⟩

theorem Live.keeps (h : Live L o s b) (hm : Masked s') (hk : Keeps L s s') : Live L o s' b :=
  ⟨hm, hk.counted.trans h.counted, hk.nesting.trans h.nesting, hk.opened h.opened, hk.free_tcb h.tcb⟩

theorem live_block (h : Live L o s b) (hsw : Switching k → L.nesting o.mem = 0) (hav : Avoid L is s)
    (hk : Live L o (L.runs is s) b → (counting L).Continues .irq o k (L.runs is s)) :
    (counting L).Continues .irq o (.block is k) s :=
  tracks_block h.masked h.count (fun ht => by cases ht) hsw hav fun hm hkeep => hk (h.keeps hm hkeep)

/-- The nesting count is written, at the right time and with the right value. -/
theorem Live.write (h : Live L o s b) {d r : Reg} (hr : s.cpu.get r = L.sym .ulPortInterruptNesting)
    (hd : (s.cpu.get d).toNat = L.nesting o.mem + (!b).toNat) :
    Live L o ((Instr.mk .al (.str d r 0)).run L s) (!b) := by
  have hne : ∀ {v : Sym} {w : Word}, v ≠ .ulPortInterruptNesting → 0 < v.size →
      Function.update s.mem (L.sym .ulPortInterruptNesting) w (L.sym v) = s.mem (L.sym v) :=
    fun hv hsize => Function.update_of_ne (sym_ne hv hsize (by decide)) _ _
  rw [run_strNesting hr]
  refine ⟨h.masked, congrArg not h.counted, ?_, ⟨?_, h.opened.switches⟩, ?_⟩
  · show (Function.update s.mem _ (s.cpu.get d) _).toNat = _
    rw [Function.update_self, hd]
  · show Function.update s.mem _ _ _ ≠ 0 ↔ _
    rw [hne (by decide) (by decide)]
    exact h.opened.yield
  · show L.Free (Function.update s.mem _ _ _)
    rw [hne (by decide) (by decide)]
    exact h.tcb

/-- One instruction that is no call. -/
theorem live_op {i : Instr} (h : Live L o s b) (hsw : Switching k → L.nesting o.mem = 0)
    (hk : (counting L).Continues .irq o k (i.run L s)) : (counting L).Continues .irq o (.op i k) s :=
  ⟨h.tracks hsw (fun k' h => by cases h), hk⟩

theorem incrementNesting_tracks (h : Live L o s false) (hbound : L.nesting o.mem + 1 < 2 ^ 32)
    (hsw : Switching k → L.nesting o.mem = 0)
    (hk : Live L o (L.runs incrementNesting s) true →
      (counting L).Continues .irq o k (L.runs incrementNesting s)) :
    (counting L).Continues .irq o (.block incrementNesting k) s := by
  show (counting L).Continues .irq o (.block [Op.ldrSym r3 .ulPortInterruptNesting, Op.ldr r2 r3 0,
    Op.add r2 r2 (.imm 1)] <| .op (Op.str r2 r3 0) k) s
  refine live_block h hsw (avoid_of_silent (by decide)) fun hlive => live_op hlive hsw ?_
  obtain ⟨hr3, hr2⟩ := get_loadVar (L := L) (s := s) (b := r3) (d := r2) (v := .ulPortInterruptNesting)
    rfl rfl (by decide)
  have hval := get_add (L := L) (s := L.runs [Op.ldrSym r3 .ulPortInterruptNesting, Op.ldr r2 r3 0] s)
    (d := r2) rfl 1
  rw [hr2] at hval
  have hw : (s.mem (L.sym .ulPortInterruptNesting) + 1).toNat = L.nesting o.mem + 1 := by
    have hn : (s.mem (L.sym .ulPortInterruptNesting)).toNat = L.nesting o.mem := h.nesting
    rw [BitVec.toNat_add, hn]
    exact Nat.mod_eq_of_lt hbound
  exact hk (hlive.write (r := r3) (d := r2) hr3 ((congrArg BitVec.toNat hval).trans hw))

theorem decrementNesting_tracks (h : Live L o s true) (hsw : Switching k → L.nesting o.mem = 0)
    (hk : Live L o (L.runs decrementNesting s) false →
      (Cond.ne.holds (L.runs decrementNesting s).cpu.cpsr.nzcv = false ↔ L.nesting o.mem = 0) →
      (counting L).Continues .irq o k (L.runs decrementNesting s)) :
    (counting L).Continues .irq o (.block decrementNesting k) s := by
  show (counting L).Continues .irq o (.block [Op.ldrSym r1 .ulPortInterruptNesting, Op.ldr r0 r1 0,
    Op.sub r0 r0 (.imm 1)] <| .op (Op.str r0 r1 0) <| .block [Op.cmp r0 (.imm 0)] k) s
  refine live_block h hsw (avoid_of_silent (by decide)) fun hlive => live_op hlive hsw ?_
  obtain ⟨hr1, hr0⟩ := get_loadVar (L := L) (s := s) (b := r1) (d := r0) (v := .ulPortInterruptNesting)
    rfl rfl (by decide)
  have hval := get_sub (L := L) (s := L.runs [Op.ldrSym r1 .ulPortInterruptNesting, Op.ldr r0 r1 0] s)
    (d := r0) rfl 1
  rw [hr0] at hval
  have hw : (s.mem (L.sym .ulPortInterruptNesting) - 1).toNat = L.nesting o.mem := by
    have hn : (s.mem (L.sym .ulPortInterruptNesting)).toNat = L.nesting o.mem + 1 := h.nesting
    rw [toNat_sub_eq (by rw [hn]; exact Nat.le_add_left _ _), hn]
    rfl
  have hwritten := hlive.write (r := r1) (d := r0) hr1 ((congrArg BitVec.toNat hval).trans hw)
  refine live_block hwritten hsw (avoid_of_silent (by decide)) fun hlive => hk hlive ?_
  have hflags : Cond.ne.holds (L.runs decrementNesting s).cpu.cpsr.nzcv =
      (s.mem (L.sym .ulPortInterruptNesting) - 1 != 0) :=
    (ne_holds_cmp r0 0).trans (congrArg (· != (0 : Word)) hval)
  rw [hflags, ← hw, bne_eq_false_iff_eq]
  exact BitVec.toNat_inj.symm

theorem not_switching_exitWithoutSwitch : ¬ Switching exitWithoutSwitch := by decide

theorem exitWithoutSwitch_tracks (h : Live L o s false) (hsaved : Saved L o s)
    (hsp : s.cpu.spSvc = o.cpu.spSvc - 28) (hy : L.nesting o.mem = 0 → L.yield s.mem = 0) :
    (counting L).Continues .irq o exitWithoutSwitch s := by
  have hsw : Switching exitWithoutSwitch → L.nesting o.mem = 0 :=
    fun h => absurd h not_switching_exitWithoutSwitch
  refine live_block h hsw avoid_restoreUsed fun hlive => ?_
  obtain ⟨hr, hmem⟩ := restored_restoreUsed (L := L) hsaved hsp
  refine ⟨hlive.tracks hsw (fun k' h => by cases h), ⟨hr, fun a ha => ?_⟩, hlive.nesting,
    hlive.opened, hlive.tcb, fun ho => ?_⟩
  · rw [hmem]
    exact hsaved.mem a ha
  · rw [hmem]
    exact hy ho

/-- `ulPortYieldRequired` is cleared; r1 still holds its address. -/
theorem clearYield_tracks (h : Live L o s false) (ho : L.nesting o.mem = 0) (hy : L.yield s.mem ≠ 0)
    (hr1 : s.cpu.get r1 = L.sym .ulPortYieldRequired)
    (hk : Calm L s (L.runs clearYield s) → Taken L o (L.runs clearYield s) →
      (counting L).Continues .irq o k (L.runs clearYield s)) :
    (counting L).Continues .irq o (.block clearYield k) s := by
  have hsw : ∀ {k : Code}, Switching k → L.nesting o.mem = 0 := fun _ => ho
  show (counting L).Continues .irq o (.block [Op.mov r0 (.imm 0)] <| .op (Op.str r0 r1 0) k) s
  refine live_block h hsw (avoid_of_silent (by decide)) fun hlive => live_op hlive hsw ?_
  have hcalm : Calm L s (L.runs [Op.mov r0 (.imm 0)] s) := calm_dests (by decide)
  have hr1' : (L.runs [Op.mov r0 (.imm 0)] s).cpu.get r1 = L.sym .ulPortYieldRequired :=
    (get_runs rfl (by decide)).trans hr1
  have hr0 : (L.runs [Op.mov r0 (.imm 0)] s).cpu.get r0 = 0 := get_mov (d := r0) rfl 0
  have hrun : L.runs clearYield s = _ := run_strYield (d := r0) hr1'
  have hne : ∀ {v : Sym}, v ≠ .ulPortYieldRequired → 0 < v.size →
      (L.runs clearYield s).mem (L.sym v) = s.mem (L.sym v) := by
    intro v hv hsize
    rw [hrun]
    exact Function.update_of_ne (sym_ne hv hsize (by decide)) _ _
  have hnest : L.nesting (L.runs clearYield s).mem = L.nesting s.mem :=
    congrArg BitVec.toNat (hne (by decide) (by decide))
  refine hk (hcalm.trans ⟨?_, fun a ha => ?_⟩) ⟨⟨masked_run hlive.masked, ho, ?_, ?_⟩, ?_, ?_, ?_, ?_⟩
  · rw [hrun]
    exact .refl _
  · rw [hrun]
    refine Function.update_of_ne ?_ _ _
    rintro rfl
    exact free_of_inStacks ha _ (by decide) rfl
  · rw [hnest, h.nesting, ho]
    rfl
  · rw [hrun]
    exact hlive.counted
  · rw [hrun]
    exact (Function.update_self _ _ _).trans hr0
  · rw [hrun]
    exact h.opened.yield.mp hy
  · rw [hrun]
    exact h.opened.switches
  · have htcb : L.tcb (L.runs clearYield s).mem = L.tcb s.mem := hne (by decide) (by decide)
    rw [htcb]
    exact h.tcb

/-- The one switch of the tree. -/
theorem Taken.settled {s₁ : St} (h : Taken L o s) (hk : Keeps L s s₁)
    (hb : Behaves L .vTaskSwitchContext (enter L .irq .vTaskSwitchContext s₁) s') : Settled L s' := by
  obtain ⟨hy, hp, ha, hw⟩ := hb.quiet.resolve_left (by decide)
  have hone : s'.switches = 1 := by
    rw [hw]
    exact congrArg (· + 1) (hk.switches.trans h.switches)
  refine ⟨fun _ => ⟨hone, (hy.trans hk.yield).trans h.yield⟩, fun hpending hasked => ?_⟩
  have hpending' : s.pending = false := (hk.pending.symm.trans hp.symm).trans hpending
  have hasked' : s.asked = false := (hk.asked.symm.trans ha.symm).trans hasked
  rcases h.requested with hr | hr
  · exact absurd (hr.symm.trans hpending') (by decide)
  · exact absurd (hr.symm.trans hasked') (by decide)

theorem Taken.keeps (h : Taken L o s) (hm : Masked s') (hk : Keeps L s s') : Taken L o s' := by
  refine ⟨h.toZero.keeps hm hk, hk.yield.trans h.yield, ?_, hk.switches.trans h.switches, hk.free_tcb h.tcb⟩
  rw [hk.pending, hk.asked]
  exact h.requested

/-- **`switch_before_exit`.** -/
theorem switchBeforeExit_tracks (h : Live L o s false) (ho : L.nesting o.mem = 0)
    (hroom : L.Room o.cpu) (htask : L.TaskRoom 204 o.cpu.spSys) (hsaved : Saved L o s)
    (hsp : s.cpu.spSvc = o.cpu.spSvc - 28) (hy : L.yield s.mem ≠ 0)
    (hr1 : s.cpu.get r1 = L.sym .ulPortYieldRequired) :
    (counting L).Continues .irq o (switchBeforeExit fpu) s := by
  have hsw : ∀ {k : Code}, Switching k → L.nesting o.mem = 0 := fun _ => ho
  have hcount := calm_countExit (L := L) (s := s)
  have hkeep : Keeps L s (L.runs countExit s) := keeps_runs avoid_countExit
  refine live_block h hsw avoid_countExit fun hlive => ?_
  have hr1' : (L.runs countExit s).cpu.get r1 = L.sym .ulPortYieldRequired :=
    (get_runs rfl (by decide)).trans hr1
  refine clearYield_tracks hlive ho (by rwa [hkeep.yield]) hr1' fun hcalm htaken => ?_
  have hcalm' := hcount.trans hcalm
  have hsaved' := hsaved.calm hroom hcalm'
  have hsp' := hcalm'.cpu.spSvc.trans hsp
  refine zero_block htaken.toZero avoid_restoreUsed fun hz hkeep => ?_
  have hsys := (restored_restoreUsed (L := L) hsaved' hsp').1.spSys
  rw [Cpu.movsPcLr_spSys] at hsys
  have htaken := htaken.keeps hz.masked hkeep
  refine portSaveContext_tracks hz (by rwa [hsys]) htaken.tcb fun s₁ s' hkeep' hz' hb => ?_
  exact portRestoreContext_tracks hz' (hb.tcb (hkeep'.free_tcb htaken.tcb)) (htaken.settled hkeep' hb)

theorem testYield_tracks (h : Live L o s false) (ho : L.nesting o.mem = 0)
    (hroom : L.Room o.cpu) (htask : L.TaskRoom 204 o.cpu.spSys) (hsaved : Saved L o s)
    (hsp : s.cpu.spSvc = o.cpu.spSvc - 28) : (counting L).Continues .irq o (testYield fpu) s := by
  have hsw : ∀ {k : Code}, Switching k → L.nesting o.mem = 0 := fun _ => ho
  refine live_block h hsw (avoid_of_silent (by decide)) fun hlive => ?_
  obtain ⟨hr1, hr0⟩ := get_loadVar (L := L) (s := s) (b := r1) (d := r0) (v := .ulPortYieldRequired)
    rfl rfl (by decide)
  have hflags : Cond.ne.holds (L.runs readYield s).cpu.cpsr.nzcv = (L.yield s.mem != 0) :=
    (ne_holds_cmp r0 0).trans (congrArg (· != (0 : Word)) hr0)
  have hcalm := calm_readYield (L := L) (s := s)
  have hsaved' := hsaved.calm hroom hcalm
  have hsp' := hcalm.cpu.spSvc.trans hsp
  have hy : L.yield (L.runs readYield s).mem = L.yield s.mem := rfl
  refine ⟨hlive.tracks hsw (fun k' h => by cases h), fun hb => ?_, fun hb => ?_⟩
  · have hne : L.yield s.mem ≠ 0 := bne_iff_ne.mp (hflags.symm.trans hb)
    exact switchBeforeExit_tracks hlive ho hroom htask hsaved' hsp' hne hr1
  · have heq : L.yield s.mem = 0 := bne_eq_false_iff_eq.mp (hflags.symm.trans hb)
    exact exitWithoutSwitch_tracks hlive hsaved' hsp' fun _ => heq

theorem not_switching_irqEpilogue : ¬ Switching (irqEpilogue fpu) := by
  cases fpu <;> decide

theorem irqEpilogue_tracks (h : Live L o s true) (hroom : L.Room o.cpu)
    (htask : L.nesting o.mem = 0 → L.TaskRoom 204 o.cpu.spSys) (hheld : Held L o s) :
    (counting L).Continues .irq o (irqEpilogue fpu) s := by
  have hsw : Switching (irqEpilogue fpu) → L.nesting o.mem = 0 :=
    fun h => absurd h not_switching_irqEpilogue
  obtain ⟨hcalm, hr3⟩ := calm_exitSnapshot (L := L) (s := s)
  refine live_block h hsw avoid_exitSnapshot fun hlive => ?_
  have hheld := hheld.calm hroom hcalm
  refine live_block hlive hsw (avoid_unalignStack hheld.mode hr3) fun hlive => ?_
  obtain ⟨hsaved, hsp⟩ := saved_unalignStack hroom hheld hr3
  refine decrementNesting_tracks hlive hsw fun hlive hflags => ?_
  have hdec := calm_decrementNesting (L := L) (s := L.runs unalignStack (L.runs exitSnapshot s))
  have hsaved' := hsaved.calm hroom hdec
  have hsp' := hdec.cpu.spSvc.trans hsp
  refine ⟨hlive.tracks hsw (fun k' h => by cases h), fun hb => ?_, fun hb => ?_⟩
  · refine exitWithoutSwitch_tracks hlive hsaved' hsp' fun ho => ?_
    exact absurd (hb.symm.trans (hflags.mpr ho)) (by decide)
  · have ho := hflags.mp hb
    exact testYield_tracks hlive ho hroom (htask ho) hsaved' hsp'

/-- A C function other than `vTaskSwitchContext` returns. -/
theorem Live.returns (h : Live L o s b) (hf : f ≠ .vTaskSwitchContext) (hm : Masked s')
    (hb : Behaves L f (enter L .irq f s) s') : Live L o s' b := by
  have hopen : Open L (enter L .irq f s) := by
    refine ⟨h.opened.yield, ?_⟩
    rw [enter, if_neg fun hc => hf hc.1]
    exact h.opened.switches
  exact ⟨hm, hb.counted.trans h.counted, hb.nesting.trans h.nesting, hb.opened hopen, hb.tcb h.tcb⟩

/-- Across a call. -/
theorem live_call (h : Live L o s b) (hf : f ≠ .vTaskSwitchContext) (hroom : L.Room o.cpu)
    (hheld : Held L o s) (hsw : Switching k → L.nesting o.mem = 0)
    (hd : f = .vApplicationIRQHandler → Dispatching L s)
    (hk : ∀ s', Live L o s' b → Held L o s' → (counting L).Continues .irq o k s') :
    (counting L).Continues .irq o (.call f k) s := by
  refine ⟨h.tracks hsw (fun k' h => hd ?_), fun s' hs => ?_⟩
  · cases h
    rfl
  · exact hk s' (h.returns hf hs.2.2.2 hs.1) (hheld.returns hroom ⟨hs.1.toInside, hs.2⟩)

/-- **`IRQ_Handler`**, with room on the stacks. -/
theorem irqHandler_tracks (h : Live L o s false) (hroom : L.Room o.cpu) (hs : Entered o s)
    (hbudget : 32 * L.nesting o.mem + o.cpu.spSvc.toNat ≤ L.svcHi)
    (htask : L.nesting o.mem = 0 → L.TaskRoom 204 o.cpu.spSys) :
    (counting L).Continues .irq o (irqHandler fpu) s := by
  have hsw : Switching (irqEpilogue fpu) → L.nesting o.mem = 0 :=
    fun h => absurd h not_switching_irqEpilogue
  have hhi := L.svcHi_le
  refine live_block h hsw (avoid_saveUsed hroom hs) fun hlive => ?_
  obtain ⟨hsaved, hsp⟩ := saved_saveUsed hroom hs
  generalize L.runs saveUsed s = s₁ at hlive hsaved hsp
  refine incrementNesting_tracks hlive (by omega) hsw fun hlive => ?_
  have hinc := calm_incrementNesting (L := L) (s := s₁)
  have hsaved := hsaved.calm hroom hinc
  have hsp := hinc.cpu.spSvc.trans hsp
  have hsp28 := (toNat_saved hroom).1
  refine live_block hlive hsw (avoid_alignStack hsaved.mode ?_ ?_) fun hlive => ?_
  · have := hroom.1.1
    rw [hsp, hsp28]
    omega
  · have := hroom.1.2
    rw [hsp, hsp28]
    omega
  have hheld := held_alignStack hroom hsaved hsp
  generalize L.runs alignStack (L.runs incrementNesting s₁) = s₂ at hlive hheld
  refine live_block hlive hsw avoid_entrySnapshot fun hlive => ?_
  have hheld := hheld.calm hroom calm_entrySnapshot
  refine live_call hlive (by decide) hroom hheld hsw (fun h => by cases h) fun s hlive hheld => ?_
  refine live_block hlive hsw (avoid_of_silent (by decide)) fun hlive => ?_
  have hheld := hheld.calm hroom calm_keepIcciar
  refine live_call hlive (by decide) hroom hheld hsw (fun _ => ?_) fun s hlive hheld => ?_
  · have hle := (hheld.toNat_spSvc hroom).2
    refine ⟨hlive.counted, hlive.opened, hlive.tcb, ?_⟩
    rw [hlive.nesting]
    show 32 * (L.nesting o.mem + 1) + _ ≤ _
    omega
  refine live_block hlive hsw (avoid_of_silent (by decide)) fun hlive => ?_
  have hheld := hheld.calm hroom calm_maskIrqs
  exact live_call hlive (by decide) hroom hheld hsw (fun h => by cases h) fun s hlive hheld =>
    irqEpilogue_tracks hlive hroom htask hheld

end Handler

/-! ## The system -/

section Stores

variable {L : Layout} {c : Config} {s : St} {a v : Word}

theorem mem_store_of_ne {b : Word} (h : b ≠ a) : (s.store a v).mem b = s.mem b := by
  show Function.update s.mem a v b = s.mem b
  exact Function.update_of_ne h v s.mem

theorem mem_store_self : (s.store a v).mem a = v := by
  show Function.update s.mem a v a = v
  exact Function.update_self a v s.mem

theorem nesting_store (h : a ≠ L.sym .ulPortInterruptNesting) :
    L.nesting (s.store a v).mem = L.nesting s.mem :=
  congrArg BitVec.toNat (mem_store_of_ne h.symm)

theorem yield_store (h : a ≠ L.sym .ulPortYieldRequired) : L.yield (s.store a v).mem = L.yield s.mem :=
  mem_store_of_ne h.symm

theorem free_tcb_store (h : a = L.sym .pxCurrentTCB → L.Free v) (hs : L.Free (L.tcb s.mem)) :
    L.Free (L.tcb (s.store a v).mem) := by
  by_cases ha : a = L.sym .pxCurrentTCB
  · have htcb : L.tcb (s.store a v).mem = v := by
      rw [ha]
      exact mem_store_self
    rw [htcb]
    exact h ha
  · have htcb : L.tcb (s.store a v).mem = L.tcb s.mem := mem_store_of_ne (Ne.symm ha)
    rwa [htcb]

/-- Only dispatched handlers ask for a switch. -/
theorem ask_of_ne (h : a ≠ L.sym .ulPortYieldRequired) : s.ask L a v = s := by
  rw [St.ask, beq_eq_false_iff_ne.mpr h, Bool.false_and, Bool.or_false]

theorem Open.store (h : Open L s) (hv : a = L.sym .ulPortYieldRequired → v ≠ 0) :
    Open L ((s.store a v).ask L a v) := by
  refine ⟨?_, h.switches⟩
  by_cases ha : a = L.sym .ulPortYieldRequired
  · have hy : L.yield ((s.store a v).ask L a v).mem = v := by
      rw [ha]
      exact mem_store_self
    have hasked : ((s.store a v).ask L a v).asked = true := by
      rw [St.ask, beq_iff_eq.mpr ha, bne_iff_ne.mpr (hv ha)]
      exact Bool.or_true _
    rw [hy, hasked]
    exact ⟨fun _ => .inr rfl, fun _ => hv ha⟩
  · rw [ask_of_ne ha, yield_store ha]
    exact h.yield

end Stores

/-- An interrupted C function is a dispatched handler of a counted activation. -/
theorem dispatched_of_unmasked {L : Layout} {t : Trap} {o s₀ s : St} {f : CFun} {k : Code}
    (hm : s.cpu.cpsr.masked = false) (hinv : Tracks L t o (.call f k) s₀)
    (hin : Behaves L f (enter L t f s₀) s) :
    f = .vApplicationIRQHandler ∧ Dispatching L s₀ ∧ L.nesting s.mem = L.nesting o.mem + 1 := by
  have hf : f = .vApplicationIRQHandler := by
    refine hin.masked.resolve_right ?_
    rw [hm]
    decide
  have hd := hinv.dispatch k (by rw [hf])
  have hcount := hinv.count
  rw [hd.counted] at hcount
  exact ⟨hf, hd, hin.nesting.trans hcount⟩

theorem counting_lawful (L : Layout) (fpu : Bool) : (counting L).Lawful fpu where
  masked := Tracks.masked
  regs_task h := ⟨h.mode, h.nesting, h.counted, h.tcb, h.settled.congr rfl rfl rfl rfl⟩
  regs_c h hsp hm := ⟨h.toInside.regs hsp hm, h.nesting, h.counted, h.tcb,
    fun ho => ⟨(h.opened ho).yield, (h.opened ho).switches⟩, h.quiet⟩
  store_task := by
    rintro s a v ⟨hn, hy, htcb⟩ h
    have hne : a ≠ L.sym .ulPortYieldRequired := by
      intro ha
      cases (hy ha).1
    exact ⟨h.mode, (nesting_store hn).trans h.nesting, h.counted, free_tcb_store htcb h.tcb,
      h.settled.congr (yield_store hne) rfl rfl rfl⟩
  store_c := by
    rintro f e s fs a v ⟨hn, hy, htcb⟩ h hused
    refine ⟨h.toInside.store hused, (nesting_store hn).trans h.nesting, h.counted,
      fun he => free_tcb_store htcb (h.tcb he), fun he => (h.opened he).store fun ha => (hy ha).2, ?_⟩
    by_cases ha : a = L.sym .ulPortYieldRequired
    · have hf := (hy ha).1
      cases f <;> first | exact .inl rfl | cases hf
    · rw [ask_of_ne ha, yield_store ha]
      exact h.quiet
  call := by
    intro t o f k s h
    refine ⟨.refl ?_, rfl, rfl, id, id, .inr ⟨rfl, rfl, rfl, rfl⟩⟩
    rw [enter, Cpu.setLr_cpsr]
    exact h.masked
  svc hmay h := svcHandler_tracks h (hmay rfl)
  take_task := by
    intro s hmay hm hroom h
    have hlive : Live L s { s.begin L [.task] with cpu := s.cpu.irqEntry, counted := false } false :=
      ⟨rfl, rfl, rfl, ⟨by simp [St.begin, Layout.yield], rfl⟩, h.tcb⟩
    refine irqHandler_tracks hlive hroom ⟨rfl, rfl⟩ ?_ fun _ => hmay rfl
    rw [h.nesting]
    have := hroom.1.2
    omega
  take_c := by
    intro t o f k s₀ s hm hroom hinv hin
    obtain ⟨rfl, hd, hnest⟩ := dispatched_of_unmasked hm hinv hin
    have hopen := hin.opened ⟨hd.opened.yield, hd.opened.switches⟩
    have hnest₀ : L.nesting s.mem = L.nesting s₀.mem := hin.nesting
    have hsp := hin.spSvc
    rw [enter, Cpu.setLr_spSvc] at hsp
    have hbudget := hd.budget
    refine irqHandler_tracks ⟨rfl, rfl, rfl, ⟨hopen.yield, hopen.switches⟩, hin.tcb hd.tcb⟩ hroom
      ⟨rfl, rfl⟩ (by omega) fun h0 => ?_
    rw [hnest] at h0
    cases h0
  exit_task := by
    rintro t o s ⟨hl, hnest, hopen, htcb, hy⟩ h
    have hzero := hy h.nesting
    refine ⟨(congrArg Psr.mode hl.1.cpsr).trans h.mode, hnest.trans h.nesting, h.counted, htcb,
      fun hasked => ?_, fun _ _ => hopen.switches⟩
    exact absurd hzero (hopen.yield.mpr (.inr hasked))
  exit_c := by
    rintro t o f e s hm ⟨hl, hnest, hopen, htcb, hy⟩ h
    have hf : f = .vApplicationIRQHandler := by
      refine h.masked.resolve_right ?_
      rw [hm]
      decide
    exact ⟨h.toInside.resumed hl, hnest.trans h.nesting, h.counted, fun _ => htcb,
      fun _ => ⟨hopen.yield, hopen.switches⟩, .inl hf⟩
  rfeia := by
    rintro t o s ⟨hnest, htcb, hset⟩ _ hmode
    exact ⟨hmode, hnest, rfl, htcb, hset.congr rfl rfl rfl rfl⟩

/-! ## Runs -/

/-- The activations of `IRQ_Handler` between their increment and their decrement; `b` says it of the
newest activation, and each interrupted state of the one that it has interrupted. -/
def live (b : Bool) : List Frame → ℕ
  | [] => 0
  | .asm .irq _ o :: fs => b.toNat + live o.counted fs
  | .asm .svc _ o :: fs => live o.counted fs
  | .c _ _ :: fs | .task :: fs => live b fs

section Runs

variable {L : Layout} {fpu : Bool} {fs : List Frame} {s o : St} {t : Trap} {k j : Code}

theorem Tracks.live (h : Tracks L t o k s) (ho : L.nesting o.mem = live o.counted fs) :
    L.nesting s.mem = live s.counted (.asm t j o :: fs) := by
  rw [h.count, ho]
  cases t with
  | irq => exact Nat.add_comm _ _
  | svc =>
    rw [h.svc rfl]
    rfl

theorem nesting_eq_live (hg : (counting L).Good fs s) : L.nesting s.mem = live s.counted fs := by
  induction hn : fs.length using Nat.strongRecOn generalizing fs s with
  | ind n ih =>
    rcases hg.cases with ⟨rfl, hbase⟩ | ⟨t, k, o, fs, rfl, hk⟩ | ⟨f, e, t, k, o, fs, rfl, hin⟩
    · exact hbase.nesting
    · have hlen : fs.length + 1 = n := hn
      exact hk.here.live (ih fs.length (by omega) hg.2.1 rfl)
    · obtain ⟨-, ⟨s₀, rfl, hk⟩, hrest, -⟩ := hg
      have hlen : fs.length + 2 = n := hn
      have hlive := hk.1.live (j := k) (ih fs.length (by omega) hrest rfl)
      rw [hin.nesting, hin.counted]
      exact hlive

/-- Below a count of zero there is only the task. -/
theorem task_of_nesting (hg : (counting L).Good fs o) (h : L.nesting o.mem = 0)
    (hm : fs = [.task] ∨ o.cpu.cpsr.masked = false) : fs = [.task] := by
  rcases hm with hfs | hm
  · exact hfs
  rcases hg.cases with ⟨rfl, -⟩ | ⟨t, k, o', fs, rfl, hk⟩ | ⟨f, e, t, k, o', fs, rfl, hin⟩
  · rfl
  · have hmasked : o.cpu.cpsr.masked = true := hk.here.masked
    rw [hm] at hmasked
    cases hmasked
  · obtain ⟨-, ⟨s₀, rfl, hk⟩, -⟩ := hg
    obtain ⟨-, -, hnest⟩ := dispatched_of_unmasked hm hk.1 hin
    rw [hnest] at h
    cases h

theorem counting_of_run {s₀ : St} {evs : List Event} {c : Config} (h₀ : Idle L s₀)
    (hrun : Run (guarded (ofNext (next L fpu)) (Tidy L)) ⟨s₀, [.task]⟩ evs c) :
    (counting L).Good c.frames c.st := by
  have hstart : (counting L).Good [.task] s₀ := h₀
  exact hrun.inv (I := fun c : Config => (counting L).Good c.frames c.st) hstart
    fun hg hs => (counting_lawful L fpu).step hs.1 hg hs.2

/-- **The nesting count and the yield requests.** In every run the count is the number of
activations between their increment and their decrement, only an activation that has interrupted a
task is ever in `switch_before_exit`, and when a task is running the requests of the last tree of
interrupts have been served by one switch. -/
theorem yields_served {s₀ : St} {evs : List Event} {c : Config} (h₀ : Idle L s₀)
    (hrun : Run (guarded (ofNext (next L fpu)) (Tidy L)) ⟨s₀, [.task]⟩ evs c) :
    L.nesting c.st.mem = live c.st.counted c.frames ∧
    (∀ fs₁ k o fs, c.frames = fs₁ ++ .asm .irq k o :: fs → Switching k → fs = [.task]) ∧
    (c.frames = [.task] → Settled L c.st) := by
  have hg := counting_of_run h₀ hrun
  refine ⟨nesting_eq_live hg, fun fs₁ k o fs hfs hk => ?_, fun hfs => ?_⟩
  · rw [hfs] at hg
    obtain ⟨k', s', ⟨hk', hrest, hm⟩, hexits⟩ := hg.handler
    have hsw : Switching k' := by
      rw [Switching, hexits]
      exact hk
    exact task_of_nesting hrest (hk'.here.outermost hsw) hm
  · rw [hfs] at hg
    exact Idle.settled hg

end Runs

theorem sampleTask_idle : Idle sample sampleTask :=
  ⟨rfl, rfl, rfl, by decide, ⟨(fun h => by cases h), fun _ _ => rfl⟩⟩

/-- The outer handler is about to return, with IRQs disabled and its callee-saved registers back. -/
def closingRegs : Regs where
  r := fun i => if i.val = 4 then 0 else BitVec.ofNat 32 i
  sp := 0x4fdc
  lr := 0xa000
  pc := 0xa300
  nzcv := 0
  hi := 0
  masked := true
  ft := 0
  d := fun _ => 0
  fpscr := 0

/-- The inner of two handlers asks for a switch. -/
def nestedYield : List Event :=
  dispatched ++ [.regs sampleRegs] ++ dispatched ++ [.store 0x1004 1] ++ finished 25 ++
    [.regs closingRegs] ++ finished 57 ++ [.ret] ++ .replicate 15 .run

/-- The steps of a system whose C code is tidy. -/
def tidyNext (L : Layout) (fpu : Bool) (c : Config) (ev : Event) : Option Config :=
  if Tidy L c ev then next L fpu c ev else none

theorem tasking_nestedYield : (exec (tidyNext sample true) ⟨sampleTask, [.task]⟩ nestedYield).map
    (fun c => (tasking c.frames, c.st.asked)) = some (true, true) := by
  decide +kernel

theorem eq_of_tasking {fs : List Frame} (h : tasking fs = true) : fs = [.task] := by
  unfold tasking at h
  split at h
  · rfl
  · cases h

theorem yields_served_nestedYield : ∃ c : Config,
    exec (tidyNext sample true) ⟨sampleTask, [.task]⟩ nestedYield = some c ∧ c.frames = [.task] ∧
      c.st.switches = 1 ∧ sample.yield c.st.mem = 0 := by
  obtain ⟨c, hexec, hc⟩ := Option.map_eq_some_iff.mp tasking_nestedYield
  have hfs := eq_of_tasking (congrArg Prod.fst hc)
  have hset := (yields_served sampleTask_idle (run_of_exec_guarded hexec)).2.2 hfs
  exact ⟨c, hexec, hfs, hset.served (congrArg Prod.snd hc)⟩

end CR8Devkit.Port
