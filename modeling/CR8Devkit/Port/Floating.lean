import CR8Devkit.Port.Tasks

/-!
# Floating-point registers across interrupts

`IRQ_Handler` calls C functions before it saves any floating-point register, and never saves one
where it leaves through `exit_without_switch`.

* `SameFp`: D0 to D15 and FPSCR; `FloatsBack`: they are back where an activation leaves or a task is
  resumed.
* **`floats_lost`**: not with handlers that keep to the calling standard.
* `Floats`, `Floats.step`, **`floats_back`**: over every run in which the functions called by
  `IRQ_Handler` leave them alone.
-/

namespace CR8Devkit.Port

open Handler Transition

/-! ## The registers -/

def SameFp (c c' : Cpu) : Prop := (∀ i, c'.d i = c.d i) ∧ c'.fpscr = c.fpscr

instance (c c' : Cpu) : Decidable (SameFp c c') := inferInstanceAs (Decidable (_ ∧ _))

theorem SameFp.refl (c : Cpu) : SameFp c c := ⟨fun _ => rfl, rfl⟩

theorem SameFp.trans {c c' c'' : Cpu} (h : SameFp c c') (h' : SameFp c' c'') : SameFp c c'' :=
  ⟨fun i => (h'.1 i).trans (h.1 i), h'.2.trans h.2⟩

/-- The interrupted registers are back where an activation of `IRQ_Handler` leaves, and where a task
with a floating-point context is resumed. -/
structure FloatsBack (L : Layout) (c : System) : Prop where
  leave : ∀ o fs, c.conf.frames = .asm .irq (.exit .movsPcLr) o :: fs → L.flag o.mem ≠ 0 →
    ∃ c', step L true c .run = some c' ∧ SameFp o.cpu c'.conf.st.cpu
  resume : ∀ t o fs x, c.conf.frames = .asm t (.exit .rfeia) o :: fs →
    c.asleep (L.tcb c.conf.st.mem) = some x → L.flag x.saved.mem ≠ 0 →
    ∃ c', step L true c .run = some c' ∧ SameFp x.orig.cpu c'.conf.st.cpu

/-- The running C function has kept D8 to D15. -/
def KeptHigh : List Frame → St → Prop
  | .c _ e :: _, s => ∀ i : Fin 32, 16 ≤ i.val → s.cpu.d i = e.cpu.d i
  | _, _ => True

/-- The running C function, if `IRQ_Handler` has called it before it restores registers, has kept D0
to D15 and FPSCR. -/
def Spared : List Frame → St → Prop
  | .c .vTaskSwitchContext _ :: _, _ => True
  | .c _ e :: _, s => SameFp e.cpu s.cpu
  | _, _ => True

instance : ∀ fs s, Decidable (KeptHigh fs s)
  | .c _ e :: _, s => inferInstanceAs (Decidable (∀ i : Fin 32, 16 ≤ i.val → s.cpu.d i = e.cpu.d i))
  | [], _ | .task :: _, _ | .asm .. :: _, _ => inferInstanceAs (Decidable True)

instance : ∀ fs s, Decidable (Spared fs s)
  | .c .freeRTOSGetActiveIRQ e :: _, s | .c .vApplicationIRQHandler e :: _, s
  | .c .freeRTOSEndOfInterrupt e :: _, s => inferInstanceAs (Decidable (SameFp e.cpu s.cpu))
  | [], _ | .task :: _, _ | .asm .. :: _, _ | .c .vTaskSwitchContext _ :: _, _ =>
    inferInstanceAs (Decidable True)

/-- The C functions return as the calling standard requires. -/
def KeepsHigh (c : System) : Event → Prop
  | .ret => KeptHigh c.conf.frames c.conf.st
  | _ => True

/-- The C functions that `IRQ_Handler` calls before it restores registers leave D0 to D15 and FPSCR
alone. -/
def Spares (c : System) : Event → Prop
  | .ret => Spared c.conf.frames c.conf.st
  | _ => True

instance (c : System) (ev : Event) : Decidable (KeepsHigh c ev) :=
  match ev with
  | .ret => inferInstanceAs (Decidable (KeptHigh _ _))
  | .take | .svc | .regs _ | .run | .store .. => inferInstanceAs (Decidable True)

instance (c : System) (ev : Event) : Decidable (Spares c ev) :=
  match ev with
  | .ret => inferInstanceAs (Decidable (Spared _ _))
  | .take | .svc | .regs _ | .run | .store .. => inferInstanceAs (Decidable True)

/-! ## Code -/

/-- The registers of the interrupted state may still be needed. -/
def Ahead (k : Code) : Prop := .vTaskSwitchContext ∈ k.calls ∨ ¬ Switching k

instance (k : Code) : Decidable (Ahead k) := inferInstanceAs (Decidable (_ ∨ _))

/-- No instruction changes the floating-point registers as long as they may be needed. -/
def Tame : Code → Prop
  | .op i k => (i.op.floats = true → ¬ Ahead k) ∧ Tame k
  | .branch _ yes no => Tame yes ∧ Tame no
  | .call _ k => Tame k
  | .exit _ => True

instance decidableTame : ∀ k, Decidable (Tame k)
  | .op i k => @instDecidableAnd (i.op.floats = true → ¬ Ahead k) (Tame k) _ (decidableTame k)
  | .branch _ yes no => @instDecidableAnd (Tame yes) (Tame no) (decidableTame yes) (decidableTame no)
  | .call _ k => decidableTame k
  | .exit _ => inferInstanceAs (Decidable True)

theorem tame_irqHandler : Tame (irqHandler true) := by decide

theorem tame_svcHandler : Tame (svcHandler true) := by decide

theorem Ahead.branch {b : Cond} {yes no : Code} (h : Ahead yes ∨ Ahead no) : Ahead (.branch b yes no) := by
  rcases h with (h | h) | (h | h)
  · exact .inl (List.mem_append_left _ h)
  · exact .inr fun hb => h fun e he => hb e (List.mem_append_left _ he)
  · exact .inl (List.mem_append_right _ h)
  · exact .inr fun hb => h fun e he => hb e (List.mem_append_right _ he)

theorem Ahead.call {f : CFun} {k : Code} (h : Ahead k) : Ahead (.call f k) :=
  h.imp (List.mem_cons_of_mem _) id

/-! ## Frames -/

/-- Every handler still has the floating-point registers of the state it has interrupted. -/
def Floats : List Frame → St → Prop
  | .asm _ k o :: fs, s => Tame k ∧ (Ahead k → SameFp o.cpu s.cpu) ∧ Floats fs o
  | .c _ e :: .asm _ k o :: fs, _ => Tame k ∧ (Ahead k → SameFp o.cpu e.cpu) ∧ Floats fs o
  | _, _ => True

section Frames

variable {L : Layout} {T : Tasks L} {fs : List Frame} {s s' o : St} {t : Trap} {k : Code} {f : CFun} {e : St}
  {c c' : System} {ev : Event} {rec : Word → Option Sleeper} {d : Config}

theorem Floats.congr (h : Floats fs s) (hs : SameFp s.cpu s'.cpu) : Floats fs s' := by
  unfold Floats at *
  split at h
  · exact ⟨h.1, fun ha => (h.2.1 ha).trans hs, h.2.2⟩
  · exact h
  · trivial

theorem sameFp_enter : SameFp s.cpu (enter L t f s).cpu := by
  show SameFp s.cpu (s.cpu.setLr (L.ret f))
  unfold Cpu.setLr
  split_ifs <;> exact .refl _

theorem ahead_movsPcLr : Ahead (.exit .movsPcLr) := .inr (by decide)

/-- The invariant: of the frames, and of the tasks asleep. -/
structure FloatInv (T : Tasks L) (c : System) : Prop extends T.Inv true c where
  floats : Floats c.conf.frames c.conf.st
  asleep : ∀ u, ∀ x ∈ c.asleep u, SameFp x.orig.cpu x.saved.cpu

/-- A handler's step. -/
theorem Floats.run (h : Floats (.asm t k o :: fs) s) (hn : runHandler L s (.asm t k o :: fs) = some d) :
    Floats d.frames d.st := by
  obtain ⟨ht, hsame, hrest⟩ := h
  cases k with
  | op i k =>
    cases hn
    refine ⟨ht.2, fun ha => (hsame ha).trans ?_, hrest⟩
    have hfl : i.op.floats = false := Bool.eq_false_iff.mpr fun hf => ht.1 hf ha
    obtain ⟨hd, hp⟩ := run_fp (L := L) (s := s) hfl
    exact ⟨congrFun hd, hp⟩
  | branch b yes no =>
    cases hn
    by_cases hb : b.holds s.cpu.cpsr.nzcv = true
    · rw [if_pos hb]
      exact ⟨ht.1, fun ha => hsame (.branch (.inl ha)), hrest⟩
    · rw [if_neg hb]
      exact ⟨ht.2, fun ha => hsame (.branch (.inr ha)), hrest⟩
  | call f k =>
    cases hn
    exact ⟨ht, fun ha => (hsame ha.call).trans sameFp_enter, hrest⟩
  | exit ex =>
    cases ex with
    | movsPcLr =>
      cases hn
      exact hrest.congr (hsame ahead_movsPcLr)
    | rfeia =>
      rcases fs with _ | ⟨_ | _ | _, _ | _⟩ <;> simp only [runHandler] at hn <;> try cases hn
      split_ifs at hn
      cases hn
      trivial

theorem mem_record {u : Word} {x : Sleeper} (hx : x ∈ c.record L ev u) : x ∈ c.asleep u ∨
    ∃ t k o fs, c.conf.frames = .asm t (.call .vTaskSwitchContext k) o :: fs ∧ x = ⟨t, o, c.conf.st⟩ := by
  generalize hr : c.record L ev = r at hx
  unfold System.record at hr
  split at hr
  · split at hr
    · subst hr
      by_cases hu : u = L.tcb c.conf.st.mem
      · rw [hu, Function.update_self] at hx
        exact .inr ⟨_, _, _, _, ‹_›, (Option.some.inj hx).symm⟩
      · rw [Function.update_of_ne hu] at hx
        exact .inl hx
    · subst hr
      by_cases hu : u = L.tcb c.conf.st.mem
      · rw [hu, Function.update_self] at hx
        cases hx
      · rw [Function.update_of_ne hu] at hx
        exact .inl hx
    · exact .inl (hr ▸ hx)
  · exact .inl (hr ▸ hx)

/-- A task falls asleep with the registers that it was interrupted with. -/
theorem FloatInv.record (h : FloatInv T c) : ∀ u, ∀ x ∈ c.record L ev u, SameFp x.orig.cpu x.saved.cpu := by
  intro u x hx
  rcases mem_record hx with hx | ⟨t, k, o, fs, hfs, rfl⟩
  · exact h.asleep u x hx
  · have hfl := h.floats
    rw [hfs] at hfl
    exact hfl.2.1 (.inl List.mem_cons_self)

/-- A C function returns; behind `vTaskSwitchContext` the registers are no longer needed. -/
theorem FloatInv.ret (h : FloatInv T ⟨⟨s, .c f e :: .asm t k o :: fs⟩, rec⟩)
    (hsp : Spares ⟨⟨s, .c f e :: .asm t k o :: fs⟩, rec⟩ .ret) : Floats (.asm t k o :: fs) s := by
  obtain ⟨ht, hsame, hrest⟩ := h.floats
  refine ⟨ht, fun ha => ?_, hrest⟩
  by_cases hf : f = .vTaskSwitchContext
  · subst hf
    obtain ⟨-, ⟨s₀, -, hk⟩, -⟩ := h.good
    have hsus := hk.1.suspends k rfl
    rcases ha with ha | ha
    · rw [hsus.calls] at ha
      cases ha
    · exact absurd hsus.switching ha
  · refine (hsame ha).trans ?_
    cases f <;> first | exact hsp | exact absurd rfl hf

theorem FloatInv.step (h : FloatInv T c) (hord : T.Orderly true c ev) (hsp : Spares c ev)
    (hs : step L true c ev = some c') : FloatInv T c' := by
  obtain ⟨d, hn, rfl⟩ := Option.map_eq_some_iff.mp hs
  refine ⟨h.toInv.step hord hs, ?_, h.record⟩
  have hfl := h.floats
  obtain ⟨⟨s, fs⟩, rec⟩ := c
  rcases h.good.cases with ⟨rfl, -⟩ | ⟨t, k, o, fs, rfl, hk⟩ | ⟨f, e, t, k, o, fs, rfl, hin⟩
  · -- a task
    cases taskStep hn with
    | svc => exact ⟨tame_svcHandler, fun _ => .refl _, trivial⟩
    | take => exact ⟨tame_irqHandler, fun _ => .refl _, trivial⟩
    | regs g => trivial
    | store a v => trivial
  · -- a handler
    obtain rfl := run_of_next hk.here.masked hn
    exact hfl.run hn
  · -- a C function
    cases functionStep hn with
    | regs => exact hfl
    | store => exact hfl
    | take => exact ⟨tame_irqHandler, fun _ => .refl _, hfl⟩
    | ret => exact h.ret hsp

theorem FloatInv.back (h : FloatInv T c) : FloatsBack L c where
  leave o fs hc _ := by
    have hfl := h.floats
    obtain ⟨⟨s, frames⟩, rec⟩ := c
    obtain rfl : frames = _ := hc
    exact ⟨_, rfl, hfl.2.1 ahead_movsPcLr⟩
  resume t o fs x hc hx hflag := by
    obtain ⟨c', hstep, -, hres, -⟩ := h.toInv.restored hc hx
    obtain ⟨hd, hp⟩ := hres.floating rfl hflag
    exact ⟨c', hstep, (h.asleep _ x hx).trans ⟨congrFun hd, hp⟩⟩

end Frames

/-! ## Runs -/

/-- The floating-point registers of the tasks that are asleep at the start. -/
def AsleepSame (c : System) : Prop := ∀ u, ∀ x ∈ c.asleep u, SameFp x.orig.cpu x.saved.cpu

/-- **The floating-point registers are back**, on both ways out of `IRQ_Handler`, in every run in
which the C functions it calls before it restores registers leave them alone. -/
theorem floats_back {L : Layout} {T : Tasks L} {c₀ c : System} {evs : List Event} (h₀ : T.Start true c₀)
    (hsame : AsleepSame c₀)
    (hrun : Run (guarded (ofNext (step L true)) fun c ev => T.Orderly true c ev ∧ Spares c ev) c₀ evs c) :
    FloatsBack L c := by
  have hgood : (switching T true).Good c₀.conf.frames c₀.conf.st := by
    rw [h₀.frames]
    exact h₀.rest
  have hfloats : Floats c₀.conf.frames c₀.conf.st := by
    rw [h₀.frames]
    trivial
  have hinv : FloatInv T c := hrun.inv (I := FloatInv T) ⟨⟨h₀.toRecorded, hgood⟩, hfloats, hsame⟩
    fun hi hs => hi.step hs.1.1 hs.1.2 hs.2
  exact hinv.back

/-! ## A handler that computes -/

/-- `sampleStart` with a floating-point context. -/
def floatStart : System where
  conf := ⟨{ sampleTask with
    cpu := { sampleTask.cpu with d := fun i => BitVec.ofNat 32 i }
    mem := fun a => if a = 0x1010 then 0xb000 else if a = 0x100c then 1 else if a = 0xb100 then 0x8f00
      else if a = 0x8f44 then 0x1f else 0 }, [.task]⟩
  asleep := fun _ => none

theorem floatStart_start : sampleTasks.Start true floatStart where
  holds u x hx := by cases hx
  awake _ := rfl
  frames := rfl
  rest := ⟨rfl, rfl, List.mem_cons_self, rfl, rfl⟩

theorem floatStart_same : AsleepSame floatStart := by
  intro u x hx
  cases hx

/-- A dispatched handler overwrites the first half of D0. -/
def computing : List Event :=
  dispatched ++ [.regs { closingRegs with d := fun i => if i.val = 0 then 1 else BitVec.ofNat 32 i }] ++
    finished 28

def keepingStep {L : Layout} (T : Tasks L) (c : System) (ev : Event) : Option System :=
  if T.Orderly true c ev ∧ KeepsHigh c ev then step L true c ev else none

/-- Where an activation leaves: the first half of D0 as it was interrupted and as it is, and the
flag of the task. -/
def leavingD0 (c : System) : Option (Word × Word × Word) :=
  match c.conf.frames with
  | .asm .irq (.exit .movsPcLr) o :: _ => some (o.cpu.d 0, c.conf.st.cpu.d 0, sample.flag o.mem)
  | _ => none

theorem leavingD0_computing :
    (exec (keepingStep sampleTasks) floatStart computing).map leavingD0 = some (some (0, 1, 1)) := by
  decide +kernel

theorem of_leavingD0 {c : System} {v w f : Word} (h : leavingD0 c = some (v, w, f)) : ∃ o fs,
    c.conf.frames = .asm .irq (.exit .movsPcLr) o :: fs ∧ o.cpu.d 0 = v ∧ c.conf.st.cpu.d 0 = w ∧
      sample.flag o.mem = f := by
  unfold leavingD0 at h
  split at h
  · cases h
    exact ⟨_, _, ‹_›, rfl, rfl, rfl⟩
  · cases h

/-- **A handler that computes** corrupts D0 of the interrupted task, though it keeps D8 to D15. -/
theorem floats_lost : sampleTasks.Start true floatStart ∧ AsleepSame floatStart ∧
    ∃ c, Run (guarded (ofNext (step sample true)) fun c ev => sampleTasks.Orderly true c ev ∧ KeepsHigh c ev)
      floatStart computing c ∧ ¬ FloatsBack sample c := by
  refine ⟨floatStart_start, floatStart_same, ?_⟩
  obtain ⟨c, hexec, hc⟩ := Option.map_eq_some_iff.mp leavingD0_computing
  obtain ⟨o, fs, hfs, hv, hw, hf⟩ := of_leavingD0 hc
  refine ⟨c, run_of_exec_guarded hexec, fun h => ?_⟩
  obtain ⟨c', hstep, hd, -⟩ := h.leave o fs hfs (by rw [hf]; decide)
  obtain ⟨⟨s, frames⟩, rec⟩ := c
  obtain rfl : frames = _ := hfs
  cases hstep
  have hd0 : s.cpu.d 0 = o.cpu.d 0 := hd 0
  rw [hv, show s.cpu.d 0 = 1 from hw] at hd0
  exact absurd hd0 (by decide)

/-! ## A handler that does not -/

/-- The second task computes before it gives the processor back. -/
def computingTask : List Event :=
  dispatched ++ [.store 0x1004 1] ++ finished 57 ++ [.store 0x1010 0xb100, .ret] ++ .replicate 15 .run ++
    [.regs { closingRegs with sp := 0x8f48, masked := false }, .svc] ++ .replicate 18 .run ++
    [.store 0x1010 0xb000, .ret] ++ .replicate 23 .run

def sparingStep {L : Layout} (T : Tasks L) (c : System) (ev : Event) : Option System :=
  if T.Orderly true c ev ∧ Spares c ev then step L true c ev else none

theorem restoring_computingTask : (exec (sparingStep sampleTasks) floatStart computingTask).map (fun c =>
    (restoring c.conf.frames, (c.asleep (sample.tcb c.conf.st.mem)).map fun x =>
      (sample.flag x.saved.mem, x.orig.cpu.d 5))) = some (true, some (1, 5)) := by
  decide +kernel

theorem floats_back_computingTask : ∃ c c' : System,
    exec (sparingStep sampleTasks) floatStart computingTask = some c ∧ step sample true c .run = some c' ∧
      c'.conf.st.cpu.d 5 = 5 := by
  obtain ⟨c, hexec, hc⟩ := Option.map_eq_some_iff.mp restoring_computingTask
  obtain ⟨t, o, fs, hfs⟩ := of_restoring (congrArg Prod.fst hc)
  obtain ⟨x, hx, hd⟩ := Option.map_eq_some_iff.mp (congrArg Prod.snd hc)
  have hflag : sample.flag x.saved.mem = 1 := congrArg Prod.fst hd
  have hback := floats_back floatStart_start floatStart_same (run_of_exec_guarded hexec)
  obtain ⟨c', hstep, hsame, -⟩ := hback.resume t o fs x hfs hx (by rw [hflag]; decide)
  exact ⟨c, c', hexec, hstep, (hsame 5).trans (congrArg Prod.snd hd)⟩

end CR8Devkit.Port
