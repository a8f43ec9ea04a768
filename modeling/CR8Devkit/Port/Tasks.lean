import CR8Devkit.Port.Switching

/-!
# Suspended tasks are resumed as they were

* `System`: the processor together with a record of the tasks asleep; `step`.
* `Tasks.Orderly`: what the C code does to memory; `Tasks.Inv`, **`Tasks.Inv.step`**: the context of
  every task asleep stays in memory.
* **`contexts_restored`**: over every run.
-/

namespace CR8Devkit.Port

open Handler Transition

/-! ## The system -/

/-- The record `asleep` says of each TCB how its task was last suspended, until it is resumed. -/
structure System where
  conf : Config
  asleep : Word → Option Sleeper

/-- A task falls asleep where `vTaskSwitchContext` is called, and is awake again behind `RFEIA`. -/
def System.record (L : Layout) (c : System) : Event → Word → Option Sleeper
  | .run =>
    match c.conf.frames with
    | .asm t (.call .vTaskSwitchContext _) o :: _ =>
      Function.update c.asleep (L.tcb c.conf.st.mem) (some ⟨t, o, c.conf.st⟩)
    | .asm _ (.exit .rfeia) _ :: _ => Function.update c.asleep (L.tcb c.conf.st.mem) none
    | _ => c.asleep
  | _ => c.asleep

def step (L : Layout) (fpu : Bool) (c : System) (ev : Event) : Option System :=
  (next L fpu c.conf ev).map fun d => ⟨d, c.record L ev⟩

/-- The C code keeps to `May`, and away from the contexts of tasks asleep. -/
def Tasks.Orderly {L : Layout} (T : Tasks L) (fpu : Bool) (c : System) (ev : Event) : Prop :=
  T.May c.conf ev ∧
    match ev with
    | .store a _ => ∀ u ∈ T.tcbs, ∀ x ∈ c.asleep u,
        a ≠ u ∧ ¬ Below x.orig.cpu.spSys (4 * (x.words L fpu).length) a
    | _ => True

/-- The switch is done. -/
def Gone : List Frame → Prop
  | [.asm _ k _, .task] => Switching k ∧ k.calls = []
  | [.c f _, .asm _ _ _, .task] => f = .vTaskSwitchContext
  | _ => False

namespace Tasks

variable {L : Layout} (T : Tasks L) (fpu : Bool)

/-- Task `u` is asleep as `x`. -/
structure Holds (m : Mem) (u : Word) (x : Sleeper) : Prop where
  tcb : u ∈ T.tcbs
  stored : Stored L fpu u x m
  lo : T.lo u + 204 ≤ x.orig.cpu.spSys.toNat
  hi : x.orig.cpu.spSys.toNat ≤ T.hi u
  mode : x.orig.cpu.cpsr.mode = sysMode
  critical : x.trap = .svc → L.critical x.saved.mem = L.critical x.orig.mem

/-- The record is right, and the running task is not in it. -/
structure Recorded (c : System) : Prop where
  holds : ∀ u, ∀ x ∈ c.asleep u, T.Holds fpu c.conf.st.mem u x
  awake : ¬ Gone c.conf.frames → c.asleep (L.tcb c.conf.st.mem) = none

structure Inv (c : System) : Prop extends T.Recorded fpu c where
  good : (switching T fpu).Good c.conf.frames c.conf.st

variable {T fpu} {m m' : Mem} {u a v : Word} {x : Sleeper} {t : Trap} {o s : St} {k : Code} {i : Instr}
  {f : CFun} {e : St} {fs : List Frame} {c c' : System} {rec : Word → Option Sleeper} {d : Config}
    {ev : Event}

theorem Holds.congr (h : T.Holds fpu m u x) (hu : m' u = m u)
    (hm : ∀ a, Below x.orig.cpu.spSys (4 * (x.words L fpu).length) a → m' a = m a) : T.Holds fpu m' u x :=
  ⟨h.tcb, h.stored.congr hu hm, h.lo, h.hi, h.mode, h.critical⟩

/-- A context lies in the stack of its task. -/
theorem Holds.bounds (h : T.Holds fpu m u x) (ha : Below x.orig.cpu.spSys (4 * (x.words L fpu).length) a) :
    T.lo u ≤ a.toNat ∧ a.toNat < T.hi u := by
  have hlen := length_words (L := L) x fpu
  have hlo := h.lo
  exact ha.bounds (by omega) h.hi

theorem Fits.bounds (h : T.Fits o) (ha : Below o.cpu.spSys 204 a) :
    T.lo (L.tcb o.mem) ≤ a.toNat ∧ a.toNat < T.hi (L.tcb o.mem) := by
  exact ha.bounds h.lo h.hi

/-- **A handler keeps away** from the tasks asleep. -/
theorem Writes.apart (h : T.Writes o k a) (hx : T.Holds fpu m u x)
    (ho : .vTaskSwitchContext ∈ k.calls → T.Fits o → u ≠ L.tcb o.mem) :
    a ≠ u ∧ ¬ Below x.orig.cpu.spSys (4 * (x.words L fpu).length) a := by
  rcases h with h | ⟨v, -, h⟩ | ⟨hk, hf, h⟩
  · refine ⟨fun ha => T.tcb_stacks u hx.tcb (ha ▸ h), fun hb => ?_⟩
    obtain ⟨hlo, hhi⟩ := hx.bounds hb
    have hsvc := T.not_svc u hx.tcb
    have hirq := T.not_irq u hx.tcb
    rcases h with ⟨h1, h2, -⟩ | ⟨h1, h2, -⟩ <;> omega
  · refine ⟨fun ha => T.tcb_sym u hx.tcb v (ha ▸ h), fun hb => ?_⟩
    obtain ⟨hlo, hhi⟩ := hx.bounds hb
    exact not_cell hx.tcb hlo hhi h
  · have hne := ho hk hf
    rcases h with h | rfl
    · obtain ⟨hlo, hhi⟩ := hf.bounds h
      refine ⟨?_, fun hb => ?_⟩
      · rintro rfl
        rcases T.tcb_apart _ hx.tcb _ hf.tcb with h | h <;> omega
      · obtain ⟨hlo', hhi'⟩ := hx.bounds hb
        rcases T.apart _ hx.tcb _ hf.tcb hne with h | h <;> omega
    · refine ⟨hne.symm, fun hb => ?_⟩
      obtain ⟨hlo, hhi⟩ := hx.bounds hb
      rcases T.tcb_apart _ hf.tcb _ hx.tcb with h | h <;> omega

theorem Writes.ne_tcb (h : T.Writes o k a) : a ≠ L.sym .pxCurrentTCB := by
  rintro rfl
  rcases h with h | ⟨v, hv, h⟩ | ⟨-, hf, h | h⟩
  · exact not_inStacks_sym (by decide) h
  · exact not_cell_sym hv (by decide) h
  · exact hf.not_cell h (cell_sym (by decide))
  · exact T.tcb_sym _ hf.tcb _ (h ▸ cell_sym (v := .pxCurrentTCB) (by decide))

/-! ## Steps -/

/-- Neither the memory nor the record changes. -/
theorem Recorded.same (h : T.Recorded fpu c) (hmem : c'.conf.st.mem = c.conf.st.mem)
    (hrec : c'.asleep = c.asleep) (hgone : Gone c.conf.frames → Gone c'.conf.frames) : T.Recorded fpu c' := by
  refine ⟨fun u x hx => ?_, fun hg => ?_⟩
  · rw [hmem]
    rw [hrec] at hx
    exact h.holds u x hx
  · rw [hmem, hrec]
    exact h.awake fun hc => hg (hgone hc)

/-- The memory changes away from the tasks asleep. -/
theorem Recorded.store (h : T.Recorded fpu c) {ws : List (Word × Word)}
    (hmem : c'.conf.st.mem = c.conf.st.mem.store ws) (hrec : c'.asleep = c.asleep)
    (hws : ∀ a ∈ ws.map Prod.fst, ∀ u, ∀ x ∈ c.asleep u,
      a ≠ u ∧ ¬ Below x.orig.cpu.spSys (4 * (x.words L fpu).length) a)
    (hgone : ¬ Gone c'.conf.frames → ¬ Gone c.conf.frames ∧ ∀ a ∈ ws.map Prod.fst, a ≠ L.sym .pxCurrentTCB) :
    T.Recorded fpu c' := by
  refine ⟨fun u x hx => ?_, fun hg => ?_⟩
  · rw [hmem]
    rw [hrec] at hx
    exact (h.holds u x hx).congr (store_of_not_mem fun ha => (hws u ha u x hx).1 rfl)
      fun b hb => store_of_not_mem fun ha => (hws b ha u x hx).2 hb
  · obtain ⟨hc, ha⟩ := hgone hg
    have htcb : L.tcb c'.conf.st.mem = L.tcb c.conf.st.mem := by
      rw [hmem]
      exact store_of_not_mem fun hmem => ha _ hmem rfl
    rw [htcb, hrec]
    exact h.awake hc

theorem gone_op : Gone (.asm t (.op i k) o :: fs) ↔ Gone (.asm t k o :: fs) := by
  rcases fs with _ | ⟨_ | _ | _, _ | _⟩ <;> exact Iff.rfl

theorem gone_branch {b : Cond} {yes no : Code} (h : Gone (.asm t (.branch b yes no) o :: fs)) :
    Gone (.asm t yes o :: fs) ∧ Gone (.asm t no o :: fs) := by
  rcases fs with _ | ⟨_ | _ | _, _ | _⟩ <;> first | exact h.elim | skip
  obtain ⟨hsw, hcalls⟩ := h
  obtain ⟨hy, hn⟩ := List.append_eq_nil_iff.mp hcalls
  exact ⟨⟨fun e he => hsw e (List.mem_append_left _ he), hy⟩,
    fun e he => hsw e (List.mem_append_right _ he), hn⟩

theorem not_gone_call : ¬ Gone (.asm t (.call f k) o :: fs) := by
  rcases fs with _ | ⟨_ | _ | _, _ | _⟩ <;> first | exact id | skip
  rintro ⟨-, hcalls⟩
  cases hcalls

theorem not_gone_movsPcLr : ¬ Gone (.asm t (.exit .movsPcLr) o :: fs) := by
  rcases fs with _ | ⟨_ | _ | _, _ | _⟩ <;> first | exact id | skip
  rintro ⟨hsw, -⟩
  exact absurd (hsw .movsPcLr List.mem_cons_self) (by decide)

theorem gone_c (h : Gone (.c f e :: .asm t k o :: fs)) : f = .vTaskSwitchContext ∧ fs = [.task] := by
  rcases fs with _ | ⟨_ | _ | _, _ | _⟩ <;> first | exact h.elim | exact ⟨h, rfl⟩

/-- An instruction of a handler. -/
theorem Inv.op (h : T.Inv fpu ⟨⟨s, .asm t (.op i k) o :: fs⟩, rec⟩) :
    T.Recorded fpu ⟨⟨i.run L s, .asm t k o :: fs⟩, rec⟩ := by
  obtain ⟨hk, hrest, hfs⟩ := h.good
  have hinv := hk.here
  have hwr := hinv.writes i k rfl
  have hmem : (i.run L s).mem =
      s.mem.store (if i.cond.holds s.cpu.cpsr.nzcv then i.op.stores s.cpu else []) := by
    rw [Instr.run_mem]
    split_ifs <;> rfl
  have hsub : ∀ a ∈ (if i.cond.holds s.cpu.cpsr.nzcv then i.op.stores s.cpu else []).map Prod.fst,
      T.Writes o k a := by
    intro a ha
    split_ifs at ha
    · exact hwr a ha
    · cases ha
  refine h.toRecorded.store hmem rfl (fun a ha u x hx => (hsub a ha).apart (h.holds u x hx) fun hc hf => ?_)
    fun hg => ⟨fun hg' => hg (gone_op.mp hg'), fun a ha => (hsub a ha).ne_tcb⟩
  -- the task that is being suspended is not in the record
  obtain rfl := bottom_of_nesting hrest hf.nesting hfs
  have hnone := h.awake fun hg => by
    have hcalls : k.calls = [] := hg.2
    rw [hcalls] at hc
    cases hc
  rintro rfl
  rw [hinv.tcb hc] at hnone
  rw [hnone] at hx
  cases hx

/-- `vTaskSwitchContext` is called. -/
theorem Inv.suspend (h : T.Inv fpu ⟨⟨s, .asm t (.call .vTaskSwitchContext k) o :: fs⟩, rec⟩) :
    T.Recorded fpu ⟨⟨enter L t .vTaskSwitchContext s,
      .c .vTaskSwitchContext (enter L t .vTaskSwitchContext s) :: .asm t k o :: fs⟩,
      Function.update rec (L.tcb s.mem) (some ⟨t, o, s⟩)⟩ := by
  obtain ⟨hk, hrest, hfs⟩ := h.good
  have hinv := hk.here
  have hsus := hinv.suspends k rfl
  obtain rfl := bottom_of_nesting hrest hsus.fits.nesting hfs
  have htcb : L.tcb s.mem = L.tcb o.mem := hinv.tcb List.mem_cons_self
  refine ⟨fun u x hx => ?_, fun hg => absurd rfl hg⟩
  have hx' : Function.update rec (L.tcb s.mem) (some ⟨t, o, s⟩) u = some x := hx
  by_cases hu : u = L.tcb s.mem
  · rw [hu, Function.update_self] at hx'
    obtain rfl := Option.some.inj hx'
    rw [htcb] at hu
    subst hu
    exact ⟨hsus.fits.tcb, htcb ▸ hsus.stored, hsus.fits.lo, hsus.fits.hi, hrest.mode, hsus.critical⟩
  · rw [Function.update_of_ne hu] at hx'
    exact h.holds u x hx'

/-- A task is resumed. -/
theorem Inv.resume (h : T.Inv fpu ⟨⟨s, .asm t (.exit .rfeia) o :: fs⟩, rec⟩) {s' : St}
    (hmem : s'.mem = s.mem) :
    T.Recorded fpu ⟨⟨s', [.task]⟩, Function.update rec (L.tcb s.mem) none⟩ := by
  refine ⟨fun u x hx => ?_, fun _ => ?_⟩
  · have hx' : Function.update rec (L.tcb s.mem) none u = some x := hx
    by_cases hu : u = L.tcb s.mem
    · rw [hu, Function.update_self] at hx'
      cases hx'
    · rw [Function.update_of_ne hu] at hx'
      exact (h.holds u x hx').congr (congrFun hmem u) fun a _ => congrFun hmem a
  · show Function.update rec (L.tcb s.mem) none (L.tcb s'.mem) = none
    rw [hmem, Function.update_self]

/-- One instruction, branch, call or exit of a handler. -/
theorem Inv.run (h : T.Inv fpu ⟨⟨s, .asm t k o :: fs⟩, rec⟩)
    (hn : runHandler L s (.asm t k o :: fs) = some d) :
    T.Recorded fpu ⟨d, System.record L ⟨⟨s, .asm t k o :: fs⟩, rec⟩ .run⟩ := by
  cases k with
  | op i k =>
    cases hn
    exact h.op
  | branch b yes no =>
    cases hn
    refine h.toRecorded.same rfl rfl fun hg => ?_
    split_ifs
    · exact (gone_branch hg).1
    · exact (gone_branch hg).2
  | call f k =>
    cases hn
    by_cases hf : f = .vTaskSwitchContext
    · subst hf
      exact h.suspend
    · refine h.toRecorded.same rfl ?_ fun hg => absurd hg not_gone_call
      cases f <;> first | rfl | exact absurd rfl hf
  | exit ex =>
    cases ex with
    | movsPcLr =>
      cases hn
      exact h.toRecorded.same rfl rfl fun hg => absurd hg not_gone_movsPcLr
    | rfeia =>
      have hfs : fs = [.task] := bottom_of_nesting h.good.2.1 h.good.1.2.1.nesting h.good.2.2
      subst hfs
      simp only [runHandler] at hn
      split_ifs at hn
      cases hn
      exact h.resume rfl

/-- While `vTaskSwitchContext` runs the task is asleep. -/
theorem Inv.gone_of_choosing (h : T.Inv fpu c) (hc : choosing c.conf.frames = true) : Gone c.conf.frames := by
  obtain ⟨⟨s, fs⟩, rec⟩ := c
  rcases h.good.cases with ⟨rfl, -⟩ | ⟨t, k, o, fs, rfl, -⟩ | ⟨f, e, t, k, o, fs, rfl, -⟩
  · cases hc
  · cases hc
  · obtain rfl : f = .vTaskSwitchContext := by
      cases f <;> first | rfl | cases hc
    obtain ⟨-, ⟨s₀, -, hk⟩, hrest, hfs⟩ := h.good
    obtain rfl := bottom_of_nesting hrest (hk.1.suspends k rfl).fits.nesting hfs
    rfl

/-- A store of a task or C function. -/
theorem Inv.store (h : T.Inv fpu c) (hord : T.Orderly fpu c (.store a v)) (hrec : c'.asleep = c.asleep)
    (hmem : c'.conf.st.mem = c.conf.st.mem.store [(a, v)]) (hfs : c'.conf.frames = c.conf.frames) :
    T.Recorded fpu c' := by
  refine h.toRecorded.store hmem hrec (fun b hb u x hx => ?_) fun hg => ?_
  · rw [List.mem_singleton.mp hb]
    exact hord.2 u (h.holds u x hx).tcb x hx
  · rw [hfs] at hg
    refine ⟨hg, fun b hb hpx => hg (h.gone_of_choosing (hord.1.2 ?_).1)⟩
    rwa [List.mem_singleton.mp hb] at hpx

/-- **Every step keeps the contexts** of the tasks asleep. -/
theorem Inv.step (h : T.Inv fpu c) (hord : T.Orderly fpu c ev) (hs : step L fpu c ev = some c') :
    T.Inv fpu c' := by
  obtain ⟨d, hn, rfl⟩ := Option.map_eq_some_iff.mp hs
  refine ⟨?_, (switching_lawful T fpu).step hord.1 h.good hn⟩
  obtain ⟨⟨s, fs⟩, rec⟩ := c
  rcases h.good.cases with ⟨rfl, -⟩ | ⟨t, k, o, fs, rfl, hk⟩ | ⟨f, e, t, k, o, fs, rfl, hin⟩
  · -- a task
    cases taskStep hn with
    | regs g => exact h.toRecorded.same rfl rfl id
    | store a v => exact h.store hord rfl rfl rfl
    | svc => exact h.toRecorded.same rfl rfl fun hg => hg.elim
    | take hm hroom => exact h.toRecorded.same rfl rfl fun hg => hg.elim
  · -- a handler
    obtain rfl := run_of_next hk.here.masked hn
    exact h.run hn
  · -- a C function
    cases functionStep hn with
    | regs => exact h.toRecorded.same rfl rfl id
    | store => exact h.store hord rfl rfl rfl
    | take hm hroom =>
      refine h.toRecorded.same rfl rfl fun hg => ?_
      obtain ⟨rfl, -⟩ := gone_c hg
      have hmasked : s.cpu.cpsr.masked = true := hin.masked.resolve_left (by decide)
      rw [hm] at hmasked
      cases hmasked
    | ret =>
      refine h.toRecorded.same rfl rfl fun hg => ?_
      obtain ⟨rfl, rfl⟩ := gone_c hg
      obtain ⟨-, ⟨s₀, -, hk⟩, -⟩ := h.good
      have hsus := hk.1.suspends k rfl
      exact ⟨hsus.switching, hsus.calls⟩

/-- Where the system starts: a task is running, and others may be asleep. -/
structure Start (T : Tasks L) (fpu : Bool) (c : System) : Prop extends T.Recorded fpu c where
  frames : c.conf.frames = [.task]
  rest : AtRest T c.conf.st

theorem inv_of_run {c₀ : System} {evs : List Event} (h₀ : T.Start fpu c₀)
    (hrun : Run (guarded (ofNext (Port.step L fpu)) (T.Orderly fpu)) c₀ evs c) : T.Inv fpu c := by
  have hgood : (switching T fpu).Good c₀.conf.frames c₀.conf.st := by
    rw [h₀.frames]
    exact h₀.rest
  exact hrun.inv (I := T.Inv fpu) ⟨h₀.toRecorded, hgood⟩ fun hi hs => hi.step hs.1 hs.2

/-- Behind `portRESTORE_CONTEXT` the task that the TCB pointer is on is running again. -/
theorem Inv.restored (h : T.Inv fpu c) (hc : c.conf.frames = .asm t (.exit .rfeia) o :: fs)
    (hx : c.asleep (L.tcb c.conf.st.mem) = some x) :
    ∃ c', Port.step L fpu c .run = some c' ∧ c'.conf.frames = [.task] ∧
      Resumed L fpu x c'.conf.st.cpu c'.conf.st.mem ∧ AtRest T c'.conf.st := by
  obtain ⟨⟨s, frames⟩, rec⟩ := c
  obtain rfl : frames = _ := hc
  obtain ⟨hk, hrest, hfs⟩ := h.good
  obtain ⟨hfits, -, -, -, -, -, hres⟩ := hk.2
  obtain rfl := bottom_of_nesting hrest hfits.nesting hfs
  have hhold := h.holds _ x hx
  have hresumed := hres x hhold.stored
  have hsys : (s.cpu.rfeia s.mem).cpsr.mode = sysMode := (congrArg Psr.mode hresumed.cpsr).trans hhold.mode
  have hstep : Port.step L fpu ⟨⟨s, [.asm t (.exit .rfeia) o, .task]⟩, rec⟩ .run = some
      ⟨⟨{ s with cpu := s.cpu.rfeia s.mem, counted := false }, [.task]⟩,
        Function.update rec (L.tcb s.mem) none⟩ := by
    rw [Port.step, next, runHandler, if_pos hsys]
    rfl
  exact ⟨_, hstep, rfl, hresumed, (switching_lawful T fpu).rfeia hk.2 hrest hsys⟩

end Tasks

/-- **Every task goes on as it was suspended**: in every run, when `portRESTORE_CONTEXT` is through
and the TCB pointer is on a task asleep, this task is running with its registers and critical
nesting count as they were, and with SVC and IRQ mode at rest. -/
theorem contexts_restored {L : Layout} {T : Tasks L} {fpu : Bool} {c₀ c : System} {evs : List Event}
    {t : Trap} {o : St} {fs : List Frame} {x : Sleeper} (h₀ : T.Start fpu c₀)
    (hrun : Run (guarded (ofNext (step L fpu)) (T.Orderly fpu)) c₀ evs c)
    (hc : c.conf.frames = .asm t (.exit .rfeia) o :: fs) (hx : c.asleep (L.tcb c.conf.st.mem) = some x) :
    ∃ c', step L fpu c .run = some c' ∧ c'.conf.frames = [.task] ∧
      Resumed L fpu x c'.conf.st.cpu c'.conf.st.mem ∧
      (x.trap = .svc → L.critical c'.conf.st.mem = L.critical x.orig.mem) ∧
      c'.conf.st.cpu.spSvc = T.svcRest ∧ c'.conf.st.cpu.spIrq = T.irqRest := by
  have hinv := Tasks.inv_of_run h₀ hrun
  obtain ⟨c', hstep, hframes, hres, hrest⟩ := hinv.restored hc hx
  exact ⟨c', hstep, hframes, hres, fun ht => hres.critical.trans ((hinv.holds _ x hx).critical ht),
    hrest.spSvc, hrest.spIrq⟩

/-! ## Two tasks -/

def sampleTcbs : List Word := [0xb000, 0xb100]

def sampleLo (u : Word) : ℕ := if u = 0xb000 then 0x7800 else 0x8800

def sampleHi (u : Word) : ℕ := if u = 0xb000 then 0x8000 else 0x9000

theorem sampleTcbs_high : ∀ u ∈ sampleTcbs, 0x9000 ≤ u.toNat := by simp [sampleTcbs]

theorem sampleLo_high (u : Word) : 0x7000 ≤ sampleLo u := by
  unfold sampleLo
  split_ifs <;> exact Nat.le_of_ble_eq_true rfl

theorem sampleHi_low (u : Word) : sampleHi u ≤ 0x9000 := by
  unfold sampleHi
  split_ifs <;> exact Nat.le_of_ble_eq_true rfl

theorem sampleStacks_apart : ∀ u ∈ sampleTcbs, ∀ u' ∈ sampleTcbs, u ≠ u' →
    sampleHi u ≤ sampleLo u' ∨ sampleHi u' ≤ sampleLo u := by
  simp [sampleTcbs, sampleLo, sampleHi]

/-- Two tasks beside the stacks and variables of `sample`. -/
def sampleTasks : Tasks sample where
  tcbs := sampleTcbs
  lo := sampleLo
  hi := sampleHi
  svcRest := 0x5000
  irqRest := 0x7000
  not_svc u _ := .inr (Nat.le_trans (Nat.le_of_ble_eq_true rfl) (sampleLo_high u))
  not_irq u _ := .inr (sampleLo_high u)
  not_sym u _ v :=
    .inr (Nat.le_trans (sampleSym_low v) (Nat.le_trans (Nat.le_of_ble_eq_true rfl) (sampleLo_high u)))
  apart := sampleStacks_apart
  tcb_stacks u hu := by
    have hhigh := sampleTcbs_high u hu
    rintro (⟨-, h, -⟩ | ⟨-, h, -⟩)
    · exact Nat.not_lt.mpr (Nat.le_trans (Nat.le_of_ble_eq_true rfl) hhigh) h
    · exact Nat.not_lt.mpr (Nat.le_trans (Nat.le_of_ble_eq_true rfl) hhigh) h
  tcb_sym u hu v h := by
    have hhigh := sampleTcbs_high u hu
    have hlow : (sample.sym v).toNat + 4 * v.size ≤ 0x4000 := sampleSym_low v
    have hb := Tasks.bounds_of_cell h
    omega
  tcb_apart u hu u' _ := .inr (Nat.le_trans (sampleHi_low u') (sampleTcbs_high u hu))

/-- The first task is running; the second has never run and has its first context on its stack. -/
def sampleStart : System where
  conf := ⟨{ sampleTask with mem := fun a => if a = 0x1010 then 0xb000 else if a = 0xb100 then 0x8f00
    else if a = 0x8f44 then 0x1f else 0 }, [.task]⟩
  asleep := fun _ => none

theorem sampleStart_start : sampleTasks.Start true sampleStart where
  holds u x hx := by cases hx
  awake _ := rfl
  frames := rfl
  rest := ⟨rfl, rfl, List.mem_cons_self, rfl, rfl⟩

/-- The first task is interrupted and suspended; the second is resumed, and gives the processor back
by `SVC`. -/
def backAndForth : List Event :=
  dispatched ++ [.store 0x1004 1] ++ finished 57 ++ [.store 0x1010 0xb100, .ret] ++
    .replicate 15 .run ++ [.svc] ++
    .replicate 18 .run ++ [.store 0x1010 0xb000, .ret] ++ .replicate 23 .run

def restoring : List Frame → Bool
  | .asm _ (.exit .rfeia) _ :: _ => true
  | _ => false

theorem of_restoring {fs : List Frame} (h : restoring fs = true) :
    ∃ t o fs', fs = .asm t (.exit .rfeia) o :: fs' := by
  unfold restoring at h
  split at h
  · exact ⟨_, _, _, rfl⟩
  · cases h

instance {L : Layout} (T : Tasks L) (fpu : Bool) (c : System) (ev : Event) : Decidable (T.Orderly fpu c ev) :=
  match ev with
  | .store a _ =>
    have : ∀ u, Decidable
      (∀ x ∈ c.asleep u, a ≠ u ∧ ¬ Below x.orig.cpu.spSys (4 * (x.words L fpu).length) a) :=
      fun u => inferInstanceAs (Decidable (∀ x ∈ c.asleep u, a ≠ u ∧ ¬ (_ ∧ _)))
    have : Decidable (∀ u ∈ T.tcbs, ∀ x ∈ c.asleep u,
      a ≠ u ∧ ¬ Below x.orig.cpu.spSys (4 * (x.words L fpu).length) a) := List.decidableBAll _ _
    inferInstanceAs (Decidable (_ ∧ _))
  | .take | .svc | .regs _ | .run | .ret => inferInstanceAs (Decidable (_ ∧ True))

/-- The steps of a system with orderly C code. -/
def orderlyStep {L : Layout} (T : Tasks L) (fpu : Bool) (c : System) (ev : Event) : Option System :=
  if T.Orderly fpu c ev then step L fpu c ev else none

theorem restoring_backAndForth : (exec (orderlyStep sampleTasks true) sampleStart backAndForth).map (fun c =>
    (restoring c.conf.frames, (c.asleep (sample.tcb c.conf.st.mem)).map fun x => (x.trap, x.pc))) =
      some (true, some (.irq, 0x9000)) := by
  decide +kernel

theorem contexts_restored_backAndForth : ∃ c c' : System,
    exec (orderlyStep sampleTasks true) sampleStart backAndForth = some c ∧
      step sample true c .run = some c' ∧
      c'.conf.frames = [.task] ∧ c'.conf.st.cpu.pc = 0x9000 ∧ c'.conf.st.cpu.spSvc = 0x5000 := by
  obtain ⟨c, hexec, hc⟩ := Option.map_eq_some_iff.mp restoring_backAndForth
  obtain ⟨t, o, fs, hfs⟩ := of_restoring (congrArg Prod.fst hc)
  obtain ⟨x, hx, hpc⟩ := Option.map_eq_some_iff.mp (congrArg Prod.snd hc)
  obtain ⟨c', hstep, hframes, hres, -, hsvc, -⟩ :=
    contexts_restored sampleStart_start (run_of_exec_guarded hexec) hfs hx
  exact ⟨c, c', hexec, hstep, hframes, hres.pc.trans (congrArg Prod.snd hpc), hsvc⟩

end CR8Devkit.Port
