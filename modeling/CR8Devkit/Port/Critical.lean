import CR8Devkit.Port.Scheduler
import CR8Devkit.Port.Sparing

/-!
# Critical sections

* `move`: `vPortEnterCritical` and `vPortExitCritical`, statement by statement, among all that
  happens else.
* `Tasks.Heeds`: what the tasks and the handlers keep to.
* **`critical_sections`**: over every run `ulCriticalNesting` is the number of sections that the
  running task itself has open, and IRQs are masked exactly while there are any.
-/

namespace CR8Devkit.Port

open Handler Transition

/-! ## The system -/

/-- Where the running task is in the two functions. -/
inductive Stage
  | outside | disabled | decremented
  deriving DecidableEq

/-- With the number of critical sections that each task has open. -/
structure Sections where
  sched : Schedule
  opened : Word → ℕ
  stage : Stage

/-- `disable` and `enable` are the macros `portDISABLE_INTERRUPTS` and `portENABLE_INTERRUPTS`,
which may use registers. -/
inductive Move
  | act (a : Act)
  | disable (g : Regs)
  | increment
  | decrement
  | enable (g : Regs)

namespace Sections

variable (L : Layout) (c : Sections)

def conf : Config := c.sched.sys.conf

def task : Word := L.tcb c.conf.st.mem

def ulCriticalNesting : Word := L.critical c.conf.st.mem

end Sections

section Move

variable (L : Layout) (fpu : Bool) (support : FpuSupport) (prvTaskExitError : Word)

/-- A new task has no section open. -/
def Act.counts (opened : Word → ℕ) : Act → Word → ℕ
  | .event _ => opened
  | .create u _ | .delete u => Function.update opened u 0

def move (c : Sections) : Move → Option Sections
  | .act a => (advance L fpu support prvTaskExitError c.sched a).map fun d => ⟨d, a.counts c.opened, c.stage⟩
  -- `vPortEnterCritical`
  | .disable g =>
    if c.stage = .outside then
      (advance L fpu support prvTaskExitError c.sched (.event (.regs g))).map fun d =>
        ⟨d, c.opened, .disabled⟩
    else none
  | .increment =>
    if c.stage = .disabled then
      (advance L fpu support prvTaskExitError c.sched
        (.event (.store (L.sym .ulCriticalNesting) (c.ulCriticalNesting L + 1)))).map fun d =>
          ⟨d, Function.update c.opened (c.task L) (c.opened (c.task L) + 1), .outside⟩
    else none
  -- `vPortExitCritical`
  | .decrement =>
    if c.stage = .outside then
      if 0 < c.ulCriticalNesting L then
        (advance L fpu support prvTaskExitError c.sched
          (.event (.store (L.sym .ulCriticalNesting) (c.ulCriticalNesting L - 1)))).map fun d =>
            ⟨d, Function.update c.opened (c.task L) (c.opened (c.task L) - 1), .decremented⟩
      else some c
    else none
  | .enable g =>
    if c.stage = .decremented then
      if c.ulCriticalNesting L = 0 then
        (advance L fpu support prvTaskExitError c.sched (.event (.regs g))).map fun d =>
          ⟨d, c.opened, .outside⟩
      else some ⟨c.sched, c.opened, .outside⟩
    else none

/-- Elsewhere a task leaves the mask alone, nobody stores to the count, and the scheduler chooses a
task that there is. -/
def Minds (L : Layout) (c : Schedule) : Event → Prop
  | .regs g => tasking c.sys.conf.frames = true → g.masked = c.sys.conf.st.cpu.cpsr.masked
  | .store a v => a ≠ L.sym .ulCriticalNesting ∧ (a = L.sym .pxCurrentTCB → (c.sys.asleep v).isSome = true)
  | _ => True

/-- Tasks are created and deleted by tasks. A task in one of the two functions does nothing else,
but may be interrupted where IRQs are enabled; and no task has 2 ^ 32 sections open. -/
def Tasks.Heeds {L : Layout} (T : Tasks L) (c : Sections) : Move → Prop
  | .act a => T.Allowed fpu support prvTaskExitError c.sched a ∧
      (match a with
        | .event ev => Minds L c.sched ev
        | _ => tasking c.conf.frames = true) ∧
      (c.stage ≠ .outside → tasking c.conf.frames = true → a = .event .take)
  | .disable g => tasking c.conf.frames = true ∧ g.masked = true
  | .increment => tasking c.conf.frames = true ∧ c.opened (c.task L) + 1 < 2 ^ 32
  | .decrement => tasking c.conf.frames = true
  | .enable g => tasking c.conf.frames = true ∧ g.masked = false

end Move

/-! ## The handlers lead to the switch -/

/-- Only the rest of a switch is left. -/
def Switched (k : Code) : Prop := Switching k ∧ k.calls = []

instance (k : Code) : Decidable (Switched k) := inferInstanceAs (Decidable (_ ∧ _))

/-- The rest of a switch is behind `vTaskSwitchContext`. -/
def Leads : Code → Prop
  | .op _ k => Leads k
  | .branch _ yes no => (Leads yes ∧ Leads no) ∧ (Switched yes ∨ Switched no → Switched yes ∧ Switched no)
  | .call f k => Leads k ∧ (Switched k → f = .vTaskSwitchContext)
  | .exit _ => True

instance decidableLeads : (k : Code) → Decidable (Leads k)
  | .op _ k => decidableLeads k
  | .branch _ yes no =>
    have := decidableLeads yes
    have := decidableLeads no
    inferInstanceAs (Decidable ((_ ∧ _) ∧ (_ → _)))
  | .call _ k =>
    have := decidableLeads k
    inferInstanceAs (Decidable (_ ∧ (_ → _)))
  | .exit _ => inferInstanceAs (Decidable True)

def LeadsAll : List Frame → Prop
  | .c f _ :: .asm _ k _ :: fs => Leads (.call f k) ∧ LeadsAll fs
  | .asm _ k _ :: fs => Leads k ∧ LeadsAll fs
  | _ => True

section Leads

variable {L : Layout} {fpu : Bool} {c d : Config} {ev : Event} {s : St} {t : Trap} {k : Code} {o : St}
  {fs : List Frame} {f : Frame}

theorem leads_irqHandler (fpu : Bool) : Leads (irqHandler fpu) := by cases fpu <;> decide +kernel

theorem leads_svcHandler (fpu : Bool) : Leads (svcHandler fpu) := by cases fpu <;> decide +kernel

theorem leadsAll_cons : LeadsAll (.asm t k o :: fs) ↔ Leads k ∧ LeadsAll fs := by
  rw [LeadsAll]

theorem leadsAll_c {f : CFun} {e : St} :
    LeadsAll (.c f e :: .asm t k o :: fs) ↔ Leads (.call f k) ∧ LeadsAll fs := by
  rw [LeadsAll]

/-- What the task was interrupted in. -/
def taskState : List Frame → St → St
  | .asm _ _ o :: fs, _ => taskState fs o
  | .c _ _ :: fs, s => taskState fs s
  | _, s => s

end Leads

/-! ## The invariant -/

/-- The count of a task with `n` sections open, and its mask. -/
def Balanced (n : ℕ) (count : Word) (masked : Bool) : Prop := count.toNat = n ∧ (masked = true ↔ 0 < n)

/-- What holds apart from the running task. -/
structure Consistent {L : Layout} (T : Tasks L) (fpu : Bool) (support : FpuSupport) (prvTaskExitError : Word)
    (opened : Word → ℕ) (c : Schedule) : Prop extends T.Waiting fpu support prvTaskExitError c where
  own : (owning T fpu .ulCriticalNesting).Good c.sys.conf.frames c.sys.conf.st
  asleep : ∀ u, ∀ x ∈ c.sys.asleep u,
    Balanced (opened u) (L.critical x.saved.mem) x.orig.cpu.cpsr.masked
  chosen : Gone c.sys.conf.frames → (c.sys.asleep (L.tcb c.sys.conf.st.mem)).isSome = true
  leads : LeadsAll c.sys.conf.frames

/-- What holds of the running task outside the two functions. -/
def AtBalance (L : Layout) (opened : Word → ℕ) (c : Config) : Prop :=
  ¬ Gone c.frames → Balanced (opened (L.tcb (taskState c.frames c.st).mem))
    (L.critical (taskState c.frames c.st).mem) (taskState c.frames c.st).cpu.cpsr.masked

section Steps

variable {L : Layout} {T : Tasks L} {fpu : Bool} {support : FpuSupport} {prvTaskExitError : Word}
  {opened : Word → ℕ} {c d : Schedule} {ev : Event} {conf : Config} {s : St} {t : Trap} {k : Code} {o : St}
  {fs : List Frame}

theorem advance_event (h : advance L fpu support prvTaskExitError c (.event ev) = some d) :
    ∃ conf, next L fpu c.sys.conf ev = some conf ∧ d = ⟨⟨conf, c.sys.record L ev⟩, c.begun L ev⟩ := by
  obtain ⟨e, he, rfl⟩ := Option.map_eq_some_iff.mp h
  obtain ⟨conf, hconf, rfl⟩ := Option.map_eq_some_iff.mp he
  exact ⟨conf, hconf, rfl⟩

/-- The C code below `own`. -/
theorem Minds.may (hm : Minds L c ev) (hord : T.Orderly fpu c.sys ev) :
    (owning T fpu .ulCriticalNesting).may c.sys.conf ev := by
  refine ⟨hord.1, ?_⟩
  cases ev with
  | store a v => exact .inr hm.1
  | regs | svc | take | run | ret => trivial

/-- Nothing is put to sleep, and the choice stands. -/
theorem Consistent.same (h : Consistent T fpu support prvTaskExitError opened c)
    (hd : T.Waiting fpu support prvTaskExitError d)
    (hown : (owning T fpu .ulCriticalNesting).Good d.sys.conf.frames d.sys.conf.st)
    (hrec : d.sys.asleep = c.sys.asleep) (htcb : Gone d.sys.conf.frames → Gone c.sys.conf.frames ∧
      (L.tcb d.sys.conf.st.mem = L.tcb c.sys.conf.st.mem ∨
        (c.sys.asleep (L.tcb d.sys.conf.st.mem)).isSome = true))
    (hleads : LeadsAll d.sys.conf.frames) : Consistent T fpu support prvTaskExitError opened d := by
  refine ⟨hd, hown, fun u x hx => h.asleep u x ?_, fun hg => ?_, hleads⟩
  · rw [← hrec]
    exact hx
  · obtain ⟨hc, htcb⟩ := htcb hg
    rw [hrec]
    rcases htcb with htcb | htcb
    · rw [htcb]
      exact h.chosen hc
    · exact htcb

/-- The running task opens or closes a section. -/
theorem Consistent.update (h : Consistent T fpu support prvTaskExitError opened c)
    (hg : ¬ Gone c.sys.conf.frames) (n : ℕ) :
    Consistent T fpu support prvTaskExitError (Function.update opened (L.tcb c.sys.conf.st.mem) n) c := by
  refine ⟨h.toWaiting, h.own, fun u x hx => ?_, h.chosen, h.leads⟩
  have hu : u ≠ L.tcb c.sys.conf.st.mem := by
    rintro rfl
    rw [h.awake hg] at hx
    cases hx
  rw [Function.update_of_ne hu]
  exact h.asleep u x hx

/-- A task that is created or deleted has no section open. -/
theorem Consistent.forget {act : Act} (hag : Agree support fpu)
    (h : Consistent T fpu support prvTaskExitError opened c)
    (hal : T.Allowed fpu support prvTaskExitError c act) (hact : ∀ ev, act ≠ .event ev)
    (hs : advance L fpu support prvTaskExitError c act = some d) :
    Consistent T fpu support prvTaskExitError (act.counts opened) d := by
  have hd := h.toWaiting.advance hag hal hs
  cases act with
  | event ev => exact absurd rfl (hact ev)
  | create u n =>
    cases hs
    refine ⟨hd, h.own, fun w x hx => ?_, fun hg => ?_, h.leads⟩
    · replace hx : Function.update c.sys.asleep u _ w = some x := hx
      show Balanced (Function.update opened u 0 w) _ _
      by_cases hw : w = u
      · subst hw
        rw [Function.update_self] at hx ⊢
        cases hx
        rw [critical_newcomer]
        exact ⟨rfl, by rw [show (newcomer L support prvTaskExitError n).orig.cpu.cpsr.masked = false from
          masked_initialSpsr _]; decide⟩
      · rw [Function.update_of_ne hw] at hx ⊢
        exact h.asleep w x hx
    · show (Function.update c.sys.asleep u _ _).isSome = true
      rw [Function.update_of_ne hal.other.symm]
      exact h.chosen hg
  | delete u =>
    cases hs
    refine ⟨hd, h.own, fun w x hx => ?_, fun hg => ?_, h.leads⟩
    · replace hx : Function.update c.sys.asleep u _ w = some x := hx
      show Balanced (Function.update opened u 0 w) _ _
      by_cases hw : w = u
      · subst hw
        rw [Function.update_self] at hx
        cases hx
      · rw [Function.update_of_ne hw] at hx ⊢
        exact h.asleep w x hx
    · show (Function.update c.sys.asleep u _ _).isSome = true
      rw [Function.update_of_ne (Ne.symm hal)]
      exact h.chosen hg

/-- A step of a task. -/
theorem Consistent.task (h : Consistent T fpu support prvTaskExitError opened c)
    (hset : AtBalance L opened c.sys.conf)
    (hfs : c.sys.conf.frames = [.task]) (hord : T.Orderly fpu c.sys ev) (hm : Minds L c ev)
    (hs : advance L fpu support prvTaskExitError c (.event ev) = some d) :
    Consistent T fpu support prvTaskExitError opened d ∧ AtBalance L opened d.sys.conf := by
  have hd := h.toWaiting.event hord hs
  obtain ⟨conf, hn, rfl⟩ := advance_event hs
  have hown := (owning_lawful T fpu (v := .ulCriticalNesting) rfl).step (hm.may hord) h.own hn
  obtain ⟨⟨⟨s, fs⟩, rec⟩, fresh⟩ := c
  obtain rfl : fs = [.task] := hfs
  have hbal := hset fun hg => hg.elim
  cases taskStep hn with
  | regs g =>
    refine ⟨h.same hd hown rfl (fun hg => hg.elim) h.leads, fun _ => ⟨hbal.1, ?_⟩⟩
    have hmask : g.masked = s.cpu.cpsr.masked := hm rfl
    show g.masked = true ↔ _
    rw [hmask]
    exact hbal.2
  | store a v =>
    have htcb : L.tcb (s.store a v).mem = L.tcb s.mem := by
      refine mem_store_of_ne fun ha => ?_
      cases (hord.1.2 ha.symm).1
    have hcrit : L.critical (s.store a v).mem = L.critical s.mem := mem_store_of_ne hm.1.symm
    refine ⟨h.same hd hown rfl (fun hg => hg.elim) h.leads, fun _ => ?_⟩
    show Balanced (opened (L.tcb (s.store a v).mem)) (L.critical (s.store a v).mem) _
    rw [htcb, hcrit]
    exact hbal
  | svc =>
    refine ⟨h.same hd hown rfl (fun hg => ?_) (leadsAll_cons.mpr ⟨leads_svcHandler fpu, h.leads⟩),
      fun _ => hbal⟩
    exact absurd hg.2 (by cases fpu <;> decide)
  | take hmask hroom =>
    refine ⟨h.same hd hown rfl (fun hg => ?_) (leadsAll_cons.mpr ⟨leads_irqHandler fpu, h.leads⟩),
      fun _ => hbal⟩
    exact absurd hg.2 (by cases fpu <;> decide)

/-! ## Handlers and C functions -/

/-- The task is put to sleep as it was interrupted. -/
theorem Consistent.suspend {rec : Word → Option Sleeper} {fresh fresh' : Word → Option NewTask}
    (h : Consistent T fpu support prvTaskExitError opened
      ⟨⟨⟨s, .asm t (.call .vTaskSwitchContext k) o :: fs⟩, rec⟩, fresh⟩)
    (hset : AtBalance L opened ⟨s, .asm t (.call .vTaskSwitchContext k) o :: fs⟩)
    (hd : T.Waiting fpu support prvTaskExitError ⟨⟨⟨enter L t .vTaskSwitchContext s,
      .c .vTaskSwitchContext (enter L t .vTaskSwitchContext s) :: .asm t k o :: fs⟩,
      Function.update rec (L.tcb s.mem) (some ⟨t, o, s⟩)⟩, fresh'⟩)
    (hown : (owning T fpu .ulCriticalNesting).Good
      (.c .vTaskSwitchContext (enter L t .vTaskSwitchContext s) :: .asm t k o :: fs)
        (enter L t .vTaskSwitchContext s)) :
    Consistent T fpu support prvTaskExitError opened ⟨⟨⟨enter L t .vTaskSwitchContext s,
      .c .vTaskSwitchContext (enter L t .vTaskSwitchContext s) :: .asm t k o :: fs⟩,
      Function.update rec (L.tcb s.mem) (some ⟨t, o, s⟩)⟩, fresh'⟩ := by
  obtain ⟨hk, hrest, hfs⟩ := h.own
  obtain ⟨hsw, hspares⟩ := hk.1
  have hcrit : L.critical s.mem = L.critical o.mem := hspares
  have htcb : L.tcb s.mem = L.tcb o.mem := hsw.tcb List.mem_cons_self
  obtain rfl := bottom_of_nesting h.good.2.1 (hsw.suspends k rfl).fits.nesting hfs
  have hbal : Balanced (opened (L.tcb o.mem)) (L.critical o.mem) o.cpu.cpsr.masked := hset Tasks.not_gone_call
  refine ⟨hd, hown, fun u x hx => ?_, fun _ => ?_, ?_⟩
  · replace hx : Function.update rec (L.tcb s.mem) (some ⟨t, o, s⟩) u = some x := hx
    by_cases hu : u = L.tcb s.mem
    · rw [hu, Function.update_self] at hx
      obtain rfl := Option.some.inj hx
      rw [hu, htcb]
      show Balanced _ (L.critical s.mem) _
      rw [hcrit]
      exact hbal
    · rw [Function.update_of_ne hu] at hx
      exact h.asleep u x hx
  · show (Function.update rec (L.tcb s.mem) (some ⟨t, o, s⟩) (L.tcb s.mem)).isSome = true
    rw [Function.update_self]
    rfl
  · have hleads := h.leads
    obtain ⟨hl, hl'⟩ := leadsAll_cons.mp hleads
    exact leadsAll_c.mpr ⟨hl, hl'⟩

/-- The task that the TCB pointer is on goes on as it was put to sleep. -/
theorem Consistent.resume (h : Consistent T fpu support prvTaskExitError opened c)
    (hfs : c.sys.conf.frames = .asm t (.exit .rfeia) o :: fs) (hg : Gone c.sys.conf.frames)
    (hd : T.Waiting fpu support prvTaskExitError d)
    (hs : advance L fpu support prvTaskExitError c (.event .run) = some d) :
    Consistent T fpu support prvTaskExitError opened d ∧ AtBalance L opened d.sys.conf := by
  obtain ⟨x, hx⟩ := Option.isSome_iff_exists.mp (h.chosen hg)
  obtain ⟨e, he, hframes, hres, hrest⟩ := h.toWaiting.restored hfs hx
  obtain ⟨d', hd', rfl⟩ := Option.map_eq_some_iff.mp hs
  obtain rfl : e = d' := Option.some.inj (he.symm.trans hd')
  obtain ⟨⟨⟨s, frames⟩, rec⟩, fresh⟩ := c
  obtain rfl : frames = _ := hfs
  obtain ⟨conf, hn, rfl⟩ := Option.map_eq_some_iff.mp hd'
  obtain ⟨s', fs'⟩ := conf
  obtain rfl : fs' = [.task] := hframes
  have hmem : s'.mem = s.mem := by
    obtain rfl : fs = [.task] := by
      rcases fs with _ | ⟨_ | _ | _, _ | _⟩ <;> first | exact hg.elim | rfl
    replace hn : runHandler L s [.asm t (.exit .rfeia) o, .task] = _ := hn
    simp only [runHandler] at hn
    split_ifs at hn
    cases hn
    rfl
  have hbal := h.asleep _ x hx
  refine ⟨⟨hd, hrest, fun u y hy => ?_, fun hg => hg.elim, trivial⟩, fun _ => ?_⟩
  · replace hy : Function.update rec (L.tcb s.mem) none u = some y := hy
    by_cases hu : u = L.tcb s.mem
    · rw [hu, Function.update_self] at hy
      cases hy
    · rw [Function.update_of_ne hu] at hy
      exact h.asleep u y hy
  · show Balanced (opened (L.tcb s'.mem)) (L.critical s'.mem) s'.cpu.cpsr.masked
    have hcrit : L.critical s'.mem = _ := hres.critical
    have hcpsr : s'.cpu.cpsr = _ := hres.cpsr
    rw [hcrit, hcpsr, hmem]
    exact hbal

theorem gone_asm : Gone (.asm t k o :: fs) ↔ fs = [.task] ∧ Switched k := by
  rcases fs with _ | ⟨_ | _ | _, _ | _⟩
  all_goals first
    | exact ⟨fun h => ⟨rfl, h⟩, And.right⟩
    | exact ⟨False.elim, fun h => by cases h.1⟩

theorem switched_branch {b : Cond} {yes no : Code} (hy : Switched yes) (hn : Switched no) :
    Switched (.branch b yes no) :=
  ⟨fun e he => (List.mem_append.mp he).elim (hy.1 e) (hn.1 e), List.append_eq_nil_iff.mpr ⟨hy.2, hn.2⟩⟩

/-- A handler returns to the task. -/
theorem balanced_movsPcLr (h : Consistent T fpu support prvTaskExitError opened c)
    (hset : AtBalance L opened c.sys.conf)
      (hfs : c.sys.conf = ⟨s, [.asm t (.exit .movsPcLr) o, .task]⟩) {s' : St}
    (hmem : s'.mem = s.mem) (hcpu : s'.cpu = s.cpu.movsPcLr) : AtBalance L opened ⟨s', [.task]⟩ := by
  have hown := h.own
  rw [hfs] at hown hset
  obtain ⟨⟨hfin, hkept⟩, -⟩ := hown.1.2, ()
  obtain ⟨hl, -, htcb⟩ := hfin
  have hbal : Balanced (opened (L.tcb o.mem)) (L.critical o.mem) o.cpu.cpsr.masked :=
    hset Tasks.not_gone_movsPcLr
  have hcrit : L.critical s.mem = L.critical o.mem := hkept
  intro _
  show Balanced (opened (L.tcb s'.mem)) (L.critical s'.mem) s'.cpu.cpsr.masked
  rw [hmem, hcpu, htcb, hcrit, hl.1.cpsr]
  exact hbal

/-- What a handler has interrupted is no switch of tasks: that runs with IRQs masked. -/
theorem not_gone_interrupted {v : Sym} (hg : (owning T fpu v).Good fs o)
    (hbelow : fs = [.task] ∨ o.cpu.cpsr.masked = false) : ¬ Gone fs := by
  have hne (h : Gone fs) (hmask : o.cpu.cpsr.masked = true) : False := by
    rcases hbelow with rfl | hm
    · exact h
    · exact Bool.false_ne_true (hm.symm.trans hmask)
  intro h
  rcases hg.cases with ⟨rfl, -⟩ | ⟨t', k', o', fs', rfl, hk'⟩ | ⟨f, e, t', k', o', fs', rfl, hin⟩
  · exact h
  · exact hne h hk'.here.1.masked
  · obtain ⟨rfl, -⟩ := Tasks.gone_c h
    exact hne h (hin.masked.resolve_left (by decide))

/-- An instruction, a branch, a call or an exit of a handler. -/
theorem Consistent.run (h : Consistent T fpu support prvTaskExitError opened c)
    (hset : AtBalance L opened c.sys.conf) (hfs : c.sys.conf.frames = .asm t k o :: fs)
    (hs : advance L fpu support prvTaskExitError c (.event .run) = some d) :
    Consistent T fpu support prvTaskExitError opened d ∧ AtBalance L opened d.sys.conf := by
  have hd := h.toWaiting.event (show T.Orderly fpu c.sys .run from ⟨trivial, trivial⟩) hs
  have hresume : k = .exit .rfeia → Gone c.sys.conf.frames → _ := fun hk hg =>
    h.resume (hfs.trans (congrArg (fun k => Frame.asm t k o :: fs) hk)) hg hd hs
  obtain ⟨conf, hn, rfl⟩ := advance_event hs
  have hown := (owning_lawful T fpu (v := .ulCriticalNesting) rfl).step
    (show (owning T fpu .ulCriticalNesting).may c.sys.conf .run from ⟨trivial, trivial⟩) h.own hn
  obtain ⟨⟨⟨s, frames⟩, rec⟩, fresh⟩ := c
  obtain rfl : frames = _ := hfs
  obtain ⟨hleads, hrest⟩ := leadsAll_cons.mp h.leads
  obtain ⟨hk, hgood, hbelow⟩ := h.own
  cases k with
  | op i k =>
    cases hn
    have htcb : L.tcb (i.run L s).mem = L.tcb s.mem := by
      show (i.run L s).mem _ = _
      rw [Instr.run_mem]
      split_ifs
      · exact store_of_not_mem fun ha => (hk.1.1.writes i k rfl _ ha).ne_tcb rfl
      · rfl
    exact ⟨h.same hd hown rfl (fun hg => ⟨Tasks.gone_op.mpr hg, .inl htcb⟩)
      (leadsAll_cons.mpr ⟨hleads, hrest⟩),
      fun hg => hset fun hg' => hg (Tasks.gone_op.mp hg')⟩
  | branch b yes no =>
    cases hn
    obtain ⟨⟨hyes, hno⟩, hboth⟩ := hleads
    refine ⟨h.same hd hown rfl (fun hg => ?_) (leadsAll_cons.mpr ⟨by split_ifs <;> assumption, hrest⟩),
      fun hg => hset fun hg' => hg ?_⟩
    · obtain ⟨hfs, hg⟩ := gone_asm.mp hg
      obtain ⟨hy, hn⟩ := hboth (by
        split_ifs at hg
        · exact .inl hg
        · exact .inr hg)
      exact ⟨gone_asm.mpr ⟨hfs, switched_branch hy hn⟩, .inl rfl⟩
    · obtain ⟨hy, hn⟩ := Tasks.gone_branch hg'
      show Gone (.asm t (if b.holds s.cpu.cpsr.nzcv then yes else no) o :: fs)
      split_ifs
      · exact hy
      · exact hn
  | call f k =>
    cases hn
    by_cases hf : f = .vTaskSwitchContext
    · subst hf
      obtain rfl := bottom_of_nesting h.good.2.1 (hk.1.1.suspends k rfl).fits.nesting hbelow
      exact ⟨h.suspend hset hd hown, fun hg => absurd rfl hg⟩
    · refine ⟨h.same hd hown ?_ (fun hg => absurd (Tasks.gone_c hg).1 hf)
        (leadsAll_c.mpr ⟨hleads, hrest⟩), fun _ => hset Tasks.not_gone_call⟩
      cases f <;> first | rfl | exact absurd rfl hf
  | exit ex =>
    cases ex with
    | rfeia =>
      refine hresume rfl (gone_asm.mpr ⟨bottom_of_nesting h.good.2.1 hk.2.1.1.nesting hbelow, ?_⟩)
      decide
    | movsPcLr =>
      cases hn
      refine ⟨h.same hd hown rfl (fun hg => absurd hg (not_gone_interrupted hgood hbelow)) hrest, ?_⟩
      rcases hgood.cases with ⟨rfl, -⟩ | ⟨t', k', o', fs', rfl, hk'⟩ | ⟨f, e, t', k', o', fs', rfl, hin⟩
      · exact balanced_movsPcLr h hset rfl rfl rfl
      · exact fun _ => hset Tasks.not_gone_movsPcLr
      · exact fun _ => hset Tasks.not_gone_movsPcLr

/-- **Every step** outside the two functions keeps the counts and masks in balance. -/
theorem Consistent.step (h : Consistent T fpu support prvTaskExitError opened c)
    (hset : AtBalance L opened c.sys.conf) (hord : T.Orderly fpu c.sys ev) (hm : Minds L c ev)
    (hs : advance L fpu support prvTaskExitError c (.event ev) = some d) :
    Consistent T fpu support prvTaskExitError opened d ∧ AtBalance L opened d.sys.conf := by
  rcases h.own.cases with ⟨hfs, -⟩ | ⟨t, k, o, fs, hfs, hk⟩ | ⟨f, e, t, k, o, fs, hfs, hin⟩
  · exact h.task hset hfs hord hm hs
  · obtain ⟨conf, hn, -⟩ := advance_event hs
    have hmask : c.sys.conf.st.cpu.cpsr.masked = true := hk.here.1.masked
    obtain rfl : ev = .run := by
      obtain ⟨⟨⟨s, frames⟩, rec⟩, fresh⟩ := c
      obtain rfl : frames = _ := hfs
      exact run_of_next hmask hn
    exact h.run hset hfs hs
  · have hd := h.toWaiting.event hord hs
    obtain ⟨conf, hn, rfl⟩ := advance_event hs
    have hown := (owning_lawful T fpu (v := .ulCriticalNesting) rfl).step (hm.may hord) h.own hn
    obtain ⟨⟨⟨s, frames⟩, rec⟩, fresh⟩ := c
    obtain rfl : frames = _ := hfs
    have hleads := h.leads
    cases functionStep hn with
    | regs => exact ⟨h.same hd hown rfl (fun hg => ⟨hg, .inl rfl⟩) hleads, hset⟩
    | store =>
      rename_i a v hused
      refine ⟨h.same hd hown rfl (fun hg => ⟨hg, ?_⟩) hleads, hset⟩
      by_cases ha : a = L.sym .pxCurrentTCB
      · right
        have htcb : L.tcb (s.store a v).mem = v := by
          rw [ha]
          exact mem_store_self
        show (rec (L.tcb (s.store a v).mem)).isSome = true
        rw [htcb]
        exact hm.2 ha
      · exact .inl (mem_store_of_ne (Ne.symm ha))
    | take hmask hroom =>
      refine ⟨h.same hd hown rfl (fun hg => ?_) (leadsAll_cons.mpr ⟨leads_irqHandler fpu, hleads⟩),
        fun _ => ?_⟩
      · cases (gone_asm.mp hg).1
      · refine hset fun hg => ?_
        obtain ⟨rfl, -⟩ := Tasks.gone_c hg
        have hmasked : s.cpu.cpsr.masked = true := hin.masked.resolve_left (by decide)
        rw [hmask] at hmasked
        cases hmasked
    | ret =>
      obtain ⟨-, ⟨s₀, -, hk⟩, -⟩ := h.own
      obtain ⟨hl, hrest⟩ := leadsAll_c.mp hleads
      refine ⟨h.same hd hown rfl (fun hg => ?_) (leadsAll_cons.mpr ⟨hl.1, hrest⟩), fun hg =>
        hset fun hg' => hg ?_⟩
      · obtain ⟨rfl, hg⟩ := gone_asm.mp hg
        exact ⟨hl.2 hg, .inl rfl⟩
      · obtain ⟨rfl, rfl⟩ := Tasks.gone_c hg'
        have hsus := hk.1.1.suspends k rfl
        exact gone_asm.mpr ⟨rfl, hsus.switching, hsus.calls⟩

end Steps

/-! ## The two functions -/

/-- The invariant of the whole. -/
structure Tasks.Sound {L : Layout} (T : Tasks L) (fpu : Bool) (support : FpuSupport) (prvTaskExitError : Word)
    (c : Sections) : Prop where
  consistent : Consistent T fpu support prvTaskExitError c.opened c.sched
  outside : c.stage = .outside → AtBalance L c.opened c.conf
  inside : c.stage ≠ .outside → c.conf.frames = [.task] ∧ c.conf.st.cpu.cpsr.masked = true ∧
    (c.ulCriticalNesting L).toNat = c.opened (c.task L)

section Functions

variable {L : Layout} {T : Tasks L} {fpu : Bool} {support : FpuSupport} {prvTaskExitError : Word}
  {opened : Word → ℕ} {c d : Schedule} {g : Regs} {v : Word} {m : Move} {fs : List Frame}

theorem of_tasking (h : tasking fs = true) : fs = [.task] := by
  unfold tasking at h
  split at h
  · rfl
  · cases h

/-- A task sets its registers. -/
theorem Consistent.regs (h : Consistent T fpu support prvTaskExitError opened c)
    (hfs : c.sys.conf.frames = [.task])
    (hs : advance L fpu support prvTaskExitError c (.event (.regs g)) = some d) :
    Consistent T fpu support prvTaskExitError opened d ∧
      d.sys.conf = ⟨{ c.sys.conf.st with cpu := c.sys.conf.st.cpu.setRegs g }, [.task]⟩ := by
  have hd := h.toWaiting.event (show T.Orderly fpu c.sys (.regs g) from ⟨trivial, trivial⟩) hs
  obtain ⟨conf, hn, rfl⟩ := advance_event hs
  have hown := (owning_lawful T fpu (v := .ulCriticalNesting) rfl).step
    (show (owning T fpu .ulCriticalNesting).may c.sys.conf (.regs g) from ⟨trivial, trivial⟩) h.own hn
  obtain ⟨⟨⟨s, frames⟩, rec⟩, fresh⟩ := c
  obtain rfl : frames = [.task] := hfs
  cases taskStep hn
  exact ⟨h.same hd hown rfl (fun hg => hg.elim) h.leads, rfl⟩

/-- The task stores to the count, where no other task has its context. -/
theorem Consistent.store (h : Consistent T fpu support prvTaskExitError opened c)
    (hfs : c.sys.conf.frames = [.task])
    (hs : advance L fpu support prvTaskExitError c (.event (.store (L.sym .ulCriticalNesting) v)) = some d) :
    Consistent T fpu support prvTaskExitError opened d ∧
      d.sys.conf = ⟨c.sys.conf.st.store (L.sym .ulCriticalNesting) v, [.task]⟩ := by
  have hord : T.Orderly fpu c.sys (.store (L.sym .ulCriticalNesting) v) := by
    refine ⟨⟨sym_ne (by decide) (by decide) (by decide),
      fun ha => absurd ha (sym_ne (by decide) (by decide) (by decide))⟩, fun u hu x hx =>
        ⟨fun ha => ?_, fun hb => ?_⟩⟩
    · exact T.tcb_sym u hu .ulCriticalNesting (ha ▸ cell_sym (by decide))
    · exact (h.holds u x hx).stored.apart _ .ulCriticalNesting hb (cell_sym (by decide))
  have hd := h.toWaiting.event hord hs
  obtain ⟨conf, hn, rfl⟩ := advance_event hs
  have hown := (owning_lawful T fpu (v := .ulCriticalNesting) rfl).step
    ⟨hord.1, .inl (by rw [hfs]; rfl)⟩ h.own hn
  obtain ⟨⟨⟨s, frames⟩, rec⟩, fresh⟩ := c
  obtain rfl : frames = [.task] := hfs
  cases taskStep hn
  exact ⟨h.same hd hown rfl (fun hg => hg.elim) h.leads, rfl⟩

/-- The task that is in one of the functions, or has just left it. -/
theorem task_eq {c : Config} {s : St} (h : c = ⟨s, [.task]⟩) {opened : Word → ℕ} :
    AtBalance L opened c ↔ Balanced (opened (L.tcb s.mem)) (L.critical s.mem) s.cpu.cpsr.masked := by
  subst h
  exact ⟨fun hb => hb fun hg => hg.elim, fun hb _ => hb⟩

/-- A task creates or deletes another. -/
theorem Tasks.Sound.forget (hag : Agree support fpu) {c : Sections} {a : Act}
    (h : T.Sound fpu support prvTaskExitError c) (hout : c.stage = .outside)
    (hal : T.Allowed fpu support prvTaskExitError c.sched a) (hact : ∀ ev, a ≠ .event ev)
    (ht : tasking c.conf.frames = true) (hd : advance L fpu support prvTaskExitError c.sched a = some d) :
    T.Sound fpu support prvTaskExitError ⟨d, a.counts c.opened, c.stage⟩ := by
  refine ⟨h.consistent.forget hag hal hact hd, fun _ => ?_, fun hne => absurd hout hne⟩
  have hbal := (task_eq (s := c.conf.st) (congrArg (Config.mk _) (of_tasking ht))).mp (h.outside hout)
  have hcounts : d.sys.conf = c.conf ∧ a.counts c.opened (L.tcb c.conf.st.mem) =
    c.opened (L.tcb c.conf.st.mem) := by
    cases a with
    | event ev => exact absurd rfl (hact ev)
    | create u n =>
      cases hd
      exact ⟨rfl, Function.update_of_ne hal.other.symm _ _⟩
    | delete u =>
      cases hd
      exact ⟨rfl, Function.update_of_ne (Ne.symm hal) _ _⟩
  refine (task_eq (s := c.conf.st) (hcounts.1.trans (congrArg (Config.mk _) (of_tasking ht)))).mpr ?_
  show Balanced (a.counts c.opened _) _ _
  rw [hcounts.2]
  exact hbal

/-- The task stores `n` to the count, and that is how many sections it has open from now on. -/
theorem Consistent.count (h : Consistent T fpu support prvTaskExitError opened c)
    (hfs : c.sys.conf.frames = [.task]) (hs : advance L fpu support prvTaskExitError c
      (.event (.store (L.sym .ulCriticalNesting) v)) = some d) {n : ℕ}
    (hn : v.toNat = n) :
    Consistent T fpu support prvTaskExitError (Function.update opened (L.tcb c.sys.conf.st.mem) n) d ∧
      d.sys.conf = ⟨d.sys.conf.st, [.task]⟩ ∧ d.sys.conf.st.cpu = c.sys.conf.st.cpu ∧
      (L.critical d.sys.conf.st.mem).toNat = n ∧
      Function.update opened (L.tcb c.sys.conf.st.mem) n (L.tcb d.sys.conf.st.mem) = n := by
  obtain ⟨hc, hconf⟩ := h.store hfs hs
  have hst : d.sys.conf.st = c.sys.conf.st.store (L.sym .ulCriticalNesting) v := congrArg Config.st hconf
  have htcb : L.tcb d.sys.conf.st.mem = L.tcb c.sys.conf.st.mem := by
    rw [hst]
    exact mem_store_of_ne (sym_ne (by decide) (by decide) (by decide))
  have hup := hc.update (by rw [hconf]; exact id) n
  rw [htcb] at hup
  refine ⟨hup, by rw [hconf], by rw [hst]; rfl, ?_, by rw [htcb, Function.update_self]⟩
  rw [hst, ← hn]
  exact congrArg BitVec.toNat mem_store_self

/-- Outside the two functions; inside them IRQs are masked, and nothing else can happen. -/
theorem Tasks.Sound.act (hag : Agree support fpu) {c c' : Sections} {a : Act}
    (h : T.Sound fpu support prvTaskExitError c) (hh : T.Heeds fpu support prvTaskExitError c (.act a))
    (hs : move L fpu support prvTaskExitError c (.act a) = some c') :
    T.Sound fpu support prvTaskExitError c' := by
  obtain ⟨hal, hminds, hstage⟩ := hh
  obtain ⟨d, hd, rfl⟩ := Option.map_eq_some_iff.mp hs
  by_cases hout : c.stage = .outside
  · cases a with
    | event ev =>
      obtain ⟨hc, hb⟩ := h.consistent.step (h.outside hout) hal hminds hd
      exact ⟨hc, fun _ => hb, fun hne => absurd hout hne⟩
    | create u n => exact h.forget hag hout hal (fun _ h => by cases h) hminds hd
    | delete u => exact h.forget hag hout hal (fun _ h => by cases h) hminds hd
  · obtain ⟨hfs, hmask, -⟩ := h.inside hout
    obtain rfl := hstage hout (by rw [hfs]; rfl)
    obtain ⟨conf, hn, -⟩ := advance_event hd
    simp only [next] at hn
    split_ifs at hn with htake
    have hfalse : c.conf.st.cpu.cpsr.masked = false := htake.1
    rw [hmask] at hfalse
    cases hfalse

theorem Tasks.Sound.disable {c c' : Sections} (h : T.Sound fpu support prvTaskExitError c)
    (hh : T.Heeds fpu support prvTaskExitError c (.disable g))
    (hs : move L fpu support prvTaskExitError c (.disable g) = some c') :
    T.Sound fpu support prvTaskExitError c' := by
  obtain ⟨ht, hmask⟩ := hh
  obtain ⟨hout, hs⟩ := Option.ite_none_right_eq_some.mp hs
  obtain ⟨d, hd, rfl⟩ := Option.map_eq_some_iff.mp hs
  have hfs := of_tasking ht
  obtain ⟨hc, hconf⟩ := h.consistent.regs hfs hd
  have hbal := (task_eq (s := c.conf.st) (congrArg (Config.mk _) hfs)).mp (h.outside hout)
  refine ⟨hc, (fun h => by cases h), fun _ => ?_⟩
  show d.sys.conf.frames = _ ∧ d.sys.conf.st.cpu.cpsr.masked = true ∧ (L.critical d.sys.conf.st.mem).toNat =
    c.opened (L.tcb d.sys.conf.st.mem)
  rw [hconf]
  exact ⟨rfl, hmask, hbal.1⟩

theorem Tasks.Sound.increment {c c' : Sections} (h : T.Sound fpu support prvTaskExitError c)
    (hh : T.Heeds fpu support prvTaskExitError c .increment)
    (hs : move L fpu support prvTaskExitError c .increment = some c') :
    T.Sound fpu support prvTaskExitError c' := by
  obtain ⟨-, hbound⟩ := hh
  obtain ⟨hin, hs⟩ := Option.ite_none_right_eq_some.mp hs
  obtain ⟨d, hd, rfl⟩ := Option.map_eq_some_iff.mp hs
  obtain ⟨hfs, hmask, hcount⟩ := h.inside (by rw [hin]; decide)
  have hlt : (c.ulCriticalNesting L + 1).toNat = c.opened (c.task L) + 1 := by
    rw [BitVec.toNat_add, hcount]
    exact Nat.mod_eq_of_lt hbound
  obtain ⟨hc, hconf, hcpu, hcrit, hself⟩ := h.consistent.count hfs hd hlt
  refine ⟨hc, fun _ => (task_eq hconf).mpr ⟨hcrit.trans hself.symm, ?_⟩, fun hne => absurd rfl hne⟩
  rw [hcpu]
  exact iff_of_true hmask (Nat.lt_of_lt_of_eq (Nat.succ_pos _) hself.symm)

theorem Tasks.Sound.decrement {c c' : Sections} (h : T.Sound fpu support prvTaskExitError c)
    (hh : T.Heeds fpu support prvTaskExitError c .decrement)
    (hs : move L fpu support prvTaskExitError c .decrement = some c') :
    T.Sound fpu support prvTaskExitError c' := by
  obtain ⟨hout, hs⟩ := Option.ite_none_right_eq_some.mp hs
  have hfs := of_tasking hh
  have hbal := (task_eq (s := c.conf.st) (congrArg (Config.mk _) hfs)).mp (h.outside hout)
  split_ifs at hs with hpos
  · obtain ⟨d, hd, rfl⟩ := Option.map_eq_some_iff.mp hs
    have hpos' : 0 < (c.ulCriticalNesting L).toNat := hpos
    have hlt : (c.ulCriticalNesting L - 1).toNat = c.opened (c.task L) - 1 := by
      rw [toNat_sub_eq (show (1 : Word).toNat ≤ (c.ulCriticalNesting L).toNat from hpos')]
      exact congrArg (· - 1) hbal.1
    obtain ⟨hc, hconf, hcpu, hcrit, hself⟩ := h.consistent.count hfs hd hlt
    have hmask : d.sys.conf.st.cpu.cpsr.masked = true := by
      rw [hcpu]
      exact hbal.2.mpr (hbal.1 ▸ hpos')
    exact ⟨hc, (fun hne => by cases hne), fun _ =>
      ⟨congrArg Config.frames hconf, hmask, hcrit.trans hself.symm⟩⟩
  · cases hs
    exact h

theorem Tasks.Sound.enable {c c' : Sections} (h : T.Sound fpu support prvTaskExitError c)
    (hh : T.Heeds fpu support prvTaskExitError c (.enable g))
    (hs : move L fpu support prvTaskExitError c (.enable g) = some c') :
    T.Sound fpu support prvTaskExitError c' := by
  obtain ⟨ht, hmask⟩ := hh
  obtain ⟨hin, hs⟩ := Option.ite_none_right_eq_some.mp hs
  obtain ⟨hfs, hmasked, hcount⟩ := h.inside (by rw [hin]; decide)
  split_ifs at hs with hzero
  · obtain ⟨d, hd, rfl⟩ := Option.map_eq_some_iff.mp hs
    obtain ⟨hc, hconf⟩ := h.consistent.regs hfs hd
    refine ⟨hc, fun _ => (task_eq hconf).mpr ⟨hcount, ?_⟩, fun hne => absurd rfl hne⟩
    have hnone : c.opened (c.task L) = 0 := by
      rw [← hcount, hzero]
      rfl
    show g.masked = true ↔ 0 < c.opened (c.task L)
    rw [hmask, hnone]
    decide
  · cases hs
    have hpos : 0 < c.opened (c.task L) := by
      rw [← hcount]
      exact Nat.pos_of_ne_zero fun h0 => hzero (BitVec.eq_of_toNat_eq h0)
    exact ⟨h.consistent, fun _ => (task_eq (s := c.conf.st) (congrArg (Config.mk _) hfs)).mpr
      ⟨hcount, iff_of_true hmasked hpos⟩, fun hne => absurd rfl hne⟩

/-- **Every move keeps the counts and masks.** -/
theorem Tasks.Sound.move (hag : Agree support fpu) {c c' : Sections}
    (h : T.Sound fpu support prvTaskExitError c)
    (hh : T.Heeds fpu support prvTaskExitError c m) (hs : move L fpu support prvTaskExitError c m = some c') :
    T.Sound fpu support prvTaskExitError c' := by
  cases m with
  | act a => exact h.act hag hh hs
  | disable g => exact h.disable hh hs
  | increment => exact h.increment hh hs
  | decrement => exact h.decrement hh hs
  | enable g => exact h.enable hh hs

end Functions

/-- **Critical sections**: in every run of the scheduler, with tasks that yield in the middle of a
section, are interrupted outside, come and go, `ulCriticalNesting` is the number of sections that
the running task has open itself, and IRQs are masked exactly if there are any. Until it yields no
other task runs then. -/
theorem critical_sections {L : Layout} {T : Tasks L} {fpu : Bool} {support : FpuSupport}
    {prvTaskExitError : Word}
    {fresh : Word → Option NewTask} {prepare : St → St} {s s' : St} {moves : List Move} {c : Sections}
    (hag : Agree support fpu) (h : T.Ready support prvTaskExitError fresh (prepare s))
    (hs : xPortStartScheduler L fpu prepare s = some s')
    (hrun : Run (guarded (ofNext (move L fpu support prvTaskExitError))
        (T.Heeds fpu support prvTaskExitError))
      ⟨.start L support prvTaskExitError fresh (prepare s) s', fun _ => 0, .outside⟩ moves c)
    (hfs : c.conf.frames = [.task]) (hout : c.stage = .outside) :
    (c.ulCriticalNesting L).toNat = c.opened (c.task L) ∧
      (c.conf.st.cpu.cpsr.masked = true ↔ 0 < c.opened (c.task L)) ∧
      (0 < c.opened (c.task L) → ∀ ev d, ev ≠ .svc → next L fpu c.conf ev = some d → d.frames = [.task]) := by
  obtain ⟨hstart, hbegins⟩ := start_of_ready hag h hs
  have hsound : T.Sound fpu support prvTaskExitError
      ⟨.start L support prvTaskExitError fresh (prepare s) s', fun _ => 0, .outside⟩ := by
    obtain ⟨n, hn⟩ := Option.isSome_iff_exists.mp h.current
    have hb := hbegins n hn
    refine ⟨⟨hstart, hstart.good, fun u x hx => ?_, fun hg => hg.elim, trivial⟩,
      fun _ => ?_, fun hne => absurd rfl hne⟩
    · replace hx : (if u = L.tcb (prepare s).mem then none else _) = some x := hx
      split_ifs at hx
      obtain ⟨k, -, rfl⟩ := Option.map_eq_some_iff.mp hx
      rw [critical_newcomer]
      exact ⟨rfl, iff_of_false (by
        rw [show (newcomer L support prvTaskExitError k).orig.cpu.cpsr.masked =
          false from masked_initialSpsr _]
        decide) (Nat.lt_irrefl 0)⟩
    · refine (task_eq rfl).mpr ⟨congrArg BitVec.toNat hb.critical, iff_of_false ?_ (Nat.lt_irrefl 0)⟩
      show ¬ s'.cpu.cpsr.masked = true
      rw [hb.masked]
      decide
  have hsound := hrun.inv (I := T.Sound fpu support prvTaskExitError) hsound fun hi hs =>
    hi.move hag hs.1 hs.2
  obtain ⟨hcount, hmask⟩ := (task_eq (s := c.conf.st) (congrArg (Config.mk _) hfs)).mp (hsound.outside hout)
  refine ⟨hcount, hmask, fun hpos ev d hev hn => ?_⟩
  have hn' : next L fpu ⟨c.conf.st, [.task]⟩ ev = some d := by
    rw [← hfs]
    exact hn
  cases taskStep hn' with
  | regs | store => rfl
  | svc => exact absurd rfl hev
  | take hm =>
    rw [hmask.mpr hpos] at hm
    cases hm

/-! ## A section with a switch in it -/

instance (L : Layout) (c : Schedule) (ev : Event) : Decidable (Minds L c ev) :=
  match ev with
  | .regs _ => inferInstanceAs (Decidable (_ → _))
  | .store _ _ => inferInstanceAs (Decidable (_ ∧ (_ → _)))
  | .svc | .take | .run | .ret => inferInstanceAs (Decidable True)

def Event.isTake : Event → Bool
  | .take => true
  | _ => false

/-- Of the moves apart from `create` and `delete`. -/
def heeds {L : Layout} (T : Tasks L) (fpu : Bool) (c : Sections) : Move → Bool
  | .act (.event ev) => decide (T.Orderly fpu c.sched.sys ev) && decide (Minds L c.sched ev) &&
      (decide (c.stage = .outside) || !tasking c.conf.frames || ev.isTake)
  | .act _ => false
  | .disable g => tasking c.conf.frames && g.masked
  | .increment => tasking c.conf.frames && decide (c.opened (c.task L) + 1 < 2 ^ 32)
  | .decrement => tasking c.conf.frames
  | .enable g => tasking c.conf.frames && !g.masked

theorem heeds_of {L : Layout} {T : Tasks L} {fpu : Bool} {support : FpuSupport} {prvTaskExitError : Word}
    {c : Sections} {m : Move} (h : heeds T fpu c m = true) : T.Heeds fpu support prvTaskExitError c m := by
  cases m with
  | act a =>
    cases a with
    | event ev =>
      simp only [heeds, Bool.and_eq_true, Bool.or_eq_true, decide_eq_true_eq, Bool.not_eq_true'] at h
      obtain ⟨⟨hord, hm⟩, hst⟩ := h
      refine ⟨hord, hm, fun hne ht => ?_⟩
      rcases hst with (hst | hst) | hst
      · exact absurd hst hne
      · rw [ht] at hst
        cases hst
      · cases ev <;> first | rfl | cases hst
    | create | delete => cases h
  | disable g | enable g =>
    simp only [heeds, Bool.and_eq_true, Bool.not_eq_true'] at h
    exact h
  | increment =>
    simp only [heeds, Bool.and_eq_true, decide_eq_true_eq] at h
    exact h
  | decrement => exact h

/-- `vPortEnterCritical`, with registers that leave the stack of the first task of `sampleBoot`
where it is. -/
def sampleEnter : List Move :=
  [.disable ⟨fun _ => 0, 0x7ff0, 0, 0x9104, 0, 0, true, 0, fun _ => 0, 0⟩, .increment]

/-- The first task yields in a section, and the second begins. -/
def sampleSections : List Move := sampleEnter ++ (yieldToNew ++ [Event.run]).map fun ev => .act (.event ev)

theorem exec_sampleSections : (exec (fun c m => if heeds sampleTasks true c m then
    move sample true .always 0x9999 c m else none) ⟨sampleSchedule, fun _ => 0, .outside⟩ sampleSections).map
      (fun c => (tasking c.conf.frames, decide (c.stage = .outside), c.opened 0xb000,
        c.opened (c.task sample))) =
        some (true, true, 1, 0) := by
  decide +kernel

theorem critical_sections_sampleBoot : ∃ c : Sections,
    Run (guarded (ofNext (move sample true .always 0x9999)) (sampleTasks.Heeds true .always 0x9999))
      ⟨sampleSchedule, fun _ => 0, .outside⟩ sampleSections c ∧
    c.opened 0xb000 = 1 ∧ (c.ulCriticalNesting sample).toNat = 0 ∧ c.conf.st.cpu.cpsr.masked = false := by
  obtain ⟨c, hexec, hc⟩ := Option.map_eq_some_iff.mp exec_sampleSections
  obtain ⟨hfs, hc⟩ := Prod.mk.inj hc
  obtain ⟨hst, hc⟩ := Prod.mk.inj hc
  obtain ⟨hother, hopened⟩ := Prod.mk.inj hc
  have hrun : Run (guarded (ofNext (move sample true .always 0x9999)) (sampleTasks.Heeds true .always 0x9999))
      ⟨sampleSchedule, fun _ => 0, .outside⟩ sampleSections c := by
    rw [← List.map_id sampleSections]
    exact (run_of_exec_guarded (P := fun c m => heeds sampleTasks true c m = true) hexec).map id
      fun hs => ⟨heeds_of hs.1, hs.2⟩
  obtain ⟨hcount, hmask, -⟩ := critical_sections (by decide)
    (show sampleTasks.Ready .always 0x9999 sampleFresh (id sampleBoot) from ready_sampleBoot)
    rfl hrun (of_tasking hfs) (of_decide_eq_true hst)
  rw [hopened] at hcount hmask
  exact ⟨c, hrun, hother, hcount, Bool.eq_false_iff.mpr fun hm => absurd (hmask.mp hm) (Nat.lt_irrefl 0)⟩

end CR8Devkit.Port
