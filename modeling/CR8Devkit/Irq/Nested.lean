import CR8Devkit.Port.Activation
import CR8Devkit.Irq.System

/-!
# Nested activations

The system seen from its activations only, newest first, and that this is what it does.

* `Step`: one step of the stack of activations, the variables and the log of the interrupt
  controller.
* `Fits`: the activations belong to the frames of the port; `irqHandler_safe`: `IRQ_Handler`
  acknowledges once, hands ICCIAR on in r0, keeps it in r4 and ends the interrupt with it.
* **`step_of_next`**: every step of the system is a `Step`.
-/

namespace CR8Devkit.Irq

open Handler (Machine)
open Port (Layout Config Event Frame CFun Trap r0 Masked masked_run irqHandler svcHandler)
open BlackBox (Linker)
open Transition

/-! ## The stack of activations -/

/-- IRQs may be enabled at the next statement. -/
def openAt : List Stmt → Bool
  | st :: _ => st.isOpen
  | [] => false

/-- Nothing has been interrupted, or a dispatched handler has. -/
def Interruptible : List Phase → Prop
  | [] => True
  | .handling _ todo :: _ => openAt todo = true
  | _ => False

/-- The variables of the dispatcher are as they were. -/
structure Vars.Same (v v' : Vars) : Prop where
  num : v'.num = v.num
  mem : ∀ x : BlackBox.Sram, x.counts = true → v'.mem (.sram x) = v.mem (.sram x)

inductive Step (L : Layout) (b : Bsp) (k : Linker) : View → View → Prop
  | quiet {v v' : View} (acts : v'.acts = v.acts) (log : v'.log = v.log) (vars : v.vars.Same v'.vars)
      (gic : v'.gic = v.gic ∨ ∃ irq pr ctx, v'.gic = rBspIrqCfg b irq pr ctx v.gic) : Step L b k v v'
  | take {v : View} (h : Interruptible v.acts) : Step L b k v { v with acts := .entered :: v.acts }
  | svc {v : View} (h : v.acts = []) : Step L b k v { v with acts := [.ended] }
  | ack {v : View} {ps : List Phase} (h : v.acts = .entered :: ps) (r : Word) : Step L b k v
      { v with
        acts := .acked ⟨r, v.gic.icdipr (gicIntid r).toNat⟩ :: ps
        log := v.log ++ [.ack r] }
  | call {v : View} {a : Ack} {ps : List Phase} (h : v.acts = .acked a :: ps) :
      Step L b k v { v with acts := .handling a (vApplicationIRQHandler b a.icciar) :: ps }
  | stmt {v : View} {a : Ack} {st : Stmt} {todo : List Stmt} {ps : List Phase}
      (h : v.acts = .handling a (st :: todo) :: ps) (s : Port.St) :
      Step L b k v { v with acts := .handling a todo :: ps, vars := st.run L k s v.vars }
  | back {v : View} {a : Ack} {ps : List Phase} (h : v.acts = .handling a [] :: ps) :
      Step L b k v { v with acts := .handled a :: ps }
  | eoi {v : View} {a : Ack} {ps : List Phase} (h : v.acts = .handled a :: ps) :
      Step L b k v { v with acts := .ended :: ps, log := v.log ++ [.eoi a.icciar] }
  | exit {v : View} {ps : List Phase} (h : v.acts = .ended :: ps) : Step L b k v { v with acts := ps }

/-- What a `vApplicationIRQHandler` has still to run is the rest of its statements. -/
def Coded (b : Bsp) (acts : List Phase) : Prop :=
  ∀ a todo, .handling a todo ∈ acts → todo <:+ vApplicationIRQHandler b a.icciar

theorem Coded.tail {b : Bsp} {p : Phase} {ps : List Phase} (h : Coded b (p :: ps)) : Coded b ps :=
  fun a todo hmem => h a todo (List.mem_cons_of_mem _ hmem)

theorem Coded.cons {b : Bsp} {p : Phase} {ps : List Phase}
    (hp : ∀ a todo, p = .handling a todo → todo <:+ vApplicationIRQHandler b a.icciar)
    (h : Coded b ps) : Coded b (p :: ps) := by
  intro a todo hmem
  rcases List.mem_cons.mp hmem with heq | hmem
  · exact hp a todo heq.symm
  · exact h a todo hmem

theorem Step.coded {L : Layout} {b : Bsp} {k : Linker} {v v' : View} (hs : Step L b k v v')
    (h : Coded b v.acts) : Coded b v'.acts := by
  cases hs with
  | quiet acts => rwa [acts]
  | take => exact h.cons nofun
  | svc hv => exact Coded.cons nofun (hv ▸ h)
  | ack hv r =>
    rw [hv] at h
    exact h.tail.cons nofun
  | call hv =>
    rw [hv] at h
    refine h.tail.cons fun a todo heq => ?_
    cases heq
    exact List.suffix_rfl
  | stmt hv s =>
    rw [hv] at h
    refine h.tail.cons fun a todo heq => ?_
    cases heq
    exact (List.suffix_cons _ _).trans (h _ _ List.mem_cons_self)
  | back hv =>
    rw [hv] at h
    exact h.tail.cons nofun
  | eoi hv =>
    rw [hv] at h
    exact h.tail.cons nofun
  | exit hv =>
    rw [hv] at h
    exact h.tail

/-! ## One activation of a handler -/

/-- The state of the machine, with the phase of the activation that runs in it. -/
abbrev Pair := Port.St × Phase

/-- The handlers, when C functions keep the calling standard and may acknowledge any interrupt. -/
def handlers (L : Layout) (b : Bsp) (t : Trap) : Machine Port.Instr Port.Cond CFun Pair where
  run i x := (i.run L x.1, x.2)
  test c x := c.holds x.1.cpu.cpsr.nzcv
  enter f x := (Port.enter L t f x.1, x.2.called b f (x.1.cpu.get r0))
  returns f e x := Port.Preserved e.1.cpu x.1.cpu ∧
    ∃ a : Ack, a.icciar = x.1.cpu.get r0 ∧ x.2 = e.2.returned f a

/-- In which phase, and with which r0, each C function is called. -/
def Calls (f : CFun) (r : Word) (p : Phase) : Prop :=
  match f with
  | .freeRTOSGetActiveIRQ => p = .entered
  | .vApplicationIRQHandler => ∃ a : Ack, p = .acked a ∧ r = a.icciar
  | .freeRTOSEndOfInterrupt => ∃ a : Ack, p = .handled a ∧ r = a.icciar
  | .vTaskSwitchContext => p = .ended

/-- At a point of the code: IRQs are masked, and the calls are made in order. -/
def At (k : Port.Code) (x : Pair) : Prop :=
  Masked x.1 ∧ ∀ f k', k = .call f k' → Calls f (x.1.cpu.get r0) x.2

abbrev Safe (L : Layout) (b : Bsp) (t : Trap) (k : Port.Code) (x : Pair) : Prop :=
  (handlers L b t).Safe At (fun _ x => x.2 = .ended) k x

/-- No C function but `vTaskSwitchContext` is called. -/
def onlySwitches : Port.Code → Bool
  | .op _ k => onlySwitches k
  | .branch _ yes no => onlySwitches yes && onlySwitches no
  | .call f k => f == .vTaskSwitchContext && onlySwitches k
  | .exit _ => true

section Safe

variable {L : Layout} {b : Bsp} {t : Trap} {s : Port.St} {p : Phase} {k : Port.Code}
  {is : List Port.Instr}

theorem safe_line (hm : Masked s) (hk : Masked (L.runs is s) → Safe L b t k (L.runs is s, p)) :
    Safe L b t (.block is k) (s, p) := by
  induction is generalizing s with
  | nil => exact hk hm
  | cons i is ih => exact ⟨⟨hm, nofun⟩, ih (masked_run hm) hk⟩

/-- Behind the end of the interrupt. -/
theorem safe_ended (hk : onlySwitches k = true) (hm : Masked s) : Safe L b t k (s, .ended) := by
  induction k generalizing s with
  | op i k ih => exact ⟨⟨hm, nofun⟩, ih hk (masked_run hm)⟩
  | branch c yes no ihy ihn =>
    obtain ⟨hy, hn⟩ := (Bool.and_eq_true_iff).mp hk
    exact ⟨⟨hm, nofun⟩, fun _ => ihy hy hm, fun _ => ihn hn hm⟩
  | call f k ih =>
    obtain ⟨hf, hk⟩ := (Bool.and_eq_true_iff).mp hk
    obtain rfl := beq_iff_eq.mp hf
    refine ⟨⟨hm, fun f k' h => ?_⟩, ?_⟩
    · cases h
      rfl
    · rintro ⟨s', p'⟩ ⟨hs, a, -, rfl⟩
      exact ih hk hs.2.2
  | exit e => exact ⟨⟨hm, nofun⟩, rfl⟩

theorem setLr_r (c : Port.Cpu) (v : Word) : (c.setLr v).r = c.r := by
  unfold Port.Cpu.setLr
  split_ifs <;> rfl

theorem enter_r (f : CFun) : (Port.enter L t f s).cpu.r = s.cpu.r := setLr_r _ _

theorem runs_keepIcciar : (L.runs Port.keepIcciar s).cpu.get r0 = s.cpu.get r0 ∧
    (L.runs Port.keepIcciar s).cpu.r 4 = s.cpu.get r0 := by
  have h04 : (0 : Fin 13) ≠ 4 := by decide
  simp only [Port.keepIcciar, Port.runs_cons, Port.runs_nil, Port.run_al, Port.Op.cpu, Port.Cpu.set,
    Port.Operand.value, Port.Cpu.get, Function.update_self, Function.update_of_ne h04, and_self]

theorem runs_maskIrqs : (L.runs Port.maskIrqs s).cpu.get r0 = s.cpu.r 4 := by
  simp only [Port.maskIrqs, Port.runs_cons, Port.runs_nil, Port.run_al, Port.Op.cpu, Port.Cpu.set,
    Port.Operand.value, Port.Cpu.get, Function.update_self]

/-- A call in its phase, with what follows its return. -/
theorem safe_call {f : CFun} (hm : Masked s) (hc : Calls f (s.cpu.get r0) p)
    (hk : ∀ s' a, Masked s' → s'.cpu.r 4 = s.cpu.r 4 → a.icciar = s'.cpu.get r0 →
      Safe L b t k (s', (p.called b f (s.cpu.get r0)).returned f a)) :
    Safe L b t (.call f k) (s, p) := by
  refine ⟨⟨hm, fun f k' h => ?_⟩, ?_⟩
  · cases h
    exact hc
  · rintro ⟨s', p'⟩ ⟨hs, a, ha, rfl⟩
    have h4 : s'.cpu.r 4 = (Port.enter L t f s).cpu.r 4 := hs.2.1 4 (by decide) (by decide)
    rw [enter_r] at h4
    exact hk s' a hs.2.2 h4 ha

/-- **`IRQ_Handler`** carries ICCIAR from its acknowledge to its end of interrupt. -/
theorem irqHandler_safe (fpu : Bool) (hm : Masked s) : Safe L b t (irqHandler fpu) (s, .entered) := by
  refine safe_line hm fun hm => ?_
  refine safe_line hm fun hm => ?_
  refine safe_line hm fun hm => ?_
  refine safe_line hm fun hm => ?_
  refine safe_call hm rfl fun s a hm _ ha => ?_
  obtain ⟨h0, h4⟩ := runs_keepIcciar (L := L) (s := s)
  refine safe_line hm fun hm => ?_
  generalize L.runs Port.keepIcciar s = s₁ at hm h0 h4
  rw [← ha] at h0 h4
  refine safe_call hm ⟨a, rfl, h0⟩ fun s _ hm hr4 _ => ?_
  refine safe_line hm fun hm => ?_
  refine safe_call hm ⟨a, rfl, ?_⟩ fun s _ hm _ _ => safe_ended (by cases fpu <;> decide) hm
  rw [runs_maskIrqs, hr4, h4]

theorem svcHandler_safe (fpu : Bool) (hm : Masked s) : Safe L b t (svcHandler fpu) (s, .ended) :=
  safe_ended (by cases fpu <;> decide) hm

end Safe

/-! ## Frames and activations -/

/-- A C function that was entered in phase `q` runs in phase `p`. -/
def Inside (f : CFun) (s : Port.St) (p q : Phase) : Prop :=
  match f with
  | .vApplicationIRQHandler => ∃ a todo todo₀, q = .handling a todo₀ ∧ p = .handling a todo ∧
      (openAt todo = true ∨ Masked s)
  | _ => p = q ∧ Masked s

/-- Each handler in the stack of frames has its activation. -/
def Fits (L : Layout) (b : Bsp) : List Frame → List Phase → Port.St → Prop
  | [.task], [], _ => True
  | .asm t k o :: fs, p :: ps, s =>
    Safe L b t k (s, p) ∧ Fits L b fs ps o ∧ (fs = [.task] ∨ o.cpu.cpsr.masked = false)
  | .c f e :: .asm t k o :: fs, p :: ps, s =>
    (∃ s₀ p₀, e = Port.enter L t f s₀ ∧ Safe L b t (.call f k) (s₀, p₀) ∧
      Inside f s p (p₀.called b f (s₀.cpu.get r0))) ∧ Fits L b fs ps o ∧
      (fs = [.task] ∨ o.cpu.cpsr.masked = false)
  | _, _, _ => False

section Fits

variable {L : Layout} {b : Bsp} {fs : List Frame} {ps : List Phase} {s s' : Port.St} {f : CFun}
  {p q : Phase}

theorem Fits.cases (h : Fits L b fs ps s) : (fs = [.task] ∧ ps = []) ∨
    (∃ t k o fs' p ps', fs = .asm t k o :: fs' ∧ ps = p :: ps' ∧ Safe L b t k (s, p)) ∨
    ∃ f e t k o fs' p ps', fs = .c f e :: .asm t k o :: fs' ∧ ps = p :: ps' := by
  unfold Fits at h
  split at h
  · exact .inl ⟨rfl, rfl⟩
  · exact .inr (.inl ⟨_, _, _, _, _, _, rfl, rfl, h.1⟩)
  · exact .inr (.inr ⟨_, _, _, _, _, _, _, _, rfl, rfl⟩)
  · exact h.elim

/-- With IRQs enabled a dispatched handler is running. -/
theorem Inside.open (h : Inside f s p q) (hm : s.cpu.cpsr.masked = false) :
    f = .vApplicationIRQHandler ∧ ∃ a todo, p = .handling a todo ∧ openAt todo = true := by
  have hnot : ¬ Masked s := by
    rw [Masked, hm]
    decide
  cases f with
  | vApplicationIRQHandler =>
    obtain ⟨a, todo, -, -, hp, hopen⟩ := h
    exact ⟨rfl, a, todo, hp, hopen.resolve_right hnot⟩
  | _ => exact (hnot h.2).elim

theorem Inside.congr (h : Inside f s p q) (hm : Masked s → Masked s') : Inside f s' p q := by
  cases f with
  | vApplicationIRQHandler =>
    obtain ⟨a, todo, todo₀, hq, hp, hopen⟩ := h
    exact ⟨a, todo, todo₀, hq, hp, hopen.imp_right hm⟩
  | _ => exact ⟨h.1, hm h.2⟩

/-- Both have acknowledged the same interrupt. -/
theorem Inside.returned (h : Inside f s p q) (a : Ack) : p.returned f a = q.returned f a := by
  cases f with
  | vApplicationIRQHandler =>
    obtain ⟨a', todo, todo₀, rfl, rfl, -⟩ := h
    rfl
  | _ => rw [h.1]

/-- The frame below a handler is resumed. -/
theorem Fits.resume {o : Port.St} (h : Fits L b fs ps o) (hfs : fs = [.task] ∨ o.cpu.cpsr.masked = false) :
    Fits L b fs ps s := by
  rcases h.cases with ⟨rfl, rfl⟩ | ⟨t, k, o', fs', p, ps', rfl, rfl, hk⟩ |
    ⟨f, e, t, k, o', fs', p, ps', rfl, rfl⟩
  · trivial
  · rcases hfs with hfs | hmask
    · cases hfs
    · have hmasked : o.cpu.cpsr.masked = true := hk.here.1
      rw [hmask] at hmasked
      cases hmasked
  · rcases hfs with hfs | hmask
    · cases hfs
    · obtain ⟨⟨s₀, p₀, he, hk, hin⟩, hrest⟩ := h
      refine ⟨⟨s₀, p₀, he, hk, hin.congr fun hm => ?_⟩, hrest⟩
      rw [Masked, hmask] at hm
      cases hm

/-- Where an IRQ can be taken. -/
theorem Fits.interruptible (h : Fits L b fs ps s) (hm : s.cpu.cpsr.masked = false) : Interruptible ps := by
  rcases h.cases with ⟨rfl, rfl⟩ | ⟨t, k, o', fs', p, ps', rfl, rfl, hk⟩ |
    ⟨f, e, t, k, o', fs', p, ps', rfl, rfl⟩
  · trivial
  · have hmasked : s.cpu.cpsr.masked = true := hk.here.1
    rw [hm] at hmasked
    cases hmasked
  · obtain ⟨⟨s₀, p₀, -, -, hin⟩, -⟩ := h
    obtain ⟨-, a, todo, rfl, hopen⟩ := hin.open hm
    exact hopen

end Fits

/-! ## The system -/

section System

variable {L : Layout} {fpu : Bool} {b : Bsp} {k : Linker} {σ σ' : Sys} {c c' : Config} {v : View}
  {ev : Event} {act : Act}

/-- A step that changes neither the activations nor the variables. -/
theorem Step.same {v' : View} (h : v' = v) : Step L b k v v' := by
  subst h
  exact .quiet rfl rfl ⟨rfl, fun _ _ => rfl⟩ (.inl rfl)

/-- The invariant. -/
structure Nested (L : Layout) (b : Bsp) (σ : Sys) : Prop where
  fits : Fits L b σ.port.frames σ.view.acts σ.port.st
  coded : Coded b σ.view.acts

/-- A task. -/
theorem step_task {s : Port.St} (hv : v.acts = [])
    (h : Port.next L fpu ⟨s, [.task]⟩ ev = some c') :
    Step L b k v (v.track b ⟨s, [.task]⟩ ev) ∧
      Fits L b c'.frames (v.track b ⟨s, [.task]⟩ ev).acts c'.st := by
  have hfits (s' : Port.St) : Fits L b [.task] v.acts s' := by
    rw [hv]
    trivial
  cases Port.taskStep h with
  | regs g => exact ⟨.same rfl, hfits _⟩
  | store a w => exact ⟨.same rfl, hfits _⟩
  | svc =>
    have hstep : Step L b k v { v with acts := [.ended] } := .svc hv
    have htrack : v.track b ⟨s, [.task]⟩ .svc = { v with acts := [.ended] } := by
      show View.mk (.ended :: v.acts) _ _ _ = _
      rw [hv]
    rw [htrack]
    exact ⟨hstep, svcHandler_safe fpu rfl, trivial, .inl rfl⟩
  | take =>
    refine ⟨.take ?_, irqHandler_safe fpu rfl, hfits _, .inl rfl⟩
    rw [hv]
    trivial

/-- What a call means to the activation that makes it. -/
theorem step_called {f : CFun} {r : Word} {p : Phase} {ps : List Phase} (hv : v.acts = p :: ps)
    (hcall : Calls f r p) :
    Step L b k v { v with acts := p.called b f r :: ps, log := v.log ++ endOfInterrupt f r } := by
  cases f with
  | freeRTOSGetActiveIRQ =>
    exact .quiet hv.symm (List.append_nil _) ⟨rfl, fun _ _ => rfl⟩ (.inl rfl)
  | vApplicationIRQHandler =>
    obtain ⟨a, rfl, rfl⟩ := hcall
    show Step L b k v { v with acts := _, log := v.log ++ [] }
    rw [List.append_nil]
    exact .call hv
  | freeRTOSEndOfInterrupt =>
    obtain ⟨a, rfl, rfl⟩ := hcall
    exact .eoi hv
  | vTaskSwitchContext =>
    exact .quiet hv.symm (List.append_nil _) ⟨rfl, fun _ _ => rfl⟩ (.inl rfl)

theorem inside_called {f : CFun} {r : Word} {p : Phase} {s : Port.St} (hcall : Calls f r p)
    (hm : Masked s) : Inside f s (p.called b f r) (p.called b f r) := by
  cases f with
  | vApplicationIRQHandler =>
    obtain ⟨a, rfl, -⟩ := hcall
    exact ⟨a, _, _, rfl, rfl, .inr hm⟩
  | _ => exact ⟨rfl, hm⟩

/-- One instruction of a handler. -/
theorem step_handler {t : Trap} {k' : Port.Code} {o s : Port.St} {fs : List Frame} {p : Phase}
    {ps : List Phase} (hv : v.acts = p :: ps) (hf : Fits L b (.asm t k' o :: fs) (p :: ps) s)
    (h : Port.next L fpu ⟨s, .asm t k' o :: fs⟩ ev = some c') :
    Step L b k v (v.track b ⟨s, .asm t k' o :: fs⟩ ev) ∧
      Fits L b c'.frames (v.track b ⟨s, .asm t k' o :: fs⟩ ev).acts c'.st := by
  obtain ⟨hk, hrest, hfs⟩ := hf
  have hm : s.cpu.cpsr.masked = true := hk.here.1
  obtain rfl := Port.run_of_next hm h
  cases k' with
  | op i k' =>
    cases h
    refine ⟨.same rfl, ?_⟩
    show Fits L b (.asm t k' o :: fs) v.acts _
    rw [hv]
    exact ⟨hk.2, hrest, hfs⟩
  | branch br yes no =>
    cases h
    refine ⟨.same rfl, ?_⟩
    show Fits L b (.asm t _ o :: fs) v.acts _
    rw [hv]
    refine ⟨?_, hrest, hfs⟩
    split_ifs with hb
    · exact hk.2.1 hb
    · exact hk.2.2 (Bool.eq_false_iff.mpr hb)
  | call f k' =>
    cases h
    have hcall := hk.1.2 f k' rfl
    have hacts : v.acts.modifyHead (.called b f (s.cpu.get r0)) = p.called b f (s.cpu.get r0) :: ps := by
      rw [hv]
      rfl
    have hmasked : Masked (Port.enter L t f s) := by
      rw [Masked, Port.enter, Port.Cpu.setLr_cpsr]
      exact hm
    show Step L b k v { v with
        acts := v.acts.modifyHead (.called b f (s.cpu.get r0))
        log := v.log ++ endOfInterrupt f (s.cpu.get r0) } ∧
      Fits L b _ (v.acts.modifyHead (.called b f (s.cpu.get r0))) _
    rw [hacts]
    exact ⟨step_called hv hcall, ⟨s, p, rfl, hk, inside_called hcall hmasked⟩, hrest, hfs⟩
  | exit e =>
    have hended : p = .ended := hk.2
    subst hended
    have htrack : v.track b ⟨s, .asm t (.exit e) o :: fs⟩ .run = { v with acts := ps } := by
      show View.mk v.acts.tail _ _ _ = _
      rw [hv]
      rfl
    rw [htrack]
    cases e with
    | movsPcLr =>
      cases h
      exact ⟨.exit hv, hrest.resume hfs⟩
    | rfeia =>
      refine ⟨.exit hv, ?_⟩
      rcases hrest.cases with ⟨rfl, rfl⟩ | ⟨_, _, _, _, _, _, rfl, -⟩ | ⟨_, _, _, _, _, _, _, _, rfl, -⟩
      · simp only [Port.next, Port.runHandler] at h
        split_ifs at h
        cases h
        trivial
      · cases h
      · cases h

/-- What the port does inside a C function; `permits` is what the function's own code allows. -/
theorem step_function {f : CFun} {e o s : Port.St} {t : Trap} {k' : Port.Code} {fs : List Frame}
    {p : Phase} {ps : List Phase} (hv : v.acts = p :: ps)
    (hf : Fits L b (.c f e :: .asm t k' o :: fs) (p :: ps) s)
    (hperm : Sys.permits ⟨⟨s, .c f e :: .asm t k' o :: fs⟩, v⟩ ev = true)
    (h : Port.next L fpu ⟨s, .c f e :: .asm t k' o :: fs⟩ ev = some c') :
    Step L b k v (v.track b ⟨s, .c f e :: .asm t k' o :: fs⟩ ev) ∧
      Fits L b c'.frames (v.track b ⟨s, .c f e :: .asm t k' o :: fs⟩ ev).acts c'.st := by
  obtain ⟨⟨s₀, p₀, he, hk, hin⟩, hrest, hfs⟩ := hf
  cases Port.functionStep h with
  | store =>
    refine ⟨.same rfl, ?_⟩
    show Fits L b (.c f e :: .asm t k' o :: fs) v.acts _
    rw [hv]
    exact ⟨⟨s₀, p₀, he, hk, hin.congr id⟩, hrest, hfs⟩
  | regs hsp hmask =>
    refine ⟨.same rfl, ?_⟩
    show Fits L b (.c f e :: .asm t k' o :: fs) v.acts _
    rw [hv]
    refine ⟨⟨s₀, p₀, he, hk, ?_⟩, hrest, hfs⟩
    cases f with
    | vApplicationIRQHandler =>
      obtain ⟨a, todo, todo₀, hq, rfl, hopen⟩ := hin
      refine ⟨a, todo, todo₀, hq, rfl, ?_⟩
      simp only [Sys.permits, hv, Bool.or_eq_true, beq_iff_eq] at hperm
      rcases hperm with hvec | hsame
      · refine .inl ?_
        unfold runsVector at hvec
        split at hvec
        · rfl
        · cases hvec
      · exact hopen.imp_right fun hm => hsame.trans hm
    | _ => exact ⟨hin.1, hmask.resolve_left (by decide)⟩
  | take hm hroom =>
    have hall : Fits L b (.c f e :: .asm t k' o :: fs) (p :: ps) s := ⟨⟨s₀, p₀, he, hk, hin⟩, hrest, hfs⟩
    refine ⟨.take ?_, irqHandler_safe fpu rfl, ?_, .inr hm⟩
    · rw [hv]
      exact hall.interruptible hm
    · rw [hv]
      exact hall
  | ret hpres =>
    generalize ha : (⟨s.cpu.get r0, v.gic.icdipr (gicIntid (s.cpu.get r0)).toNat⟩ : Ack) = a
    have hacts : v.acts.modifyHead (.returned f a) = p.returned f a :: ps := by
      rw [hv]
      rfl
    show Step L b k v { v with
        acts := v.acts.modifyHead (.returned f ⟨s.cpu.get r0, _⟩)
        log := v.log ++ acknowledge f (s.cpu.get r0) } ∧
      Fits L b _ (v.acts.modifyHead (.returned f ⟨s.cpu.get r0, _⟩)) _
    rw [ha, hacts]
    subst he
    have hnext : Safe L b t k' (s, p.returned f a) := by
      refine hk.2 _ ⟨hpres, a, ?_, hin.returned a⟩
      rw [← ha]
    refine ⟨?_, hnext, hrest, hfs⟩
    cases f with
    | freeRTOSGetActiveIRQ =>
      have hentered : p₀ = .entered := hk.1.2 _ _ rfl
      obtain rfl : p = .entered := by
        rw [hin.1, hentered]
        rfl
      rw [← ha]
      exact .ack hv _
    | vApplicationIRQHandler =>
      obtain ⟨a', todo, -, -, rfl, -⟩ := hin
      have hdone : todo = [] := by
        simp only [Sys.permits, hv] at hperm
        exact List.isEmpty_iff.mp hperm
      subst hdone
      show Step L b k v { v with acts := _, log := v.log ++ [] }
      rw [List.append_nil]
      exact .back hv
    | _ => exact .quiet hv.symm (List.append_nil _) ⟨rfl, fun _ _ => rfl⟩ (.inl rfl)

/-- The mask bit behind one statement of `vApplicationIRQHandler`. -/
theorem open_of_stmt {a : Ack} {st : Stmt} {todo : List Stmt}
    (hcode : st :: todo <:+ vApplicationIRQHandler b a.icciar) (h : st.port L fpu c = some c')
    (hin : openAt (st :: todo) = true ∨ Masked c.st) : openAt todo = true ∨ Masked c'.st := by
  have hspecial (hst : st.stage < 7) : b.isSpecial a.icciar = false := by
    by_contra hs
    have := stage_of_special (Bool.eq_true_of_not_eq_false hs) (hcode.subset List.mem_cons_self)
    omega
  have hlater (h3 : 3 ≤ st.stage) (h5 : st.stage < 5) : openAt todo = true := by
    obtain ⟨u, l', rfl, hlt, hle⟩ := next_stage hcode
      (mem_vApplicationIRQHandler (hspecial (by omega)) (.inl rfl)) h5
    have hle : u.stage ≤ 5 := hle
    simp only [openAt, Stmt.isOpen, Bool.and_eq_true, decide_eq_true_eq]
    omega
  cases st with
  | enableIrq => exact .inl (hlater (by decide) (by decide))
  | vector x => exact .inl (hlater (Nat.le_succ 3) (Nat.lt_succ_self 4))
  | badIntid x => exact .inl (hlater (Nat.le_succ 3) (Nat.lt_succ_self 4))
  | disableIrq =>
    refine .inr ?_
    obtain ⟨s, fs⟩ := c
    have hregs : Port.next L fpu ⟨s, fs⟩ (.regs (maskRegs s.cpu true)) = some c' := h
    simp only [Port.next] at hregs
    split at hregs
    · cases hregs
      rfl
    · split_ifs at hregs
      cases hregs
      rfl
    · cases hregs
  | _ =>
    cases h
    exact .inr (hin.resolve_left Bool.false_ne_true)

theorem frames_of_stmt {st : Stmt} (h : st.port L fpu c = some c') : c'.frames = c.frames := by
  have hregs {g : Port.Regs} (h : Port.next L fpu c (.regs g) = some c') : c'.frames = c.frames := by
    simp only [Port.next] at h
    split at h
    · cases h
      rfl
    · split_ifs at h
      cases h
      rfl
    · cases h
  cases st with
  | enableIrq => exact hregs h
  | disableIrq => exact hregs h
  | _ =>
    cases h
    rfl

/-- A statement of the running `vApplicationIRQHandler`. -/
theorem fits_of_stmt {a : Ack} {st : Stmt} {todo : List Stmt} {ps : List Phase} {e s : Port.St}
    {fs : List Frame} (hf : Fits L b (.c .vApplicationIRQHandler e :: fs) (.handling a (st :: todo) :: ps) s)
    (hcode : st :: todo <:+ vApplicationIRQHandler b a.icciar)
    (h : st.port L fpu ⟨s, .c .vApplicationIRQHandler e :: fs⟩ = some c') :
    Fits L b c'.frames (.handling a todo :: ps) c'.st := by
  rw [frames_of_stmt h]
  rcases hf.cases with ⟨hfs, -⟩ | ⟨_, _, _, _, _, _, hfs, -⟩ | ⟨f, e', t, k', o, fs', p, ps', hfs, hps⟩
  · cases hfs
  · cases hfs
  · cases hfs
    obtain ⟨⟨s₀, p₀, he, hk, a', todo', todo₀, hq, hp, hopen⟩, hrest⟩ := hf
    cases hp
    exact ⟨⟨s₀, p₀, he, hk, a, todo, todo₀, hq, rfl, open_of_stmt hcode h hopen⟩, hrest⟩

/-- **Every step of the system is a step of the stack of activations.** -/
theorem step_of_next (hn : Nested L b σ) (h : next L fpu b k σ act = some σ') :
    Step L b k σ.view σ'.view ∧ Nested L b σ' := by
  suffices hgoal : Step L b k σ.view σ'.view ∧ Fits L b σ'.port.frames σ'.view.acts σ'.port.st from
    ⟨hgoal.1, hgoal.2, hgoal.1.coded hn.coded⟩
  obtain ⟨⟨s, fs⟩, v⟩ := σ
  obtain ⟨hf, hc⟩ := hn
  cases actStep_of_next h with
  | port hperm hc =>
    rcases hf.cases with ⟨hfs, hv⟩ | ⟨t, k', o, fs', p, ps, hfs, hv, -⟩ |
      ⟨f, e, t, k', o, fs', p, ps, hfs, hv⟩
    · obtain rfl : fs = _ := hfs
      exact step_task hv hc
    · obtain rfl : fs = _ := hfs
      rw [hv] at hf
      exact step_handler hv hf hc
    · obtain rfl : fs = _ := hfs
      rw [hv] at hf
      exact step_function hv hf hperm hc
  | stmt hfs hv hport =>
    obtain rfl : fs = _ := hfs
    change Fits L b _ v.acts _ at hf
    change Coded b v.acts at hc
    change v.acts = _ at hv
    rw [hv] at hf hc
    exact ⟨.stmt hv s, fits_of_stmt hf (hc _ _ List.mem_cons_self) hport⟩
  | poke ha => exact ⟨.quiet rfl rfl ⟨rfl, fun x hx => Function.update_of_ne (ha x hx) _ _⟩ (.inl rfl), hf⟩
  | cfg => exact ⟨.quiet rfl rfl ⟨rfl, fun _ _ => rfl⟩ (.inr ⟨_, _, _, rfl⟩), hf⟩

end System

end CR8Devkit.Irq
