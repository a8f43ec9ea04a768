import CR8Devkit.Port.Restore
import CR8Devkit.Irq.Ids

/-!
# Nesting is exact

* `Exact`: the invariant of the acknowledges, the interrupt numbers and the counters.
* `NestingExact`: what it says at an end of interrupt, in a dispatched handler and at the check.
* **`nesting_exact`**: over every run of depth at most 32.
-/

namespace CR8Devkit.Irq

open Port (Layout Config Event Frame CFun Trap)
open BlackBox (Linker)
open Transition

/-- A task is running, and no interrupt has been taken yet. -/
structure Boots (σ : Sys) : Prop where
  frames : σ.port.frames = [.task]
  acts : σ.view.acts = []
  log : σ.view.log = []
  pointer : σ.view.vars.pointer = 0
  nestMax : σ.view.vars.mem (.sram .nestMax) = 0
  nestEvents : σ.view.vars.mem (.sram .nestEvents) = 0

/-- The array of interrupt numbers has 32 entries. -/
def shallow (b : Bsp) (σ : Sys) (_ : Act) : Prop := depth b σ.view.acts ≤ 32

instance (b : Bsp) (σ : Sys) (a : Act) : Decidable (shallow b σ a) := inferInstanceAs (Decidable (_ ≤ _))

/-- The invariant. -/
structure Exact (L : Layout) (b : Bsp) (σ : Sys) : Prop extends Nested L b σ where
  below : Below σ.view.acts
  logged : Logged b σ.view
  numbered : Numbered b σ.view
  probed : b.nestProbe = true → Probed b σ.view

/-- What it is for. `matched`, `depth`: the open acknowledges are those of the live activations.
`own`: a dispatched handler reads its own number. `check`: behind the handler the pointer tells a
task from an interrupted handler. `counted`: the counters show the log up to the last probe. -/
structure NestingExact (b : Bsp) (σ : Sys) : Prop where
  matched : replay [] σ.view.log = some (icciars σ.view.acts)
  depth : (tally b σ.view.log).depth = depth b σ.view.acts
  own : ∀ a x todo ps, σ.view.acts = .handling a (.vector x :: todo) :: ps →
    x = (gicIntid a.icciar).toNat ∧ σ.view.vars.pointer ≠ 0 ∧
      σ.view.vars.num (σ.view.vars.pointer.toNat - 1) = BitVec.ofNat 16 x - BitVec.ofNat 16 b.cortexEntries
  check : ∀ a todo ps e t k o fs, σ.view.acts = .handling a (.countDeferred :: todo) :: ps →
    σ.port.frames = .c .vApplicationIRQHandler e :: .asm t k o :: fs →
    if σ.view.vars.pointer = 0 then fs = [.task] else ∃ e' fs', fs = .c .vApplicationIRQHandler e' :: fs'
  counted : b.nestProbe = true →
    σ.view.vars.mem (.sram .nestMax) = BitVec.ofNat 32 (tally b (σ.view.noted b)).max ∧
    σ.view.vars.mem (.sram .nestEvents) = BitVec.ofNat 32 (tally b (σ.view.noted b)).events

section Exact

variable {L : Layout} {fpu : Bool} {b : Bsp} {k : Linker} {σ σ' σ₀ : Sys} {act : Act} {as : List Act}

theorem Boots.exact (h : Boots σ) : Exact L b σ := by
  obtain ⟨⟨s, fs⟩, ⟨acts, vars, gic, log⟩⟩ := σ
  obtain ⟨hfs, hacts, hlog, hpointer, hmax, hevents⟩ := h
  obtain rfl : fs = [.task] := hfs
  obtain rfl : acts = [] := hacts
  obtain rfl : log = [] := hlog
  exact {
    fits := trivial
    coded := nofun
    below := nofun
    logged := ⟨rfl, rfl⟩
    numbered := ⟨congrArg BitVec.toNat hpointer, trivial⟩
    probed := fun _ => ⟨⟨Nat.zero_le _, hmax, hevents⟩, nofun⟩ }

theorem Exact.next (h : Exact L b σ) (hd : depth b σ.view.acts ≤ 32)
    (hs : next L fpu b k σ act = some σ') : Exact L b σ' := by
  obtain ⟨hstep, hn⟩ := step_of_next h.toNested hs
  exact {
    toNested := hn
    below := hstep.below h.below
    logged := log_of_step hstep h.logged
    numbered := ids_of_step hstep h.below h.coded hd h.numbered
    probed := fun hp => counters_of_step hp hstep h.below h.coded hd h.logged h.numbered (h.probed hp) }

theorem exact_of_run (h₀ : Boots σ₀) (hrun : Run (guarded (ofNext (next L fpu b k)) (shallow b)) σ₀ as σ) :
    Exact L b σ :=
  hrun.inv (I := Exact L b) h₀.exact fun h hs => h.next hs.1 hs.2

/-- The interrupted code is a task or a dispatched handler. -/
theorem Fits.interrupted {fs : List Frame} {p : Phase} {ps : List Phase} {e o s : Port.St} {t : Trap}
    {f : CFun} {j : Port.Code} (h : Fits L b (.c f e :: .asm t j o :: fs) (p :: ps) s) :
    if ps = [] then fs = [.task] else ∃ e' fs', fs = .c .vApplicationIRQHandler e' :: fs' := by
  obtain ⟨-, hrest, hfs⟩ := h
  rcases hrest.cases with ⟨rfl, rfl⟩ | ⟨t', j', o', fs', p', ps', rfl, rfl, hk⟩ |
    ⟨f', e', t', j', o', fs', p', ps', rfl, rfl⟩
  · rfl
  · have hm : o.cpu.cpsr.masked = true := hk.here.1
    rw [hfs.resolve_left nofun] at hm
    cases hm
  · obtain ⟨⟨s₀, p₀, -, -, hin⟩, -⟩ := hrest
    obtain ⟨rfl, -⟩ := hin.open (hfs.resolve_left nofun)
    exact ⟨e', _, rfl⟩

/-- In a dispatched handler its own number is the newest. -/
theorem Exact.own (h : Exact L b σ) {a : Ack} {x : ℕ} {todo : List Stmt} {ps : List Phase}
    (hv : σ.view.acts = .handling a (.vector x :: todo) :: ps) :
    x = (gicIntid a.icciar).toNat ∧ σ.view.vars.pointer ≠ 0 ∧
      σ.view.vars.num (σ.view.vars.pointer.toNat - 1) =
        BitVec.ofNat 16 x - BitVec.ofNat 16 b.cortexEntries := by
  have hcode := h.coded
  rw [hv] at hcode
  have hx : x = (gicIntid a.icciar).toNat :=
    eq_of_vector_mem ((hcode _ _ List.mem_cons_self).subset List.mem_cons_self)
  obtain ⟨hpointer, hnum⟩ := h.numbered
  have hheld : (Phase.handling a (.vector x :: todo)).held b = some (b.ident a.icciar) := rfl
  rw [hv, held, List.filterMap_cons_some hheld] at hpointer hnum
  rw [List.length_cons] at hpointer
  refine ⟨hx, fun h0 => ?_, ?_⟩
  · rw [h0] at hpointer
    cases hpointer
  · rw [hpointer, Nat.add_sub_cancel, hnum.1, hx, BitVec.ofNat_toNat, BitVec.setWidth_eq]
    rfl

theorem Exact.check (h : Exact L b σ) {a : Ack} {todo : List Stmt} {ps : List Phase} {e o : Port.St}
    {t : Trap} {j : Port.Code} {fs : List Frame}
    (hv : σ.view.acts = .handling a (.countDeferred :: todo) :: ps)
    (hf : σ.port.frames = .c .vApplicationIRQHandler e :: .asm t j o :: fs) :
    if σ.view.vars.pointer = 0 then fs = [.task]
      else ∃ e' fs', fs = .c .vApplicationIRQHandler e' :: fs' := by
  have hfits := h.fits
  have hbelow := h.below
  have hcoded := h.coded
  have hpointer := h.numbered.pointer
  have hheld : (Phase.handling a (.countDeferred :: todo)).held b = none := rfl
  rw [hv, hf] at hfits
  rw [hv] at hbelow hcoded
  rw [hv, held, List.filterMap_cons_none hheld] at hpointer
  have hlen := (hbelow.lengths hcoded.tail).1
  have hzero : σ.view.vars.pointer = 0 ↔ ps = [] := by
    rw [← List.length_eq_zero_iff, ← hlen, ← BitVec.toNat_inj]
    exact hpointer ▸ Iff.rfl
  have hint := hfits.interrupted
  by_cases hps : ps = []
  · rw [if_pos hps] at hint
    rwa [if_pos (hzero.mpr hps)]
  · rw [if_neg hps] at hint
    rwa [if_neg fun h0 => hps (hzero.mp h0)]

/-- **The acknowledges, the interrupt numbers and the nesting counters** in every run. -/
theorem nesting_exact (h₀ : Boots σ₀)
    (hrun : Run (guarded (ofNext (next L fpu b k)) (shallow b)) σ₀ as σ) : NestingExact b σ := by
  have h := exact_of_run h₀ hrun
  exact {
    matched := h.logged.replay
    depth := h.logged.depth
    own := fun _ _ _ _ hv => h.own hv
    check := fun _ _ _ _ _ _ _ _ hv hf => h.check hv hf
    counted := fun hp => ⟨(h.probed hp).counted.max, (h.probed hp).counted.events⟩ }

end Exact

/-- The firmware's stacks, as the probes know them. -/
def sampleLinker : Linker where
  svcBase := 0x4000
  svcWords := 0x400
  irqBase := 0x6000
  irqWords := 0x400
  sysBase := 0x8000
  sysWords := 0x400

/-- A task runs behind a reset. -/
def sampleSys : Sys where
  port := ⟨Port.sampleTask, [.task]⟩
  view := {
    acts := []
    vars := ⟨fun _ => 0, fun _ => 0⟩
    gic := ⟨fun _ => 0, fun _ => 0, fun _ => 0, fun _ => 0, fun _ => 0, fun _ => 0, fun _ => 0⟩
    log := [] }

/-- `FreeRTOS_GetActiveIRQ` has read ICCIAR. -/
def icciarRegs (icciar : Word) (kept : Fin 13 → Word) (sp : Word) : Port.Regs where
  r := fun i => if i.val = 0 then icciar else kept i
  sp := sp
  lr := 0xa000
  pc := 0xa100
  nzcv := 0
  hi := 0
  masked := true
  ft := 0
  d := fun _ => 0
  fpscr := 0

/-- From the interrupt up to the vector that it is dispatched to. -/
def vectored (g : Port.Regs) : List Act :=
  (Event.take :: .replicate 19 .run ++ [Event.regs g, .ret, .run, .run]).map Act.port ++
    .replicate 4 .stmt

/-- INTID 54 interrupts the handler of INTID 53, and has come and gone. -/
def innerRun : List Act :=
  vectored (icciarRegs 53 (fun i => BitVec.ofNat 32 i) 0x4fdc) ++ [.port (.regs Port.sampleRegs)] ++
    vectored (icciarRegs 54 (fun _ => 0x77) 0x4f5c) ++ .replicate 5 .stmt ++
    (Port.finished 25).map Act.port

/-- The steps of the system at a depth of at most 32. -/
def shallowNext (L : Layout) (fpu : Bool) (b : Bsp) (k : Linker) (σ : Sys) (act : Act) : Option Sys :=
  if shallow b σ act then next L fpu b k σ act else none

/-- The vector that runs. -/
def runningVector : List Phase → Option ℕ
  | .handling _ (.vector x :: _) :: _ => some x
  | _ => none

theorem runningVector_innerRun :
    (exec (shallowNext Port.sample true sampleBsp sampleLinker) sampleSys innerRun).map
      (fun σ => (runningVector σ.view.acts, σ.view.log)) = some (some 53, [.ack 53, .ack 54, .eoi 54]) := by
  decide +kernel

theorem of_runningVector {acts : List Phase} {x : ℕ} (h : runningVector acts = some x) :
    ∃ a todo ps, acts = .handling a (.vector x :: todo) :: ps := by
  unfold runningVector at h
  split at h
  · cases h
    exact ⟨_, _, _, rfl⟩
  · cases h

theorem nesting_exact_innerRun : ∃ σ,
    exec (shallowNext Port.sample true sampleBsp sampleLinker) sampleSys innerRun = some σ ∧
      σ.view.vars.num (σ.view.vars.pointer.toNat - 1) = 21 ∧
      σ.view.vars.mem (.sram .nestMax) = 2 ∧ σ.view.vars.mem (.sram .nestEvents) = 1 := by
  obtain ⟨σ, hexec, hσ⟩ := Option.map_eq_some_iff.mp runningVector_innerRun
  have hexact : NestingExact sampleBsp σ :=
    nesting_exact ⟨rfl, rfl, rfl, rfl, rfl, rfl⟩ (run_of_exec_guarded hexec)
  obtain ⟨a, todo, ps, hacts⟩ := of_runningVector (congrArg Prod.fst hσ)
  have hlog : σ.view.log = [.ack 53, .ack 54, .eoi 54] := congrArg Prod.snd hσ
  have hnoted : σ.view.noted sampleBsp = σ.view.log := by
    rw [View.noted, hacts]
    rfl
  obtain ⟨hmax, hevents⟩ := hexact.counted rfl
  rw [hnoted, hlog] at hmax hevents
  exact ⟨σ, hexec, (hexact.own _ _ _ _ hacts).2.2, hmax, hevents⟩

end CR8Devkit.Irq
