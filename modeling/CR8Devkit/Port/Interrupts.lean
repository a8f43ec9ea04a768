import CR8Devkit.Port.PortASM
import CR8Devkit.Lib.Transition

/-!
# Tasks, interrupts and the C code between them

The processor runs one of a stack of frames: the task, at the bottom, a handler written in assembly,
or a C function called from one. An IRQ is taken wherever it is not masked, and starts a new
activation of `irqHandler` on top; the C code is known by the calling standard only.

* `Layout.UsedFrom`, `Layout.Used`: the used part of the SVC and IRQ stacks, which a C function
  leaves alone.
* `Inside`, `Returns`: a C function entered in one state is or returns in another.
* `next`: one step of the system; `TaskStep`, `FunctionStep`: what the task and a C function can do.
-/

namespace CR8Devkit.Port

open Handler

/-! ## C functions -/

/-- Address `a` lies in the SVC stack, from `sv` on, or in the IRQ stack, from `iq` on. -/
def Layout.UsedFrom (L : Layout) (sv iq : ℕ) (a : Word) : Prop :=
  (L.svcLo ≤ a.toNat ∧ a.toNat < L.svcHi ∧ sv ≤ a.toNat) ∨
    (L.irqLo ≤ a.toNat ∧ a.toNat < L.irqHi ∧ iq ≤ a.toNat)

def Layout.Used (L : Layout) (c : Cpu) (a : Word) : Prop :=
  L.UsedFrom c.spSvc.toNat c.spIrq.toNat a

instance (L : Layout) (c : Cpu) (a : Word) : Decidable (L.Used c a) :=
  inferInstanceAs (Decidable (_ ∨ _))

/-- Between the entry of `f` in state `e` and its return: it keeps the mode and the registers of
other modes, its stack grows downward, and it writes nothing above its entry stack pointer. Only the
dispatched handlers run with IRQs enabled. -/
structure Inside (L : Layout) (f : CFun) (e s : St) : Prop where
  mode : s.cpu.cpsr.mode = e.cpu.cpsr.mode
  masked : f = .vApplicationIRQHandler ∨ s.cpu.cpsr.masked = true
  spSvc : s.cpu.spSvc.toNat ≤ e.cpu.spSvc.toNat
  spIrq : s.cpu.spIrq.toNat ≤ e.cpu.spIrq.toNat
  banked : e.cpu.cpsr.mode = svcMode →
    s.cpu.spIrq = e.cpu.spIrq ∧ s.cpu.spSys = e.cpu.spSys ∧ s.cpu.lrSys = e.cpu.lrSys
  mem : ∀ a, L.Used e.cpu a → s.mem a = e.mem a

/-- The stack pointer and r4 to r11 are back, and IRQs are masked: `bsp_common_interrupt_handler`
masks them behind the handler it has dispatched. -/
def Preserved (e s : Cpu) : Prop :=
  s.sp = e.sp ∧ (∀ i : Fin 13, 4 ≤ i.val → i.val ≤ 11 → s.r i = e.r i) ∧ s.cpsr.masked = true

instance (e s : Cpu) : Decidable (Preserved e s) := inferInstanceAs (Decidable (_ ∧ _ ∧ _))

def Returns (L : Layout) (f : CFun) (e s : St) : Prop := Inside L f e s ∧ Preserved e.cpu s.cpu

/-! ## Handlers -/

inductive Trap
  | irq | svc
  deriving DecidableEq

/-- `BLX f`; switches asked for by `SVC` are not counted. -/
def enter (L : Layout) (t : Trap) (f : CFun) (s : St) : St :=
  { s with
    cpu := s.cpu.setLr (L.ret f)
    switches := if f = .vTaskSwitchContext ∧ t = .irq then s.switches + 1 else s.switches }

/-- The handlers, when a C function entered in `e` may return in any `s` with `R f e s`. -/
def machine (L : Layout) (t : Trap) (R : CFun → St → St → Prop) : Machine Instr Cond CFun St where
  run := Instr.run L
  test := fun c s => c.holds s.cpu.cpsr.nzcv
  enter := enter L t
  returns := R

/-! ## The system -/

/-- A handler with the code still to run and the state it has interrupted; a C function with the
state it was entered in. -/
inductive Frame
  | task
  | asm (t : Trap) (k : Code) (orig : St)
  | c (f : CFun) (entry : St)

/-- The running frame stands first. -/
structure Config where
  st : St
  frames : List Frame

/-- The registers a task or C function may set. -/
structure Regs where
  r : Fin 13 → Word
  sp : Word
  lr : Word
  pc : Word
  nzcv : BitVec 4
  hi : BitVec 20
  masked : Bool
  ft : BitVec 2
  d : Fin 32 → Word
  fpscr : Word

def Cpu.setRegs (c : Cpu) (g : Regs) : Cpu :=
  { (c.setSpOf c.cpsr.mode g.sp).setLr g.lr with
    r := g.r
    pc := g.pc
    cpsr := ⟨g.nzcv, g.hi, g.masked, g.ft, c.cpsr.mode⟩
    d := g.d
    fpscr := g.fpscr }

/-- There is room for one more activation: nine words on the SVC stack, two on the IRQ stack. -/
def Layout.Room (L : Layout) (c : Cpu) : Prop :=
  (L.svcLo + 36 ≤ c.spSvc.toNat ∧ c.spSvc.toNat ≤ L.svcHi) ∧
    L.irqLo + 8 ≤ c.spIrq.toNat ∧ c.spIrq.toNat ≤ L.irqHi

instance (L : Layout) (c : Cpu) : Decidable (L.Room c) := inferInstanceAs (Decidable (_ ∧ _))

/-- `regs` and `store` are steps of the running task or C function, `ret` is a C function's return,
and `run` one instruction of a handler. -/
inductive Event
  | regs (g : Regs)
  | store (a v : Word)
  | svc
  | take
  | run
  | ret

/-- A new tree of interrupts begins when a task is interrupted. -/
def St.begin (L : Layout) (s : St) : List Frame → St
  | [.task] => { s with
      pending := s.mem (L.sym .ulPortYieldRequired) != 0
      asked := false
      switches := 0 }
  | _ => s

def St.store (s : St) (a v : Word) : St := { s with mem := s.mem.store [(a, v)] }

/-- A handler may ask for a context switch. -/
def St.ask (L : Layout) (s : St) (a v : Word) : St :=
  { s with asked := s.asked || (a == L.sym .ulPortYieldRequired && v != 0) }

/-- One instruction of a handler; a context is resumed as a task only. -/
def runHandler (L : Layout) (s : St) : List Frame → Option Config
  | .asm t (.op i k) o :: fs => some ⟨i.run L s, .asm t k o :: fs⟩
  | .asm t (.branch b yes no) o :: fs =>
    some ⟨s, .asm t (if b.holds s.cpu.cpsr.nzcv then yes else no) o :: fs⟩
  | .asm t (.call f k) o :: fs => some ⟨enter L t f s, .c f (enter L t f s) :: .asm t k o :: fs⟩
  | .asm _ (.exit .movsPcLr) o :: fs =>
    some ⟨{ s with cpu := s.cpu.movsPcLr, counted := o.counted }, fs⟩
  | [.asm _ (.exit .rfeia) _, .task] =>
    if (s.cpu.rfeia s.mem).cpsr.mode = sysMode then
      some ⟨{ s with cpu := s.cpu.rfeia s.mem, counted := false }, [.task]⟩
    else none
  | _ => none

def next (L : Layout) (fpu : Bool) (c : Config) : Event → Option Config
  | .regs g =>
    match c.frames with
    | [.task] => some { c with st.cpu := c.st.cpu.setRegs g }
    | .c f e :: _ =>
      if g.sp.toNat ≤ e.cpu.sp.toNat ∧ (f = .vApplicationIRQHandler ∨ g.masked = true) then
        some { c with st.cpu := c.st.cpu.setRegs g }
      else none
    | _ => none
  | .store a v =>
    match c.frames with
    | [.task] => some { c with st := c.st.store a v }
    | .c _ e :: _ => if L.Used e.cpu a then none else some { c with st := (c.st.store a v).ask L a v }
    | _ => none
  | .svc =>
    match c.frames with
    | [.task] => some ⟨{ c.st with cpu := c.st.cpu.svcEntry, counted := false },
        [.asm .svc (svcHandler fpu) c.st, .task]⟩
    | _ => none
  | .take =>
    if c.st.cpu.cpsr.masked = false ∧ L.Room c.st.cpu then
      some ⟨{ c.st.begin L c.frames with cpu := c.st.cpu.irqEntry, counted := false },
        .asm .irq (irqHandler fpu) c.st :: c.frames⟩
    else none
  | .run => runHandler L c.st c.frames
  | .ret =>
    match c.frames with
    | .c _ e :: fs => if Preserved e.cpu c.st.cpu then some ⟨c.st, fs⟩ else none
    | _ => none

/-! ## What each frame can do -/

/-- The task. -/
inductive TaskStep (L : Layout) (fpu : Bool) (s : St) : Event → Config → Prop
  | regs (g : Regs) : TaskStep L fpu s (.regs g) ⟨{ s with cpu := s.cpu.setRegs g }, [.task]⟩
  | store (a v : Word) : TaskStep L fpu s (.store a v) ⟨s.store a v, [.task]⟩
  | svc : TaskStep L fpu s .svc
      ⟨{ s with cpu := s.cpu.svcEntry, counted := false }, [.asm .svc (svcHandler fpu) s, .task]⟩
  | take (hm : s.cpu.cpsr.masked = false) (hroom : L.Room s.cpu) : TaskStep L fpu s .take
      ⟨{ s.begin L [.task] with cpu := s.cpu.irqEntry, counted := false },
        [.asm .irq (irqHandler fpu) s, .task]⟩

/-- A C function, entered in `e`. -/
inductive FunctionStep (L : Layout) (fpu : Bool) (f : CFun) (e : St) (fs : List Frame) (s : St) :
    Event → Config → Prop
  | regs {g : Regs} (hsp : g.sp.toNat ≤ e.cpu.sp.toNat)
      (hm : f = .vApplicationIRQHandler ∨ g.masked = true) :
      FunctionStep L fpu f e fs s (.regs g) ⟨{ s with cpu := s.cpu.setRegs g }, .c f e :: fs⟩
  | store {a v : Word} (hused : ¬ L.Used e.cpu a) :
      FunctionStep L fpu f e fs s (.store a v) ⟨(s.store a v).ask L a v, .c f e :: fs⟩
  | take (hm : s.cpu.cpsr.masked = false) (hroom : L.Room s.cpu) : FunctionStep L fpu f e fs s .take
      ⟨{ s.begin L (.c f e :: fs) with cpu := s.cpu.irqEntry, counted := false },
        .asm .irq (irqHandler fpu) s :: .c f e :: fs⟩
  | ret (hpres : Preserved e.cpu s.cpu) : FunctionStep L fpu f e fs s .ret ⟨s, fs⟩

section Steps

variable {L : Layout} {fpu : Bool} {t : Trap} {k : Code} {f : CFun} {e o s : St} {fs : List Frame}
  {ev : Event} {c : Config}

theorem taskStep (h : next L fpu ⟨s, [.task]⟩ ev = some c) : TaskStep L fpu s ev c := by
  cases ev with
  | regs g =>
    cases h
    exact .regs g
  | store a v =>
    cases h
    exact .store a v
  | svc =>
    cases h
    exact .svc
  | take =>
    simp only [next] at h
    split_ifs at h with htake
    cases h
    exact .take htake.1 htake.2
  | run => cases h
  | ret => cases h

theorem functionStep (h : next L fpu ⟨s, .c f e :: fs⟩ ev = some c) : FunctionStep L fpu f e fs s ev c := by
  cases ev with
  | regs g =>
    simp only [next] at h
    split_ifs at h with hregs
    cases h
    exact .regs hregs.1 hregs.2
  | store a v =>
    simp only [next] at h
    split_ifs at h with hused
    cases h
    exact .store hused
  | svc => cases h
  | take =>
    simp only [next] at h
    split_ifs at h with htake
    cases h
    exact .take htake.1 htake.2
  | run => cases h
  | ret =>
    simp only [next] at h
    split_ifs at h with hpres
    cases h
    exact .ret hpres

/-- With IRQs masked a handler can only run on. -/
theorem run_of_next (hm : s.cpu.cpsr.masked = true) (h : next L fpu ⟨s, .asm t k o :: fs⟩ ev = some c) :
    ev = .run := by
  cases ev with
  | run => rfl
  | take =>
    simp only [next] at h
    split_ifs at h with htake
    rw [hm] at htake
    cases htake.1
  | regs g => cases h
  | store a v => cases h
  | svc => cases h
  | ret => cases h

end Steps

end CR8Devkit.Port
