import CR8Devkit.Port.Framing
import CR8Devkit.Irq.Priority
import CR8Devkit.BlackBox.Guard

/-!
# The guard over runs of nested interrupts

* `Activation`: one interrupt, with what `IRQ_Handler` saves for it; `Activation.onStacks`: the
  handler of the port does save it there.
* `move`: the activations come and go last in first out, other code stores between them, and the
  pump calibrates.
* `Moved`: what a step can do; `Inv`, `Inv.move`: what every step keeps.
* **`guard_exact`**: once its offset is captured the guard checks the word that its own activation
  has pushed.
-/

namespace CR8Devkit.BlackBox

open Access Access.Prog Transition

/-! ## Activations -/

/-- `and r2, sp, #4` behind `PUSH {r0-r4, r12, lr}`. -/
def alignPad (sp : Word) : Word := (sp - 28) &&& 4

/-- Where `PUSH {r2}` stores it. -/
def alignWord (sp : Word) : Word := sp - 28 - alignPad sp - 4

/-- One interrupt: the value read from ICCIAR, its priority byte (none for a special INTID), and
`sp_svc`, `sp_irq`, CPSR and PC of what it interrupts. -/
structure Activation where
  icciar : Word
  rank : Option (BitVec 8)
  spSvc : Word
  spIrq : Word
  cpsr : Word
  pc : Word

namespace Activation

variable (a : Activation)

/-- The address of its alignment word. -/
def word : Word := alignWord a.spSvc

/-- The address of its SPSR, below the return address. -/
def frame : Word := a.spIrq - 8

/-- The interrupt that is taken in a state of the processor. -/
def ofTaken (icciar : Word) (rank : Option (BitVec 8)) (o : Port.St) : Activation where
  icciar := icciar
  rank := rank
  spSvc := o.cpu.spSvc
  spIrq := o.cpu.spIrq
  cpsr := o.cpu.cpsr.toWord
  pc := o.cpu.pc

/-- What the handler of the port has saved when the C code runs. -/
theorem onStacks {icciar : Word} {rank : Option (BitVec 8)} {o e s : Port.St} (h : Port.OnStacks o e s) :
    e.cpu.spSvc = (ofTaken icciar rank o).word ∧ s.cpu.spIrq = (ofTaken icciar rank o).frame ∧
      s.mem (ofTaken icciar rank o).word = alignPad (ofTaken icciar rank o).spSvc ∧
      Port.loads s.mem (ofTaken icciar rank o).frame 2 =
        [(ofTaken icciar rank o).cpsr, (ofTaken icciar rank o).pc] := by
  have hword : e.cpu.spSvc = (ofTaken icciar rank o).word := h.spSvc
  have hframe : e.cpu.spIrq = (ofTaken icciar rank o).frame := h.spIrq
  rw [← hword, ← hframe]
  exact ⟨rfl, h.kept, h.padWord, h.irqWords⟩

end Activation

/-- What is fixed in a run: the stacks, the distance from `sp` at `BLX vApplicationIRQHandler` to
`sp` in the guard, and `sp_svc` while a task runs. -/
structure Setup where
  linker : Linker
  distance : Word
  rest : Word

/-- The registers that the guard reads. -/
def Setup.guard (p : Setup) (a : Activation) : Guard := ⟨a.icciar, a.word - p.distance, a.frame⟩

/-- `IRQ_Handler` up to `BLX vApplicationIRQHandler`, as far as the guard reads the stacks. -/
def saveFrame (a : Activation) (m : Mem) : Mem :=
  Function.update (Function.update (Function.update m (.word (a.frame + 4).toNat) a.pc)
    (.word a.frame.toNat) a.cpsr) (.word a.word.toNat) (alignPad a.spSvc)

def setPointer (f : BitVec 8 → BitVec 8) (m : Mem) : Mem :=
  Function.update m (.sram .currentInterruptPointer)
    ((f ((m (.sram .currentInterruptPointer)).setWidth 8)).setWidth 32)

/-- `g_current_interrupt_pointer++`, unless the INTID is special. -/
def remain (a : Activation) (m : Mem) : Mem := if a.rank.isSome then setPointer (· + 1) m else m

/-- `g_current_interrupt_pointer--` -/
def release (a : Activation) (m : Mem) : Mem := if a.rank.isSome then setPointer (· - 1) m else m

section Statements

variable (L : Port.Layout) (k : Linker) (s : Port.St) (v : Irq.Vars) {a : Activation}

/-- They are the statements of `bsp_common_interrupt_handler`. -/
theorem remain_run (ha : a.rank.isSome = true) (n : BitVec 16) :
    ((Irq.Stmt.remain n).run L k s v).mem = remain a v.mem := (if_pos ha).symm

theorem release_run (ha : a.rank.isSome = true) : (Irq.Stmt.release.run L k s v).mem = release a v.mem :=
  (if_pos ha).symm

/-- And the guard is called on the frame that the handler has saved. -/
theorem guard_run {p : Setup} {o e : Port.St} {rank : Option (BitVec 8)} {i : Word} (h : Port.OnStacks o e s)
    (hsp : s.cpu.sp = e.cpu.spSvc - p.distance) : ((Irq.Stmt.irqGuard i).run L k s v).mem =
      ((r8IrqGuard k (p.guard (.ofTaken i rank o))).exec v.mem).2 := by
  obtain ⟨hword, hframe, -⟩ := Activation.onStacks h
  rw [Setup.guard, ← hword, ← hframe, ← hsp]
  rfl

end Statements

/-! ## Runs -/

/-- The memory and the activations, innermost first; and a log of the damaged words that have been
checked, and of all calls of the guard. -/
structure Sys where
  mem : Mem
  active : List Activation
  damaged : List Damage
  rows : List Row

/-- `store` is a store of any other code, `enter` ends at the dispatched handler, and `leave` is the
rest of `vApplicationIRQHandler`, with IRQs masked. -/
inductive Move
  | calibrate
  | store (c : Loc) (v : Word)
  | enter (a : Activation)
  | leave

/-- The cells that no other code stores to. -/
def Loc.owned : Loc → Bool
  | .bb f => f == .version || f.tells
  | .sram v => v == .wordAddr || v == .wordOff || v == .currentInterruptPointer || v == .irqLast || v.inRing
  | _ => false

/-- The priority bytes of the active interrupts. -/
def ranks (as : List Activation) : List (BitVec 8) := as.filterMap (·.rank)

/-- An interrupt that the controller signals: of a configured priority byte, lower than all active
ones, or with a special INTID. It is taken from a task at rest, or in a dispatched handler. -/
def enters (p : Setup) (active : List Activation) (a : Activation) : Bool :=
  8 ≤ a.spIrq.toNat && (a.rank.all fun r => r.toNat % 16 == 0 && (ranks active).all fun x => r < x) &&
    match active with
    | [] => a.spSvc == p.rest
    | b :: _ => b.rank.isSome && a.spIrq == b.frame

/-- The alignment word of an activation is checked: the address is calibrated, and the offset
captured or to be captured now. -/
def Checked (m : Mem) (below : List Activation) : Prop :=
  m (.sram .wordAddr) ≠ 0 ∧ (m (.sram .wordOff) ≠ 0 ∨ below = [])

instance (m : Mem) (below : List Activation) : Decidable (Checked m below) :=
  inferInstanceAs (Decidable (_ ∧ (_ ∨ below = [])))

/-- The ICCIAR of the last call. -/
def lastIcciar (rows : List Row) : Word := (rows.getLast?.map Row.icciar).getD 0

/-- The record of a call in memory `m`. -/
def rowFor (p : Setup) (a : Activation) (below : List Activation) (m : Mem) : Row where
  icciar := a.icciar
  sp := a.word - p.distance
  depth := BitVec.ofNat 32 below.length
  addr := if m (.sram .wordOff) = 0 then a.word - p.distance else a.word
  val := if m (.sram .wordOff) = 0 then 0 else m (.word a.word.toNat)
  spIrq := a.frame
  spsr := m (.word a.frame.toNat)
  ret := m (.word (a.frame + 4).toNat)

/-- What is wrong with a damaged word. -/
def damageFor (p : Setup) (a : Activation) (s : Sys) (below : List Activation) : Damage where
  icciar := a.icciar
  got := s.mem (.word a.word.toNat)
  sp := a.word - p.distance
  depth := BitVec.ofNat 32 below.length
  prev := lastIcciar s.rows

/-- The end of the innermost activation. -/
def Sys.leave (p : Setup) (s : Sys) (a : Activation) (below : List Activation) : Sys where
  mem := ((r8IrqGuard p.linker (p.guard a)).exec (release a s.mem)).2
  active := below
  damaged :=
    if Checked s.mem below ∧ ¬ Intact (s.mem (.word a.word.toNat)) then
      s.damaged ++ [damageFor p a s below]
    else s.damaged
  rows := s.rows ++ [rowFor p a below s.mem]

def move (p : Setup) (s : Sys) : Move → Option Sys
  | .calibrate =>
    match s.active with
    | [] => some { s with mem := ((r8IrqGuardCalibrate p.linker p.rest).exec s.mem).2 }
    | _ => none
  | .store c v => if c.owned then none else some { s with mem := Function.update s.mem c v }
  | .enter a =>
    if enters p s.active a then
      some { s with mem := remain a (saveFrame a s.mem), active := a :: s.active }
    else none
  | .leave =>
    match s.active with
    | [] => none
    | a :: below => some (s.leave p a below)

/-- Behind `r8_blackbox_init`, before the first interrupt. -/
structure Starts (s : Sys) : Prop where
  ready : Ready s.mem
  version : s.mem (.bb .version) = r8BbVersion
  irqBad : s.mem (.bb .irqBad) = 0
  irqSeen : s.mem (.bb .irqSeen) = 0
  sram : ∀ v : Sram, (Loc.sram v).owned = true → s.mem (.sram v) = 0
  active : s.active = []
  damaged : s.damaged = []
  rows : s.rows = []

/-! ## The invariant -/

variable {p : Setup} {s s' s₀ : Sys} {a b : Activation} {as below : List Activation} {m m' : Mem}
  {mv : Move} {mvs : List Move}

/-- Only the innermost activation may be one of a special INTID, the outermost has interrupted a
task at rest, and the pointer counts those in the array of interrupt numbers. -/
structure Nested (p : Setup) (active : List Activation) (m : Mem) : Prop where
  pointer : m (.sram .currentInterruptPointer) = BitVec.ofNat 32 (ranks active).length
  sorted : (ranks active).Pairwise (· < ·)
  aligned : ∀ x ∈ ranks active, x.toNat % 16 = 0
  deep : ∀ b ∈ active.tail, b.rank.isSome = true
  bottom : ∀ a, active.getLast? = some a → a.spSvc = p.rest

structure Inv (p : Setup) (s : Sys) : Prop extends Nested p s.active s.mem where
  box : Counted s.mem s.damaged
  last : s.mem (.sram .irqLast) = lastIcciar s.rows
  addr : s.mem (.sram .wordAddr) = 0 ∨ s.mem (.sram .wordAddr) = alignWord p.rest
  off : s.mem (.sram .wordOff) = 0 ∨ s.mem (.sram .wordOff) = p.distance ∧ s.mem (.sram .wordAddr) ≠ 0

theorem Starts.inv (h : Starts s) : Inv p s where
  pointer := by
    rw [h.active, h.sram _ rfl]
    rfl
  sorted := by
    rw [h.active]
    exact .nil
  aligned := by
    rw [h.active]
    exact nofun
  deep := by
    rw [h.active]
    exact nofun
  bottom := by
    rw [h.active]
    exact nofun
  box := by
    rw [h.damaged]
    exact ⟨h.ready, h.irqBad, iff_of_true h.irqSeen rfl, nofun⟩
  last := by
    rw [h.rows, h.sram _ rfl]
    rfl
  addr := .inl (h.sram _ rfl)
  off := .inl (h.sram _ rfl)

theorem Nested.length_le (h : Nested p as m) : (ranks as).length ≤ 16 := by
  have := Irq.length_le_of_aligned 0 h.sorted h.aligned rfl (Nat.zero_le _) fun _ _ => Nat.zero_le _
  omega

theorem ranks_cons (a : Activation) (as : List Activation) :
    (ranks (a :: as)).length = (ranks as).length + a.rank.isSome.toNat := by
  cases h : a.rank <;> simp [ranks, h]

theorem length_ranks (h : ∀ b ∈ as, b.rank.isSome = true) : (ranks as).length = as.length := by
  induction as with
  | nil => rfl
  | cons b as ih =>
    obtain ⟨hb, has⟩ := List.forall_mem_cons.mp h
    rw [ranks_cons, ih has, hb, List.length_cons]
    rfl

/-- A store to another cell. -/
theorem update_owned {c d : Loc} {v : Word} (hc : c.owned = false) (hd : d.owned = true) :
    Function.update m c v d = m d := by
  refine Function.update_of_ne ?_ _ _
  rintro rfl
  rw [hc] at hd
  cases hd

/-! ### The pointer -/

theorem setPointer_pointer {n n' : ℕ} {f : BitVec 8 → BitVec 8}
    (h : m (.sram .currentInterruptPointer) = BitVec.ofNat 32 n)
    (hf : f (BitVec.ofNat 8 n) = BitVec.ofNat 8 n')
    (hn : n' < 256) : setPointer f m (.sram .currentInterruptPointer) = BitVec.ofNat 32 n' := by
  have hcut : (BitVec.ofNat 32 n).setWidth 8 = BitVec.ofNat 8 n := by
    apply BitVec.eq_of_toNat_eq
    rw [BitVec.toNat_setWidth, BitVec.toNat_ofNat, BitVec.toNat_ofNat]
    omega
  rw [setPointer, Function.update_self, h, hcut, hf]
  apply BitVec.eq_of_toNat_eq
  rw [BitVec.toNat_setWidth, BitVec.toNat_ofNat, BitVec.toNat_ofNat]
  omega

theorem setPointer_of_ne {f : BitVec 8 → BitVec 8} {c : Loc} (hc : c ≠ .sram .currentInterruptPointer) :
    setPointer f m c = m c := Function.update_of_ne hc _ _

theorem remain_of_ne {c : Loc} (hc : c ≠ .sram .currentInterruptPointer) : remain a m c = m c := by
  unfold remain
  split_ifs
  · exact setPointer_of_ne hc
  · rfl

theorem release_of_ne {c : Loc} (hc : c ≠ .sram .currentInterruptPointer) : release a m c = m c := by
  unfold release
  split_ifs
  · exact setPointer_of_ne hc
  · rfl

theorem remain_pointer {n : ℕ} (h : m (.sram .currentInterruptPointer) = BitVec.ofNat 32 n) (hn : n ≤ 16) :
    remain a m (.sram .currentInterruptPointer) = BitVec.ofNat 32 (n + a.rank.isSome.toNat) := by
  unfold remain
  cases a.rank.isSome with
  | true =>
    have hadd : BitVec.ofNat 8 n + 1 = BitVec.ofNat 8 (n + 1) := (BitVec.ofNat_add n 1).symm
    have hlt : n + 1 < 256 := by omega
    exact setPointer_pointer (f := (· + 1)) h hadd hlt
  | false => exact h

theorem release_pointer {n : ℕ}
    (h : m (.sram .currentInterruptPointer) = BitVec.ofNat 32 (n + a.rank.isSome.toNat)) (hn : n ≤ 16) :
    release a m (.sram .currentInterruptPointer) = BitVec.ofNat 32 n := by
  unfold release
  cases hr : a.rank.isSome with
  | true =>
    rw [hr] at h
    have hsub : BitVec.ofNat 8 (n + 1) - 1 = BitVec.ofNat 8 n := by
      rw [BitVec.ofNat_add]
      exact BitVec.add_sub_cancel _ _
    exact setPointer_pointer (f := (· - 1)) h hsub (by omega)
  | false =>
    rw [hr] at h
    exact h

/-- Behind `release` the pointer counts the activations below. -/
theorem Nested.released (h : Nested p (a :: below) m) :
    release a m (.sram .currentInterruptPointer) = BitVec.ofNat 32 below.length ∧ below.length ≤ 16 := by
  have hpointer := h.pointer
  have hle := h.length_le
  have hlen : (ranks below).length = below.length := length_ranks h.deep
  rw [ranks_cons, hlen] at hpointer hle
  exact ⟨release_pointer hpointer (by omega), by omega⟩

/-- It tells a task from an interrupted handler. -/
theorem Nested.released_eq_zero (h : Nested p (a :: below) m) :
    release a m (.sram .currentInterruptPointer) = 0 ↔ below = [] := by
  obtain ⟨hpointer, hlen⟩ := h.released
  rw [hpointer, ← BitVec.toNat_inj, BitVec.toNat_ofNat, ← List.length_eq_zero_iff]
  show _ % _ = 0 ↔ _
  omega

/-! ### The steps -/

/-- Stores elsewhere, and the calibration of the address. -/
theorem Inv.stores (h : Inv p s) (hm : ∀ c : Loc, c.owned = true → c ≠ .sram .wordAddr → m c = s.mem c)
    (ha : m (.sram .wordAddr) = s.mem (.sram .wordAddr) ∨
      s.mem (.sram .wordAddr) = 0 ∧ m (.sram .wordAddr) = alignWord p.rest) :
    Inv p { s with mem := m } where
  pointer := (hm _ rfl (by decide)).trans h.pointer
  sorted := h.sorted
  aligned := h.aligned
  deep := h.deep
  bottom := h.bottom
  box := h.box.congr fun f hf => hm (.bb f) (by simp [Loc.owned, hf]) (by simp)
  last := (hm _ rfl (by decide)).trans h.last
  addr := by
    rcases ha with ha | ⟨-, ha⟩
    · exact h.addr.imp ha.trans ha.trans
    · exact .inr ha
  off := by
    have hoff : m (.sram .wordOff) = s.mem (.sram .wordOff) := hm _ rfl (by decide)
    rcases ha with ha | ⟨hzero, -⟩
    · exact h.off.imp hoff.trans fun h => ⟨hoff.trans h.1, fun h0 => h.2 (ha.symm.trans h0)⟩
    · exact .inl (hoff.trans (h.off.resolve_right fun h => h.2 hzero))

/-- What the calibration may store to. -/
def Loc.calibrated : Loc → Bool
  | .bb f => !(Loc.bb f).owned
  | .sram v => v == .wordExp || v == .wordAddr
  | _ => false

def CalibrateCell (c : Loc) : Prop := c.calibrated = true

/-- The calibration leaves everything else alone. -/
theorem calibrate_keeps (k : Linker) (rest : Word) {c : Loc} (hc : c.calibrated = false) :
    ((r8IrqGuardCalibrate k rest).exec m).2 c = m c := by
  have hmirrors : ∀ x ∈ calibrateMirrors, CalibrateCell (.bb x.1) := by
    unfold CalibrateCell
    decide
  refine exec_frame (P := CalibrateCell) ?_ (by simp [CalibrateCell, hc])
  exact storesIn_ite (fun _ => (storesIn_noteRestMin (P := CalibrateCell) rest rfl).bind fun _ =>
    (storesIn_noteRestMax (P := CalibrateCell) rest rfl).bind fun _ =>
    (storesIn_mirror _ hmirrors).bind fun _ =>
    storesIn_calibrateOnce (P := CalibrateCell) rest rfl rfl rfl rfl rfl) fun _ => trivial

theorem calibrated_of_owned {c : Loc} (hc : c.owned = true) (hne : c ≠ .sram .wordAddr) :
    c.calibrated = false := by
  cases c with
  | bb f => simp [Loc.calibrated, hc]
  | sram v => cases v <;> first | rfl | exact absurd rfl hne | cases hc
  | char s i => rfl
  | word i => rfl

/-- **The calibration** happens once. -/
theorem calibrate_addr (k : Linker) (rest : Word) (m : Mem) :
    ((r8IrqGuardCalibrate k rest).exec m).2 (.sram .wordAddr) = m (.sram .wordAddr) ∨
      m (.sram .wordAddr) = 0 ∧ ((r8IrqGuardCalibrate k rest).exec m).2 (.sram .wordAddr) =
        alignWord rest := by
  by_cases hin : k.InSvc rest
  · obtain ⟨m₁, hm₁, hexec⟩ : ∃ m₁ : Mem, m₁ (.sram .wordAddr) = m (.sram .wordAddr) ∧
        ((r8IrqGuardCalibrate k rest).exec m).2 = ((calibrateOnce rest).exec m₁).2 := by
      have hfront : (do noteRestMin rest
                        noteRestMax rest
                        mirror calibrateMirrors : Code Unit).StoresIn fun c => ∃ f, c = .bb f :=
        (storesIn_noteRestMin rest ⟨_, rfl⟩).bind fun _ => (storesIn_noteRestMax rest ⟨_, rfl⟩).bind fun _ =>
          storesIn_mirror _ fun x _ => ⟨x.1, rfl⟩
      refine ⟨_, exec_frame hfront (by simp), ?_⟩
      unfold r8IrqGuardCalibrate
      rw [if_pos hin]
      simp only [exec_bind]
    rw [hexec, ← hm₁]
    by_cases hz : m₁ (.sram .wordAddr) = 0
    · refine .inr ⟨hz, ?_⟩
      refine (congrArg (fun c : Code Unit => (c.exec m₁).2 (.sram .wordAddr)) (if_neg ?_)).trans ?_
      · exact not_not_intro hz
      · simp only [exec_bind, Prog.exec, Prog.set, Function.update_self]
        rfl
    · exact .inl (congrArg (fun c : Code Unit => (c.exec m₁).2 (.sram .wordAddr)) (if_pos hz))
  · refine .inl ?_
    unfold r8IrqGuardCalibrate
    rw [if_neg hin]
    rfl

/-- What `enters` asks for. -/
structure Entering (p : Setup) (active : List Activation) (a : Activation) : Prop where
  room : 8 ≤ a.spIrq.toNat
  rank : ∀ r, a.rank = some r → r.toNat % 16 = 0 ∧ ∀ x ∈ ranks active, r < x
  task : active = [] → a.spSvc = p.rest
  nested : ∀ b bs, active = b :: bs → b.rank.isSome = true ∧ a.spIrq = b.frame

theorem entering (h : enters p as a = true) : Entering p as a := by
  simp only [enters, Bool.and_eq_true, decide_eq_true_eq] at h
  obtain ⟨⟨hroom, hrank⟩, hmatch⟩ := h
  refine ⟨hroom, fun r hr => ?_, ?_, ?_⟩
  · rw [hr] at hrank
    simpa using hrank
  · rintro rfl
    simpa using hmatch
  · rintro b bs rfl
    simpa using hmatch

/-- What a step can do. -/
inductive Moved (p : Setup) (s : Sys) : Move → Sys → Prop
  | calibrate (h : s.active = []) :
    Moved p s .calibrate { s with mem := ((r8IrqGuardCalibrate p.linker p.rest).exec s.mem).2 }
  | store {c : Loc} {v : Word} (h : c.owned = false) :
    Moved p s (.store c v) { s with mem := Function.update s.mem c v }
  | enter {a : Activation} (h : Entering p s.active a) :
    Moved p s (.enter a) { s with mem := remain a (saveFrame a s.mem), active := a :: s.active }
  | leave {a : Activation} {below : List Activation} (h : s.active = a :: below) :
    Moved p s .leave (s.leave p a below)

theorem moved (hs : move p s mv = some s') : Moved p s mv s' := by
  cases mv with
  | calibrate =>
    simp only [move] at hs
    split at hs
    · cases hs
      exact .calibrate ‹_›
    · cases hs
  | store c v =>
    simp only [move] at hs
    split_ifs at hs with hc
    cases hs
    exact .store (Bool.eq_false_of_not_eq_true hc)
  | enter a =>
    simp only [move] at hs
    split_ifs at hs with he
    cases hs
    exact .enter (entering he)
  | leave =>
    simp only [move] at hs
    split at hs
    · cases hs
    · cases hs
      exact .leave ‹_›

theorem saveFrame_of_ne {c : Loc} (hc : ∀ i, c ≠ .word i) : saveFrame a m c = m c := by
  unfold saveFrame
  rw [Function.update_of_ne (hc _), Function.update_of_ne (hc _), Function.update_of_ne (hc _)]

theorem Nested.enter (h : Nested p as m) (he : Entering p as a) :
    Nested p (a :: as) (remain a (saveFrame a m)) where
  pointer := by
    have hpointer : saveFrame a m (.sram .currentInterruptPointer) = BitVec.ofNat 32 (ranks as).length := by
      rw [saveFrame_of_ne fun _ => by simp, h.pointer]
    rw [ranks_cons, remain_pointer hpointer h.length_le]
  sorted := by
    cases hr : a.rank with
    | none => simpa [ranks, hr] using h.sorted
    | some r =>
      have hcons : ranks (a :: as) = r :: ranks as := List.filterMap_cons_some hr
      rw [hcons]
      exact List.pairwise_cons.mpr ⟨(he.rank r hr).2, h.sorted⟩
  aligned := by
    cases hr : a.rank with
    | none => simpa [ranks, hr] using h.aligned
    | some r =>
      have hcons : ranks (a :: as) = r :: ranks as := List.filterMap_cons_some hr
      rw [hcons]
      exact List.forall_mem_cons.mpr ⟨(he.rank r hr).1, h.aligned⟩
  deep := by
    intro b hb
    cases as with
    | nil => cases hb
    | cons c cs =>
      rcases List.mem_cons.mp hb with rfl | hb
      · exact (he.nested _ _ rfl).1
      · exact h.deep b hb
  bottom := by
    intro b hb
    cases as with
    | nil =>
      obtain rfl : a = b := Option.some.inj hb
      exact he.task rfl
    | cons c cs => exact h.bottom b (by rwa [List.getLast?_cons_cons] at hb)

/-- **An interrupt is taken.** -/
theorem Inv.enter (h : Inv p s) (he : Entering p s.active a) :
    Inv p { s with mem := remain a (saveFrame a s.mem), active := a :: s.active } := by
  have hkeep : ∀ c : Loc, c ≠ .sram .currentInterruptPointer → (∀ i, c ≠ .word i) →
      remain a (saveFrame a s.mem) c = s.mem c := fun c hc hi => by
    rw [remain_of_ne hc, saveFrame_of_ne hi]
  have haddr := hkeep (.sram .wordAddr) (by decide) (by simp)
  have hoff := hkeep (.sram .wordOff) (by decide) (by simp)
  exact {
    toNested := h.toNested.enter he
    box := h.box.congr fun f _ => hkeep _ (by simp) (by simp)
    last := (hkeep _ (by decide) (by simp)).trans h.last
    addr := h.addr.imp haddr.trans haddr.trans
    off := h.off.imp hoff.trans fun h => ⟨hoff.trans h.1, fun h0 => h.2 (haddr.symm.trans h0)⟩ }

theorem Nested.leave (h : Nested p (a :: below) m)
    (hp : m' (.sram .currentInterruptPointer) = BitVec.ofNat 32 below.length) : Nested p below m' where
  pointer := by
    have hlen : (ranks below).length = below.length := length_ranks h.deep
    rw [hp, hlen]
  sorted := h.sorted.sublist ((List.sublist_cons_self a below).filterMap _)
  aligned := fun x hx => h.aligned x (((List.sublist_cons_self a below).filterMap _).subset hx)
  deep := fun b hb => h.deep b (List.mem_of_mem_tail hb)
  bottom := by
    intro b hb
    cases below with
    | nil => cases hb
    | cons c cs => exact h.bottom b (by rwa [List.getLast?_cons_cons])

/-- The word that is checked is the one that the activation has pushed. -/
theorem Inv.checks (h : Inv p s) (ha : s.active = a :: below) :
    if Checked s.mem below then Checks (p.guard a) (release a s.mem) a.word
    else Skips (release a s.mem) := by
  have hnest := h.toNested
  rw [ha] at hnest
  have hzero := hnest.released_eq_zero
  have haddr : release a s.mem (.sram .wordAddr) = s.mem (.sram .wordAddr) := release_of_ne (by decide)
  have hoff : release a s.mem (.sram .wordOff) = s.mem (.sram .wordOff) := release_of_ne (by decide)
  split_ifs with hc
  · obtain ⟨hcal, hcap⟩ := hc
    refine ⟨by rwa [haddr], ?_⟩
    rw [hoff, haddr, hzero]
    split_ifs with h0
    · obtain rfl : below = [] := hcap.resolve_left (not_not_intro h0)
      have hrest : a.spSvc = p.rest := hnest.bottom a rfl
      refine ⟨rfl, ?_⟩
      rw [h.addr.resolve_left hcal, Activation.word, hrest]
    · rw [(h.off.resolve_left h0).1]
      exact BitVec.sub_add_cancel _ _
  · unfold Checked at hc
    unfold Skips
    rw [hoff, haddr, Ne, hzero]
    tauto

/-- The count behind the guard. -/
theorem Inv.counted (h : Inv p s) (ha : s.active = a :: below) :
    Counted (s.leave p a below).mem (s.leave p a below).damaged := by
  have hbox : Counted (release a s.mem) s.damaged :=
    h.box.congr fun f _ => release_of_ne (by simp)
  have hchecks := h.checks ha
  have hword : release a s.mem (.word a.word.toNat) = s.mem (.word a.word.toNat) := release_of_ne (by simp)
  have hnest := h.toNested
  rw [ha] at hnest
  unfold Sys.leave
  by_cases hc : Checked s.mem below
  · rw [if_pos hc] at hchecks
    have hcounted := counted_checks (k := p.linker) hbox hchecks
    rw [hword] at hcounted
    by_cases hi : Intact (s.mem (.word a.word.toNat))
    · rw [if_pos hi] at hcounted
      simpa [hi] using hcounted
    · have hdamage : damageFor p a s below = ⟨(p.guard a).icciar, s.mem (.word a.word.toNat), (p.guard a).sp,
          release a s.mem (.sram .currentInterruptPointer), release a s.mem (.sram .irqLast)⟩ := by
        rw [hnest.released.1, release_of_ne (by decide), h.last]
        rfl
      rw [if_neg hi, ← hdamage] at hcounted
      simpa [hi, hc] using hcounted
  · rw [if_neg hc] at hchecks
    simpa [hc] using counted_skips (k := p.linker) (g := p.guard a) hbox hchecks

theorem leave_wordOff (h : Nested p (a :: below) s.mem) :
    (s.leave p a below).mem (.sram .wordOff) =
      if s.mem (.sram .wordAddr) ≠ 0 ∧ s.mem (.sram .wordOff) = 0 ∧ below = [] then
        s.mem (.sram .wordAddr) - (a.word - p.distance)
      else s.mem (.sram .wordOff) := by
  have hzero := h.released_eq_zero
  have haddr : release a s.mem (.sram .wordAddr) = s.mem (.sram .wordAddr) := release_of_ne (by decide)
  have hoff : release a s.mem (.sram .wordOff) = s.mem (.sram .wordOff) := release_of_ne (by decide)
  refine guard_wordOff.trans ?_
  simp only [haddr, hoff, hzero]
  rfl

/-- **An interrupt ends**; if it is the first one behind the calibration, the offset is captured. -/
theorem Inv.leave (h : Inv p s) (ha : s.active = a :: below) : Inv p (s.leave p a below) := by
  have hnest := h.toNested
  rw [ha] at hnest
  have haddr : (s.leave p a below).mem (.sram .wordAddr) = s.mem (.sram .wordAddr) :=
    (guard_sram rfl (by decide) (by decide)).trans (release_of_ne (by decide))
  exact {
    toNested := hnest.leave ((guard_sram rfl (by decide) (by decide)).trans hnest.released.1)
    box := h.counted ha
    last := by
      refine guard_last.trans ?_
      simp [Sys.leave, lastIcciar, rowFor, Setup.guard]
    addr := h.addr.imp haddr.trans haddr.trans
    off := by
      rw [haddr, leave_wordOff hnest]
      split_ifs with hcapture
      · obtain ⟨hcal, -, rfl⟩ := hcapture
        have hrest : a.spSvc = p.rest := hnest.bottom a rfl
        refine .inr ⟨?_, hcal⟩
        rw [h.addr.resolve_left hcal, ← hrest]
        show a.word - (a.word - p.distance) = p.distance
        bv_omega
      · exact h.off }

/-- **Every step keeps the invariant.** -/
theorem Inv.move (h : Inv p s) (hs : move p s mv = some s') : Inv p s' := by
  cases moved hs with
  | calibrate =>
    exact h.stores (fun c hc hne => calibrate_keeps _ _ (calibrated_of_owned hc hne))
      (calibrate_addr p.linker p.rest s.mem)
  | store hc => exact h.stores (fun d hd _ => update_owned hc hd) (.inl (update_owned hc rfl))
  | enter he => exact h.enter he
  | leave ha => exact h.leave ha

theorem inv_of_run (h₀ : Starts s₀) (hrun : Run (ofNext (move p)) s₀ mvs s) : Inv p s :=
  hrun.inv (I := Inv p) h₀.inv fun h hs => h.move hs

/-! ## Exactness -/

/-- The offset has been captured. -/
def Captured (m : Mem) : Prop := m (.sram .wordOff) ≠ 0

/-- What the guard does once it knows the offset: it checks the innermost activation's own word and
counts it exactly if it is damaged; nothing else is counted, and the box describes the first damage
only. -/
structure GuardExact (p : Setup) (s : Sys) : Prop where
  reads : Captured s.mem → ∀ a below, s.active = a :: below →
    (p.guard a).sp + s.mem (.sram .wordOff) = a.word
  grows : Captured s.mem → ∀ a below s', s.active = a :: below → move p s .leave = some s' →
    s'.mem (.bb .irqBad) =
      s.mem (.bb .irqBad) + if Intact (s.mem (.word a.word.toNat)) then 0 else 1
  spares : Captured s.mem → ∀ a below s', s.active = a :: below → move p s .leave = some s' →
    s.mem (.word a.word.toNat) = alignPad a.spSvc → s'.mem (.bb .irqBad) = s.mem (.bb .irqBad)
  steady : ∀ mv s', mv ≠ .leave → move p s mv = some s' → s'.mem (.bb .irqBad) = s.mem (.bb .irqBad)
  counted : s.mem (.bb .irqBad) = BitVec.ofNat 32 s.damaged.length
  first : ∀ d, s.damaged.head? = some d → damageAt s.mem = d

theorem intact_alignPad (sp : Word) : Intact (alignPad sp) := by
  have h := BitVec.and_twoPow (sp - 28) 2
  split_ifs at h
  · exact .inr h
  · exact .inl h

theorem Inv.reads (h : Inv p s) (hc : Captured s.mem) : (p.guard a).sp + s.mem (.sram .wordOff) = a.word := by
  rw [(h.off.resolve_left hc).1]
  exact BitVec.sub_add_cancel _ _

theorem Inv.grows (h : Inv p s) (hc : Captured s.mem) (ha : s.active = a :: below) :
    (s.leave p a below).mem (.bb .irqBad) =
      s.mem (.bb .irqBad) + if Intact (s.mem (.word a.word.toNat)) then 0 else 1 := by
  have hchecked : Checked s.mem below := ⟨(h.off.resolve_left hc).2, .inl hc⟩
  rw [(h.counted ha).count, h.box.count]
  by_cases hi : Intact (s.mem (.word a.word.toNat))
  · simp [Sys.leave, hi]
  · simp [Sys.leave, hi, hchecked, BitVec.ofNat_add]

/-- Only `leave` can count. -/
theorem irqBad_move (hne : mv ≠ .leave) (hs : move p s mv = some s') :
    s'.mem (.bb .irqBad) = s.mem (.bb .irqBad) := by
  cases moved hs with
  | calibrate => exact calibrate_keeps p.linker p.rest rfl
  | store hc => exact update_owned hc rfl
  | enter => exact (remain_of_ne (by simp)).trans (saveFrame_of_ne (by simp))
  | leave => exact absurd rfl hne

theorem of_move_leave (ha : s.active = a :: below) (hs : move p s .leave = some s') :
    s' = s.leave p a below := by
  simp only [move, ha] at hs
  exact (Option.some.inj hs).symm

/-- **The guard is exact** at any depth, in every run. -/
theorem guard_exact (h₀ : Starts s₀) (hrun : Run (ofNext (move p)) s₀ mvs s) : GuardExact p s := by
  have h : Inv p s := inv_of_run h₀ hrun
  exact {
    reads := fun hc a below _ => h.reads hc
    grows := fun hc a below s' ha hs => by
      rw [of_move_leave ha hs]
      exact h.grows hc ha
    spares := fun hc a below s' ha hs hpad => by
      rw [of_move_leave ha hs, h.grows hc ha, hpad, if_pos (intact_alignPad _)]
      exact BitVec.add_zero _
    steady := fun _ _ => irqBad_move
    counted := h.box.count
    first := h.box.first }

/-! ### A damaged nested frame -/

/-- The box behind `r8_blackbox_init`. -/
def booted : Mem
  | .bb .magic => r8BbMagic
  | .bb .version => r8BbVersion
  | _ => 0

def bootedSys : Sys := ⟨booted, [], [], []⟩

theorem starts_booted : Starts bootedSys where
  ready := rfl
  version := rfl
  irqBad := rfl
  irqSeen := rfl
  sram _ _ := rfl
  active := rfl
  damaged := rfl
  rows := rfl

/-- The guard's `sp` lies 64 bytes below the alignment word; the resting `sp_svc` needs padding. -/
def sampleSetup : Setup := ⟨bench, 0x40, 0x10ff0⟩

def tick : Activation := ⟨53, some 0x50, 0x10ff0, 0x12000, 0x1f, 0x9000⟩

/-- It interrupts the handler of the tick. -/
def doorbell : Activation := ⟨346, some 0x30, 0x10f60, tick.frame, 0x13, 0xa200⟩

/-- The offset is captured by one tick; in the next one the doorbell's alignment word becomes 122. -/
def damagedRun : List Move :=
  [.calibrate, .enter tick, .leave, .enter tick, .enter doorbell, .store (.word doorbell.word.toNat) 122,
    .leave, .leave]

theorem exec_damagedRun : (Transition.exec (move sampleSetup) bootedSys damagedRun).map
    (fun s => (s.damaged, s.active.length)) =
      some ([⟨346, 122, doorbell.word - 0x40, 1, 53⟩], 0) := by
  decide +kernel

theorem guard_exact_damagedRun : ∃ s, Transition.exec (move sampleSetup) bootedSys damagedRun = some s ∧
    s.mem (.bb .irqBad) = 1 ∧ damageAt s.mem = ⟨346, 122, doorbell.word - 0x40, 1, 53⟩ := by
  obtain ⟨s, hexec, hs⟩ := Option.map_eq_some_iff.mp exec_damagedRun
  have hexact : GuardExact sampleSetup s := guard_exact starts_booted (run_of_exec hexec)
  have hdamaged : s.damaged = [⟨346, 122, doorbell.word - 0x40, 1, 53⟩] := congrArg Prod.fst hs
  refine ⟨s, hexec, ?_, hexact.first _ (by rw [hdamaged]; rfl)⟩
  rw [hexact.counted, hdamaged]
  rfl

end CR8Devkit.BlackBox
