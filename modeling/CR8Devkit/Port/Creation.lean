import CR8Devkit.Port.Tasks

/-!
# The first context of a task

* `pxPortInitialiseStack`: what `port.c` puts on the stack of a new task, with `Filled` for the
  words that are there so far.
* `newcomer`: a new task as one that has been suspended in front of its first instruction.
* `vPortRestoreTaskContext`, `Begins`: how such a task begins.
* **`begins_iff`**: it begins exactly if the two files agree on the floating-point context.
-/

namespace CR8Devkit.Port

open Handler Transition

/-! ## `pxPortInitialiseStack` -/

/-- `configUSE_TASK_FPU_SUPPORT` of `port.c`: 0, 1 or 2. -/
inductive FpuSupport
  | off | flagged | always
  deriving DecidableEq

def portInitialSpsr : Word := 0x1f
def portThumbModeBit : Word := 0x20
def portThumbModeAddress : Word := 0x01
def portFpuRegisterWords : ℕ := 16 * 2 + 1

/-- `portSTACK_INITIAL_VALUE_R12` to `portSTACK_INITIAL_VALUE_R1`. -/
def portStackInitialValues : List Word :=
  [0x12121212, 0x11111111, 0x10101010, 0x09090909, 0x08080808, 0x07070707, 0x06060606, 0x05050505,
    0x04040404, 0x03030303, 0x02020202, 0x01010101]

/-- What a task is created with. -/
structure NewTask where
  pxTopOfStack : Word
  pxCode : Word
  pvParameters : Word
  deriving DecidableEq

/-- The memory, and where `pxTopOfStack` points. -/
structure Building where
  mem : Mem
  px : Word

namespace Building

/-- `*pxTopOfStack = v;` -/
def set (v : Word) (b : Building) : Building := { b with mem := b.mem.store [(b.px, v)] }

/-- `pxTopOfStack--;` -/
def down (b : Building) : Building := { b with px := b.px - 4 }

def put (v : Word) (b : Building) : Building := (b.set v).down

def puts (vs : List Word) (b : Building) : Building := vs.foldl (fun b v => b.put v) b

/-- `pxTopOfStack -= n; memset(pxTopOfStack, 0x00, n * sizeof(StackType_t));` -/
def clear (n : ℕ) (b : Building) : Building :=
  ⟨b.mem.store (words (b.px - BitVec.ofNat 32 (4 * n)) (List.replicate n 0)), b.px - BitVec.ofNat 32 (4 * n)⟩

/-- `portINITIAL_SPSR`, with the Thumb bit if the task starts in Thumb mode. -/
def setSpsr (pxCode : Word) (b : Building) : Building :=
  let b := b.set portInitialSpsr
  if pxCode &&& portThumbModeAddress ≠ 0 then b.set (b.mem b.px ||| portThumbModeBit) else b

/-- The floating-point part. -/
def fpu (L : Layout) (support : FpuSupport) (b : Building) : Building :=
  match support with
  | .off => b
  | .flagged => b.down.set 0
  | .always =>
    let b := (b.clear portFpuRegisterWords).down.set 1
    { b with mem := b.mem.store [(L.sym .ulPortTaskHasFPUContext, 1)] }

end Building

/-- With the words of the task from the top of its stack down; `prvTaskExitError` is the address a
task would return to. -/
def pxPortInitialiseStack (L : Layout) (support : FpuSupport) (prvTaskExitError : Word)
    (n : NewTask) (m : Mem) :
    Building :=
  ((Building.mk m n.pxTopOfStack).puts [0, 0, 0] |>.setSpsr n.pxCode |>.down
    |>.puts ([n.pxCode, prvTaskExitError] ++ portStackInitialValues ++ [n.pvParameters])
    |>.set 0).fpu L support

/-! ## The words that it stores -/

/-- The list `ws` stands from address `a` up to the top; the rest of the memory is as it was. -/
structure Filled (m : Mem) (top : Word) (m' : Mem) (a : Word) (ws : List Word) : Prop where
  addr : a = top + 4 - BitVec.ofNat 32 (4 * ws.length)
  stack : OnStack m' a ws
  mem : ∀ b, ¬ Below (top + 4) (4 * ws.length) b → m' b = m b

section Filled

variable {L : Layout} {m m' : Mem} {top a v : Word} {b : Building} {vs ws : List Word} {n : ℕ}

theorem filled_nil (m : Mem) (top : Word) : Filled m top m (top + 4) [] :=
  ⟨(BitVec.sub_zero _).symm, rfl, fun _ _ => rfl⟩

/-- Words are put below those that are there. -/
theorem Filled.store (vs : List Word) (h : Filled m top m' a ws)
    (hroom : 4 * (vs.length + ws.length) ≤ (top + 4).toNat) :
    Filled m top (m'.store (words (a - BitVec.ofNat 32 (4 * vs.length)) vs))
      (a - BitVec.ofNat 32 (4 * vs.length)) (vs ++ ws) := by
  have hlt := (top + 4).isLt
  have hlen : (vs ++ ws).length = vs.length + ws.length := List.length_append
  have hsub : a.toNat = (top + 4).toNat - 4 * ws.length := by
    rw [h.addr, toNat_sub_eq (by rw [BitVec.toNat_ofNat]; omega), BitVec.toNat_ofNat]
    omega
  refine ⟨?_, h.stack.push (by omega) (by omega), fun b hb => ?_⟩
  · rw [h.addr, BitVec.sub_sub, hlen, ← BitVec.ofNat_add, ← Nat.mul_add, Nat.add_comm]
  · rw [← h.mem b fun hb' => hb ⟨by have := hb'.1; omega, hb'.2⟩]
    refine store_of_not_mem fun hmem => hb ?_
    obtain ⟨h1, h2⟩ := below_words a vs (by omega) b hmem
    exact ⟨by omega, by omega⟩

/-- `*pxTopOfStack` below them. -/
theorem Filled.set (h : Filled m top b.mem (b.px + 4) ws) (hroom : 4 * (ws.length + 1) ≤ (top + 4).toNat)
    (v : Word) : Filled m top (b.set v).mem (b.set v).px (v :: ws) := by
  have hs := h.store [v] (by rw [List.length_singleton]; omega)
  have hpx : b.px + 4 - BitVec.ofNat 32 (4 * [v].length) = b.px := BitVec.add_sub_cancel _ _
  rw [hpx] at hs
  exact hs

theorem Filled.down (h : Filled m top b.mem b.px ws) : Filled m top b.down.mem (b.down.px + 4) ws := by
  have hpx : b.down.px + 4 = b.px := BitVec.sub_add_cancel _ _
  rw [hpx]
  exact h

theorem Filled.puts (vs : List Word) (h : Filled m top b.mem (b.px + 4) ws)
    (hroom : 4 * (vs.length + ws.length) ≤ (top + 4).toNat) :
    Filled m top (b.puts vs).mem ((b.puts vs).px + 4) (vs.reverse ++ ws) := by
  induction vs generalizing b ws with
  | nil => exact h
  | cons v vs ih =>
    rw [List.length_cons] at hroom
    rw [List.reverse_cons, List.append_assoc]
    exact ih (h.set (by omega) v).down (by rw [List.length_append, List.length_singleton]; omega)

theorem Filled.clear (h : Filled m top b.mem b.px ws) (hroom : 4 * (n + ws.length) ≤ (top + 4).toNat) :
    Filled m top (b.clear n).mem (b.clear n).px (List.replicate n 0 ++ ws) := by
  have hs := h.store (List.replicate n 0) (by rwa [List.length_replicate])
  rw [List.length_replicate] at hs
  exact hs

/-- A store elsewhere. -/
theorem Filled.elsewhere {c : Word} (h : Filled m top m' a ws) (hc : ¬ Below (top + 4) (4 * ws.length) c)
    (hroom : 4 * ws.length ≤ (top + 4).toNat) (v : Word) :
    Filled (m.store [(c, v)]) top (m'.store [(c, v)]) a ws := by
  have hlt := (top + 4).isLt
  have hsub : a.toNat = (top + 4).toNat - 4 * ws.length := by
    rw [h.addr, toNat_sub_eq (by rw [BitVec.toNat_ofNat]; omega), BitVec.toNat_ofNat]
    omega
  refine ⟨h.addr, h.stack.congr (by omega) fun b hb hb' => Function.update_of_ne ?_ _ _, fun b hb => ?_⟩
  · rintro rfl
    exact hc ⟨by omega, by omega⟩
  · by_cases hbc : b = c
    · rw [hbc]
      exact (Function.update_self c v m').trans (Function.update_self c v m).symm
    · exact (Function.update_of_ne hbc _ _).trans ((h.mem b hb).trans (Function.update_of_ne hbc _ _).symm)

/-- The last word is set once more. -/
theorem Filled.reset (h : Filled m top b.mem b.px (v :: ws)) (hroom : 4 * (ws.length + 1) ≤ (top + 4).toNat)
    (w : Word) : Filled m top (b.set w).mem (b.set w).px (w :: ws) := by
  have hlt := (top + 4).isLt
  have hlen : (v :: ws).length = ws.length + 1 := rfl
  have hlen' : (w :: ws).length = ws.length + 1 := rfl
  have hsub : b.px.toNat = (top + 4).toNat - 4 * (ws.length + 1) := by
    rw [h.addr, hlen, toNat_sub_eq (by rw [BitVec.toNat_ofNat]; omega), BitVec.toNat_ofNat]
    omega
  have hout : ∀ c, c ≠ b.px → (b.set w).mem c = b.mem c := fun c hc => Function.update_of_ne hc _ _
  refine ⟨h.addr, ?_, fun c hc => ?_⟩
  · obtain ⟨-, htail⟩ := onStack_cons.mp h.stack
    refine onStack_cons.mpr ⟨Function.update_self _ _ _, ?_⟩
    cases ws with
    | nil => rfl
    | cons u us =>
      have h4 := toNat_add_four (a := b.px) (by rw [hsub]; simp only [List.length_cons] at *; omega)
      refine htail.congr (by rw [h4, hsub]; simp only [List.length_cons] at *; omega) fun c hc _ => hout c ?_
      rintro rfl
      rw [h4] at hc
      omega
  · rw [hout c, h.mem c hc]
    rintro rfl
    exact hc ⟨by rw [hlen']; omega, by omega⟩

/-- The saved status register of a new task. -/
def initialSpsr (pxCode : Word) : Word :=
  if pxCode &&& portThumbModeAddress ≠ 0 then portInitialSpsr ||| portThumbModeBit else portInitialSpsr

theorem Filled.setSpsr (h : Filled m top b.mem (b.px + 4) ws)
    (hroom : 4 * (ws.length + 1) ≤ (top + 4).toNat) (pxCode : Word) :
    Filled m top (b.setSpsr pxCode).mem (b.setSpsr pxCode).px (initialSpsr pxCode :: ws) := by
  have hset := h.set hroom portInitialSpsr
  unfold Building.setSpsr initialSpsr
  split_ifs
  · have hself : (b.set portInitialSpsr).mem (b.set portInitialSpsr).px = portInitialSpsr :=
      Function.update_self _ _ _
    show Filled m top ((b.set portInitialSpsr).set
      ((b.set portInitialSpsr).mem (b.set portInitialSpsr).px ||| portThumbModeBit)).mem _ _
    rw [hself]
    exact hset.reset hroom _
  · exact hset

/-- The words of a new task below its three null words and above the floating-point part. -/
def newWords (prvTaskExitError : Word) (n : NewTask) : List Word :=
  [0, n.pvParameters] ++ portStackInitialValues.reverse ++ [prvTaskExitError, n.pxCode, initialSpsr n.pxCode]

/-- The floating-point part, lowest word first. -/
def newFpWords : FpuSupport → List Word
  | .off => []
  | .flagged => [0]
  | .always => 1 :: List.replicate portFpuRegisterWords 0

/-- **What `pxPortInitialiseStack` stores**, apart from the flag. -/
theorem filled_pxPortInitialiseStack (support : FpuSupport) (prvTaskExitError : Word) {n : NewTask}
    (hroom : 216 ≤ (n.pxTopOfStack + 4).toNat)
    (hflag : ¬ Below (n.pxTopOfStack + 4) 216 (L.sym .ulPortTaskHasFPUContext)) :
    Filled (if support = .always then m.store [(L.sym .ulPortTaskHasFPUContext, 1)] else m) n.pxTopOfStack
      (pxPortInitialiseStack L support prvTaskExitError n m).mem
      (pxPortInitialiseStack L support prvTaskExitError n m).px
      (newFpWords support ++ newWords prvTaskExitError n ++ [0, 0, 0]) := by
  have hle : ∀ {k : ℕ}, Nat.ble k 216 = true → k ≤ (n.pxTopOfStack + 4).toNat :=
    fun hk => Nat.le_trans (Nat.le_of_ble_eq_true hk) hroom
  have h0 := filled_nil m n.pxTopOfStack
  have h1 := Filled.puts (b := ⟨m, n.pxTopOfStack⟩) [0, 0, 0] h0 (hle rfl)
  have h2 := (h1.setSpsr (hle rfl) n.pxCode).down
  have h3 := h2.puts ([n.pxCode, prvTaskExitError] ++ portStackInitialValues ++ [n.pvParameters]) (hle rfl)
  have h4 := h3.set (hle rfl) 0
  cases support with
  | off => exact h4
  | flagged => exact h4.down.set (hle rfl) 0
  | always =>
    have h5 := h4.clear (n := portFpuRegisterWords) (hle rfl)
    exact (h5.down.set (hle rfl) 1).elsewhere hflag (hle rfl) 1

end Filled

/-! ## A new task as a suspended one -/

/-- `ulPortTaskHasFPUContext` of a new task. -/
def newFlag : FpuSupport → Word
  | .always => 1
  | _ => 0

/-- r0 to r12. -/
def newRegs (n : NewTask) : Fin 13 → Word :=
  fun i => (n.pvParameters :: portStackInitialValues.reverse).getD i 0

def newCpu (prvTaskExitError : Word) (n : NewTask) : Cpu where
  r := newRegs n
  spSys := n.pxTopOfStack - 8
  lrSys := prvTaskExitError
  spSvc := 0
  lrSvc := 0
  spIrq := 0
  lrIrq := 0
  spsrSvc := .ofWord 0
  spsrIrq := .ofWord 0
  cpsr := .ofWord (initialSpsr n.pxCode)
  pc := n.pxCode
  d := fun _ => 0
  fpscr := 0

/-- It has been suspended, as it were, in front of its first instruction. -/
def newcomer (L : Layout) (support : FpuSupport) (prvTaskExitError : Word) (n : NewTask) : Sleeper :=
  let s : St := ⟨newCpu prvTaskExitError n,
    fun a => if a = L.sym .ulPortTaskHasFPUContext then newFlag support else 0, false, false, false, 0⟩
  ⟨.irq, s, s⟩

/-- Both files give tasks a floating-point context, or neither does. -/
def Agree (support : FpuSupport) (fpu : Bool) : Prop := support = .off ↔ fpu = false

instance (support : FpuSupport) (fpu : Bool) : Decidable (Agree support fpu) :=
  inferInstanceAs (Decidable (_ ↔ _))

section Newcomer

variable {L : Layout} {fpu : Bool} {support : FpuSupport} {prvTaskExitError : Word} {n : NewTask} {m : Mem}
  {u : Word}

theorem flag_newcomer : L.flag (newcomer L support prvTaskExitError n).saved.mem =
    newFlag support := if_pos rfl

theorem critical_newcomer : L.critical (newcomer L support prvTaskExitError n).saved.mem = 0 :=
  if_neg (sym_ne (by decide) (by decide) (by decide))

theorem fpWords_newcomer (h : Agree support fpu) :
    (newcomer L support prvTaskExitError n).fpWords L fpu = newFpWords support := by
  unfold Sleeper.fpWords
  rw [flag_newcomer]
  cases support with
  | off =>
    rw [h.mp rfl]
    rfl
  | flagged | always =>
    have hfpu : fpu = true := by
      cases fpu with
      | true => rfl
      | false => cases h.mpr rfl
    rw [hfpu]
    rfl

theorem toWord_initialSpsr (pxCode : Word) :
    (Psr.ofWord (initialSpsr pxCode)).toWord = initialSpsr pxCode := by
  unfold initialSpsr
  split_ifs <;> rfl

theorem words_newcomer (h : Agree support fpu) : (newcomer L support prvTaskExitError n).words L fpu =
    newFpWords support ++ newWords prvTaskExitError n := by
  have hregs : (newcomer L support prvTaskExitError n).regWords = [n.pvParameters] ++
      portStackInitialValues.reverse ++ [prvTaskExitError, n.pxCode, initialSpsr n.pxCode] := by
    show List.ofFn (newRegs n) ++ [prvTaskExitError, n.pxCode, (Psr.ofWord (initialSpsr n.pxCode)).toWord] = _
    rw [toWord_initialSpsr]
    rfl
  rw [Sleeper.words, fpWords_newcomer h, critical_newcomer, hregs]
  rfl

theorem mode_initialSpsr (pxCode : Word) : (Psr.ofWord (initialSpsr pxCode)).mode = sysMode := by
  unfold initialSpsr
  split_ifs <;> rfl

/-- The frame of a new task is in memory, and TCB `u` points to it. -/
def Created (L : Layout) (support : FpuSupport) (prvTaskExitError : Word) (n : NewTask) (u : Word)
    (m : Mem) : Prop :=
  ∃ m₀, m u = (pxPortInitialiseStack L support prvTaskExitError n m₀).px ∧ ∀ a,
    Below (n.pxTopOfStack + 4) 216 a →
    m a = (pxPortInitialiseStack L support prvTaskExitError n m₀).mem a

/-- Task `u` has room for the frame at the top of its stack. -/
structure Tasks.Takes (T : Tasks L) (n : NewTask) (u : Word) : Prop where
  tcb : u ∈ T.tcbs
  lo : T.lo u + 216 ≤ n.pxTopOfStack.toNat + 4
  hi : n.pxTopOfStack.toNat + 4 ≤ T.hi u
  top : n.pxTopOfStack.toNat + 4 < 2 ^ 32

theorem Tasks.Takes.not_cell {T : Tasks L} (h : T.Takes n u) {a : Word} {v : Sym}
    (ha : Below (n.pxTopOfStack + 4) 216 a) : ¬ L.Cell v a := by
  have htop := toNat_add_four h.top
  have hlo := h.lo
  have hhi := h.hi
  obtain ⟨h1, h2⟩ := ha
  exact Tasks.not_cell h.tcb (by omega) (by omega)

/-- **A frame that `pxPortInitialiseStack` has built** is the context of a suspended task. -/
theorem holds_newcomer {T : Tasks L} (hT : T.Takes n u) (h : Agree support fpu)
    (hm : Created L support prvTaskExitError n u m) :
    T.Holds fpu m u (newcomer L support prvTaskExitError n) := by
  obtain ⟨m₀, hu, hframe⟩ := hm
  have htop := toNat_add_four hT.top
  have hlo := hT.lo
  have hhi := hT.hi
  have hroom : 216 ≤ (n.pxTopOfStack + 4).toNat := by omega
  have hfilled := filled_pxPortInitialiseStack (L := L) (m := m₀) support prvTaskExitError
    hroom fun hb => hT.not_cell hb (cell_sym (by decide))
  rw [← words_newcomer (L := L) h] at hfilled
  have hwords := length_words (L := L) (newcomer L support prvTaskExitError n) fpu
  have hlen : ((newcomer L support prvTaskExitError n).words L fpu ++ [0, 0, 0]).length =
    ((newcomer L support prvTaskExitError n).words L fpu).length + 3 := List.length_append
  have hsub : (n.pxTopOfStack - 8).toNat = n.pxTopOfStack.toNat - 8 := toNat_sub_eq (by show 8 ≤ _; omega)
  have htopEq : (newcomer L support prvTaskExitError n).top L fpu =
    (pxPortInitialiseStack L support prvTaskExitError n m₀).px := by
    rw [hfilled.addr, hlen]
    show n.pxTopOfStack - 8 - _ = _
    generalize ((newcomer L support prvTaskExitError n).words L fpu).length = k
    bv_omega
  have haddr : (pxPortInitialiseStack L support prvTaskExitError n m₀).px.toNat = (n.pxTopOfStack + 4).toNat -
      4 * ((newcomer L support prvTaskExitError n).words L fpu ++ [0, 0, 0]).length := by
    rw [hfilled.addr, toNat_sub_eq (by rw [BitVec.toNat_ofNat]; omega), BitVec.toNat_ofNat]
    omega
  have hstack : OnStack m (pxPortInitialiseStack L support prvTaskExitError n m₀).px
      ((newcomer L support prvTaskExitError n).words L fpu ++ [0, 0, 0]) :=
    hfilled.stack.congr (by omega) fun b hb hb' => hframe b ⟨by omega, by omega⟩
  refine ⟨hT.tcb, ⟨?_, fun a v ha => ?_, T.tcb_sym u hT.tcb, hu.trans htopEq.symm, ?_⟩, ?_, ?_,
    mode_initialSpsr _, fun ht => by cases ht⟩
  · show _ ≤ (n.pxTopOfStack - 8).toNat
    omega
  · have ha' : Below (n.pxTopOfStack - 8)
      (4 * ((newcomer L support prvTaskExitError n).words L fpu).length) a := ha
    obtain ⟨h1, h2⟩ := ha'
    exact hT.not_cell ⟨by omega, by omega⟩
  · rw [htopEq]
    exact (onStack_append.mp hstack).1
  · show _ ≤ (n.pxTopOfStack - 8).toNat
    omega
  · show (n.pxTopOfStack - 8).toNat ≤ _
    omega

end Newcomer

/-! ## The first instruction -/

/-- In SYS mode, to the task that `pxCurrentTCB` is on. -/
def vPortRestoreTaskContext (L : Layout) (fpu : Bool) (s : St) : St :=
  let s := L.runs popContext (L.runs (popFpu fpu) (L.runs loadSp (L.runs [Op.cps sysMode, Op.dsb, Op.isb] s)))
  { s with cpu := s.cpu.rfeia s.mem, counted := false }

/-- Task `n` is in front of its first instruction. In Thumb state bit 0 of the word that `RFEIA` has
loaded is no part of the address. -/
structure Begins (L : Layout) (fpu : Bool) (support : FpuSupport) (prvTaskExitError : Word)
    (n : NewTask) (s : St) :
    Prop where
  pc : s.cpu.pc = n.pxCode
  thumb : s.cpu.cpsr.ft.getLsbD 0 = n.pxCode.getLsbD 0
  mode : s.cpu.cpsr.mode = sysMode
  masked : s.cpu.cpsr.masked = false
  param : s.cpu.r 0 = n.pvParameters
  lrSys : s.cpu.lrSys = prvTaskExitError
  spSys : s.cpu.spSys = n.pxTopOfStack - 8
  critical : L.critical s.mem = 0
  flag : fpu = true → L.flag s.mem = newFlag support
  floating : fpu = true → support = .always → s.cpu.d = (fun _ => 0) ∧ s.cpu.fpscr = 0

section Begins

variable {L : Layout} {fpu : Bool} {support : FpuSupport} {prvTaskExitError : Word} {n : NewTask} {m : Mem}
  {u : Word} {s : St}

theorem ft_initialSpsr (pxCode : Word) :
    (Psr.ofWord (initialSpsr pxCode)).ft.getLsbD 0 = pxCode.getLsbD 0 := by
  have hbit : pxCode &&& portThumbModeAddress = if pxCode.getLsbD 0 then 1 else 0 :=
    BitVec.and_twoPow pxCode 0
  unfold initialSpsr
  rw [hbit]
  cases pxCode.getLsbD 0 <;> decide

theorem masked_initialSpsr (pxCode : Word) : (Psr.ofWord (initialSpsr pxCode)).masked = false := by
  unfold initialSpsr
  split_ifs <;> decide

theorem begins_of_resumed (h : Resumed L fpu (newcomer L support prvTaskExitError n) s.cpu s.mem) :
    Begins L fpu support prvTaskExitError n s where
  pc := h.pc
  thumb := by
    rw [h.cpsr]
    exact ft_initialSpsr _
  mode := by
    rw [h.cpsr]
    exact mode_initialSpsr _
  masked := by
    rw [h.cpsr]
    exact masked_initialSpsr _
  param := congrFun h.r 0
  lrSys := h.lrSys
  spSys := h.spSys
  critical := h.critical.trans critical_newcomer
  flag hfpu := (h.flag hfpu).trans flag_newcomer
  floating hfpu hs := h.floating hfpu (by rw [flag_newcomer, hs]; decide)

/-- Popping leaves the stack pointer alone unless it is popped itself. -/
theorem spSys_setAll {c : Cpu} (h : c.cpsr.mode = sysMode) (l : List (Reg × Word)) (hl : ∀ w ∈ l, w.1 ≠ .sp) :
    (c.setAll l).spSys = c.spSys := by
  induction l generalizing c with
  | nil => rfl
  | cons w l ih =>
    obtain ⟨hw, hl⟩ := List.forall_mem_cons.mp hl
    refine (ih ((congrArg Psr.mode (Cpu.set_cpsr c _ _)).trans h) hl).trans ?_
    obtain ⟨g, v⟩ := w
    cases g with
    | r i => rfl
    | sp => exact absurd rfl hw
    | lr =>
      simp only [Cpu.set, Cpu.setLr, h]
      rfl

/-- The registers and the return address take seventeen words, whatever they are. -/
theorem spSys_popContext (h : s.cpu.cpsr.mode = sysMode) :
    ((L.runs popContext s).cpu.rfeia (L.runs popContext s).mem).spSys = s.cpu.spSys + 68 := by
  obtain ⟨hcpu, -⟩ := run_popVar (L := L) (v := .ulCriticalNesting) h
  have hrun : L.runs popContext s =
    (Instr.mk .al (Op.pop allRegs)).run L (L.runs (popVar .ulCriticalNesting) s) := rfl
  rw [hrun]
  have hmode : (L.runs (popVar .ulCriticalNesting) s).cpu.cpsr.mode = sysMode := by
    rw [hcpu]
    exact h
  have hsp : (L.runs (popVar .ulCriticalNesting) s).cpu.spSys = s.cpu.spSys + 4 := by rw [hcpu]
  generalize L.runs (popVar .ulCriticalNesting) s = s₁ at hmode hsp
  have hset : ∀ c : Cpu, c.cpsr.mode = sysMode → ∀ w, c.setSpOf c.cpsr.mode w = { c with spSys := w } := by
    intro c hc w
    rw [hc]
    rfl
  have hsp₁ : s₁.cpu.sp = s₁.cpu.spSys := by
    rw [Cpu.sp, hmode]
    rfl
  have hpop : ((Instr.mk .al (Op.pop allRegs)).run L s₁).cpu.spSys = s₁.cpu.spSys + 56 ∧
      ((Instr.mk .al (Op.pop allRegs)).run L s₁).cpu.cpsr.mode = sysMode := by
    rw [run_al]
    show ((s₁.cpu.setSpOf s₁.cpu.cpsr.mode _).setAll _).spSys = _ ∧
      ((s₁.cpu.setSpOf s₁.cpu.cpsr.mode _).setAll _).cpsr.mode = _
    rw [hset _ hmode, Cpu.setAll_cpsr, spSys_setAll, hsp₁]
    · exact ⟨rfl, hmode⟩
    · exact hmode
    · rintro ⟨g, v⟩ hw rfl
      have hmem := (List.of_mem_zip hw).1
      revert hmem
      decide
  obtain ⟨hspop, hmpop⟩ := hpop
  generalize (Instr.mk .al (Op.pop allRegs)).run L s₁ = s₂ at hspop hmpop
  have hsp₂ : s₂.cpu.sp = s₂.cpu.spSys := by
    rw [Cpu.sp, hmpop]
    rfl
  show (s₂.cpu.setSpOf s₂.cpu.cpsr.mode _).spSys = _
  rw [hset _ hmpop, hsp₂, hspop, hsp, BitVec.add_assoc, BitVec.add_assoc]
  rfl

/-- The stack pointer behind the floating-point part. -/
theorem spSys_popFpu (fpu : Bool) (h : s.cpu.cpsr.mode = sysMode) :
    (L.runs (popFpu fpu) s).cpu.cpsr.mode = sysMode ∧
    (fpu = false → (L.runs (popFpu fpu) s).cpu.spSys = s.cpu.spSys) ∧
    (fpu = true → s.mem s.cpu.spSys = 0 → (L.runs (popFpu fpu) s).cpu.spSys = s.cpu.spSys + 4) := by
  refine ⟨(AtSys.runs (o := s) ⟨h, rfl, rfl⟩ (by cases fpu <;> decide)).mode,
    fun hfpu => ?_, fun hfpu hz => ?_⟩
  · subst hfpu
    rfl
  · subst hfpu
    obtain ⟨hcpu, -⟩ := run_popVar (L := L) (v := .ulPortTaskHasFPUContext) h
    have hrun : L.runs (Port.popFpu true) s = L.runs [⟨.ne, Op.pop [r0]⟩, ⟨.ne, Op.vpop⟩, ⟨.ne, Op.vmsr r0⟩]
      ((Instr.mk .al (Op.cmp r1 (.imm 0))).run L (L.runs (Port.popVar .ulPortTaskHasFPUContext) s)) := rfl
    have hcmp := ne_holds_cmp (L := L) (s := L.runs (Port.popVar .ulPortTaskHasFPUContext) s) r1 0
    have hr1 : (L.runs (Port.popVar .ulPortTaskHasFPUContext) s).cpu.get r1 = 0 := by
      rw [hcpu, hz]
      show Function.update (Function.update s.cpu.r 0 (L.sym .ulPortTaskHasFPUContext)) 1 0 1 = (0 : Word)
      exact Function.update_self _ _ _
    rw [hr1] at hcmp
    replace hcmp : Cond.ne.holds _ = false := hcmp
    rw [hrun, runs_cons, run_of_not_holds hcmp, runs_cons, run_of_not_holds hcmp, runs_cons,
      run_of_not_holds hcmp]
    show (L.runs (Port.popVar .ulPortTaskHasFPUContext) s).cpu.spSys = _
    rw [hcpu]

/-- Behind the load of the task's stack pointer. -/
def spLoaded (L : Layout) (s : St) : St := L.runs loadSp (L.runs [Op.cps sysMode, Op.dsb, Op.isb] s)

theorem spLoaded_eq : (spLoaded L s).cpu.cpsr.mode = sysMode ∧ (spLoaded L s).mem = s.mem ∧
    (spLoaded L s).cpu.spSys = s.mem (L.tcb s.mem) := by
  obtain ⟨⟨r, hcpu⟩, hmem⟩ := run_loadSp (L := L) (s := L.runs [Op.cps sysMode, Op.dsb, Op.isb] s) rfl
  refine ⟨?_, hmem, ?_⟩
  · unfold spLoaded
    rw [hcpu]
    rfl
  · unfold spLoaded
    rw [hcpu]
    rfl

/-- The rest of a frame is popped as a whole. -/
theorem spSys_vPortRestoreTaskContext : (vPortRestoreTaskContext L fpu s).cpu.spSys =
    (L.runs (popFpu fpu) (spLoaded L s)).cpu.spSys + 68 := by
  obtain ⟨hmode, -, -⟩ := spLoaded_eq (L := L) (s := s)
  exact spSys_popContext (spSys_popFpu fpu hmode).1

/-- Where the frame of a new task begins, and that it begins with a null word if `port.c` gives
tasks no floating-point context. -/
theorem Created.frame {T : Tasks L} (hT : T.Takes n u) (hm : Created L support prvTaskExitError n u m) :
    m u = n.pxTopOfStack + 4 - BitVec.ofNat 32 (4 * ((newFpWords support).length + 20)) ∧
      (support = .off → m (m u) = 0) := by
  obtain ⟨m₀, hu, hframe⟩ := hm
  have htop := toNat_add_four hT.top
  have hlo := hT.lo
  have hfilled := filled_pxPortInitialiseStack (L := L) (m := m₀) (n := n) support prvTaskExitError (by omega)
    fun hb => hT.not_cell hb (cell_sym (by decide))
  have hlen : (newFpWords support ++ newWords prvTaskExitError n ++ [0, 0, 0]).length =
      (newFpWords support).length + 20 := by
    rw [List.append_assoc, List.length_append]
    rfl
  have haddr := hfilled.addr
  rw [hlen, ← hu] at haddr
  refine ⟨haddr, fun hoff => ?_⟩
  subst hoff
  have hsub : (m u).toNat = (n.pxTopOfStack + 4).toNat - 80 := by
    rw [haddr]
    exact toNat_sub_eq (by show 80 ≤ _; omega)
  rw [hframe _ ⟨by omega, by omega⟩, hu]
  exact (onStack_cons.mp hfilled.stack).1

/-- **A disagreement shifts the stack pointer**: by a word or by the whole floating-point part. -/
theorem spSys_of_not_agree {T : Tasks L} (hT : T.Takes n (L.tcb s.mem))
    (hm : Created L support prvTaskExitError n (L.tcb s.mem) s.mem) (hne : ¬ Agree support fpu) :
    (vPortRestoreTaskContext L fpu s).cpu.spSys ≠ n.pxTopOfStack - 8 := by
  obtain ⟨hmode, hmem, hload⟩ := spLoaded_eq (L := L) (s := s)
  obtain ⟨-, hoff, hon⟩ := spSys_popFpu (L := L) fpu hmode
  obtain ⟨haddr, hzero⟩ := hm.frame hT
  rw [spSys_vPortRestoreTaskContext]
  cases support with
  | off =>
    -- the words begin with the critical nesting count, which is taken for the flag
    obtain rfl : fpu = true := by
      cases fpu with
      | true => rfl
      | false => exact absurd (iff_of_true rfl rfl) hne
    have hlen : (newFpWords .off).length + 20 = 20 := rfl
    rw [hlen] at haddr
    rw [hon rfl (by rw [hmem, hload, hzero rfl]), hload, haddr]
    bv_omega
  | flagged =>
    obtain rfl : fpu = false := by
      cases fpu with
      | false => rfl
      | true => exact absurd (iff_of_false (by decide) (by decide)) hne
    have hlen : (newFpWords .flagged).length + 20 = 21 := rfl
    rw [hlen] at haddr
    rw [hoff rfl, hload, haddr]
    bv_omega
  | always =>
    obtain rfl : fpu = false := by
      cases fpu with
      | false => rfl
      | true => exact absurd (iff_of_false (by decide) (by decide)) hne
    have hlen : (newFpWords .always).length + 20 = 54 := rfl
    rw [hlen] at haddr
    rw [hoff rfl, hload, haddr]
    bv_omega

theorem begins_of_agree {T : Tasks L} (hT : T.Takes n (L.tcb s.mem))
    (hm : Created L support prvTaskExitError n (L.tcb s.mem) s.mem) (h : Agree support fpu) :
    Begins L fpu support prvTaskExitError n (vPortRestoreTaskContext L fpu s) := by
  obtain ⟨s₁, hs₁⟩ : ∃ s₁, s₁ = L.runs [Op.cps sysMode, Op.dsb, Op.isb] s := ⟨_, rfl⟩
  have hmode : s₁.cpu.cpsr.mode = sysMode := by
    rw [hs₁]
    rfl
  have hmem : s₁.mem = s.mem := by
    rw [hs₁]
    rfl
  have hstored := (holds_newcomer hT h hm).stored
  rw [← hmem] at hstored
  have hresumed := resumed_portRestoreContext hstored hmode rfl
  rw [hs₁] at hresumed
  exact begins_of_resumed hresumed

/-- **A new task begins as it was created** exactly if `port.c` and `portASM` agree on whether tasks
have a floating-point context; otherwise its stack pointer is off. -/
theorem begins_iff {T : Tasks L} (hT : T.Takes n u) (htcb : L.tcb s.mem = u)
    (hm : Created L support prvTaskExitError n u s.mem) :
    (Begins L fpu support prvTaskExitError n (vPortRestoreTaskContext L fpu s) ↔ Agree support fpu) ∧
      (¬ Agree support fpu → (vPortRestoreTaskContext L fpu s).cpu.spSys ≠ n.pxTopOfStack - 8) := by
  subst htcb
  refine ⟨⟨fun hb => ?_, begins_of_agree hT hm⟩, spSys_of_not_agree hT hm⟩
  by_contra hne
  exact spSys_of_not_agree hT hm hne hb.spSys

end Begins

/-! ## A task beside those of `sampleTasks` -/

def sampleNew : NewTask := ⟨0x8ff8, 0x9001, 0x77⟩

/-- Its frame is built, and the TCB pointer is on it. -/
def sampleCreated (support : FpuSupport) : St :=
  let b := pxPortInitialiseStack sample support 0x9999 sampleNew fun _ => 0
  { sampleTask with mem := b.mem.store [(0xb100, b.px), (0x1010, 0xb100)] }

theorem sampleTakes : sampleTasks.Takes sampleNew 0xb100 where
  tcb := List.mem_cons_of_mem _ List.mem_cons_self
  lo := by decide
  hi := by decide
  top := by decide

theorem created_sampleCreated (support : FpuSupport) :
    Created sample support 0x9999 sampleNew 0xb100 (sampleCreated support).mem := by
  have hne : (0xb100 : Word) ≠ 0x1010 := by decide
  have hmem : (sampleCreated support).mem = Function.update
    (Function.update (pxPortInitialiseStack sample support 0x9999 sampleNew fun _ => 0).mem 0xb100
      (pxPortInitialiseStack sample support 0x9999 sampleNew fun _ => 0).px) 0x1010 0xb100 := rfl
  refine ⟨fun _ => 0, ?_, fun a ha => ?_⟩
  · rw [hmem, Function.update_of_ne hne, Function.update_self]
  · obtain ⟨h1, h2⟩ := ha
    have htop : (sampleNew.pxTopOfStack + 4).toNat = 0x8ffc := rfl
    rw [htop] at h1 h2
    have ha₁ : a ≠ 0xb100 := by
      rintro rfl
      exact absurd h2 (by decide)
    have ha₂ : a ≠ 0x1010 := by
      rintro rfl
      exact absurd h1 (by decide)
    rw [hmem, Function.update_of_ne ha₂, Function.update_of_ne ha₁]

/-- A Thumb task with a floating-point context, restored with and without it. -/
theorem begins_iff_sampleCreated :
    Begins sample true .always 0x9999 sampleNew
      (vPortRestoreTaskContext sample true (sampleCreated .always)) ∧
      (vPortRestoreTaskContext sample false (sampleCreated .always)).cpu.spSys ≠ sampleNew.pxTopOfStack - 8 :=
  ⟨(begins_iff sampleTakes rfl (created_sampleCreated .always)).1.mpr (by decide),
    (begins_iff sampleTakes rfl (created_sampleCreated .always)).2 (by decide)⟩

end CR8Devkit.Port
