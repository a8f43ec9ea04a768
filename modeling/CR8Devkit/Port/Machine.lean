import CR8Devkit.Lib.Code
import Mathlib.Logic.Function.Basic
import Mathlib.Algebra.Group.Nat.Defs
import Mathlib.Tactic.SplitIfs

/-!
# The processor under the port layer

The 32-bit ARM registers with their banks, the memory by words, and the instructions that `portASM`
uses. All addresses are multiples of four, as the calling standard requires of every stack pointer,
so words at different addresses do not overlap.

* `Psr`: a status register, with its word and back (`Psr.ofWord_toWord`).
* `Cpu`, `Mem`, `Layout`: registers, memory, and where the linker has put variables and stacks.
* `words`, `loads`: the words pushed and popped together, with `loads_store_words`.
* `Op.cpu`, `Op.stores`: what an instruction does to the registers and which words it stores.
-/

namespace CR8Devkit.Port

abbrev Word := BitVec 32

/-! ## Status registers -/

/-- N, Z, C, V; bits 27 to 8; I; F and T; the mode. -/
structure Psr where
  nzcv : BitVec 4
  hi : BitVec 20
  masked : Bool
  ft : BitVec 2
  mode : BitVec 5
  deriving DecidableEq

def sysMode : BitVec 5 := 0x1f
def svcMode : BitVec 5 := 0x13
def irqMode : BitVec 5 := 0x12

theorem irqMode_ne_svcMode : irqMode ≠ svcMode := by decide

namespace Psr

/-- As `MRS` and `SRS` store it. -/
def toWord (p : Psr) : Word := p.nzcv ++ (p.hi ++ (BitVec.ofBool p.masked ++ (p.ft ++ p.mode)))

/-- As `MSR` and `RFE` load it. -/
def ofWord (w : Word) : Psr :=
  ⟨w.extractLsb' 28 4, w.extractLsb' 8 20, w.extractLsb' 7 1 == 1#1, w.extractLsb' 5 2,
    w.extractLsb' 0 5⟩

theorem ofWord_toWord (p : Psr) : ofWord p.toWord = p := by
  obtain ⟨nzcv, hi, masked, ft, mode⟩ := p
  have hflags : (toWord ⟨nzcv, hi, masked, ft, mode⟩).extractLsb' 28 4 = nzcv :=
    BitVec.extractLsb'_append_eq_left
  have hhi : (toWord ⟨nzcv, hi, masked, ft, mode⟩).extractLsb' 8 20 = hi := by
    rw [toWord, BitVec.extractLsb'_append_eq_of_add_le (by decide)]
    exact BitVec.extractLsb'_append_eq_left
  have hmasked : (toWord ⟨nzcv, hi, masked, ft, mode⟩).extractLsb' 7 1 = BitVec.ofBool masked := by
    rw [toWord, BitVec.extractLsb'_append_eq_of_add_le (by decide),
      BitVec.extractLsb'_append_eq_of_add_le (by decide)]
    exact BitVec.extractLsb'_append_eq_left
  have hft : (toWord ⟨nzcv, hi, masked, ft, mode⟩).extractLsb' 5 2 = ft := by
    rw [toWord, BitVec.extractLsb'_append_eq_of_add_le (by decide),
      BitVec.extractLsb'_append_eq_of_add_le (by decide),
      BitVec.extractLsb'_append_eq_of_add_le (by decide)]
    exact BitVec.extractLsb'_append_eq_left
  have hmode : (toWord ⟨nzcv, hi, masked, ft, mode⟩).extractLsb' 0 5 = mode := by
    rw [toWord, BitVec.extractLsb'_append_eq_of_add_le (by decide),
      BitVec.extractLsb'_append_eq_of_add_le (by decide),
      BitVec.extractLsb'_append_eq_of_add_le (by decide)]
    exact BitVec.extractLsb'_append_eq_right
  rw [ofWord, hflags, hhi, hmasked, hft, hmode]
  cases masked <;> rfl

end Psr

/-! ## Registers -/

/-- The registers an instruction names; sp and lr are those of the mode. -/
inductive Reg
  | r (i : Fin 13)
  | sp | lr
  deriving DecidableEq

/-- `pc` is the next instruction of a task or C function; inside a handler the code says it. -/
structure Cpu where
  r : Fin 13 → Word
  spSys : Word
  lrSys : Word
  spSvc : Word
  lrSvc : Word
  spIrq : Word
  lrIrq : Word
  spsrSvc : Psr
  spsrIrq : Psr
  cpsr : Psr
  pc : Word
  d : Fin 32 → Word
  fpscr : Word

namespace Cpu

variable (c : Cpu)

/-- The banked stack pointer of a mode. -/
def spOf (m : BitVec 5) : Word :=
  if m = svcMode then c.spSvc else if m = irqMode then c.spIrq else c.spSys

def setSpOf (m : BitVec 5) (v : Word) : Cpu :=
  if m = svcMode then { c with spSvc := v } else if m = irqMode then { c with spIrq := v }
  else { c with spSys := v }

def sp : Word := c.spOf c.cpsr.mode

def lr : Word :=
  if c.cpsr.mode = svcMode then c.lrSvc else if c.cpsr.mode = irqMode then c.lrIrq else c.lrSys

def setLr (v : Word) : Cpu :=
  if c.cpsr.mode = svcMode then { c with lrSvc := v }
  else if c.cpsr.mode = irqMode then { c with lrIrq := v } else { c with lrSys := v }

def spsr : Psr := if c.cpsr.mode = svcMode then c.spsrSvc else c.spsrIrq

def setSpsr (p : Psr) : Cpu :=
  if c.cpsr.mode = svcMode then { c with spsrSvc := p } else { c with spsrIrq := p }

theorem lr_irq (h : c.cpsr.mode = irqMode) : c.lr = c.lrIrq := by
  rw [lr, h, if_neg irqMode_ne_svcMode, if_pos rfl]

theorem spsr_irq (h : c.cpsr.mode = irqMode) : c.spsr = c.spsrIrq := by
  rw [spsr, h, if_neg irqMode_ne_svcMode]

/-- A register as the present mode sees it. -/
def get : Reg → Word
  | .r i => c.r i
  | .sp => c.sp
  | .lr => c.lr

def set (g : Reg) (v : Word) : Cpu :=
  match g with
  | .r i => { c with r := Function.update c.r i v }
  | .sp => c.setSpOf c.cpsr.mode v
  | .lr => c.setLr v

/-- From left to right. -/
def setAll (c : Cpu) : List (Reg × Word) → Cpu
  | [] => c
  | (g, v) :: l => (c.set g v).setAll l

def setFlags (f : BitVec 4) : Cpu := { c with cpsr := { c.cpsr with nzcv := f } }

@[simp] theorem setSpOf_cpsr (m : BitVec 5) (v : Word) : (c.setSpOf m v).cpsr = c.cpsr := by
  unfold setSpOf
  split_ifs <;> rfl

@[simp] theorem setSpOf_r (m : BitVec 5) (v : Word) : (c.setSpOf m v).r = c.r := by
  unfold setSpOf
  split_ifs <;> rfl

@[simp] theorem setLr_cpsr (v : Word) : (c.setLr v).cpsr = c.cpsr := by
  unfold setLr
  split_ifs <;> rfl

@[simp] theorem setLr_spSvc (v : Word) : (c.setLr v).spSvc = c.spSvc := by
  unfold setLr
  split_ifs <;> rfl

@[simp] theorem setSpsr_cpsr (p : Psr) : (c.setSpsr p).cpsr = c.cpsr := by
  unfold setSpsr
  split_ifs <;> rfl

@[simp] theorem set_cpsr (g : Reg) (v : Word) : (c.set g v).cpsr = c.cpsr := by
  cases g <;> simp [set]

@[simp] theorem setAll_cpsr (l : List (Reg × Word)) : (c.setAll l).cpsr = c.cpsr := by
  induction l generalizing c with
  | nil => rfl
  | cons w l ih => rw [setAll, ih, set_cpsr]

end Cpu

/-! ## Memory -/

abbrev Mem := Word → Word

/-- From left to right. -/
def Mem.store (m : Mem) : List (Word × Word) → Mem
  | [] => m
  | (a, v) :: l => Mem.store (Function.update m a v) l

/-- The words of a list from address `a` on. -/
def words (a : Word) : List Word → List (Word × Word)
  | [] => []
  | v :: vs => (a, v) :: words (a + 4) vs

/-- The words from address `a` on. -/
def loads (m : Mem) (a : Word) : ℕ → List Word
  | 0 => []
  | n + 1 => m a :: loads m (a + 4) n

section Mem

variable {m m' : Mem} {a b : Word} {l : List (Word × Word)} {vs : List Word} {n : ℕ}

theorem store_of_not_mem (h : b ∉ l.map Prod.fst) : m.store l b = m b := by
  induction l generalizing m with
  | nil => rfl
  | cons w l ih =>
    rw [List.map_cons, List.mem_cons, not_or] at h
    show Mem.store (Function.update m w.1 w.2) l b = m b
    rw [ih h.2, Function.update_of_ne h.1]

theorem toNat_add_four (h : a.toNat + 4 < 2 ^ 32) : (a + 4).toNat = a.toNat + 4 := by
  rw [BitVec.toNat_add]
  exact Nat.mod_eq_of_lt h

/-- Pushed words lie between the new and the old stack pointer. -/
theorem mem_words (h : a.toNat + 4 * vs.length ≤ 2 ^ 32) (hb : b ∈ (words a vs).map Prod.fst) :
    a.toNat ≤ b.toNat ∧ b.toNat < a.toNat + 4 * vs.length := by
  induction vs generalizing a with
  | nil => cases hb
  | cons v vs ih =>
    rw [List.length_cons] at h ⊢
    rw [words, List.map_cons, List.mem_cons] at hb
    rcases hb with rfl | hb
    · omega
    · cases vs with
      | nil => cases hb
      | cons w vs =>
        rw [List.length_cons] at h
        have ha := toNat_add_four (a := a) (by omega)
        have := ih (by rw [ha, List.length_cons]; omega) hb
        omega

theorem store_words_of_lt (h : a.toNat + 4 * vs.length ≤ 2 ^ 32)
    (hb : b.toNat < a.toNat ∨ a.toNat + 4 * vs.length ≤ b.toNat) : m.store (words a vs) b = m b := by
  refine store_of_not_mem fun hmem => ?_
  have := mem_words h hmem
  omega

/-- **Pushed and popped.** -/
theorem loads_store_words (h : a.toNat + 4 * vs.length ≤ 2 ^ 32) :
    loads (m.store (words a vs)) a vs.length = vs := by
  induction vs generalizing a m with
  | nil => rfl
  | cons v vs ih =>
    rw [List.length_cons] at h
    cases vs with
    | nil => simp [words, loads, Mem.store]
    | cons w vs =>
      rw [List.length_cons] at h
      have ha := toNat_add_four (a := a) (by omega)
      have hle : (a + 4).toNat + 4 * (w :: vs).length ≤ 2 ^ 32 := by
        rw [ha, List.length_cons]
        omega
      have hhead : Mem.store (Function.update m a v) (words (a + 4) (w :: vs)) a = v := by
        rw [store_words_of_lt hle (.inl (by omega)), Function.update_self]
      show Mem.store (Function.update m a v) (words (a + 4) (w :: vs)) a ::
        loads (Mem.store (Function.update m a v) (words (a + 4) (w :: vs))) (a + 4) (w :: vs).length = _
      rw [hhead, ih hle]

theorem loads_congr (h : a.toNat + 4 * n ≤ 2 ^ 32)
    (hm : ∀ b : Word, a.toNat ≤ b.toNat → b.toNat < a.toNat + 4 * n → m b = m' b) :
    loads m a n = loads m' a n := by
  induction n generalizing a with
  | zero => rfl
  | succ n ih =>
    rw [loads, loads, hm a (Nat.le_refl _) (by omega)]
    cases n with
    | zero => rfl
    | succ n =>
      have ha := toNat_add_four (a := a) (by omega)
      rw [ih (by omega) fun b hb hb' => hm b (by omega) (by omega)]

end Mem

/-! ## Variables and stacks -/

/-- What `portASM` refers to by name. -/
inductive Sym
  | ulPortInterruptNesting | ulPortYieldRequired | gR8Epi | gR8Sw | ulCriticalNesting
  | ulPortTaskHasFPUContext | pxCurrentTCB | vTaskSwitchContext
  deriving DecidableEq

/-- In words; a function is never stored to. -/
def Sym.size : Sym → ℕ
  | gR8Epi => 8
  | gR8Sw => 4
  | vTaskSwitchContext => 0
  | _ => 1

/-- The C functions called from assembly. -/
inductive CFun
  | freeRTOSGetActiveIRQ | vApplicationIRQHandler | freeRTOSEndOfInterrupt | vTaskSwitchContext
  deriving DecidableEq

/-- Where the linker has put things: the variables, the words behind each call, and the stacks of
SVC and IRQ mode, all apart from each other. -/
structure Layout where
  sym : Sym → Word
  ret : CFun → Word
  svcLo : ℕ
  svcHi : ℕ
  irqLo : ℕ
  irqHi : ℕ
  svcHi_le : svcHi ≤ 2 ^ 32
  irqHi_le : irqHi ≤ 2 ^ 32
  stacks_apart : svcHi ≤ irqLo ∨ irqHi ≤ svcLo
  fits : ∀ s, (sym s).toNat + 4 * s.size ≤ 2 ^ 32
  not_svc : ∀ s, (sym s).toNat + 4 * s.size ≤ svcLo ∨ svcHi ≤ (sym s).toNat
  not_irq : ∀ s, (sym s).toNat + 4 * s.size ≤ irqLo ∨ irqHi ≤ (sym s).toNat
  apart : ∀ s t, s ≠ t → (sym s).toNat + 4 * s.size ≤ (sym t).toNat ∨
    (sym t).toNat + 4 * t.size ≤ (sym s).toNat

/-! ## Instructions -/

/-- The last operand of an instruction. -/
inductive Operand
  | imm (v : Word)
  | reg (g : Reg)

/-- The instructions; `ldrSym` loads the address of a symbol. -/
inductive Op
  | ldrSym (d : Reg) (s : Sym)
  | ldr (d b : Reg) (i : Word)
  | str (n b : Reg) (i : Word)
  | push (l : List Reg)
  | pop (l : List Reg)
  | mov (d : Reg) (o : Operand)
  | add (d n : Reg) (o : Operand)
  | sub (d n : Reg) (o : Operand)
  | and (d n : Reg) (o : Operand)
  | cmp (n : Reg) (o : Operand)
  | tst (n : Reg) (o : Operand)
  | mrsCpsr (d : Reg)
  | mrsSpsr (d : Reg)
  | msrSpsr (n : Reg)
  | cps (m : BitVec 5)
  | cpsidI
  | dsb
  | isb
  | srsdb (m : BitVec 5)
  | fmrx (d : Reg)
  | vmsr (n : Reg)
  | vpush
  | vpop

/-- The conditions that occur. -/
inductive Cond
  | al | eq | ne | hi

/-- An instruction with its condition. -/
structure Instr where
  cond : Cond
  op : Op

instance : Coe Op Instr := ⟨Instr.mk .al⟩

/-- On the flags N, Z, C, V. -/
def Cond.holds : Cond → BitVec 4 → Bool
  | al, _ => true
  | eq, f => f.getLsbD 2
  | ne, f => !f.getLsbD 2
  | hi, f => f.getLsbD 1 && !f.getLsbD 2

def Operand.value (o : Operand) (c : Cpu) : Word :=
  match o with
  | .imm v => v
  | .reg g => c.get g

/-- The flags of `a - b`. -/
def subFlags (a b : Word) : BitVec 4 :=
  BitVec.ofBool (a - b).msb ++ (BitVec.ofBool (a == b) ++ (BitVec.ofBool (b.toNat ≤ a.toNat) ++
    BitVec.ofBool (a.msb != b.msb && (a - b).msb != a.msb)))

/-- The flags of `a & b`; C and V stay. -/
def andFlags (a b : Word) (f : BitVec 4) : BitVec 4 :=
  BitVec.ofBool (a &&& b).msb ++ (BitVec.ofBool (a &&& b == 0) ++ f.extractLsb' 0 2)

namespace Op

/-- The registers after the instruction. -/
def cpu (L : Layout) (op : Op) (c : Cpu) (m : Mem) : Cpu :=
  match op with
  | ldrSym d s => c.set d (L.sym s)
  | ldr d b i => c.set d (m (c.get b + i))
  | str _ _ _ => c
  | push l => c.setSpOf c.cpsr.mode (c.sp - BitVec.ofNat 32 (4 * l.length))
  | pop l => (c.setSpOf c.cpsr.mode (c.sp + BitVec.ofNat 32 (4 * l.length))).setAll
      (l.zip (loads m c.sp l.length))
  | mov d o => c.set d (o.value c)
  | add d n o => c.set d (c.get n + o.value c)
  | sub d n o => c.set d (c.get n - o.value c)
  | and d n o => c.set d (c.get n &&& o.value c)
  | cmp n o => c.setFlags (subFlags (c.get n) (o.value c))
  | tst n o => c.setFlags (andFlags (c.get n) (o.value c) c.cpsr.nzcv)
  | mrsCpsr d => c.set d c.cpsr.toWord
  | mrsSpsr d => c.set d c.spsr.toWord
  | msrSpsr n => c.setSpsr (.ofWord (c.get n))
  | cps m => { c with cpsr := { c.cpsr with mode := m } }
  | cpsidI => { c with cpsr := { c.cpsr with masked := true } }
  | dsb => c
  | isb => c
  | srsdb m => c.setSpOf m (c.spOf m - 8)
  | fmrx d => c.set d c.fpscr
  | vmsr n => { c with fpscr := c.get n }
  | vpush => c.setSpOf c.cpsr.mode (c.sp - 128)
  | vpop => { c.setSpOf c.cpsr.mode (c.sp + 128) with d := fun i => m (c.sp + BitVec.ofNat 32 (4 * i)) }

/-- The words it stores. -/
def stores (op : Op) (c : Cpu) : List (Word × Word) :=
  match op with
  | str n b i => [(c.get b + i, c.get n)]
  | push l => words (c.sp - BitVec.ofNat 32 (4 * l.length)) (l.map c.get)
  | srsdb m => words (c.spOf m - 8) [c.lr, c.spsr.toWord]
  | vpush => words (c.sp - 128) (List.ofFn c.d)
  | _ => []

end Op

namespace Cpu

variable (c : Cpu)

/-- The processor takes an IRQ: Q, GE and the reserved bits stay, A and I are set, T, J, IT and E
are cleared. -/
def irqEntry : Cpu := { c with
  lrIrq := c.pc + 4
  spsrIrq := c.cpsr
  cpsr := ⟨c.cpsr.nzcv, c.cpsr.hi &&& 0x8ff00 ||| 0x1, true, c.cpsr.ft &&& 2, irqMode⟩ }

/-- `SVC`, from ARM or Thumb state. -/
def svcEntry : Cpu := { c with
  lrSvc := c.pc + if c.cpsr.ft.getLsbD 0 then 2 else 4
  spsrSvc := c.cpsr
  cpsr := ⟨c.cpsr.nzcv, c.cpsr.hi &&& 0x8ff01, true, c.cpsr.ft &&& 2, svcMode⟩ }

/-- `MOVS PC, LR`. -/
def movsPcLr : Cpu := { c with pc := c.lr, cpsr := c.spsr }

theorem movsPcLr_spSys : c.movsPcLr.spSys = c.spSys := rfl

/-- `RFEIA sp!`. -/
def rfeia (m : Mem) : Cpu := { c.setSpOf c.cpsr.mode (c.sp + 8) with
  pc := m c.sp
  cpsr := .ofWord (m (c.sp + 4)) }

end Cpu

end CR8Devkit.Port
