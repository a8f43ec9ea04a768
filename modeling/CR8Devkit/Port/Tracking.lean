import CR8Devkit.Port.Activation

/-!
# What the handlers do to the port's variables

* `StoresTo`: where a block stores; `storesTo_saveUsed`, `storesTo_block` and so on: in the stacks
  of SVC and IRQ mode, in one variable, or just below the stack pointer of SYS mode.
* `kept`: the nesting count, the yield flag and the TCB pointer; `Avoid`: a block that stores to
  none of them, and `Keeps`: what it leaves as it was.
-/

namespace CR8Devkit.Port

open Handler

/-! ## Variables -/

/-- The variables that blocks leave alone as a rule. -/
def kept : List Sym := [.ulPortInterruptNesting, .ulPortYieldRequired, .pxCurrentTCB]

def Layout.nesting (L : Layout) (m : Mem) : ℕ := (m (L.sym .ulPortInterruptNesting)).toNat

def Layout.yield (L : Layout) (m : Mem) : Word := m (L.sym .ulPortYieldRequired)

def Layout.tcb (L : Layout) (m : Mem) : Word := m (L.sym .pxCurrentTCB)

/-- An address of none of them. -/
def Layout.Free (L : Layout) (a : Word) : Prop := ∀ v ∈ kept, a ≠ L.sym v

instance (L : Layout) (a : Word) : Decidable (L.Free a) := inferInstanceAs (Decidable (∀ _ ∈ _, _))

/-- Every store of the block is to an address that meets `P`. -/
def StoresTo (L : Layout) (P : Word → Prop) : List Instr → St → Prop
  | [], _ => True
  | i :: is, s => (∀ a ∈ (i.op.stores s.cpu).map Prod.fst, P a) ∧ StoresTo L P is (i.run L s)

/-- A word of variable `v`. -/
def Layout.Cell (L : Layout) (v : Sym) (a : Word) : Prop :=
  ∃ k < v.size, a = L.sym v + BitVec.ofNat 32 (4 * k)

/-- Every store of the block is to an address of none of those variables. -/
def Avoid (L : Layout) : List Instr → St → Prop
  | [], _ => True
  | i :: is, s => (∀ a ∈ (i.op.stores s.cpu).map Prod.fst, L.Free a) ∧ Avoid L is (i.run L s)

structure Keeps (L : Layout) (s s' : St) : Prop where
  mem : ∀ v ∈ kept, s'.mem (L.sym v) = s.mem (L.sym v)
  counted : s'.counted = s.counted
  pending : s'.pending = s.pending
  asked : s'.asked = s.asked
  switches : s'.switches = s.switches

section StoresTo

variable {L : Layout} {P Q : Word → Prop} {is is' : List Instr} {s : St} {b : Reg} {v : Sym}

theorem StoresTo.mono (h : StoresTo L P is s) (hP : ∀ a, P a → Q a) : StoresTo L Q is s := by
  induction is generalizing s with
  | nil => trivial
  | cons i is ih => exact ⟨fun a ha => hP a (h.1 a ha), ih h.2⟩

theorem StoresTo.append (h : StoresTo L P is s) (h' : StoresTo L P is' (L.runs is s)) :
    StoresTo L P (is ++ is') s := by
  induction is generalizing s with
  | nil => exact h'
  | cons i is ih => exact ⟨h.1, ih h.2 h'⟩

theorem avoid_of_storesTo (h : StoresTo L P is s) (hP : ∀ a, P a → L.Free a) : Avoid L is s := by
  induction is generalizing s with
  | nil => trivial
  | cons i is ih => exact ⟨fun a ha => hP a (h.1 a ha), ih h.2⟩

/-- Instructions that never store. -/
def Op.silent : Op → Bool
  | .str .. | .push .. | .srsdb .. | .vpush => false
  | _ => true

theorem stores_of_silent {op : Op} (h : op.silent = true) (c : Cpu) : op.stores c = [] := by
  cases op <;> first | rfl | cases h

theorem storesTo_of_silent (h : ∀ i ∈ is, i.op.silent = true) : StoresTo L P is s := by
  induction is generalizing s with
  | nil => trivial
  | cons i is ih =>
    refine ⟨fun a ha => ?_, ih fun j hj => h j (List.mem_cons_of_mem _ hj)⟩
    rw [stores_of_silent (h i List.mem_cons_self)] at ha
    cases ha

theorem storesTo_runs (hb : b.scratch = true) (hi : ∀ i ∈ is, i.op.plain b v = true)
    (hs : s.cpu.get b = L.sym v) : StoresTo L (L.Cell v) is s := by
  induction is generalizing s with
  | nil => trivial
  | cons i is ih =>
    have hplain := hi i List.mem_cons_self
    exact ⟨fun a ha => plain_stores hb hplain hs ha,
      ih (fun j hj => hi j (List.mem_cons_of_mem _ hj)) (calm_run hb hplain hs).2⟩

theorem get_set_self (hb : b.scratch = true) (c : Cpu) (w : Word) : (c.set b w).get b = w := by
  cases b with
  | r j => exact Function.update_self _ _ _
  | sp => cases hb
  | lr => cases hb

/-- A block that works on one variable. -/
theorem storesTo_block (hb : b.scratch = true) (hi : ∀ i ∈ is, i.op.plain b v = true) :
    StoresTo L (L.Cell v) (Op.ldrSym b v :: is) s :=
  ⟨fun _ ha => (List.not_mem_nil ha).elim, storesTo_runs hb hi (get_set_self hb _ _)⟩

end StoresTo

section Keeps

variable {L : Layout} {i : Instr} {is : List Instr} {s s' s'' : St} {b : Reg} {v : Sym} {a : Word}

theorem Keeps.refl (s : St) : Keeps L s s := ⟨fun _ _ => rfl, rfl, rfl, rfl, rfl⟩

theorem Keeps.trans (h : Keeps L s s') (h' : Keeps L s' s'') : Keeps L s s'' where
  mem v hv := (h'.mem v hv).trans (h.mem v hv)
  counted := h'.counted.trans h.counted
  pending := h'.pending.trans h.pending
  asked := h'.asked.trans h.asked
  switches := h'.switches.trans h.switches

theorem Keeps.nesting (h : Keeps L s s') : L.nesting s'.mem = L.nesting s.mem :=
  congrArg BitVec.toNat (h.mem _ (by decide))

theorem Keeps.yield (h : Keeps L s s') : L.yield s'.mem = L.yield s.mem := h.mem _ (by decide)

theorem Keeps.tcb (h : Keeps L s s') : L.tcb s'.mem = L.tcb s.mem := h.mem _ (by decide)

theorem Instr.run_counted (L : Layout) (i : Instr) (s : St) : (i.run L s).counted =
    if i.cond.holds s.cpu.cpsr.nzcv then s.counted ^^ i.op.counts L s.cpu else s.counted := by
  unfold run
  split <;> rfl

theorem Instr.run_tree (L : Layout) (i : Instr) (s : St) : (i.run L s).pending = s.pending ∧
    (i.run L s).asked = s.asked ∧ (i.run L s).switches = s.switches := by
  unfold run
  split <;> exact ⟨rfl, rfl, rfl⟩

theorem counts_eq_false {op : Op} {c : Cpu} (h : ∀ a ∈ (op.stores c).map Prod.fst, L.Free a) :
    op.counts L c = false := by
  cases op with
  | str n b k => exact beq_eq_false_iff_ne.mpr (h _ List.mem_cons_self _ (by decide))
  | _ => rfl

theorem keeps_run (h : ∀ a ∈ (i.op.stores s.cpu).map Prod.fst, L.Free a) : Keeps L s (i.run L s) := by
  obtain ⟨hpending, hasked, hswitches⟩ := i.run_tree L s
  refine ⟨fun v hv => ?_, ?_, hpending, hasked, hswitches⟩
  · rw [Instr.run_mem]
    split_ifs
    · exact store_of_not_mem fun hmem => h _ hmem v hv rfl
    · rfl
  · rw [Instr.run_counted, counts_eq_false h, Bool.xor_false, ite_self]

theorem keeps_runs (h : Avoid L is s) : Keeps L s (L.runs is s) := by
  induction is generalizing s with
  | nil => exact .refl s
  | cons i is ih => exact (keeps_run h.1).trans (ih h.2)

theorem avoid_of_silent (h : ∀ i ∈ is, i.op.silent = true) : Avoid L is s :=
  avoid_of_storesTo (storesTo_of_silent h : StoresTo L L.Free is s) fun _ => id

/-- A word of another variable. -/
theorem free_of_cell (hv : v ∉ kept) (h : L.Cell v a) : L.Free a := by
  obtain ⟨k, hk, rfl⟩ := h
  intro w hw h
  have hne : v ≠ w := by
    rintro rfl
    exact hv hw
  have hsize : 0 < w.size := by
    revert hw
    cases w <;> decide
  have hf := L.fits v
  have hap := L.apart v w hne
  have ha := congrArg BitVec.toNat h
  rw [BitVec.toNat_add, BitVec.toNat_ofNat] at ha
  omega

/-- A block that works on another variable. -/
theorem avoid_block (hb : b.scratch = true) (hv : v ∉ kept) (hi : ∀ i ∈ is, i.op.plain b v = true) :
    Avoid L (Op.ldrSym b v :: is) s :=
  avoid_of_storesTo (storesTo_block hb hi) fun _ => free_of_cell hv

theorem sym_ne {w : Sym} (hne : v ≠ w) (hv : 0 < v.size) (hw : 0 < w.size) : L.sym v ≠ L.sym w := by
  intro h
  have hap := L.apart v w hne
  rw [h] at hap
  omega

/-- A word of the SVC or IRQ stack. -/
theorem free_of_inStacks (h : InStacks L a) : L.Free a := by
  rintro v hv rfl
  have hsize : 0 < v.size := by
    revert hv
    cases v <;> decide
  refine not_inStacks (L := L) (v := v) (k := 0) hsize ?_
  rwa [Nat.mul_zero, BitVec.add_zero]

end Keeps

/-! ## Single instructions -/

section Instructions

variable {L : Layout} {s : St} {is : List Instr} {b d g : Reg} {v : Sym}

/-- Leaves register `g` alone. -/
def Op.spares (g : Reg) : Op → Bool
  | .str .. => true
  | op => op.dest.any fun d => d != some g

theorem get_run {i : Instr} (hg : g.scratch = true) (hi : i.op.spares g = true) :
    (i.run L s).cpu.get g = s.cpu.get g := by
  have hdest : (i.op.dest.any fun d => d != some g) = true → (i.run L s).cpu.get g = s.cpu.get g := by
    intro h
    obtain ⟨d, hd, hne⟩ := (Option.any_eq_true _ _).mp h
    rw [Instr.run_cpu]
    split_ifs
    · exact dest_get hd hg (bne_iff_ne.mp hne) s.mem
    · rfl
  obtain ⟨cond, op⟩ := i
  cases op with
  | str n b k =>
    rw [Instr.run_cpu]
    exact congrArg (Cpu.get · g) (ite_self _)
  | _ => exact hdest hi

theorem get_runs (hg : g.scratch = true) (hi : ∀ i ∈ is, i.op.spares g = true) :
    (L.runs is s).cpu.get g = s.cpu.get g := by
  induction is generalizing s with
  | nil => rfl
  | cons i is ih =>
    exact (ih fun j hj => hi j (List.mem_cons_of_mem _ hj)).trans (get_run hg (hi i List.mem_cons_self))

/-- A variable is read. -/
theorem get_loadVar (hb : b.scratch = true) (hd : d.scratch = true) (hne : d ≠ b) :
    (L.runs [Op.ldrSym b v, Op.ldr d b 0] s).cpu.get b = L.sym v ∧
      (L.runs [Op.ldrSym b v, Op.ldr d b 0] s).cpu.get d = s.mem (L.sym v) := by
  simp only [runs_cons, runs_nil, run_al, Op.cpu, Op.stores, Mem.store]
  rw [get_set_of_ne hb hne hd, get_set_self hb, get_set_self hd]
  exact ⟨rfl, congrArg s.mem (BitVec.add_zero _)⟩

theorem get_mov (hd : d.scratch = true) (w : Word) :
    ((Instr.mk .al (.mov d (.imm w))).run L s).cpu.get d = w :=
  get_set_self hd s.cpu _

theorem get_add (hd : d.scratch = true) (w : Word) :
    ((Instr.mk .al (.add d d (.imm w))).run L s).cpu.get d = s.cpu.get d + w :=
  get_set_self hd s.cpu _

theorem get_sub (hd : d.scratch = true) (w : Word) :
    ((Instr.mk .al (.sub d d (.imm w))).run L s).cpu.get d = s.cpu.get d - w :=
  get_set_self hd s.cpu _

theorem run_strNesting (hb : s.cpu.get b = L.sym .ulPortInterruptNesting) :
    (Instr.mk .al (.str d b 0)).run L s = { s with
      mem := Function.update s.mem (L.sym .ulPortInterruptNesting) (s.cpu.get d)
      counted := !s.counted } := by
  simp [run_al, Op.cpu, Op.stores, Op.counts, Mem.store, hb]

theorem run_strYield (hb : s.cpu.get b = L.sym .ulPortYieldRequired) :
    (Instr.mk .al (.str d b 0)).run L s = { s with
      mem := Function.update s.mem (L.sym .ulPortYieldRequired) (s.cpu.get d) } := by
  have hne : (L.sym .ulPortYieldRequired == L.sym .ulPortInterruptNesting) = false :=
    beq_eq_false_iff_ne.mpr (sym_ne (by decide) (by decide) (by decide))
  simp [run_al, Op.cpu, Op.stores, Op.counts, Mem.store, hb, hne]

theorem subFlags_zero (a b : Word) : (subFlags a b).getLsbD 2 = (a == b) := by
  simp only [subFlags, BitVec.getLsbD_append]
  simp

/-- `BNE` behind a comparison. -/
theorem ne_holds_cmp (n : Reg) (w : Word) :
    Cond.ne.holds ((Instr.mk .al (.cmp n (.imm w))).run L s).cpu.cpsr.nzcv = (s.cpu.get n != w) := by
  rw [run_al]
  exact congrArg not (subFlags_zero _ _)

end Instructions

/-! ## The blocks of `irqHandler` -/

section Blocks

variable {L : Layout} {o s : St} {a : Word} {vs : List Word}

theorem inStacks_words_svc (hlo : L.svcLo ≤ a.toNat) (hhi : a.toNat + 4 * vs.length ≤ L.svcHi) :
    ∀ b ∈ (words a vs).map Prod.fst, InStacks L b := by
  intro b hb
  have hw := mem_words (Nat.le_trans hhi L.svcHi_le) hb
  exact .inl ⟨by omega, by omega, Nat.zero_le _⟩

theorem inStacks_words_irq (hlo : L.irqLo ≤ a.toNat) (hhi : a.toNat + 4 * vs.length ≤ L.irqHi) :
    ∀ b ∈ (words a vs).map Prod.fst, InStacks L b := by
  intro b hb
  have hw := mem_words (Nat.le_trans hhi L.irqHi_le) hb
  exact .inr ⟨by omega, by omega, Nat.zero_le _⟩

theorem storesTo_saveUsed (hroom : L.Room o.cpu) (h : Entered o s) : StoresTo L (InStacks L) saveUsed s := by
  obtain ⟨hc, hm⟩ := h
  obtain ⟨⟨hlo, hhi⟩, hilo, hihi⟩ := hroom
  have h1 : L.irqLo ≤ (o.cpu.spIrq - 4).toNat ∧ (o.cpu.spIrq - 4).toNat + 4 ≤ L.irqHi := by
    constructor <;> bv_omega
  have h2 : L.irqLo ≤ (o.cpu.spIrq - 4 - 4).toNat ∧ (o.cpu.spIrq - 4 - 4).toNat + 4 ≤ L.irqHi := by
    constructor <;> bv_omega
  have h3 : L.svcLo ≤ (o.cpu.spSvc - 28).toNat ∧ (o.cpu.spSvc - 28).toNat + 28 ≤ L.svcHi := by
    constructor <;> bv_omega
  simp only [saveUsed, StoresTo, run_al, Op.cpu, Op.stores, hc]
  simp only [Cpu.irqEntry, Cpu.get, Cpu.set, Cpu.setLr, Cpu.lr, Cpu.sp, Cpu.spOf, Cpu.setSpOf,
    irqMode_ne_svcMode, if_true, if_false, usedRegs, List.length, Nat.zero_add, Nat.mul_one,
    Nat.reduceMul, Nat.reduceAdd, BitVec.ofNat_eq_ofNat, List.map_nil, List.not_mem_nil,
    false_imp_iff, implies_true, and_true, true_and]
  exact ⟨inStacks_words_irq h1.1 h1.2, inStacks_words_irq h2.1 h2.2, inStacks_words_svc h3.1 h3.2⟩

theorem avoid_saveUsed (hroom : L.Room o.cpu) (h : Entered o s) : Avoid L saveUsed s :=
  avoid_of_storesTo (storesTo_saveUsed hroom h) fun _ => free_of_inStacks

theorem storesTo_alignStack (hmode : s.cpu.cpsr.mode = svcMode) (hlo : L.svcLo + 8 ≤ s.cpu.spSvc.toNat)
    (hhi : s.cpu.spSvc.toNat ≤ L.svcHi) : StoresTo L (InStacks L) alignStack s := by
  have hpad : s.cpu.spSvc &&& 4 = 0 ∨ s.cpu.spSvc &&& 4 = 4 := by
    have h := BitVec.and_twoPow s.cpu.spSvc 2
    split_ifs at h
    · exact .inr h
    · exact .inl h
  have hsp : L.svcLo ≤ (s.cpu.spSvc - (s.cpu.spSvc &&& 4) - 4).toNat ∧
      (s.cpu.spSvc - (s.cpu.spSvc &&& 4) - 4).toNat + 4 ≤ L.svcHi := by
    rcases hpad with hp | hp <;> rw [hp] <;> constructor <;> bv_omega
  simp only [alignStack, StoresTo, run_al, Op.cpu, Op.stores]
  simp only [Cpu.get, Cpu.set, Cpu.sp, Cpu.spOf, Cpu.setSpOf, hmode, if_true, List.length, Nat.zero_add,
    Nat.mul_one, BitVec.ofNat_eq_ofNat, Operand.value, Function.update_self, Function.update_idem,
    List.map_nil, List.not_mem_nil, false_imp_iff, implies_true, and_true, true_and]
  exact inStacks_words_svc hsp.1 hsp.2

theorem avoid_alignStack (hmode : s.cpu.cpsr.mode = svcMode) (hlo : L.svcLo + 8 ≤ s.cpu.spSvc.toNat)
    (hhi : s.cpu.spSvc.toNat ≤ L.svcHi) : Avoid L alignStack s :=
  avoid_of_storesTo (storesTo_alignStack hmode hlo hhi) fun _ => free_of_inStacks

theorem storesTo_unalignStack (hmode : s.cpu.cpsr.mode = svcMode) (hr : s.cpu.r 3 = L.sym .gR8Epi) :
    StoresTo L (L.Cell .gR8Epi) unalignStack s := by
  have h32 : (3 : Fin 13) ≠ 2 := by decide
  have h1 : L.Cell .gR8Epi (L.sym .gR8Epi + 4) := ⟨1, by decide, rfl⟩
  have h2 : L.Cell .gR8Epi (L.sym .gR8Epi + 8) := ⟨2, by decide, rfl⟩
  simp only [unalignStack, StoresTo, run_al, Op.cpu, Op.stores]
  simp only [Cpu.get, Cpu.set, Cpu.setAll, Cpu.sp, Cpu.spOf, Cpu.setSpOf, hmode, hr, if_true, r2, loads,
    List.zip, List.zipWith, List.length, Operand.value, Function.update_self,
    Function.update_of_ne h32, List.map_nil, List.map_cons, List.mem_singleton, List.not_mem_nil,
    false_imp_iff, implies_true, and_true, true_and, forall_eq]
  exact ⟨h1, h2⟩

theorem avoid_unalignStack (hmode : s.cpu.cpsr.mode = svcMode) (hr : s.cpu.r 3 = L.sym .gR8Epi) :
    Avoid L unalignStack s :=
  avoid_of_storesTo (storesTo_unalignStack hmode hr) fun _ => free_of_cell (by decide)

theorem avoid_entrySnapshot : Avoid L entrySnapshot s :=
  avoid_block (v := .gR8Epi) rfl (by decide) (by decide)

theorem avoid_exitSnapshot : Avoid L exitSnapshot s :=
  avoid_block (v := .gR8Epi) rfl (by decide) (by decide)

theorem avoid_countExit : Avoid L countExit s :=
  avoid_block (v := .gR8Sw) rfl (by decide) (by decide)

theorem avoid_countSvc : Avoid L countSvc s :=
  avoid_block (v := .gR8Sw) rfl (by decide) (by decide)

theorem avoid_restoreUsed : Avoid L restoreUsed s := avoid_of_silent (by decide)

end Blocks

/-! ## Saving and restoring a context -/

/-- The bytes that an instruction pushes. -/
def Op.depth : Op → ℕ
  | .push l => 4 * l.length
  | .vpush => 128
  | _ => 0

def depth : List Instr → ℕ
  | [] => 0
  | i :: is => i.op.depth + depth is

/-- Pushes, or sets a scratch register or flags. -/
def Op.stacks : Op → Bool
  | .push _ | .vpush => true
  | op => op.dest.isSome

/-- One of the `n` bytes below `sp`. -/
def Below (sp : Word) (n : ℕ) (a : Word) : Prop := sp.toNat ≤ a.toNat + n ∧ a.toNat < sp.toNat

theorem Below.bounds {sp a : Word} {n lo hi : ℕ} (ha : Below sp n a) (hlo : lo + n ≤ sp.toNat)
    (hhi : sp.toNat ≤ hi) : lo ≤ a.toNat ∧ a.toNat < hi := by
  obtain ⟨h₁, h₂⟩ := ha
  exact ⟨by omega, by omega⟩

/-- The `n` bytes below `sp` hold none of the port's variables. -/
def Layout.TaskRoom (L : Layout) (n : ℕ) (sp : Word) : Prop :=
  n ≤ sp.toNat ∧ ∀ v ∈ kept, (L.sym v).toNat + n < sp.toNat ∨ sp.toNat ≤ (L.sym v).toNat

instance (L : Layout) (n : ℕ) (sp : Word) : Decidable (L.TaskRoom n sp) :=
  inferInstanceAs (Decidable (_ ∧ _))

section Contexts

variable {L : Layout} {s : St} {i : Instr} {is : List Instr} {m n : ℕ} {sp a : Word}

theorem Layout.TaskRoom.free (h : L.TaskRoom n sp) (ha : Below sp n a) : L.Free a := by
  obtain ⟨hlo, hhi⟩ := ha
  rintro v hv rfl
  rcases h.2 v hv with h | h <;> omega

/-- A word list pushed on a task's stack. -/
theorem below_words (sp : Word) (vs : List Word) (h : 4 * vs.length ≤ sp.toNat) :
    ∀ a ∈ (words (sp - BitVec.ofNat 32 (4 * vs.length)) vs).map Prod.fst, Below sp (4 * vs.length) a := by
  intro a ha
  have hlt := sp.isLt
  have hsp : (sp - BitVec.ofNat 32 (4 * vs.length)).toNat = sp.toNat - 4 * vs.length := by
    rw [toNat_sub_eq (by rw [BitVec.toNat_ofNat]; omega), BitVec.toNat_ofNat]
    omega
  have hmem := mem_words (by omega) ha
  exact ⟨by omega, by omega⟩

/-- An instruction that sets a scratch register or flags. -/
theorem dest_run (hi : i.op.dest.isSome = true) : i.op.stores s.cpu = [] ∧
    (i.run L s).cpu.cpsr.mode = s.cpu.cpsr.mode ∧ (i.run L s).cpu.spSys = s.cpu.spSys := by
  have hcalm := (calm_dest (L := L) (s := s) hi).cpu
  obtain ⟨d, hd⟩ := Option.isSome_iff_exists.mp hi
  exact ⟨(dest_spec (L := L) (c := s.cpu) hd s.mem).1, hcalm.mode, hcalm.spSys⟩

/-- A push in SYS mode, if its condition holds. -/
theorem push_run (vs : List Word) (hst : i.op.stores s.cpu =
      words (s.cpu.sp - BitVec.ofNat 32 (4 * vs.length)) vs)
    (hcpu : i.op.cpu L s.cpu s.mem =
      s.cpu.setSpOf s.cpu.cpsr.mode (s.cpu.sp - BitVec.ofNat 32 (4 * vs.length)))
    (hmode : s.cpu.cpsr.mode = sysMode) (hn : 4 * vs.length ≤ s.cpu.spSys.toNat) :
    (∀ a ∈ (i.op.stores s.cpu).map Prod.fst, Below s.cpu.spSys (4 * vs.length) a) ∧
      (i.run L s).cpu.cpsr.mode = sysMode ∧
      s.cpu.spSys.toNat ≤ (i.run L s).cpu.spSys.toNat + 4 * vs.length ∧
      (i.run L s).cpu.spSys.toNat ≤ s.cpu.spSys.toNat := by
  have hsp : s.cpu.sp = s.cpu.spSys := by
    rw [Cpu.sp, hmode]
    rfl
  rw [hmode, hsp] at hcpu
  rw [hsp] at hst
  refine ⟨by rw [hst]; exact below_words _ vs hn, ?_⟩
  rw [Instr.run_cpu]
  split_ifs
  · rw [hcpu]
    have hlt := s.cpu.spSys.isLt
    have hsub : (s.cpu.spSys - BitVec.ofNat 32 (4 * vs.length)).toNat =
        s.cpu.spSys.toNat - 4 * vs.length := by
      rw [toNat_sub_eq (by rw [BitVec.toNat_ofNat]; omega), BitVec.toNat_ofNat]
      omega
    exact ⟨hmode, by show _ ≤ (s.cpu.spSys - _).toNat + _; omega,
      by show (s.cpu.spSys - _).toNat ≤ _; omega⟩
  · exact ⟨hmode, Nat.le_add_right _ _, Nat.le_refl _⟩

theorem stack_run (hi : i.op.stacks = true) (hmode : s.cpu.cpsr.mode = sysMode)
    (hn : i.op.depth ≤ s.cpu.spSys.toNat) :
    (∀ a ∈ (i.op.stores s.cpu).map Prod.fst, Below s.cpu.spSys i.op.depth a) ∧
      (i.run L s).cpu.cpsr.mode = sysMode ∧
      s.cpu.spSys.toNat ≤ (i.run L s).cpu.spSys.toNat + i.op.depth ∧
      (i.run L s).cpu.spSys.toNat ≤ s.cpu.spSys.toNat := by
  by_cases hdest : i.op.dest.isSome = true
  · obtain ⟨hst, hmode', hsp⟩ := dest_run (L := L) (s := s) hdest
    rw [hst, hsp]
    exact ⟨fun a ha => (List.not_mem_nil ha).elim, hmode'.trans hmode, Nat.le_add_right _ _, Nat.le_refl _⟩
  obtain ⟨cond, op⟩ := i
  cases op with
  | push l =>
    have hlen : (l.map s.cpu.get).length = l.length := List.length_map _
    have hpush := push_run (L := L) (i := ⟨cond, .push l⟩) (l.map s.cpu.get)
      (by rw [hlen]; rfl) (by rw [hlen]; rfl) hmode (by rw [hlen]; exact hn)
    rwa [hlen] at hpush
  | vpush =>
    have hlen : (List.ofFn s.cpu.d).length = 32 := List.length_ofFn
    have hpush := push_run (L := L) (i := ⟨cond, .vpush⟩) (List.ofFn s.cpu.d)
      (by rw [hlen]; rfl) (by rw [hlen]; rfl) hmode (by rw [hlen]; exact hn)
    rwa [hlen] at hpush
  | _ => exact (hdest hi).elim

/-- A block that pushes at most `n` bytes, from `m` bytes below `sp` on. -/
theorem stack_runs (sp : Word) (is : List Instr) (hi : ∀ i ∈ is, i.op.stacks = true)
    (hmode : s.cpu.cpsr.mode = sysMode) (hlo : sp.toNat ≤ s.cpu.spSys.toNat + m)
    (hhi : s.cpu.spSys.toNat ≤ sp.toNat) (hn : m + depth is ≤ n) (hroom : n ≤ sp.toNat) :
    StoresTo L (Below sp n) is s ∧ (L.runs is s).cpu.cpsr.mode = sysMode ∧
      sp.toNat ≤ (L.runs is s).cpu.spSys.toNat + (m + depth is) ∧
      (L.runs is s).cpu.spSys.toNat ≤ sp.toNat := by
  induction is generalizing s m with
  | nil => exact ⟨trivial, hmode, hlo, hhi⟩
  | cons i is ih =>
    rw [depth] at hn ⊢
    obtain ⟨hst, hmode', hlo', hhi'⟩ := stack_run (L := L) (hi i List.mem_cons_self) hmode (by omega)
    obtain ⟨hrest, hmode'', hlo'', hhi''⟩ := ih (m := m + i.op.depth)
      (fun j hj => hi j (List.mem_cons_of_mem _ hj)) hmode' (by omega) (by omega) (by omega)
    rw [Nat.add_assoc] at hlo''
    refine ⟨⟨fun a ha => ?_, hrest⟩, hmode'', hlo'', hhi''⟩
    obtain ⟨h1, h2⟩ := hst a ha
    exact ⟨by omega, by omega⟩

/-- The words that hold a context: two by `SRSDB`, fourteen registers and the critical nesting
count. -/
theorem storesTo_pushContext (h : 204 ≤ s.cpu.spSys.toNat) :
    StoresTo L (Below s.cpu.spSys 204) pushContext s ∧
      (L.runs pushContext s).cpu.cpsr.mode = sysMode ∧
      s.cpu.spSys.toNat ≤ (L.runs pushContext s).cpu.spSys.toNat + 68 ∧
      (L.runs pushContext s).cpu.spSys.toNat ≤ s.cpu.spSys.toNat := by
  have hsub : (s.cpu.spSys - 8).toNat = s.cpu.spSys.toNat - 8 := toNat_sub_eq (by simp; omega)
  have hfirst : ∀ a ∈ ((Op.srsdb sysMode).stores s.cpu).map Prod.fst, Below s.cpu.spSys 204 a := by
    intro a ha
    obtain ⟨h1, h2⟩ := below_words s.cpu.spSys [s.cpu.lr, s.cpu.spsr.toWord]
      (by simp only [List.length_cons, List.length_nil]; omega) a ha
    simp only [List.length_cons, List.length_nil] at h1
    exact ⟨by omega, h2⟩
  have hsp8 : ((Instr.mk .al (.cps sysMode)).run L ((Instr.mk .al (.srsdb sysMode)).run L s)).cpu.spSys =
    s.cpu.spSys - 8 := rfl
  obtain ⟨hst, hmode, hlo, hhi⟩ := stack_runs (L := L) (m := 8) (n := 204)
    (s := (Instr.mk .al (.cps sysMode)).run L ((Instr.mk .al (.srsdb sysMode)).run L s))
    s.cpu.spSys pushContext.tail.tail (by decide) rfl (by rw [hsp8]; omega) (by rw [hsp8]; omega)
      (by decide) h
  exact ⟨⟨hfirst, fun a ha => (List.not_mem_nil ha).elim, hst⟩, hmode, hlo, hhi⟩

theorem storesTo_pushFpu (fpu : Bool) (hmode : s.cpu.cpsr.mode = sysMode)
    (hlo : sp.toNat ≤ s.cpu.spSys.toNat + 68) (hhi : s.cpu.spSys.toNat ≤ sp.toNat) (h : 204 ≤ sp.toNat) :
    StoresTo L (Below sp 204) (pushFpu fpu) s :=
  (stack_runs sp _ (by cases fpu <;> decide) hmode hlo hhi (by cases fpu <;> decide) h).1

theorem avoid_pushContext (h : L.TaskRoom 204 s.cpu.spSys) : Avoid L pushContext s :=
  avoid_of_storesTo (storesTo_pushContext h.1).1 fun _ => h.free

theorem avoid_pushFpu (fpu : Bool) (h : L.TaskRoom 204 s.cpu.spSys) :
    Avoid L (pushFpu fpu) (L.runs pushContext s) := by
  obtain ⟨-, hmode, hlo, hhi⟩ := storesTo_pushContext (L := L) h.1
  exact avoid_of_storesTo (storesTo_pushFpu fpu hmode hlo hhi h.1) fun _ => h.free

theorem storesTo_storeSp : StoresTo L (· = L.tcb s.mem) storeSp s := by
  refine ⟨fun a ha => (List.not_mem_nil ha).elim, fun a ha => (List.not_mem_nil ha).elim,
    fun a ha => ?_, trivial⟩
  rw [List.mem_singleton.mp ha]
  simp only [run_al, Op.cpu, Cpu.get, Cpu.set, r0, r1, Op.stores, Mem.store, Function.update_self,
    BitVec.ofNat_eq_ofNat, BitVec.add_zero]
  rfl

theorem avoid_storeSp (h : L.Free (L.tcb s.mem)) : Avoid L storeSp s := by
  refine avoid_of_storesTo storesTo_storeSp ?_
  rintro a rfl
  exact h

/-- A variable is loaded from the stack. -/
theorem storesTo_popVar {v : Sym} (hsize : 0 < v.size) (his : ∀ i ∈ is, i.op.silent = true) :
    StoresTo L (L.Cell v) (Op.ldrSym r0 v :: Op.pop [r1] :: Op.str r1 r0 0 :: is) s := by
  refine ⟨fun a ha => (List.not_mem_nil ha).elim, fun a ha => (List.not_mem_nil ha).elim,
    fun a ha => ⟨0, hsize, ?_⟩, storesTo_of_silent his⟩
  have h01 : (0 : Fin 13) ≠ 1 := by decide
  rw [List.mem_singleton.mp ha]
  simp only [run_al, Op.cpu, Cpu.get, Cpu.set, Cpu.setAll, Cpu.setSpOf_r, r0, r1, List.length,
    Nat.zero_add, loads, List.zip, List.zipWith, Function.update_of_ne h01, Function.update_self]
  rfl

theorem storesTo_popFpu (fpu : Bool) : StoresTo L (L.Cell .ulPortTaskHasFPUContext) (popFpu fpu) s := by
  cases fpu with
  | false => trivial
  | true => exact storesTo_popVar (by decide) (by decide)

theorem storesTo_popContext : StoresTo L (L.Cell .ulCriticalNesting) popContext s :=
  storesTo_popVar (by decide) (by decide)

theorem avoid_popFpu (fpu : Bool) : Avoid L (popFpu fpu) s :=
  avoid_of_storesTo (storesTo_popFpu fpu) fun _ => free_of_cell (by decide)

theorem avoid_popContext : Avoid L popContext s :=
  avoid_of_storesTo storesTo_popContext fun _ => free_of_cell (by decide)

end Contexts

end CR8Devkit.Port
