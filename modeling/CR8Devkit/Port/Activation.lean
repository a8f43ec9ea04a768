import CR8Devkit.Port.Interrupts

/-!
# One activation of the IRQ handler

* `Calm`, `calm_block`: blocks that work on one variable touch neither stack nor the other
  registers.
* `Saved`, `Held`: the interrupted state as the activation keeps it, with `Held.returns` for the
  calls.
* `saved_saveUsed`, `held_alignStack`, `saved_unalignStack`, `restored_restoreUsed`: the blocks that
  move it.
* **`irqHandler_safe`**: the handler keeps IRQs masked, and where it leaves through
  `exitWithoutSwitch` the interrupted state is back.
-/

namespace CR8Devkit.Port

open Handler

/-! ## Masking -/

def Masked (s : St) : Prop := s.cpu.cpsr.masked = true

section Steps

variable {L : Layout} {o s s' : St}

/-- No handler instruction unmasks IRQs. -/
theorem masked_run {i : Instr} (h : Masked s) : Masked (i.run L s) := by
  unfold Masked at *
  rw [Instr.run_cpu]
  split_ifs
  · cases i.op <;> simp [Op.cpu, Cpu.setFlags, h]
  · exact h

end Steps

/-! ## Scratch registers and variables -/

/-- r0 to r4 and r12. -/
def Reg.scratch : Reg → Bool
  | .r i => i.val < 5 || i.val == 12
  | _ => false

/-- The register the instruction sets, if it is one that sets a scratch register or flags only. -/
def Op.dest : Op → Option (Option Reg)
  | .ldrSym d _ | .ldr d _ _ | .mov d _ | .add d _ _ | .sub d _ _ | .and d _ _ | .mrsCpsr d
  | .fmrx d => if d.scratch then some (some d) else none
  | .cmp _ _ | .tst _ _ | .cpsidI | .dsb | .isb => some none
  | _ => none

/-- With the address of variable `v` in register `b`: stores into `v`, or sets another scratch
register or flags. -/
def Op.plain (b : Reg) (v : Sym) : Op → Bool
  | .str _ b' i => b' == b && i.toNat % 4 == 0 && i.toNat / 4 < v.size
  | op => op.dest.any fun d => d != some b

/-- Registers that such instructions leave alone. -/
structure SameCpu (c c' : Cpu) : Prop where
  mode : c'.cpsr.mode = c.cpsr.mode
  spSvc : c'.spSvc = c.spSvc
  spIrq : c'.spIrq = c.spIrq
  spSys : c'.spSys = c.spSys
  lrSys : c'.lrSys = c.lrSys
  r : ∀ i : Fin 13, 5 ≤ i.val → i.val ≤ 11 → c'.r i = c.r i

def InStacks (L : Layout) (a : Word) : Prop := L.UsedFrom 0 0 a

structure Calm (L : Layout) (s s' : St) : Prop where
  cpu : SameCpu s.cpu s'.cpu
  mem : ∀ a, InStacks L a → s'.mem a = s.mem a

section Calm

variable {L : Layout} {c c' c'' : Cpu} {s s' s'' : St} {b : Reg} {v : Sym}

theorem SameCpu.refl (c : Cpu) : SameCpu c c := ⟨rfl, rfl, rfl, rfl, rfl, fun _ _ _ => rfl⟩

theorem SameCpu.trans (h : SameCpu c c') (h' : SameCpu c' c'') : SameCpu c c'' where
  mode := h'.mode.trans h.mode
  spSvc := h'.spSvc.trans h.spSvc
  spIrq := h'.spIrq.trans h.spIrq
  spSys := h'.spSys.trans h.spSys
  lrSys := h'.lrSys.trans h.lrSys
  r := fun i h5 h11 => (h'.r i h5 h11).trans (h.r i h5 h11)

theorem Calm.trans (h : Calm L s s') (h' : Calm L s' s'') : Calm L s s'' :=
  ⟨h.cpu.trans h'.cpu, fun a ha => (h'.mem a ha).trans (h.mem a ha)⟩

theorem sameCpu_set {g : Reg} (hg : g.scratch = true) (w : Word) : SameCpu c (c.set g w) := by
  cases g with
  | r j =>
    refine ⟨rfl, rfl, rfl, rfl, rfl, fun i h5 h11 => Function.update_of_ne ?_ _ _⟩
    rintro rfl
    simp only [Reg.scratch, Bool.or_eq_true, decide_eq_true_eq, beq_iff_eq] at hg
    omega
  | sp => cases hg
  | lr => cases hg

theorem get_set_of_ne {g : Reg} (hb : b.scratch = true) (hg : g ≠ b) (hs : g.scratch = true)
    (w : Word) : (c.set g w).get b = c.get b := by
  cases b with
  | r j =>
    cases g with
    | r i => exact Function.update_of_ne (fun h => hg (by rw [h])) _ _
    | sp => cases hs
    | lr => cases hs
  | sp => cases hb
  | lr => cases hb

/-- A word of a variable is in neither stack. -/
theorem not_inStacks {k : ℕ} (hk : k < v.size) :
    ¬ InStacks L (L.sym v + BitVec.ofNat 32 (4 * k)) := by
  have hf := L.fits v
  have hs := L.not_svc v
  have hq := L.not_irq v
  have ha : (L.sym v + BitVec.ofNat 32 (4 * k)).toNat = (L.sym v).toNat + 4 * k := by
    rw [BitVec.toNat_add, BitVec.toNat_ofNat]
    omega
  rintro (⟨h1, h2, -⟩ | ⟨h1, h2, -⟩) <;> rw [ha] at h1 h2 <;> omega

/-- What an instruction of the second kind changes. -/
theorem dest_spec {op : Op} {d : Option Reg} (h : op.dest = some d) (m : Mem) :
    op.stores c = [] ∧ SameCpu c (op.cpu L c m) := by
  have hset : ∀ {g : Reg} {w : Word}, (if g.scratch then some (some g) else none) = some d →
      SameCpu c (c.set g w) := by
    intro g w hg
    split_ifs at hg with hs
    exact sameCpu_set hs w
  have hpsr : ∀ p : Psr, p.mode = c.cpsr.mode → SameCpu c { c with cpsr := p } :=
    fun p hp => ⟨hp, rfl, rfl, rfl, rfl, fun _ _ _ => rfl⟩
  cases op with
  | ldrSym g _ | ldr g _ _ | mov g _ | add g _ _ | sub g _ _ | and g _ _ | mrsCpsr g | fmrx g =>
    exact ⟨rfl, hset h⟩
  | cmp n o => exact ⟨rfl, hpsr _ rfl⟩
  | tst n o => exact ⟨rfl, hpsr _ rfl⟩
  | cpsidI => exact ⟨rfl, hpsr _ rfl⟩
  | dsb => exact ⟨rfl, .refl c⟩
  | isb => exact ⟨rfl, .refl c⟩
  | _ => cases h

theorem dest_get {op : Op} {d : Option Reg} (h : op.dest = some d) (hb : b.scratch = true)
    (hd : d ≠ some b) (m : Mem) : (op.cpu L c m).get b = c.get b := by
  have hset : ∀ {g : Reg} {w : Word}, (if g.scratch then some (some g) else none) = some d →
      (c.set g w).get b = c.get b := by
    intro g w hg
    split_ifs at hg with hs
    obtain rfl := Option.some.inj hg
    exact get_set_of_ne hb (fun h => hd (congrArg some h)) hs w
  have hpsr : ∀ p : Psr, ({ c with cpsr := p } : Cpu).get b = c.get b := by
    intro p
    cases b with
    | r j => rfl
    | sp => cases hb
    | lr => cases hb
  cases op with
  | ldrSym g _ | ldr g _ _ | mov g _ | add g _ _ | sub g _ _ | and g _ _ | mrsCpsr g | fmrx g =>
    exact hset h
  | cmp n o => exact hpsr _
  | tst n o => exact hpsr _
  | cpsidI => exact hpsr _
  | dsb => rfl
  | isb => rfl
  | _ => cases h

theorem calm_dest {i : Instr} (hi : i.op.dest.isSome = true) : Calm L s (i.run L s) := by
  obtain ⟨d, hd⟩ := Option.isSome_iff_exists.mp hi
  obtain ⟨hst, hcalm⟩ := dest_spec (L := L) (c := s.cpu) hd s.mem
  constructor
  · rw [Instr.run_cpu]
    split_ifs
    · exact hcalm
    · exact .refl _
  · intro a _
    rw [Instr.run_mem, hst]
    exact congrFun (ite_self _) a

/-- A block without stores. -/
theorem calm_dests {is : List Instr} (hi : ∀ i ∈ is, i.op.dest.isSome = true) :
    Calm L s (L.runs is s) := by
  induction is generalizing s with
  | nil => exact ⟨.refl _, fun _ _ => rfl⟩
  | cons i is ih =>
    exact (calm_dest (hi i List.mem_cons_self)).trans (ih fun j hj => hi j (List.mem_cons_of_mem _ hj))

/-- The words that such an instruction stores. -/
theorem plain_stores {op : Op} (hb : b.scratch = true) (hi : op.plain b v = true)
    (hs : c.get b = L.sym v) {a : Word} (ha : a ∈ (op.stores c).map Prod.fst) :
    ∃ k < v.size, a = L.sym v + BitVec.ofNat 32 (4 * k) := by
  have hdest : (op.dest.any fun d => d != some b) = true → False := by
    intro h
    obtain ⟨d, hd, -⟩ := (Option.any_eq_true _ _).mp h
    rw [(dest_spec (L := L) hd (fun _ => 0)).1] at ha
    cases ha
  cases op with
  | str n b' k =>
    simp only [Op.plain, Bool.and_eq_true, beq_iff_eq, decide_eq_true_eq] at hi
    obtain ⟨⟨rfl, h4⟩, hk⟩ := hi
    refine ⟨k.toNat / 4, hk, ?_⟩
    rw [List.mem_singleton.mp ha, hs, Nat.mul_div_cancel' (Nat.dvd_of_mod_eq_zero h4),
      BitVec.ofNat_toNat, BitVec.setWidth_eq]
  | _ => exact (hdest hi).elim

theorem calm_run {i : Instr} (hb : b.scratch = true) (hi : i.op.plain b v = true)
    (hs : s.cpu.get b = L.sym v) : Calm L s (i.run L s) ∧ (i.run L s).cpu.get b = L.sym v := by
  have hdest : (i.op.dest.any fun d => d != some b) = true →
      Calm L s (i.run L s) ∧ (i.run L s).cpu.get b = L.sym v := by
    intro h
    obtain ⟨d, hd, hne⟩ := (Option.any_eq_true _ _).mp h
    refine ⟨calm_dest (Option.isSome_of_eq_some hd), ?_⟩
    rw [Instr.run_cpu]
    split_ifs
    · rw [dest_get hd hb (bne_iff_ne.mp hne), hs]
    · exact hs
  obtain ⟨cond, op⟩ := i
  cases op with
  | str n b' k =>
    have hcpu : ((Instr.mk cond (.str n b' k)).run L s).cpu = s.cpu := by
      rw [Instr.run_cpu]
      exact ite_self _
    refine ⟨⟨by rw [hcpu]; exact .refl _, fun a ha => ?_⟩, by rw [hcpu]; exact hs⟩
    rw [Instr.run_mem]
    split_ifs
    · refine store_of_not_mem fun hmem => ?_
      obtain ⟨k, hk, rfl⟩ := plain_stores hb hi hs hmem
      exact not_inStacks hk ha
    · rfl
  | _ => exact hdest hi

theorem calm_runs {is : List Instr} (hb : b.scratch = true)
    (hi : ∀ i ∈ is, i.op.plain b v = true) (hs : s.cpu.get b = L.sym v) :
    Calm L s (L.runs is s) ∧ (L.runs is s).cpu.get b = L.sym v := by
  induction is generalizing s with
  | nil => exact ⟨⟨.refl _, fun _ _ => rfl⟩, hs⟩
  | cons i is ih =>
    obtain ⟨hcalm, hget⟩ := calm_run hb (hi i List.mem_cons_self) hs
    obtain ⟨hcalm', hget'⟩ := ih (fun j hj => hi j (List.mem_cons_of_mem _ hj)) hget
    exact ⟨hcalm.trans hcalm', hget'⟩

/-- A block that works on one variable. -/
theorem calm_block {is : List Instr} (hb : b.scratch = true)
    (hi : ∀ i ∈ is, i.op.plain b v = true) :
    Calm L s (L.runs (Op.ldrSym b v :: is) s) ∧
      (L.runs (Op.ldrSym b v :: is) s).cpu.get b = L.sym v := by
  have hget : (s.cpu.set b (L.sym v)).get b = L.sym v := by
    cases b with
    | r j => exact Function.update_self _ _ _
    | sp => cases hb
    | lr => cases hb
  have hcalm : Calm L s ((Instr.mk .al (.ldrSym b v)).run L s) := ⟨sameCpu_set hb _, fun _ _ => rfl⟩
  obtain ⟨hrest, hget'⟩ := calm_runs hb hi (s := (Instr.mk .al (.ldrSym b v)).run L s) hget
  exact ⟨hcalm.trans hrest, hget'⟩

theorem calm_incrementNesting : Calm L s (L.runs incrementNesting s) :=
  (calm_block (b := r3) (v := .ulPortInterruptNesting) rfl (by decide)).1

theorem calm_entrySnapshot : Calm L s (L.runs entrySnapshot s) :=
  (calm_block (b := r3) (v := .gR8Epi) rfl (by decide)).1

theorem calm_keepIcciar : Calm L s (L.runs keepIcciar s) := calm_dests (by decide)

theorem calm_maskIrqs : Calm L s (L.runs maskIrqs s) := calm_dests (by decide)

theorem calm_exitSnapshot : Calm L s (L.runs exitSnapshot s) ∧
    (L.runs exitSnapshot s).cpu.r 3 = L.sym .gR8Epi :=
  calm_block (b := r3) (v := .gR8Epi) rfl (by decide)

theorem calm_decrementNesting : Calm L s (L.runs decrementNesting s) :=
  (calm_block (b := r1) (v := .ulPortInterruptNesting) rfl (by decide)).1

theorem calm_countExit : Calm L s (L.runs countExit s) :=
  (calm_block (b := r3) (v := .gR8Sw) rfl (by decide)).1

theorem calm_readYield : Calm L s (L.runs readYield s) :=
  (calm_block (b := r1) (v := .ulPortYieldRequired) rfl (by decide)).1

end Calm

/-! ## What an activation has saved -/

/-- The interrupted state `o` is on the two stacks, or still in its registers. -/
structure Saved (L : Layout) (o s : St) : Prop where
  mode : s.cpu.cpsr.mode = svcMode
  spIrq : s.cpu.spIrq = o.cpu.spIrq - 8
  irqWords : loads s.mem (o.cpu.spIrq - 8) 2 = [o.cpu.cpsr.toWord, o.cpu.pc]
  svcWords : loads s.mem (o.cpu.spSvc - 28) 7 =
    [o.cpu.r 0, o.cpu.r 1, o.cpu.r 2, o.cpu.r 3, o.cpu.r 4, o.cpu.r 12, o.cpu.lrSvc]
  r : ∀ i : Fin 13, 5 ≤ i.val → i.val ≤ 11 → s.cpu.r i = o.cpu.r i
  spSys : s.cpu.spSys = o.cpu.spSys
  lrSys : s.cpu.lrSys = o.cpu.lrSys
  mem : ∀ a, L.Used o.cpu a → s.mem a = o.mem a

/-- The word that aligns the SVC stack. -/
def pad (o : St) : Word := (o.cpu.spSvc - 28) &&& 4

/-- While C functions run, the alignment word is on top. -/
structure Held (L : Layout) (o s : St) : Prop extends Saved L o s where
  spSvc : s.cpu.spSvc = o.cpu.spSvc - 28 - pad o - 4
  padWord : s.mem s.cpu.spSvc = pad o

section Saved

variable {L : Layout} {o s s' : St}

theorem pad_eq (o : St) : pad o = 0 ∨ pad o = 4 := by
  have h := BitVec.and_twoPow (o.cpu.spSvc - 28) 2
  split_ifs at h
  · exact .inr h
  · exact .inl h

theorem toNat_sub_eq {a k : Word} (h : k.toNat ≤ a.toNat) : (a - k).toNat = a.toNat - k.toNat :=
  BitVec.toNat_sub_of_le (BitVec.le_def.mpr h)

/-- The first words saved on the two stacks. -/
theorem toNat_saved {c : Cpu} (hroom : L.Room c) :
    (c.spSvc - 28).toNat = c.spSvc.toNat - 28 ∧ (c.spIrq - 8).toNat = c.spIrq.toNat - 8 := by
  obtain ⟨⟨hlo, -⟩, hilo, -⟩ := hroom
  exact ⟨toNat_sub_eq (by simp; omega), toNat_sub_eq (by simp; omega)⟩

/-- The saved words, as far as the two stack pointers are concerned. -/
theorem Saved.congr (h : Saved L o s) (hroom : L.Room o.cpu) (hmode : s'.cpu.cpsr.mode = svcMode)
    (hiq : s'.cpu.spIrq = s.cpu.spIrq) (hsys : s'.cpu.spSys = s.cpu.spSys)
    (hlr : s'.cpu.lrSys = s.cpu.lrSys)
    (hr : ∀ i : Fin 13, 5 ≤ i.val → i.val ≤ 11 → s'.cpu.r i = s.cpu.r i)
    (hm : ∀ a, L.UsedFrom (o.cpu.spSvc.toNat - 28) (o.cpu.spIrq.toNat - 8) a → s'.mem a = s.mem a) :
    Saved L o s' := by
  obtain ⟨hS, hJ⟩ := toNat_saved hroom
  obtain ⟨⟨hlo, hhi⟩, hilo, hihi⟩ := hroom
  have hSlt := o.cpu.spSvc.isLt
  have hJlt := o.cpu.spIrq.isLt
  refine ⟨hmode, by rw [hiq, h.spIrq], ?_, ?_, fun i h5 h11 => by rw [hr i h5 h11, h.r i h5 h11],
    by rw [hsys, h.spSys], by rw [hlr, h.lrSys], fun a ha => ?_⟩
  · rw [← h.irqWords]
    refine loads_congr (by omega) fun b hb hb' => hm b (.inr ⟨?_, ?_, ?_⟩) <;> omega
  · rw [← h.svcWords]
    refine loads_congr (by omega) fun b hb hb' => hm b (.inl ⟨?_, ?_, ?_⟩) <;> omega
  · rw [← h.mem a ha]
    refine hm a ?_
    rcases ha with ⟨h1, h2, h3⟩ | ⟨h1, h2, h3⟩
    · exact .inl ⟨h1, h2, by omega⟩
    · exact .inr ⟨h1, h2, by omega⟩

theorem InStacks.of_usedFrom {sv iq : ℕ} {a : Word} (h : L.UsedFrom sv iq a) : InStacks L a := by
  rcases h with ⟨h1, h2, -⟩ | ⟨h1, h2, -⟩
  · exact .inl ⟨h1, h2, Nat.zero_le _⟩
  · exact .inr ⟨h1, h2, Nat.zero_le _⟩

theorem Saved.calm (h : Saved L o s) (hroom : L.Room o.cpu) (hc : Calm L s s') : Saved L o s' :=
  h.congr hroom (hc.cpu.mode.trans h.mode) hc.cpu.spIrq hc.cpu.spSys hc.cpu.lrSys hc.cpu.r
    fun a ha => hc.mem a (.of_usedFrom ha)

/-- Where the alignment word stands. -/
theorem Held.toNat_spSvc (h : Held L o s) (hroom : L.Room o.cpu) :
    o.cpu.spSvc.toNat - 36 ≤ s.cpu.spSvc.toNat ∧ s.cpu.spSvc.toNat + 32 ≤ o.cpu.spSvc.toNat := by
  obtain ⟨⟨hlo, -⟩, -, -⟩ := hroom
  rw [h.spSvc]
  rcases pad_eq o with hp | hp <;> rw [hp] <;> bv_omega

theorem Held.calm (h : Held L o s) (hroom : L.Room o.cpu) (hc : Calm L s s') : Held L o s' := by
  refine ⟨h.toSaved.calm hroom hc, by rw [hc.cpu.spSvc, h.spSvc], ?_⟩
  have hbound := h.toNat_spSvc hroom
  obtain ⟨⟨hlo, hhi⟩, -, -⟩ := hroom
  rw [hc.cpu.spSvc, hc.mem _ (.inl ⟨by omega, by omega, Nat.zero_le _⟩), h.padWord]

/-- **A C function returns** to the activation. -/
theorem Held.returns (h : Held L o s) (hroom : L.Room o.cpu) {t : Trap} {f : CFun}
    (hs : Returns L f (enter L t f s) s') : Held L o s' := by
  obtain ⟨hin, hsp, hr, -⟩ := hs
  have hcpu : (enter L t f s).cpu = { s.cpu with lrSvc := L.ret f } := by
    show s.cpu.setLr (L.ret f) = _
    rw [Cpu.setLr, if_pos h.mode]
  have hmem := hin.mem
  have hmode := hin.mode
  have hbank := hin.banked
  rw [hcpu] at hsp hr hmem hmode hbank
  obtain ⟨hiq, hsys, hlr⟩ := hbank h.mode
  have hsvc : s'.cpu.spSvc = s.cpu.spSvc := by
    rwa [Cpu.sp, Cpu.sp, Cpu.spOf, Cpu.spOf, hmode, if_pos h.mode, if_pos h.mode] at hsp
  have hbound := h.toNat_spSvc hroom
  have hmem' : ∀ a, L.Used s.cpu a → s'.mem a = s.mem a := hmem
  have hirq := (toNat_saved hroom).2
  obtain ⟨⟨hlo, hhi⟩, hilo, hihi⟩ := hroom
  refine ⟨h.toSaved.congr ⟨⟨hlo, hhi⟩, hilo, hihi⟩ (hmode.trans h.mode) hiq hsys hlr
    (fun i h5 h11 => hr i (by omega) h11) fun a ha => ?_, by rw [hsvc, h.spSvc], ?_⟩
  · refine hmem' a ?_
    have hJ : s.cpu.spIrq.toNat = o.cpu.spIrq.toNat - 8 := by
      rw [h.spIrq]
      exact hirq
    rcases ha with ⟨h1, h2, h3⟩ | ⟨h1, h2, h3⟩
    · exact .inl ⟨h1, h2, by omega⟩
    · exact .inr ⟨h1, h2, by omega⟩
  · rw [hsvc, hmem' _ (.inl ⟨by omega, by omega, Nat.le_refl _⟩), h.padWord]

end Saved

/-! ## The blocks of `irqHandler` -/

/-- The state in which the handler starts. -/
def Entered (o s : St) : Prop := s.cpu = o.cpu.irqEntry ∧ s.mem = o.mem

/-- What the activation gives back. -/
structure Restored (o c : Cpu) : Prop where
  r : c.r = o.r
  spSvc : c.spSvc = o.spSvc
  lrSvc : c.lrSvc = o.lrSvc
  spIrq : c.spIrq = o.spIrq
  cpsr : c.cpsr = o.cpsr
  spSys : c.spSys = o.spSys
  lrSys : c.lrSys = o.lrSys
  pc : c.pc = o.pc

section Effects

variable {L : Layout} {o s : St}

theorem runs_saveUsed (h : Entered o s) :
    (L.runs saveUsed s).cpu = { o.cpu with
      spIrq := o.cpu.spIrq - 4 - 4
      lrIrq := o.cpu.cpsr.toWord
      spsrIrq := o.cpu.cpsr
      spSvc := o.cpu.spSvc - 28
      cpsr := { o.cpu.irqEntry.cpsr with mode := svcMode } } ∧
    (L.runs saveUsed s).mem = Mem.store (Mem.store (Mem.store o.mem
      [(o.cpu.spIrq - 4, o.cpu.pc + 4 - 4)]) [(o.cpu.spIrq - 4 - 4, o.cpu.cpsr.toWord)])
      (words (o.cpu.spSvc - 28) [o.cpu.r 0, o.cpu.r 1, o.cpu.r 2, o.cpu.r 3, o.cpu.r 4, o.cpu.r 12,
        o.cpu.lrSvc]) := by
  obtain ⟨hc, hm⟩ := h
  simp only [saveUsed, runs_cons, runs_nil, run_al, Op.cpu, Op.stores, hc, hm]
  simp only [Cpu.irqEntry, Cpu.get, Cpu.set, Cpu.setLr, Cpu.lr, Cpu.sp, Cpu.spOf, Cpu.setSpOf,
    Cpu.spsr, irqMode_ne_svcMode, if_true, if_false, usedRegs, r0, r1, r2, r3, r4, r12, List.map,
    words, List.length, Operand.value, Mem.store, Nat.zero_add, BitVec.ofNat_eq_ofNat,
    Nat.reduceMul, Nat.reduceAdd, and_self]

theorem runs_alignStack (h : s.cpu.cpsr.mode = svcMode) :
    (L.runs alignStack s).cpu = { s.cpu with
      r := Function.update s.cpu.r 2 (s.cpu.spSvc &&& 4)
      spSvc := s.cpu.spSvc - (s.cpu.spSvc &&& 4) - 4 } ∧
    (L.runs alignStack s).mem =
      s.mem.store [(s.cpu.spSvc - (s.cpu.spSvc &&& 4) - 4, s.cpu.spSvc &&& 4)] := by
  simp only [alignStack, runs_cons, runs_nil, run_al, Op.cpu, Op.stores]
  simp only [Cpu.get, Cpu.set, Cpu.sp, Cpu.spOf, Cpu.setSpOf, h, if_true, List.map, words,
    List.length, Operand.value, Mem.store, Nat.mul_one, Nat.zero_add, BitVec.ofNat_eq_ofNat,
    Function.update_self, Function.update_idem, and_self]

theorem runs_unalignStack (h : s.cpu.cpsr.mode = svcMode) (hr : s.cpu.r 3 = L.sym .gR8Epi) :
    (L.runs unalignStack s).cpu = { s.cpu with
      r := Function.update s.cpu.r 2 (s.mem s.cpu.spSvc)
      spSvc := s.cpu.spSvc + 4 + s.mem s.cpu.spSvc } ∧
    (L.runs unalignStack s).mem = s.mem.store
      [(L.sym .gR8Epi + 4, s.mem s.cpu.spSvc),
        (L.sym .gR8Epi + 8, s.cpu.spSvc + 4 + s.mem s.cpu.spSvc)] := by
  have h32 : (3 : Fin 13) ≠ 2 := by decide
  simp only [unalignStack, runs_cons, runs_nil, run_al, Op.cpu, Op.stores]
  simp only [Cpu.get, Cpu.set, Cpu.setAll, Cpu.sp, Cpu.spOf, Cpu.setSpOf, h, hr, if_true, r2, loads,
    List.zip, List.zipWith, List.length, Operand.value, Mem.store, Nat.mul_one, Nat.zero_add,
    BitVec.ofNat_eq_ofNat, Function.update_self, Function.update_of_ne h32, and_self]

theorem runs_restoreUsed {a0 a1 a2 a3 a4 a12 alr w p : Word} (h : s.cpu.cpsr.mode = svcMode)
    (hs : loads s.mem s.cpu.spSvc 7 = [a0, a1, a2, a3, a4, a12, alr])
    (hq : loads s.mem s.cpu.spIrq 2 = [w, p]) :
    (L.runs restoreUsed s).cpu = { s.cpu with
      r := Function.update (Function.update (Function.update (Function.update (Function.update
        (Function.update s.cpu.r 0 a0) 1 a1) 2 a2) 3 a3) 4 a4) 12 a12
      lrSvc := alr
      spSvc := s.cpu.spSvc + 28
      spIrq := s.cpu.spIrq + 4 + 4
      lrIrq := p
      spsrIrq := .ofWord w
      cpsr := { s.cpu.cpsr with mode := irqMode } } ∧
    (L.runs restoreUsed s).mem = s.mem := by
  simp only [loads, List.cons.injEq, and_true, BitVec.ofNat_eq_ofNat] at hq
  simp only [restoreUsed, runs_cons, runs_nil, run_al, Op.cpu, Op.stores]
  simp only [Cpu.get, Cpu.set, Cpu.setAll, Cpu.setLr, Cpu.lr, Cpu.sp, Cpu.spOf, Cpu.setSpOf, Cpu.setSpsr,
    h, irqMode_ne_svcMode, if_true, if_false, usedRegs, r0, r1, r2, r3, r4, r12, List.length, hs, hq.1, hq.2,
    loads, List.zip, List.zipWith, Mem.store, Nat.zero_add, BitVec.ofNat_eq_ofNat,
    Nat.reduceMul, Nat.reduceAdd, and_self]

end Effects

section Blocks

variable {L : Layout} {o s : St}

/-- **Saving** the return address, the SPSR and the used registers. -/
theorem saved_saveUsed (hroom : L.Room o.cpu) (h : Entered o s) :
    Saved L o (L.runs saveUsed s) ∧
      (L.runs saveUsed s).cpu.spSvc = o.cpu.spSvc - 28 := by
  obtain ⟨hcpu, hmem⟩ := runs_saveUsed (L := L) h
  obtain ⟨hS, hJ⟩ := toNat_saved hroom
  obtain ⟨⟨hlo, hhi⟩, hilo, hihi⟩ := hroom
  have hstacks := L.stacks_apart
  have hSlt := o.cpu.spSvc.isLt
  have hJlt := o.cpu.spIrq.isLt
  have hJ4 : o.cpu.spIrq - 4 - 4 = o.cpu.spIrq - 8 := by bv_omega
  have hpc : o.cpu.pc + 4 - 4 = o.cpu.pc := by bv_omega
  rw [hJ4] at hcpu hmem
  rw [hpc] at hmem
  have hirq : ∀ m : Mem, Mem.store (Mem.store m [(o.cpu.spIrq - 4, o.cpu.pc)])
      [(o.cpu.spIrq - 8, o.cpu.cpsr.toWord)] =
        m.store (words (o.cpu.spIrq - 8) [o.cpu.cpsr.toWord, o.cpu.pc]) := by
    intro m
    have h4 : o.cpu.spIrq - 8 + 4 = o.cpu.spIrq - 4 := by bv_omega
    have hne : o.cpu.spIrq - 4 ≠ o.cpu.spIrq - 8 := by bv_omega
    simp only [words, Mem.store, h4]
    exact Function.update_comm hne _ _ _
  rw [hirq] at hmem
  refine ⟨⟨by rw [hcpu], by rw [hcpu], ?_, ?_, fun _ _ _ => by rw [hcpu], by rw [hcpu], by rw [hcpu],
    fun a ha => ?_⟩, by rw [hcpu]⟩
  · have hpushed : loads (o.mem.store (words (o.cpu.spIrq - 8) [o.cpu.cpsr.toWord, o.cpu.pc]))
        (o.cpu.spIrq - 8) 2 = [o.cpu.cpsr.toWord, o.cpu.pc] :=
      loads_store_words (by rw [hJ]; simp; omega)
    rw [hmem]
    refine (loads_congr (by omega) fun b hb hb' => ?_).trans hpushed
    refine store_words_of_lt ?_ ?_ <;> simp only [List.length_cons, List.length_nil] <;> omega
  · rw [hmem]
    exact loads_store_words (by rw [hS]; simp; omega)
  · rw [hmem, store_words_of_lt, store_words_of_lt]
    all_goals simp only [List.length_cons, List.length_nil]
    all_goals rcases ha with ⟨h1, h2, h3⟩ | ⟨h1, h2, h3⟩ <;> omega

theorem held_alignStack (hroom : L.Room o.cpu) (h : Saved L o s)
    (hsp : s.cpu.spSvc = o.cpu.spSvc - 28) : Held L o (L.runs alignStack s) := by
  obtain ⟨hcpu, hmem⟩ := runs_alignStack (L := L) h.mode
  have hroom' := hroom
  obtain ⟨⟨hlo, hhi⟩, hilo, hihi⟩ := hroom
  have hstacks := L.stacks_apart
  have hp : s.cpu.spSvc &&& 4 = pad o := by rw [hsp]; rfl
  rw [hp, hsp] at hcpu hmem
  have hlt : (o.cpu.spSvc - 28 - pad o - 4).toNat < o.cpu.spSvc.toNat - 28 ∧
      o.cpu.spSvc.toNat - 36 ≤ (o.cpu.spSvc - 28 - pad o - 4).toNat := by
    rcases pad_eq o with hp | hp <;> rw [hp] <;> bv_omega
  refine ⟨h.congr hroom' (by rw [hcpu]; exact h.mode) (by rw [hcpu]) (by rw [hcpu]) (by rw [hcpu])
    (fun i h5 h11 => ?_) fun a ha => ?_, by rw [hcpu], ?_⟩
  · rw [hcpu]
    exact Function.update_of_ne (by omega) _ _
  · rw [hmem]
    refine store_of_not_mem fun hmem => ?_
    obtain rfl : a = o.cpu.spSvc - 28 - pad o - 4 := List.mem_singleton.mp hmem
    rcases ha with ⟨h1, h2, h3⟩ | ⟨h1, h2, h3⟩ <;> omega
  · rw [hcpu, hmem]
    exact Function.update_self _ _ _

/-- The alignment word brings the SVC stack pointer back to the used registers. -/
theorem saved_unalignStack (hroom : L.Room o.cpu) (h : Held L o s)
    (hr : s.cpu.r 3 = L.sym .gR8Epi) : Saved L o (L.runs unalignStack s) ∧
      (L.runs unalignStack s).cpu.spSvc = o.cpu.spSvc - 28 := by
  obtain ⟨hcpu, hmem⟩ := runs_unalignStack (L := L) h.mode hr
  rw [h.padWord] at hcpu hmem
  refine ⟨h.toSaved.congr hroom (by rw [hcpu]; exact h.mode) (by rw [hcpu]) (by rw [hcpu])
    (by rw [hcpu]) (fun i h5 h11 => ?_) fun a ha => ?_, ?_⟩
  · rw [hcpu]
    exact Function.update_of_ne (by omega) _ _
  · rw [hmem]
    refine store_of_not_mem fun hmem => ?_
    have hin := InStacks.of_usedFrom ha
    rcases List.mem_cons.mp hmem with rfl | hmem
    · exact not_inStacks (v := .gR8Epi) (k := 1) (by decide) hin
    · rw [List.mem_singleton.mp hmem] at hin
      exact not_inStacks (v := .gR8Epi) (k := 2) (by decide) hin
  · rw [hcpu]
    show s.cpu.spSvc + 4 + pad o = _
    rw [h.spSvc]
    bv_omega

/-- **Restoring**: after `restoreUsed` and `MOVS PC, LR` the interrupted state is back. -/
theorem restored_restoreUsed (h : Saved L o s) (hsp : s.cpu.spSvc = o.cpu.spSvc - 28) :
    Restored o.cpu (L.runs restoreUsed s).cpu.movsPcLr ∧
      (L.runs restoreUsed s).mem = s.mem := by
  have hs := h.svcWords
  have hq := h.irqWords
  rw [← hsp] at hs
  rw [← h.spIrq] at hq
  obtain ⟨hcpu, hmem⟩ := runs_restoreUsed (L := L) h.mode hs hq
  refine ⟨?_, hmem⟩
  generalize (L.runs restoreUsed s).cpu = c at hcpu
  have hmode : c.cpsr.mode = irqMode := by rw [hcpu]
  constructor
  · show c.r = _
    rw [hcpu]
    funext i
    have hi : i = 0 ∨ i = 1 ∨ i = 2 ∨ i = 3 ∨ i = 4 ∨ i = 12 ∨ 5 ≤ i.val ∧ i.val ≤ 11 := by omega
    rcases hi with rfl | rfl | rfl | rfl | rfl | rfl | ⟨h5, h11⟩
    iterate 6 simp
    rw [← h.r i h5 h11]
    dsimp only
    rw [Function.update_of_ne (show i ≠ 12 by omega), Function.update_of_ne (show i ≠ 4 by omega),
      Function.update_of_ne (show i ≠ 3 by omega), Function.update_of_ne (show i ≠ 2 by omega),
      Function.update_of_ne (show i ≠ 1 by omega), Function.update_of_ne (show i ≠ 0 by omega)]
  · show c.spSvc = _
    rw [hcpu, hsp]
    bv_omega
  · show c.lrSvc = _
    rw [hcpu]
  · show c.spIrq = _
    rw [hcpu, h.spIrq]
    bv_omega
  · show c.spsr = _
    rw [c.spsr_irq hmode, hcpu]
    exact Psr.ofWord_toWord _
  · show c.spSys = _
    rw [hcpu]
    exact h.spSys
  · show c.lrSys = _
    rw [hcpu]
    exact h.lrSys
  · show c.lr = _
    rw [c.lr_irq hmode, hcpu]

end Blocks

/-! ## The whole handler -/

/-- What the interrupted code may rely on, where the handler leaves. -/
def Leaves (L : Layout) (o : St) : Exit → St → Prop
  | .movsPcLr, s => Restored o.cpu s.cpu.movsPcLr ∧ ∀ a, L.Used o.cpu a → s.mem a = o.mem a
  | .rfeia, _ => True

/-- From state `s` on, code `k` of a handler that has interrupted `o` is safe. -/
abbrev Continues (L : Layout) (t : Trap) (o : St) (k : Code) (s : St) : Prop :=
  (machine L t (Returns L)).Safe (fun _ => Masked) (Leaves L o) k s

section Handler

variable {L : Layout} {o s s' : St} {t : Trap} {k : Code}

theorem continues_block {is : List Instr} (hm : Masked s)
    (hk : Masked (L.runs is s) → Continues L t o k (L.runs is s)) :
    Continues L t o (.block is k) s :=
  Machine.safe_block hm (fun _ _ _ h => h) (fun _ _ _ => masked_run) hk

/-- Code that only ever resumes a task. -/
theorem continues_of_exits (hm : Masked s) (he : ∀ e ∈ k.exits, e = .rfeia) :
    Continues L t o k s := by
  refine Machine.safe_of_kept hm (fun _ _ => masked_run) (fun _ _ _ _ hs => hs.2.2.2) fun e hmem s _ => ?_
  rw [he e hmem]
  trivial

theorem exitWithoutSwitch_safe (hm : Masked s) (h : Saved L o s)
    (hsp : s.cpu.spSvc = o.cpu.spSvc - 28) : Continues L t o exitWithoutSwitch s := by
  refine continues_block hm fun hm => ⟨hm, ?_⟩
  obtain ⟨hr, hmem⟩ := restored_restoreUsed (L := L) h hsp
  refine ⟨hr, fun a ha => ?_⟩
  rw [hmem]
  exact h.mem a ha

theorem switchBeforeExit_safe (fpu : Bool) (hm : Masked s) :
    Continues L t o (switchBeforeExit fpu) s :=
  continues_of_exits hm (by cases fpu <;> decide)

theorem svcHandler_safe (fpu : Bool) (hm : Masked s) : Continues L t o (svcHandler fpu) s :=
  continues_of_exits hm (by cases fpu <;> decide)

theorem testYield_safe (fpu : Bool) (hroom : L.Room o.cpu) (hm : Masked s) (h : Saved L o s)
    (hsp : s.cpu.spSvc = o.cpu.spSvc - 28) : Continues L t o (testYield fpu) s := by
  refine continues_block hm fun hm => ?_
  have hcalm := calm_readYield (L := L) (s := s)
  exact ⟨hm, fun _ => switchBeforeExit_safe fpu hm, fun _ =>
    exitWithoutSwitch_safe hm (h.calm hroom hcalm) (hcalm.cpu.spSvc.trans hsp)⟩

theorem irqEpilogue_safe (fpu : Bool) (hroom : L.Room o.cpu) (hm : Masked s) (h : Held L o s) :
    Continues L t o (irqEpilogue fpu) s := by
  refine continues_block hm fun hm => ?_
  have hsnap := calm_exitSnapshot (L := L) (s := s)
  have hheld := h.calm hroom hsnap.1
  refine continues_block hm fun hm => ?_
  obtain ⟨hsaved, hsp⟩ := saved_unalignStack hroom hheld hsnap.2
  refine continues_block hm fun hm => ?_
  have hdec := calm_decrementNesting (L := L)
    (s := L.runs unalignStack (L.runs exitSnapshot s))
  have hsaved' := hsaved.calm hroom hdec
  have hsp' := hdec.cpu.spSvc.trans hsp
  exact ⟨hm, fun _ => exitWithoutSwitch_safe hm hsaved' hsp', fun _ =>
    testYield_safe fpu hroom hm hsaved' hsp'⟩

/-- **The handler up to its epilogue.** Its calls are made with everything saved, and the epilogue
begins so. -/
theorem safe_irqHandler {fpu : Bool} {inv : Code → St → Prop} {post : Exit → St → Prop}
    (hop : ∀ i k s, Masked s → inv (.op i k) s)
    (hcall : ∀ f k s, f ≠ .vTaskSwitchContext → Masked s → Held L o s → inv (.call f k) s)
    (hend : ∀ s, Masked s → Held L o s → (machine L t (Returns L)).Safe inv post (irqEpilogue fpu) s)
    (hroom : L.Room o.cpu) (h : Entered o s) :
    (machine L t (Returns L)).Safe inv post (irqHandler fpu) s := by
  have hline : ∀ {is : List Instr} {k : Code} {s : St}, Masked s →
      (Masked (L.runs is s) → (machine L t (Returns L)).Safe inv post k (L.runs is s)) →
      (machine L t (Returns L)).Safe inv post (.block is k) s :=
    fun hm hk => Machine.safe_block hm hop (fun _ _ _ => masked_run) hk
  have hacross : ∀ {f : CFun} {k : Code} {s : St}, f ≠ .vTaskSwitchContext → Masked s → Held L o s →
      (∀ s', Masked s' → Held L o s' → (machine L t (Returns L)).Safe inv post k s') →
      (machine L t (Returns L)).Safe inv post (.call f k) s :=
    fun hf hm h hk => ⟨hcall _ _ _ hf hm h, fun s' hs => hk s' hs.2.2.2 (h.returns hroom hs)⟩
  have hm : Masked s := by
    rw [Masked, h.1]
    rfl
  refine hline hm fun hm => ?_
  obtain ⟨hsaved, hsp⟩ := saved_saveUsed hroom h
  generalize L.runs saveUsed s = s₁ at hm hsaved hsp
  refine hline hm fun hm => ?_
  have hinc := calm_incrementNesting (L := L) (s := s₁)
  refine hline hm fun hm => ?_
  have hheld := held_alignStack hroom (hsaved.calm hroom hinc) (hinc.cpu.spSvc.trans hsp)
  generalize L.runs alignStack (L.runs incrementNesting s₁) = s₂ at hm hheld
  refine hline hm fun hm => ?_
  have hsnap := calm_entrySnapshot (L := L) (s := s₂)
  refine hacross (by decide) hm (hheld.calm hroom hsnap) fun s hm hheld => ?_
  refine hline hm fun hm => ?_
  refine hacross (by decide) hm (hheld.calm hroom calm_keepIcciar) fun s hm hheld => ?_
  refine hline hm fun hm => ?_
  exact hacross (by decide) hm (hheld.calm hroom calm_maskIrqs) hend

/-- **The handler is safe**, with the room of one activation. -/
theorem irqHandler_safe (fpu : Bool) (hroom : L.Room o.cpu) (h : Entered o s) :
    Continues L t o (irqHandler fpu) s :=
  safe_irqHandler (fun _ _ _ hm => hm) (fun _ _ _ _ hm _ => hm)
    (fun _ hm hheld => irqEpilogue_safe fpu hroom hm hheld) hroom h

end Handler

end CR8Devkit.Port
