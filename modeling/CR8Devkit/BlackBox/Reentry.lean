import CR8Devkit.BlackBox.Fault

/-!
# Reaching `pwm_emergency_stop` when data accesses fault

* `Reaches`: an entry gets to `r8_disarm_outputs` after finitely many accesses, where every access
  to a faulting cell enters `Abort_Handler` afresh.
* `EntryCell`, `AbortCell`: the cells that an entry and `Abort_Handler` access, read off the memory
  they start in (`mem_footprint_handler`, `mem_footprint_abortHandler`).
* `not_clean_of_fault`: an `Abort_Handler` that has faulted faults again whenever it is entered.
* `reaches_iff`: the exact condition under which the outputs are disarmed.
-/

namespace CR8Devkit.BlackBox

open Access Access.Prog

/-! ## Re-entrant execution -/

/-- Code `p` gets through, possibly by way of `Abort_Handler`; `rs n` are the registers at the
`n`-th Data Abort. The stacks of the handlers themselves are taken not to fault. -/
inductive Reaches (k : Linker) (bad : Loc → Bool) : (ℕ → Regs) → Code Unit → Mem → Prop
  | done {rs : ℕ → Regs} {p : Code Unit} {m m' : Mem} (h : p.attempt bad m = .done () m') :
      Reaches k bad rs p m
  | fault {rs : ℕ → Regs} {p : Code Unit} {m m' : Mem} {a : Loc}
      (h : p.attempt bad m = .fault a m')
      (hr : Reaches k bad (fun n => rs (n + 1)) (abortHandler k (rs 0)) m') : Reaches k bad rs p m

/-! ## The cells accessed -/

/-- No fault is latched, or none will be once the box is wiped. -/
def First (m : Mem) : Prop := ¬ Ready m ∨ m (.bb .faultType) = r8FaultNone

/-- The copy of the name from character `i` on: the characters up to the terminator or the
fifteenth, and as many cells of `fault_task`, one of them for the terminator. -/
def NameCell (m : Mem) (s : Str) (i : ℕ) (a : Loc) : Prop :=
  ∃ j, (∀ l < j, m (.char s (i + l)) ≠ 0) ∧ (i + j < 15 ∧ a = .char s (i + j) ∨
    i + j ≤ 15 ∧ a = faultTaskAt (i + j))

/-- What the helper accesses: the whole box if it has to wipe it, and the arguments' cells if it
records the first fault. -/
def FaultCell (m : Mem) (ready first : Prop) (task : Option Str) (a : Loc) : Prop :=
  a = .bb .magic ∨ a = .bb .faultType ∨ ¬ ready ∧ (∃ f, a = .bb f) ∨
    first ∧ (a = .bb .faultArg0 ∨ a = .bb .faultArg1 ∨ a = .bb .faultLr ∨
      ∃ s, task = some s ∧ NameCell m s 0 a)

/-- The scan of a stack: the words up to the first one that is not painted. -/
def ScanCell (m : Mem) (n p : ℕ) (a : Loc) : Prop :=
  ∃ j < n, (∀ i < j, m (.word (p + 4 * i)) = r8Paint) ∧ a = .word (p + 4 * j)

/-- What `Abort_Handler` accesses in its recording part. -/
def RecordCell (k : Linker) (m : Mem) (ready : Prop) (a : Loc) : Prop :=
  a = .bb .magic ∨ a = .sram .wordAddr ∨ ready ∧
    ((∃ x ∈ abortMirrors ++ (List.finRange 8).flatMap slotCells, a = .sram x.2 ∨ a = .bb x.1) ∨
    m (.sram .wordAddr) ≠ 0 ∧ (a = .bb .faultWordAddr ∨ a = .bb .faultWord ∨
      a = .word (m (.sram .wordAddr)).toNat) ∨
    a = .bb .faultSpSvc ∨ a = .bb .faultSpIrq ∨
    a = .bb .svcUsed ∨ a = .bb .irqUsed ∨ a = .bb .sysUsed ∨
    ScanCell m k.svcWords k.svcBase a ∨ ScanCell m k.irqWords k.irqBase a ∨
    ScanCell m k.sysWords k.sysBase a)

/-- What `Abort_Handler` accesses on a box that is or is not `ready`, with `first` telling whether
it records the first fault. -/
def AbortCell (k : Linker) (m : Mem) (ready first : Prop) (a : Loc) : Prop :=
  RecordCell k m ready a ∨ FaultCell m ready first (some .dataAbort) a

/-- The name an entry passes to the helper. -/
def Entry.task : Entry → Option Str
  | .stackOverflow _ _ _ name => name
  | .mallocFailed _ => some .malloc
  | .dataAbort _ => some .dataAbort
  | .prefetchAbort _ => some .prefetch
  | .undefined _ => some .undefined

/-- What an entry loads before it calls the helper. -/
def Entry.reads : Entry → List Loc
  | .mallocFailed _ => [.sram .xFreeBytesRemaining, .sram .xMinimumEverFreeBytesRemaining]
  | _ => []

/-- What an entry accesses. -/
def EntryCell (k : Linker) (e : Entry) (m : Mem) (a : Loc) : Prop :=
  a ∈ e.reads ∨ FaultCell m (Ready m) (First m) e.task a ∨
    e.isDataAbort = true ∧ RecordCell k m (Ready m) a

variable {m m' : Mem} {a : Loc}

/-! ### Memories that differ in the box only -/

/-- Everything but the box reads the same. -/
def SameOutside (m m' : Mem) : Prop := ∀ a, (∀ f, a ≠ .bb f) → m' a = m a

theorem SameOutside.update (f : Field) (v : Word) :
    SameOutside m (Function.update m (.bb f) v) := fun _ ha => Function.update_of_ne (ha f) _ _

theorem NameCell.congr (h : SameOutside m m') {s : Str} {i : ℕ} : NameCell m' s i a ↔ NameCell m s i a := by
  have hc : ∀ i, m' (.char s i) = m (.char s i) := fun i => h _ fun f => nofun
  simp only [NameCell, hc]

theorem ScanCell.congr (h : SameOutside m m') {n p : ℕ} :
    ScanCell m' n p a ↔ ScanCell m n p a := by
  have hw : ∀ x, m' (.word x) = m (.word x) := fun x => h _ fun f => nofun
  simp only [ScanCell, hw]

theorem AbortCell.congr (h : SameOutside m m') {k : Linker} {ready first : Prop} :
    AbortCell k m' ready first a ↔ AbortCell k m ready first a := by
  have hs : m' (.sram .wordAddr) = m (.sram .wordAddr) := h _ fun f => nofun
  simp only [AbortCell, RecordCell, FaultCell, hs, NameCell.congr h, ScanCell.congr h]

/-- Everything that the recording part of `Abort_Handler` never stores to reads the same. -/
def SameView (m m' : Mem) : Prop := ∀ a, ¬ OutsideLatch a → m' a = m a

theorem SameView.outside (h : SameView m m') : SameOutside m m' := fun a ha =>
  h a fun ⟨f, hf, _⟩ => ha f hf

theorem SameView.magic (h : SameView m m') : m' (.bb .magic) = m (.bb .magic) :=
  h _ fun ⟨_, hf, hm, _⟩ => hm (Loc.bb.inj hf).symm

theorem SameView.faultType (h : SameView m m') : m' (.bb .faultType) = m (.bb .faultType) :=
  h _ fun ⟨_, hf, _, ht⟩ => ht (Loc.bb.inj hf).symm

theorem SameView.ready (h : SameView m m') : Ready m' ↔ Ready m := by
  rw [Ready, Ready, h.magic]

theorem SameView.first (h : SameView m m') : First m' ↔ First m := by
  rw [First, First, h.ready, h.faultType]

theorem view_of_states {R : Type} {p : Prog Loc Word R} (h : p.StoresIn OutsideLatch)
    (hm : m' ∈ p.states m) : SameView m m' := fun _ ha => states_frame h hm ha

theorem view_of_exec {R : Type} {p : Prog Loc Word R} (h : p.StoresIn OutsideLatch) :
    SameView m (p.exec m).2 := view_of_states h (exec_mem_states p m)

/-- What is accessed on a box without its magic is a cell of the box or accessed with it too. -/
theorem AbortCell.of_not_ready {k : Linker} {first : Prop} (h : AbortCell k m False first a) :
    (∃ f, a = .bb f) ∨ AbortCell k m True first a := by
  rcases h with (rfl | rfl | ⟨h, -⟩) | rfl | rfl | ⟨-, h⟩ | h
  · exact .inl ⟨_, rfl⟩
  · exact .inr (.inl (.inr (.inl rfl)))
  · exact h.elim
  · exact .inl ⟨_, rfl⟩
  · exact .inl ⟨_, rfl⟩
  · exact .inl h
  · exact .inr (.inr (.inr (.inr (.inr h))))

/-! ### Footprints of the pieces -/

theorem mem_footprint_bind {R : Type} {p : Prog Loc Word R} {f : R → Code Unit} :
    a ∈ (p >>= f).footprint m ↔
      a ∈ p.footprint m ∨ a ∈ (f (p.exec m).1).footprint (p.exec m).2 := by
  rw [footprint_bind, List.mem_append]

theorem mem_footprint_r8BbSet {f : Field} {val : Code Word} :
    a ∈ (r8BbSet f val).footprint m ↔
      a = .bb .magic ∨ Ready m ∧ (a ∈ val.footprint m ∨ a = .bb f) := by
  simp only [r8BbSet, footprint_get_bind, List.mem_cons, Ready]
  refine or_congr_right ?_
  split_ifs with h <;> simp [h, footprint_bind]

theorem mem_footprint_r8BbSet_pure {f : Field} {w : Word} :
    a ∈ (r8BbSet f (pure w)).footprint m ↔ a = .bb .magic ∨ Ready m ∧ a = .bb f := by
  rw [mem_footprint_r8BbSet]
  simp

theorem mem_footprint_copyCells (l : List (Field × Sram)) :
    a ∈ (copyCells l).footprint m ↔ ∃ x ∈ l, a = .sram x.2 ∨ a = .bb x.1 := by
  induction l generalizing m with
  | nil => simp [copyCells]
  | cons x l ih =>
    simp only [copyCells, footprint_get_bind, footprint_set_bind, List.mem_cons, ih]
    rw [← or_assoc]
    simp only [or_and_right, exists_or, exists_eq_left]

theorem ScanCell.succ {n p : ℕ} : ScanCell m (n + 1) p a ↔
    a = .word p ∨ m (.word p) = r8Paint ∧ ScanCell m n (p + 4) a := by
  have hp : ∀ i, p + 4 * (i + 1) = p + 4 + 4 * i := by omega
  rw [ScanCell, ← Nat.or_exists_add_one]
  simp only [ScanCell, Nat.forall_lt_succ_left, hp, Nat.mul_zero, Nat.add_zero]
  simp only [Nat.add_lt_add_iff_right, Nat.zero_lt_succ, true_and, Nat.not_lt_zero, false_implies,
    implies_true, and_assoc, and_left_comm (b := m (.word p) = r8Paint), exists_and_left]

theorem mem_footprint_r8UsedOne (n p : ℕ) :
    a ∈ (r8UsedOne n p).footprint m ↔ ScanCell m n p a := by
  induction n generalizing p with
  | zero => simp [r8UsedOne, ScanCell]
  | succ n ih =>
    simp only [r8UsedOne, footprint_get_bind, List.mem_cons, ScanCell.succ]
    refine or_congr_right ?_
    split_ifs with h <;> simp [h, ih]

theorem NameCell.succ {s : Str} {i : ℕ} (hi : i < 15) : NameCell m s i a ↔
    a = .char s i ∨ a = faultTaskAt i ∨
      m (.char s i) ≠ 0 ∧ NameCell m s (i + 1) a := by
  have hadd : ∀ j, i + 1 + j = i + (j + 1) := by omega
  rw [NameCell, ← Nat.or_exists_add_one]
  simp only [NameCell, Nat.forall_lt_succ_left, hadd, Nat.add_zero, Nat.not_lt_zero, false_implies,
    implies_true, hi, hi.le, true_and, or_assoc, and_assoc, exists_and_left]

theorem NameCell.last {s : Str} : NameCell m s 15 a ↔ a = faultTaskAt 15 := by
  rw [NameCell, ← Nat.or_exists_add_one]
  simp

theorem mem_footprint_copyTask (s : Str) (n i : ℕ) (hn : i + n = 15) :
    a ∈ (copyTask s n i).footprint m ↔ NameCell m s i a := by
  induction n generalizing m i with
  | zero =>
    obtain rfl : i = 15 := hn
    rw [NameCell.last]
    exact List.mem_singleton
  | succ n ih =>
    rw [NameCell.succ (by omega)]
    simp only [copyTask, footprint_get_bind, List.mem_cons]
    refine or_congr_right ?_
    split_ifs with h
    · simp only [footprint_set, List.mem_cons, List.not_mem_nil, ne_eq, h, not_true, false_and]
    · rw [footprint_set_bind, List.mem_cons, ih _ (by omega), faultTaskAt,
        NameCell.congr (.update _ _)]
      simp only [ne_eq, h, not_false_eq_true, true_and]

theorem mem_footprint_mirror (l : List (Field × Sram))
    (hl : ∀ x ∈ l, x.1 ≠ .magic ∧ x.1 ≠ .faultType) : a ∈ (mirror l).footprint m ↔
      l ≠ [] ∧ a = .bb .magic ∨ Ready m ∧ ∃ x ∈ l, a = .sram x.2 ∨ a = .bb x.1 := by
  induction l generalizing m with
  | nil => simp [mirror]
  | cons x l ih =>
    obtain ⟨hx, hl⟩ := List.forall_mem_cons.mp hl
    have hv : SameView m ((r8BbSet x.1 (Prog.get (.sram x.2))).exec m).2 :=
      view_of_exec (storesIn_r8BbSet ⟨_, rfl, hx⟩ storesIn_get)
    simp only [mirror, mem_footprint_bind, mem_footprint_r8BbSet, ih hl, hv.ready, footprint_get,
      List.mem_cons, List.not_mem_nil, or_false, or_and_right, exists_or, exists_eq_left, ne_eq,
      reduceCtorEq, not_false_eq_true, true_and]
    grind

theorem mem_footprint_copyRings : a ∈ copyRings.footprint m ↔ a = .bb .magic ∨
    Ready m ∧ ∃ x ∈ (List.finRange 8).flatMap slotCells, a = .sram x.2 ∨ a = .bb x.1 := by
  simp only [copyRings, footprint_get_bind, List.mem_cons, Ready]
  refine or_congr_right ?_
  split_ifs with h
  · simp only [mem_footprint_copyCells, h, true_and]
  · simp [h]

theorem mem_footprint_copyWord : a ∈ copyWord.footprint m ↔ a = .sram .wordAddr ∨
    m (.sram .wordAddr) ≠ 0 ∧ (a = .bb .magic ∨ Ready m ∧ (a = .bb .faultWordAddr ∨
      a = .bb .faultWord ∨ a = .word (m (.sram .wordAddr)).toNat)) := by
  have hv : SameView m ((r8BbSet .faultWordAddr (Prog.get (.sram .wordAddr))).exec m).2 :=
    view_of_exec (storesIn_r8BbSet ⟨_, rfl, by decide⟩ storesIn_get)
  have hs := hv.outside (.sram .wordAddr) nofun
  simp only [copyWord, footprint_get_bind, List.mem_cons]
  split_ifs with h
  · simp [h]
  · simp only [mem_footprint_bind, mem_footprint_r8BbSet, hv.ready, footprint_get_bind, hs,
      footprint_get, List.mem_cons, List.not_mem_nil, or_false, h, ne_eq, not_false_eq_true,
      true_and]
    tauto

theorem mem_footprint_r8StackScan (k : Linker) : a ∈ (r8StackScan k).footprint m ↔
    a = .bb .magic ∨ Ready m ∧ (a = .bb .svcUsed ∨ a = .bb .irqUsed ∨ a = .bb .sysUsed ∨
      ScanCell m k.svcWords k.svcBase a ∨ ScanCell m k.irqWords k.irqBase a ∨
      ScanCell m k.sysWords k.sysBase a) := by
  have hv : ∀ {f n p} (m : Mem), OutsideLatch (.bb f) →
      SameView m ((r8BbSet f (r8UsedOne n p)).exec m).2 := fun _ hf =>
    view_of_exec (storesIn_r8BbSet hf (storesIn_r8UsedOne _ _))
  have h₁ : ∀ {n p} (m : Mem), SameView m ((r8BbSet .svcUsed (r8UsedOne n p)).exec m).2 :=
    fun m => hv m ⟨_, rfl, by decide⟩
  have h₂ : ∀ {n p} (m : Mem), SameView m ((r8BbSet .irqUsed (r8UsedOne n p)).exec m).2 :=
    fun m => hv m ⟨_, rfl, by decide⟩
  simp only [r8StackScan, mem_footprint_bind, mem_footprint_r8BbSet, mem_footprint_r8UsedOne,
    (h₂ _).ready, (h₁ _).ready, ScanCell.congr (h₂ _).outside, ScanCell.congr (h₁ _).outside]
  tauto

/-- **The cells of the recording part.** -/
theorem mem_footprint_abortRecord (k : Linker) (r : Regs) :
    a ∈ (abortRecord k r).footprint m ↔ RecordCell k m (Ready m) a := by
  have h₁ : ∀ m, SameView m ((mirror abortMirrors).exec m).2 := fun m =>
    view_of_exec storesIn_abortMirrors
  have h₂ : ∀ m, SameView m (copyRings.exec m).2 := fun m => view_of_exec storesIn_copyRings
  have h₃ : ∀ m, SameView m (copyWord.exec m).2 := fun m => view_of_exec storesIn_copyWord
  have h₄ : ∀ w m, SameView m ((r8BbSet .faultSpSvc (pure w)).exec m).2 := fun w m =>
    view_of_exec (storesIn_r8BbSet ⟨_, rfl, by decide⟩ storesIn_pure)
  have h₅ : ∀ w m, SameView m ((r8BbSet .faultSpIrq (pure w)).exec m).2 := fun w m =>
    view_of_exec (storesIn_r8BbSet ⟨_, rfl, by decide⟩ storesIn_pure)
  have hs₁ := fun m => (h₁ m).outside (.sram .wordAddr) nofun
  have hs₂ := fun m => (h₂ m).outside (.sram .wordAddr) nofun
  have hne : abortMirrors ≠ [] := by decide
  simp only [abortRecord, mem_footprint_bind, mem_footprint_mirror _ abortMirrors_outside,
    mem_footprint_copyRings, mem_footprint_copyWord, mem_footprint_r8BbSet_pure,
    mem_footprint_r8StackScan, (h₁ _).ready, (h₂ _).ready, (h₃ _).ready, (h₄ _ _).ready,
    (h₅ _ _).ready, hs₁, hs₂, ScanCell.congr (h₅ _ _).outside, ScanCell.congr (h₄ _ _).outside,
    ScanCell.congr (h₃ _).outside, ScanCell.congr (h₂ _).outside, ScanCell.congr (h₁ _).outside,
    RecordCell, List.mem_append, or_and_right, exists_or, hne, ne_eq, not_false_eq_true, true_and]
  by_cases hm : a = .bb .magic
  · simp only [hm, true_or]
  by_cases hr : Ready m <;> by_cases hw : m (.sram .wordAddr) = 0 <;>
    simp only [hm, hr, hw, true_and, false_and, or_false, false_or, not_true, not_false_eq_true,
      or_assoc, or_left_comm (b := a = .sram .wordAddr)]

/-! ### Footprint of the helper -/

theorem footprint_wipe (l : List Field) : (wipe l).footprint m = l.map .bb := by
  induction l generalizing m with
  | nil => rfl
  | cons f l ih => exact congrArg (Loc.bb f :: ·) ih

theorem exec_wipe (l : List Field) (f : Field) :
    ((wipe l).exec m).2 (.bb f) = if f ∈ l then 0 else m (.bb f) := by
  induction l generalizing m with
  | nil => rfl
  | cons g l ih =>
    refine (ih (m := Function.update m (.bb g) 0)).trans ?_
    by_cases hf : f ∈ l
    · simp [hf]
    · by_cases hg : f = g
      · simp [hg]
      · simp [hf, hg]

theorem storesIn_wipe {P : Loc → Prop} (l : List Field) (h : ∀ f, P (.bb f)) :
    (wipe l).StoresIn P := by
  induction l with
  | nil => exact trivial
  | cons f l ih => exact storesIn_set_bind (h f) ih

/-- The box after the wipe of a box without its magic. -/
theorem mem_footprint_ensureMagic : a ∈ ensureMagic.footprint m ↔
    a = .bb .magic ∨ ¬ Ready m ∧ ∃ f, a = .bb f := by
  simp only [ensureMagic, footprint_get_bind, List.mem_cons, Ready]
  refine or_congr_right ?_
  split_ifs with h
  · simp [h]
  · simp only [h, not_false_eq_true, true_and, mem_footprint_bind, footprint_set_bind, memset,
      footprint_wipe, footprint_set, List.mem_map, List.mem_cons, List.not_mem_nil, or_false]
    refine ⟨?_, ?_⟩
    · rintro (⟨f, -, rfl⟩ | rfl | rfl)
      · exact ⟨f, rfl⟩
      · exact ⟨_, rfl⟩
      · exact ⟨_, rfl⟩
    · rintro ⟨f, rfl⟩
      exact .inl ⟨f, Field.mem_all f, rfl⟩

theorem exec_ensureMagic_of_not_ready (h : ¬ Ready m) : (ensureMagic.exec m).2 =
    Function.update (Function.update (memset.exec m).2 (.bb .magic) r8BbMagic) (.bb .version)
      r8BbVersion := by
  refine (congrArg (fun p : Code Unit => (p.exec m).2) (if_neg h)).trans ?_
  rw [exec_bind]
  rfl

theorem storesIn_ensureMagic : ensureMagic.StoresIn fun a => ∃ f, a = .bb f :=
  storesIn_get_bind fun _ => storesIn_ite (fun _ => trivial) fun _ =>
    (storesIn_wipe _ fun f => ⟨f, rfl⟩).bind fun _ =>
      storesIn_set_bind ⟨_, rfl⟩ (storesIn_set ⟨_, rfl⟩)

theorem outside_of_states {p : Code Unit} (h : p.StoresIn fun a => ∃ f, a = .bb f)
    (hm : m' ∈ p.states m) : SameOutside m m' := fun _ ha =>
  states_frame h hm fun ⟨f, hf⟩ => ha f hf

theorem storesIn_fault (type a0 a1 lr : Word) (task : Option Str) :
    (r8BlackboxFault type a0 a1 lr task).StoresIn fun a => ∃ f, a = .bb f :=
  storesIn_ensureMagic.bind fun _ => storesIn_get_bind fun _ => storesIn_ite
    (fun _ => (storesIn_latchArgs (fun f _ _ => ⟨f, rfl⟩) a0 a1 lr task).bind fun _ =>
      storesIn_set ⟨_, rfl⟩)
    fun _ => trivial

theorem ready_ensureMagic : Ready (ensureMagic.exec m).2 := by
  by_cases h : Ready m
  · rwa [exec_ensureMagic_of_ready h]
  · rw [exec_ensureMagic_of_not_ready h]
    rfl

theorem first_ensureMagic : First (ensureMagic.exec m).2 ↔ First m := by
  by_cases h : Ready m
  · rw [exec_ensureMagic_of_ready h]
  · refine iff_of_true (.inr ?_) (.inl h)
    rw [exec_ensureMagic_of_not_ready h]
    exact (exec_wipe _ _).trans (if_pos (Field.mem_all _))

theorem mem_footprint_latchArgs {a0 a1 lr : Word} {task : Option Str} :
    a ∈ (latchArgs a0 a1 lr task).footprint m ↔ a = .bb .faultArg0 ∨ a = .bb .faultArg1 ∨
      a = .bb .faultLr ∨ ∃ s, task = some s ∧ NameCell m s 0 a := by
  simp only [latchArgs, footprint_set_bind, List.mem_cons]
  refine or_congr_right (or_congr_right (or_congr_right ?_))
  cases task with
  | none => simp [copyName]
  | some s =>
    rw [copyName, mem_footprint_copyTask s 15 0 rfl, NameCell.congr (.update _ _),
      NameCell.congr (.update _ _), NameCell.congr (.update _ _)]
    simp

/-- **The cells of the helper.** -/
theorem mem_footprint_fault {type a0 a1 lr : Word} {task : Option Str} :
    a ∈ (r8BlackboxFault type a0 a1 lr task).footprint m ↔
      FaultCell m (Ready m) (First m) task a := by
  have hout : SameOutside m (ensureMagic.exec m).2 :=
    outside_of_states storesIn_ensureMagic (exec_mem_states _ m)
  have hfirst : (ensureMagic.exec m).2 (.bb .faultType) = r8FaultNone ↔ First m := by
    rw [← first_ensureMagic, First, iff_true_intro ready_ensureMagic, not_true, false_or]
  simp only [r8BlackboxFault, mem_footprint_bind, mem_footprint_ensureMagic, latch,
    footprint_get_bind, List.mem_cons, FaultCell]
  split_ifs with h
  · simp only [mem_footprint_bind, mem_footprint_latchArgs, NameCell.congr hout, footprint_set,
      List.mem_cons, List.not_mem_nil, or_false, hfirst.mp h, true_and]
    clear hout hfirst
    grind
  · simp only [pure_eq, footprint_ret, List.not_mem_nil, or_false, mt hfirst.mpr h, false_and]
    tauto

/-- **The cells of `Abort_Handler`.** -/
theorem mem_footprint_abortHandler {k : Linker} {r : Regs} :
    a ∈ (abortHandler k r).footprint m ↔ AbortCell k m (Ready m) (First m) a := by
  have hv : SameView m ((abortRecord k r).exec m).2 := view_of_exec (storesIn_abortRecord k r)
  rw [abortHandler, mem_footprint_bind, mem_footprint_abortRecord, mem_footprint_fault]
  simp only [AbortCell, FaultCell, hv.ready, hv.first, NameCell.congr hv.outside]

/-- **The cells of an entry.** -/
theorem mem_footprint_handler {k : Linker} {e : Entry} :
    a ∈ (e.handler k).footprint m ↔ EntryCell k e m a := by
  cases e with
  | dataAbort r =>
    rw [Entry.handler, mem_footprint_abortHandler, AbortCell, or_comm]
    simp only [EntryCell, Entry.reads, Entry.task, Entry.isDataAbort, List.not_mem_nil, false_or, true_and]
  | mallocFailed lr =>
    simp only [Entry.handler, xPortGetFreeHeapSize, xPortGetMinimumEverFreeHeapSize, footprint_get_bind,
      List.mem_cons, mem_footprint_fault, EntryCell, Entry.reads, Entry.task, Entry.isDataAbort,
      List.not_mem_nil, Bool.false_eq_true, false_and, or_false, or_assoc]
  | _ =>
    rw [Entry.handler, mem_footprint_fault]
    simp only [EntryCell, Entry.reads, Entry.task, Entry.isDataAbort, List.not_mem_nil, Bool.false_eq_true,
      false_and, false_or, or_false]

/-- Where an entry other than `Abort_Handler` faults: in a load of its own, with the memory
unchanged, or in the helper. -/
theorem handler_attempt {bad : Loc → Bool} {k : Linker} {e : Entry} (he : e.isDataAbort = false)
    (hf : (e.handler k).attempt bad m = .fault a m') :
    (¬ ∀ b ∈ e.reads, bad b = false) ∧ m' = m ∨ (∀ b ∈ e.reads, bad b = false) ∧
      ∃ type a0 a1 lr, (r8BlackboxFault type a0 a1 lr e.task).attempt bad m = .fault a m' := by
  cases e with
  | dataAbort r => cases he
  | mallocFailed lr =>
    simp only [Entry.handler, xPortGetFreeHeapSize, xPortGetMinimumEverFreeHeapSize, attempt_get_bind] at hf
    split_ifs at hf with h₁ h₂
    · cases hf
      exact .inl ⟨fun h => Bool.false_ne_true ((h _ (by simp [Entry.reads])).symm.trans h₁), rfl⟩
    · cases hf
      exact .inl ⟨fun h => Bool.false_ne_true ((h _ (by simp [Entry.reads])).symm.trans h₂), rfl⟩
    · refine .inr ⟨?_, _, _, _, _, hf⟩
      simpa [Entry.reads] using And.intro h₁ h₂
  | _ => exact .inr ⟨fun b hb => absurd hb List.not_mem_nil, _, _, _, _, hf⟩

/-! ## The second Data Abort -/

variable {bad : Loc → Bool} {k : Linker}

theorem clean_abortHandler_iff {r : Regs} : (abortHandler k r).Clean bad m ↔
    ∀ a, AbortCell k m (Ready m) (First m) a → bad a = false := by
  simp only [Clean, mem_footprint_abortHandler]

theorem clean_of_view (h : SameView m m') {r r' : Regs} :
    (abortHandler k r').Clean bad m' ↔ (abortHandler k r).Clean bad m := by
  simp only [clean_abortHandler_iff, AbortCell.congr h.outside, h.ready, h.first]

theorem wipe_moments (l : List Field) (f : Field) (hm : m' ∈ (wipe l).moments m) :
    m' (.bb f) = m (.bb f) ∨ m' (.bb f) = 0 := by
  induction l generalizing m with
  | nil => exact absurd hm List.not_mem_nil
  | cons g l ih =>
    rcases List.mem_cons.mp hm with rfl | hm
    · exact .inl rfl
    by_cases hg : f = g
    · subst hg
      exact .inr (by simpa using ih hm)
    · simpa [Function.update_of_ne (mt Loc.bb.inj hg)] using ih hm

/-- Up to its last store, the latch leaves the magic and the fault type alone. -/
theorem latch_moments {type a0 a1 lr : Word} {task : Option Str}
    (hm : m' ∈ (latch type a0 a1 lr task).moments m) : SameView m m' := by
  have hargs : (latchArgs a0 a1 lr task).StoresIn OutsideLatch :=
    storesIn_latchArgs (fun f hf ht => ⟨f, rfl, fun h => by simp [h, Field.inLatch] at hf, ht⟩)
      _ _ _ _
  simp only [latch, moments_get_bind, List.mem_cons] at hm
  split_ifs at hm with h
  · rw [moments_bind, List.mem_append] at hm
    rcases hm with rfl | hm | hm
    · exact fun _ _ => rfl
    · exact view_of_states hargs (mem_states_of_moments hm)
    · rw [List.mem_singleton.mp hm]
      exact view_of_exec hargs
  · rcases hm with rfl | hm
    · exact fun _ _ => rfl
    · exact absurd hm List.not_mem_nil

/-- The helper faults on an initialised box: nothing that decides about accesses has changed. -/
theorem view_of_fault_ready (h : Ready m) {type a0 a1 lr : Word} {task : Option Str}
    (hf : (r8BlackboxFault type a0 a1 lr task).attempt bad m = .fault a m') : SameView m m' := by
  rcases attempt_bind_fault hf with hf | ⟨-, hf⟩
  · obtain ⟨-, hm⟩ := moments_of_attempt hf
    rw [moments_ensureMagic_of_ready h] at hm
    rw [List.mem_singleton.mp hm]
    exact fun _ _ => rfl
  · rw [exec_ensureMagic_of_ready h] at hf
    exact latch_moments (moments_of_attempt hf).2

/-- The helper faults on a box without its magic: either the box itself faults and still has no
magic, or none of it does and it has become ready for the first fault. -/
theorem fault_not_ready (h : ¬ Ready m) {type a0 a1 lr : Word} {task : Option Str}
    (hf : (r8BlackboxFault type a0 a1 lr task).attempt bad m = .fault a m') :
    ((∃ f, bad (.bb f) = true) ∧ ¬ Ready m') ∨
      ((∀ f, bad (.bb f) = false) ∧ Ready m' ∧ First m') := by
  rcases attempt_bind_fault hf with hf | ⟨hc, hf⟩
  · have hbox : ¬ ∀ f, bad (.bb f) = false := fun hall =>
      not_clean_of_attempt hf fun b hb => by
        rcases mem_footprint_ensureMagic.mp hb with rfl | ⟨-, f, rfl⟩ <;> exact hall _
    refine .inl ⟨by simpa using hbox, ?_⟩
    simp only [ensureMagic, attempt_get_bind] at hf
    split_ifs at hf with hm hr
    · cases hf
      exact h
    · exact absurd hr h
    · rcases attempt_bind_fault hf with hf | ⟨hc, -⟩
      · -- the wipe has faulted, and the magic is either untouched or zero
        rcases wipe_moments _ .magic (moments_of_attempt hf).2 with hmag | hmag
        · rwa [Ready, hmag]
        · rw [Ready, hmag]
          decide
      · refine absurd (fun f => hc _ ?_) hbox
        rw [memset, footprint_wipe]
        exact List.mem_map_of_mem (Field.mem_all f)
  · right
    have hv := latch_moments (moments_of_attempt hf).2
    refine ⟨fun f => hc _ (mem_footprint_ensureMagic.mpr (.inr ⟨h, f, rfl⟩)), ?_, ?_⟩
    · exact hv.ready.mpr ready_ensureMagic
    · exact hv.first.mpr (first_ensureMagic.mpr (.inl h))

/-- **An `Abort_Handler` that has faulted faults again** when it is entered from there. -/
theorem not_clean_of_fault {r r' : Regs} (hf : (abortHandler k r).attempt bad m = .fault a m') :
    ¬ (abortHandler k r').Clean bad m' := by
  have hn : ¬ (abortHandler k r).Clean bad m := not_clean_of_attempt hf
  rcases attempt_bind_fault hf with hf | ⟨-, hf⟩
  · have hv := view_of_states (storesIn_abortRecord k r)
      (mem_states_of_moments (moments_of_attempt hf).2)
    rwa [clean_of_view hv]
  have hv : SameView m ((abortRecord k r).exec m).2 := view_of_exec (storesIn_abortRecord k r)
  replace hn : ¬ (abortHandler k r).Clean bad ((abortRecord k r).exec m).2 := by
    rwa [clean_of_view hv]
  generalize ((abortRecord k r).exec m).2 = m₁ at hf hn
  by_cases hr : Ready m₁
  · rwa [clean_of_view (view_of_fault_ready hr hf)]
  have hout : SameOutside m₁ m' :=
    outside_of_states (storesIn_fault _ _ _ _ _) (mem_states_of_moments (moments_of_attempt hf).2)
  rcases fault_not_ready hr hf with ⟨⟨f, hbad⟩, hr'⟩ | ⟨hbox, hr', hfirst⟩
  · intro hc
    have hcell : AbortCell k m' (Ready m') (First m') (.bb f) :=
      .inr (.inr (.inr (.inl ⟨hr', f, rfl⟩)))
    rw [clean_abortHandler_iff.mp hc _ hcell] at hbad
    cases hbad
  · -- the box is sound, so the faulting cell is a character, which is read again
    refine fun hc => hn (clean_abortHandler_iff.mpr fun b hb => ?_)
    have hfirst₁ : First m₁ := .inl hr
    rw [eq_false hr, eq_true hfirst₁] at hb
    rcases hb.of_not_ready with ⟨f, rfl⟩ | hb
    · exact hbox f
    · refine clean_abortHandler_iff.mp hc b ?_
      rwa [eq_true hr', eq_true hfirst, AbortCell.congr hout]

/-- Where the helper has faulted, `Abort_Handler` gets through exactly when the box is ready, or
sound as a whole, and nothing faults that `Abort_Handler` accesses on a ready box. -/
theorem clean_after_fault {type a0 a1 lr : Word} {task : Option Str} {r : Regs}
    (hf : (r8BlackboxFault type a0 a1 lr task).attempt bad m = .fault a m') :
    (abortHandler k r).Clean bad m' ↔ (Ready m ∨ ∀ f, bad (.bb f) = false) ∧
      ∀ a, AbortCell k m True (First m) a → bad a = false := by
  rw [clean_abortHandler_iff]
  by_cases hr : Ready m
  · have hv := view_of_fault_ready hr hf
    simp only [AbortCell.congr hv.outside, hv.ready, hv.first, eq_true hr, true_or, true_and]
  have hout : SameOutside m m' :=
    outside_of_states (storesIn_fault _ _ _ _ _) (mem_states_of_moments (moments_of_attempt hf).2)
  have hfirst : First m := .inl hr
  rcases fault_not_ready hr hf with ⟨⟨f, hbad⟩, hr'⟩ | ⟨hbox, hr', hfirst'⟩
  · refine iff_of_false (fun hc => ?_) fun hc => ?_
    · rw [hc (.bb f) (.inr (.inr (.inr (.inl ⟨hr', f, rfl⟩))))] at hbad
      cases hbad
    · rw [hc.1.resolve_left hr f] at hbad
      cases hbad
  · simp only [AbortCell.congr hout, eq_true hr', eq_true hfirst', eq_true hfirst, hbox,
      implies_true, or_true, true_and]

/-- The same for a whole entry. One that has faulted in a load of its own has not yet wiped the box. -/
theorem clean_after_handler {e : Entry} (he : e.isDataAbort = false) {r : Regs}
    (hf : (e.handler k).attempt bad m = .fault a m') :
    (abortHandler k r).Clean bad m' ↔ (Ready m ∨ ∀ f, bad (.bb f) = false) ∧
      ∀ a, AbortCell k m (Ready m ∨ ∀ b ∈ e.reads, bad b = false) (First m) a → bad a = false := by
  rcases handler_attempt he hf with ⟨hreads, rfl⟩ | ⟨hreads, type, a0, a1, lr, hf⟩
  · rw [clean_abortHandler_iff]
    simp only [eq_false hreads, or_false, iff_and_self]
    intro hclean
    by_cases hr : Ready m'
    · exact .inl hr
    · exact .inr fun f => hclean _ (.inr (.inr (.inr (.inl ⟨hr, f, rfl⟩))))
  · rw [clean_after_fault hf]
    simp only [eq_true hreads, or_true]

/-! ## Reaching `r8_disarm_outputs` -/

theorem Reaches.clean {rs : ℕ → Regs} {p : Code Unit} (h : Reaches k bad rs p m) :
    ∀ r, p = abortHandler k r → p.Clean bad m := by
  induction h with
  | done h => exact fun _ _ => attempt_done_iff.mp ⟨_, _, h⟩
  | fault h _ ih =>
    rintro r rfl
    exact absurd (ih _ rfl) (not_clean_of_fault h)

theorem Reaches.of_clean {rs : ℕ → Regs} {p : Code Unit} (h : p.Clean bad m) :
    Reaches k bad rs p m := .done (attempt_of_clean h)

/-- **When the outputs are disarmed.** Either nothing faults that the entry accesses, or the entry
is not `Abort_Handler`, the box is initialised or none of its cells faults, and nothing faults that
`Abort_Handler` accesses on an initialised box, or on a box without its magic if an entry that
starts there faults before it calls the helper. -/
theorem reaches_iff (k : Linker) (bad : Loc → Bool) (rs : ℕ → Regs) (e : Entry) (m : Mem) :
    Reaches k bad rs (e.handler k) m ↔
      (∀ a, EntryCell k e m a → bad a = false) ∨ e.isDataAbort = false ∧
        (Ready m ∨ ∀ f, bad (.bb f) = false) ∧
        ∀ a, AbortCell k m (Ready m ∨ ∀ b ∈ e.reads, bad b = false) (First m) a → bad a = false := by
  have hclean : (e.handler k).Clean bad m ↔ ∀ a, EntryCell k e m a → bad a = false := by
    simp only [Clean, mem_footprint_handler]
  rw [← hclean]
  by_cases hc : (e.handler k).Clean bad m
  · exact iff_of_true (.of_clean hc) (.inl hc)
  obtain ⟨a, m', hf, -⟩ := attempt_fault hc
  rw [or_iff_right hc]
  cases he : e.isDataAbort with
  | true =>
    refine iff_of_false (fun h => hc ?_) fun h => ?_
    · cases e with
      | dataAbort r => exact h.clean r rfl
      | _ => cases he
    · cases h.1
  | false =>
    rw [← clean_after_handler (r := rs 0) he hf]
    refine ⟨fun h => ⟨rfl, ?_⟩, fun h => .fault hf (.of_clean h.2)⟩
    cases h with
    | done h =>
      rw [hf] at h
      cases h
    | fault h hr =>
      rw [hf] at h
      cases h
      exact hr.clean _ rfl

/-- The whole box faults: every attempt to record anything starts by reading its magic. -/
theorem not_reaches : ¬ ∀ (k : Linker) (bad : Loc → Bool) (rs : ℕ → Regs) (e : Entry) (m : Mem),
    Reaches k bad rs (e.handler k) m := by
  intro h
  let bad : Loc → Bool := fun a => match a with
    | .bb _ => true
    | _ => false
  have hstuck : ∀ {rs p m}, Reaches bench bad rs p m →
      (∀ m, p.attempt bad m = .fault (.bb .magic) m) → False := by
    intro rs p m hr
    induction hr with
    | done h => exact fun hp => by rw [hp] at h; cases h
    | fault h _ ih => exact fun _ => ih fun _ => rfl
  exact hstuck (h bench bad (fun _ => ⟨0, 0, 0, 0, 0, 0, 0⟩) overflow oneInterrupt) fun _ => rfl

end CR8Devkit.BlackBox
