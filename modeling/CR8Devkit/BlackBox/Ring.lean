import CR8Devkit.BlackBox.Activations
import CR8Devkit.BlackBox.Mirror
import CR8Devkit.BlackBox.Reader

/-!
# The last eight interrupts, from the guard to the report

* `RingLine`, `ringReport`: what `bb.py` prints of the ring; `boxRow`: one slot in the box.
* `Framed`, `Ringed`: where the saved return states and the rows of the log are, over every run.
* **`ring_printed`**: behind a Data Abort the report shows the last eight calls of the guard.
-/

namespace CR8Devkit.BlackBox

open Access Access.Prog Transition RingLog

/-! ## The report -/

/-- One interrupt in the report, with its slot, and whether its alignment word is marked as damaged
and it is marked as the last one. -/
structure RingLine where
  slot : ℕ
  irq : Word
  sp : Word
  depth : Word
  addr : Word
  val : Word
  damaged : Bool
  last : Bool
  spIrq : Word
  mode : String
  spsr : Word
  ret : Word
  deriving DecidableEq

/-- `irqid` -/
def irqid (x : Word) : Word := x &&& 0x3FF

/-- `MODES` -/
def modeName (spsr : Word) : String :=
  match (spsr &&& 0x1F).toNat with
  | 0x10 => "USR"
  | 0x11 => "FIQ"
  | 0x12 => "IRQ"
  | 0x13 => "SVC"
  | 0x17 => "ABT"
  | 0x1B => "UND"
  | 0x1F => "SYS"
  | _ => "?"

/-- The line for one slot's words. -/
def Row.line (r : Row) (k : ℕ) (last : Bool) : RingLine where
  slot := k
  irq := irqid r.icciar
  sp := r.sp
  depth := r.depth
  addr := r.addr
  val := r.val
  damaged := !(r.val == 0 || r.val == 4)
  last := last
  spIrq := r.spIrq
  mode := modeName r.spsr
  spsr := r.spsr
  ret := r.ret

/-- The words of slot `k`, at the offsets of the report. -/
def rdRow (m : Mem) (k : ℕ) : Row where
  icciar := rd m (0xEC + k * 12 + 0)
  sp := rd m (0xEC + k * 12 + 4)
  depth := rd m (0xEC + k * 12 + 8)
  addr := rd m (0x174 + k * 8 + 0)
  val := rd m (0x174 + k * 8 + 4)
  spIrq := rd m (0x1C4 + k * 12 + 0)
  spsr := rd m (0x1C4 + k * 12 + 4)
  ret := rd m (0x1C4 + k * 12 + 8)

/-- Line `j` of the report. -/
def ringLine (m : Mem) (j : ℕ) : RingLine :=
  let k := ((rd m 0xE8 &&& 7).toNat + j) % 8
  (rdRow m k).line k (j == 7)

/-- The last eight interrupts, if a fault is recorded. -/
def ringReport (m : Mem) : Option (List RingLine) :=
  if rd m 0x00 = r8BbMagic then
    if 8 ≤ (rd m 0x04).toNat ∧ rd m 0x44 ≠ 0 then some ((List.range 8).map (ringLine m))
    else none
  else none

/-- A log of `n` rows in the report. -/
def ringLines (n : ℕ) (rows : List Row) : List RingLine :=
  rows.mapIdx fun j row => row.line ((n + j) % 8) (j == 7)

/-! ## The slots in the box -/

variable {p : Setup} {s s' s₀ : Sys} {a b : Activation} {as below : List Activation} {m m' : Mem}
  {mv : Move} {mvs : List Move} {k : Linker}

def boxRow (m : Mem) (i : Fin 8) : Row where
  icciar := m (.bb (.ring i 0))
  sp := m (.bb (.ring i 1))
  depth := m (.bb (.ring i 2))
  addr := m (.bb (.ringWord i 0))
  val := m (.bb (.ringWord i 1))
  spIrq := m (.bb (.ringIrq i 0))
  spsr := m (.bb (.ringIrq i 1))
  ret := m (.bb (.ringIrq i 2))

theorem offset_ring : ∀ i : Fin 8, (Field.ring i 0).offset = 0xEC + i.val * 12 + 0 ∧
    (Field.ring i 1).offset = 0xEC + i.val * 12 + 4 ∧ (Field.ring i 2).offset = 0xEC + i.val * 12 + 8 := by
  decide +kernel

theorem offset_ringWord : ∀ i : Fin 8, (Field.ringWord i 0).offset = 0x174 + i.val * 8 + 0 ∧
    (Field.ringWord i 1).offset = 0x174 + i.val * 8 + 4 := by
  decide +kernel

theorem offset_ringIrq : ∀ i : Fin 8, (Field.ringIrq i 0).offset = 0x1C4 + i.val * 12 + 0 ∧
    (Field.ringIrq i 1).offset = 0x1C4 + i.val * 12 + 4 ∧
    (Field.ringIrq i 2).offset = 0x1C4 + i.val * 12 + 8 := by
  decide +kernel

/-- **The offsets of the report** are those of the three arrays. -/
theorem rdRow_eq (m : Mem) (i : Fin 8) : rdRow m i.val = boxRow m i := by
  obtain ⟨h0, h1, h2⟩ := offset_ring i
  obtain ⟨h3, h4⟩ := offset_ringWord i
  obtain ⟨h5, h6, h7⟩ := offset_ringIrq i
  unfold rdRow boxRow
  rw [← h0, ← h1, ← h2, ← h3, ← h4, ← h5, ← h6, ← h7, rd_offset (f := .ring i 0) rfl,
    rd_offset (f := .ring i 1) rfl, rd_offset (f := .ring i 2) rfl, rd_offset (f := .ringWord i 0) rfl,
    rd_offset (f := .ringWord i 1) rfl, rd_offset (f := .ringIrq i 0) rfl,
    rd_offset (f := .ringIrq i 1) rfl, rd_offset (f := .ringIrq i 2) rfl]

theorem toNat_and_seven (x : Word) : (x &&& 7).toNat = x.toNat % 8 := by
  rw [BitVec.toNat_and]
  exact Nat.and_two_pow_sub_one_eq_mod x.toNat 3

/-- The report, when `n` calls have been logged. -/
theorem ringReport_eq {n : ℕ} (hr : Ready m) (hv : m (.bb .version) = r8BbVersion)
    (hf : m (.bb .faultType) ≠ 0) (hidx : (m (.bb .ringIdx)).toNat % 8 = n % 8) :
    ringReport m = some (ringLines n ((List.range 8).map fun j => boxRow m (slot 8 (n + j)))) := by
  have hmagic : rd m 0x00 = r8BbMagic := (rd_offset (f := .magic) rfl).trans hr
  have hversion : rd m 0x04 = r8BbVersion := (rd_offset (f := .version) rfl).trans hv
  have hfault : rd m 0x44 ≠ 0 := by
    rwa [show rd m 0x44 = m (.bb .faultType) from rd_offset (f := .faultType) rfl]
  have hring : rd m 0xE8 = m (.bb .ringIdx) :=
    (congrArg (rd m) (by decide +kernel)).trans (rd_offset (f := .ringIdx) rfl)
  have hline : ∀ j, ringLine m j = (boxRow m (slot 8 (n + j))).line ((n + j) % 8) (j == 7) := by
    intro j
    have hslot : ((rd m 0xE8 &&& 7).toNat + j) % 8 = (n + j) % 8 := by
      rw [toNat_and_seven, hring]
      omega
    show (rdRow m (((rd m 0xE8 &&& 7).toNat + j) % 8)).line (((rd m 0xE8 &&& 7).toNat + j) % 8) _ = _
    rw [hslot]
    exact congrArg (fun r : Row => r.line ((n + j) % 8) (j == 7)) (rdRow_eq m (slot 8 (n + j)))
  unfold ringReport
  rw [if_pos hmagic, if_pos ⟨by rw [hversion]; decide, hfault⟩]
  refine congrArg some (List.ext_getElem (by simp [ringLines]) fun j _ _ => ?_)
  simp [ringLines, hline]

/-! ## Behind the Data Abort -/

/-- The abort stores neither to the version nor, with a fault on record, to its type. -/
theorem storesIn_abort_version (k : Linker) (r : Regs) :
    (abortRecord k r).StoresIn fun c => c ≠ .bb .version ∧ c ≠ .bb .faultType := by
  have hmirrors : ∀ x ∈ abortMirrors, Loc.bb x.1 ≠ .bb .version ∧ Loc.bb x.1 ≠ .bb .faultType := by decide
  have hslots : ∀ x ∈ (List.finRange 8).flatMap slotCells,
      Loc.bb x.1 ≠ .bb .version ∧ Loc.bb x.1 ≠ .bb .faultType := by decide
  have hset : ∀ f (val : Code Word), Loc.bb f ≠ .bb .version ∧ Loc.bb f ≠ .bb .faultType →
      val.StoresIn (fun c => c ≠ .bb .version ∧ c ≠ .bb .faultType) →
      (r8BbSet f val).StoresIn fun c => c ≠ .bb .version ∧ c ≠ .bb .faultType :=
    fun f val hf hval => storesIn_r8BbSet hf hval
  have hword : copyWord.StoresIn fun c => c ≠ .bb .version ∧ c ≠ .bb .faultType :=
    storesIn_get_bind fun _ => storesIn_ite (fun _ => trivial) fun _ =>
      (hset _ _ (by decide) storesIn_get).bind fun _ =>
        hset _ _ (by decide) (storesIn_get_bind fun _ => storesIn_get)
  have hscan : (r8StackScan k).StoresIn fun c => c ≠ .bb .version ∧ c ≠ .bb .faultType :=
    (hset _ _ (by decide) (storesIn_r8UsedOne _ _)).bind fun _ =>
      (hset _ _ (by decide) (storesIn_r8UsedOne _ _)).bind fun _ =>
        hset _ _ (by decide) (storesIn_r8UsedOne _ _)
  have hrings : copyRings.StoresIn fun c => c ≠ .bb .version ∧ c ≠ .bb .faultType :=
    storesIn_get_bind fun _ => storesIn_ite (fun _ => storesIn_copyCells _ hslots) fun _ => trivial
  exact (storesIn_mirror _ hmirrors).bind fun _ => hrings.bind fun _ => hword.bind fun _ =>
    (hset _ _ (by decide) storesIn_pure).bind fun _ =>
      (hset _ _ (by decide) storesIn_pure).bind fun _ => hscan

theorem abort_version (hr : Ready m) (k : Linker) (r : Regs) :
    ((abortHandler k r).exec m).2 (.bb .version) = m (.bb .version) := by
  have hready : Ready ((abortRecord k r).exec m).2 := (abortRecord_magic k r (exec_mem_states _ m)).trans hr
  have hlatch : ∀ m : Mem, ((latch r8FaultDataAbort r.dfar r.dfsr r.lr (some .dataAbort)).exec m).2
      (.bb .version) = m (.bb .version) := fun m =>
    exec_frame (storesIn_latch _ _ _ _ _) fun ⟨f, hf, hin⟩ => by
      rw [← Loc.bb.inj hf] at hin
      cases hin
  unfold abortHandler r8BlackboxFault
  rw [exec_bind, exec_bind, exec_ensureMagic_of_ready hready, hlatch]
  exact exec_frame (storesIn_abort_version k r) fun h => h.1 rfl

theorem under_exec (c : Code Unit) (m : Mem) : c.Under Eq m () (c.exec m).2 := under_eq.mpr rfl

/-- Behind the abort a fault is on record. -/
theorem abort_faultType (hr : Ready m) (k : Linker) (r : Regs) :
    ((abortHandler k r).exec m).2 (.bb .faultType) ≠ 0 := by
  have hready : Ready ((abortRecord k r).exec m).2 := (abortRecord_magic k r (exec_mem_states _ m)).trans hr
  unfold abortHandler
  rw [exec_bind]
  by_cases hf : ((abortRecord k r).exec m).2 (.bb .faultType) = r8FaultNone
  · rw [fault_type (.inr hf) ((under_exec _ _).mono fun e => e ▸ .refl _)]
    decide
  · rw [fault_latched hready hf (exec_mem_states _ _)]
    exact hf

/-- The rings are copied as they are. -/
theorem abort_rings (hr : Ready m) (k : Linker) (r : Regs) :
    (∀ i, boxRow ((abortHandler k r).exec m).2 i = rowAt m i) ∧
      ((abortHandler k r).exec m).2 (.bb .ringIdx) = m (.sram .ringIdx) := by
  have hcopy : ∀ (f : Field) (v : Sram), f.source = some v → (Entry.dataAbort r).skips f = false →
      ((abortHandler k r).exec m).2 (.bb f) = m (.sram v) := fun f v hf hs => by
    rw [abort_copies hr (under_exec _ m) hf, if_neg (by simp [hs])]
  refine ⟨fun i => ?_, hcopy _ _ rfl rfl⟩
  unfold boxRow rowAt
  rw [hcopy (.ring i 0) _ rfl rfl, hcopy (.ring i 1) _ rfl rfl, hcopy (.ring i 2) _ rfl rfl,
    hcopy (.ringWord i 0) _ rfl rfl, hcopy (.ringWord i 1) _ rfl rfl, hcopy (.ringIrq i 0) _ rfl rfl,
    hcopy (.ringIrq i 1) _ rfl rfl, hcopy (.ringIrq i 2) _ rfl rfl]

/-! ## The log in the ring -/

/-- `sp_irq` is in the IRQ stack when the guard runs. -/
def InStack (p : Setup) (_ : Sys) : Move → Prop
  | .enter a => p.linker.InIrq a.frame
  | _ => True

instance (p : Setup) (s : Sys) (mv : Move) : Decidable (InStack p s mv) :=
  match mv with
  | .enter a => inferInstanceAs (Decidable (p.linker.InIrq a.frame))
  | .store _ _ | .calibrate | .leave => inferInstanceAs (Decidable True)

/-- The invariant of the ring. -/
structure Ringed (p : Setup) (s : Sys) : Prop where
  inIrq : ∀ a ∈ s.active, p.linker.InIrq a.frame
  version : s.mem (.bb .version) = r8BbVersion
  idx : (s.mem (.sram .ringIdx)).toNat % 8 = s.rows.length % 8
  holds : Holds Row.zero (rowAt s.mem) s.rows

theorem Starts.ringed (h : Starts s) : Ringed p s where
  inIrq := by
    rw [h.active]
    exact nofun
  version := h.version
  idx := by
    rw [h.rows, h.sram _ rfl]
    rfl
  holds := by
    have hzero : rowAt s.mem = fun _ => Row.zero := by
      funext i
      unfold rowAt
      rw [h.sram (.ring i 0) rfl, h.sram (.ring i 1) rfl, h.sram (.ring i 2) rfl, h.sram (.rw i 0) rfl,
        h.sram (.rw i 1) rfl, h.sram (.ri i 0) rfl, h.sram (.ri i 1) rfl, h.sram (.ri i 2) rfl]
      rfl
    rw [hzero, h.rows]
    exact holds_nil _

theorem rowAt_congr (h : ∀ v : Sram, v.inRing = true → m' (.sram v) = m (.sram v)) : rowAt m' = rowAt m := by
  funext i
  unfold rowAt
  simp only [h (.ring i _) rfl, h (.rw i _) rfl, h (.ri i _) rfl]

/-- The cells that are read for the report. -/
def Loc.ringed : Loc → Bool
  | .bb f => f == .version
  | .sram v => v.inRing
  | _ => false

theorem Loc.ringed_owned {c : Loc} (h : c.ringed = true) :
    c.owned = true ∧ c ≠ .sram .wordAddr ∧ c ≠ .sram .currentInterruptPointer := by
  cases c with
  | bb f => exact ⟨by simp [owned, beq_iff_eq.mp h], by simp⟩
  | sram v =>
    refine ⟨by simp [owned, show v.inRing = true from h], ?_, ?_⟩
    · rintro ⟨⟩
      cases h
    · rintro ⟨⟩
      cases h
  | char s i => cases h
  | word i => cases h

/-- Stores elsewhere. -/
theorem Ringed.stores (h : Ringed p s) (ha : ∀ a ∈ as, p.linker.InIrq a.frame)
    (hm : ∀ c : Loc, c.ringed = true → m c = s.mem c) : Ringed p { s with mem := m, active := as } where
  inIrq := ha
  version := (hm _ rfl).trans h.version
  idx := by
    have hidx : m (.sram .ringIdx) = s.mem (.sram .ringIdx) := hm _ rfl
    exact (congrArg (fun x : Word => x.toNat % 8) hidx).trans h.idx
  holds := by
    have hrows : rowAt m = rowAt s.mem := rowAt_congr fun v hv => hm (.sram v) hv
    show Holds Row.zero (rowAt m) s.rows
    rw [hrows]
    exact h.holds

/-- **The slot of a call** is its record. -/
theorem rowOf_guard (h : Inv p s) (ha : s.active = a :: below) :
    rowOf (p.guard a) (release a s.mem) = rowFor p a below s.mem := by
  have hnest := h.toNested
  rw [ha] at hnest
  have hkeep : ∀ c : Loc, c ≠ .sram .currentInterruptPointer → release a s.mem c = s.mem c :=
    fun c hc => release_of_ne hc
  unfold rowOf rowFor
  rw [hnest.released.1, hkeep _ (by decide), hkeep _ (by simp), hkeep _ (by simp), hkeep _ (by simp)]
  by_cases hoff : s.mem (.sram .wordOff) = 0
  · simp [hoff, Setup.guard]
  · have hsum : (p.guard a).sp + s.mem (.sram .wordOff) = a.word := h.reads hoff
    have hoff' : ¬ s.mem (.sram .wordOff) = 0#32 := hoff
    rw [hsum]
    simp [hoff', Setup.guard]

theorem Ringed.leave (hr : Ringed p s) (h : Inv p s) (ha : s.active = a :: below) :
    Ringed p (s.leave p a below) := by
  have hin := hr.inIrq
  rw [ha] at hin
  obtain ⟨hina, hbelow⟩ := List.forall_mem_cons.mp hin
  have hidx : release a s.mem (.sram .ringIdx) = s.mem (.sram .ringIdx) := release_of_ne (by decide)
  obtain ⟨hrow, hothers, hnext⟩ := guard_rows (m := release a s.mem) (g := p.guard a) hina
  have hslot : slotOf (release a s.mem) = slot 8 s.rows.length := by
    unfold slotOf
    rw [hidx, ← slot_mod, hr.idx, slot_mod]
  have hrows : rowAt (release a s.mem) = rowAt s.mem := rowAt_congr fun v hv =>
    release_of_ne (by rintro ⟨⟩; cases hv)
  rw [hslot] at hrow hothers
  rw [rowOf_guard h ha] at hrow
  refine ⟨hbelow, ?_, ?_, ?_⟩
  · refine (exec_frame (storesIn_r8IrqGuard p.linker (p.guard a)) fun hcell => ?_).trans
      ((release_of_ne (by simp)).trans hr.version)
    cases hcell.1 _ rfl
  · show (((r8IrqGuard p.linker (p.guard a)).exec (release a s.mem)).2 (.sram .ringIdx)).toNat % 8 = _
    have hone : (1 : Word).toNat = 1 := rfl
    rw [hnext, hidx, BitVec.toNat_add, BitVec.toNat_ofNat, hr.idx, hone]
    simp only [Sys.leave, List.length_append, List.length_singleton]
    omega
  · refine Holds.push hr.holds hrow fun i hi => ?_
    rw [← hrows]
    exact hothers i hi

/-- **Every step keeps the ring.** -/
theorem Ringed.move (hr : Ringed p s) (h : Inv p s) (hk : InStack p s mv)
    (hs : BlackBox.move p s mv = some s') : Ringed p s' := by
  cases moved hs with
  | calibrate =>
    exact hr.stores hr.inIrq fun c hc =>
      calibrate_keeps _ _ (calibrated_of_owned (Loc.ringed_owned hc).1 (Loc.ringed_owned hc).2.1)
  | store hc => exact hr.stores hr.inIrq fun d hd => update_owned hc (Loc.ringed_owned hd).1
  | enter =>
    refine hr.stores (List.forall_mem_cons.mpr ⟨hk, hr.inIrq⟩) fun c hc => ?_
    rw [remain_of_ne (Loc.ringed_owned hc).2.2]
    refine saveFrame_of_ne fun i => ?_
    rintro rfl
    cases hc
  | leave ha => exact hr.leave h ha

theorem ringed_of_run (h₀ : Starts s₀)
    (hrun : Run (guarded (ofNext (BlackBox.move p)) (InStack p)) s₀ mvs s) :
    Inv p s ∧ Ringed p s :=
  hrun.inv (I := fun s => Inv p s ∧ Ringed p s) ⟨h₀.inv, h₀.ringed⟩ fun h hs =>
    ⟨h.1.move hs.2, h.2.move h.1 hs.1 hs.2⟩

/-- The last eight rows of a log, with zero rows in front where there are less. -/
def lastEight (rows : List Row) : List Row :=
  List.replicate (8 - min rows.length 8) Row.zero ++ rows.drop (rows.length - 8)

/-- The report behind a Data Abort is that of the log. -/
theorem ringReport_abort (h : Inv p s) (hr : Ringed p s) (r : Regs) :
    ringReport ((abortHandler p.linker r).exec s.mem).2 =
      some (ringLines s.rows.length (lastEight s.rows)) := by
  obtain ⟨hrows, hidx⟩ := abort_rings h.box.ready p.linker r
  have hready : Ready ((abortHandler p.linker r).exec s.mem).2 :=
    handler_ready p.linker (.dataAbort r) h.box.ready (exec_mem_states _ _)
  have hmod : (((abortHandler p.linker r).exec s.mem).2 (.bb .ringIdx)).toNat % 8 = s.rows.length % 8 := by
    rw [hidx, hr.idx]
  have hmin : 8 - min s.rows.length 8 = 8 - s.rows.length := by omega
  rw [ringReport_eq hready ((abort_version h.box.ready p.linker r).trans hr.version)
    (abort_faultType h.box.ready p.linker r) hmod]
  simp only [hrows]
  rw [hr.holds.read, lastEight, hmin]

def Move.isLeave : Move → Bool
  | .leave => true
  | _ => false

/-- Every call is logged. -/
theorem length_rows (h₀ : Starts s₀) (hrun : Run (guarded (ofNext (BlackBox.move p)) (InStack p)) s₀ mvs s) :
    s.rows.length = mvs.countP Move.isLeave := by
  refine hrun.inv_trace (I := fun mvs s => s.rows.length = mvs.countP Move.isLeave) (by rw [h₀.rows]; rfl) ?_
  rintro mvs s mv s' ih ⟨-, hs⟩
  rw [List.countP_append, ← ih]
  cases moved hs with
  | leave => simp [Sys.leave, Move.isLeave]
  | _ => rfl

/-! ## The saved return states -/

/-- The two words of the IRQ frame lie in the IRQ stack, and the alignment word does not. -/
def Activation.Placed (k : Linker) (a : Activation) : Prop :=
  k.irqBase + 8 ≤ a.spIrq.toNat ∧ a.spIrq.toNat ≤ k.irqBase + 4 * k.irqWords ∧ ¬ k.InIrq a.word

instance (k : Linker) (a : Activation) : Decidable (a.Placed k) :=
  inferInstanceAs (Decidable (_ ∧ _ ∧ ¬ _))

/-- The cell holds the saved SPSR or return address of the activation. -/
def Activation.saves (a : Activation) (c : Loc) : Bool :=
  c == .word a.frame.toNat || c == .word (a.frame + 4).toNat

theorem word_of_saves {c : Loc} (h : b.saves c = true) : ∃ i, c = .word i := by
  rcases (Bool.or_eq_true _ _).mp h with h | h
  · exact ⟨_, beq_iff_eq.mp h⟩
  · exact ⟨_, beq_iff_eq.mp h⟩

/-- `sp_irq` stays in the IRQ stack, and no other code stores to the saved return states. -/
def Kept (p : Setup) (s : Sys) : Move → Prop
  | .enter a => a.Placed p.linker
  | .store c _ => s.active.all (fun b => !b.saves c) = true
  | _ => True

instance (p : Setup) (s : Sys) (mv : Move) : Decidable (Kept p s mv) :=
  match mv with
  | .enter a => inferInstanceAs (Decidable (a.Placed p.linker))
  | .store c _ => inferInstanceAs (Decidable (s.active.all (fun b => !b.saves c) = true))
  | .calibrate | .leave => inferInstanceAs (Decidable True)

/-- The return states are where `IRQ_Handler` has saved them, each frame below the next outer one. -/
def Framed (k : Linker) (m : Mem) : List Activation → Prop
  | [] => True
  | a :: as => (m (.word a.frame.toNat) = a.cpsr ∧ m (.word (a.frame + 4).toNat) = a.pc) ∧ a.Placed k ∧
      (∀ b ∈ as, a.spIrq.toNat + 8 ≤ b.spIrq.toNat) ∧ Framed k m as

theorem Framed.congr (h : Framed k m as) (hm : ∀ b ∈ as, ∀ c : Loc, b.saves c = true → m' c = m c) :
    Framed k m' as := by
  induction as with
  | nil => trivial
  | cons a as ih =>
    obtain ⟨⟨hcpsr, hpc⟩, hplaced, hbelow, hrest⟩ := h
    obtain ⟨ha, has⟩ := List.forall_mem_cons.mp hm
    refine ⟨⟨?_, ?_⟩, hplaced, hbelow, ih hrest has⟩
    · rw [ha _ (by simp [Activation.saves]), hcpsr]
    · rw [ha _ (by simp [Activation.saves]), hpc]

theorem Framed.saved (h : Framed k m as) :
    ∀ a ∈ as, m (.word a.frame.toNat) = a.cpsr ∧ m (.word (a.frame + 4).toNat) = a.pc := by
  induction as with
  | nil => exact nofun
  | cons a as ih => exact List.forall_mem_cons.mpr ⟨h.1, ih h.2.2.2⟩

theorem Framed.placed (h : Framed k m as) : ∀ b ∈ as, b.Placed k := by
  induction as with
  | nil => exact nofun
  | cons a as ih => exact List.forall_mem_cons.mpr ⟨h.2.1, ih h.2.2.2⟩

/-- The two cells of a frame. -/
theorem Activation.Placed.frame (h : a.Placed k) : a.frame.toNat + 8 = a.spIrq.toNat ∧
    (a.frame + 4).toNat + 4 = a.spIrq.toNat := by
  have h8 := h.1
  unfold Activation.frame
  constructor <;> bv_omega

theorem Activation.Placed.inIrq (h : a.Placed k) : k.InIrq a.frame ∧ k.InIrq (a.frame + 4) := by
  obtain ⟨hframe, hframe4⟩ := h.frame
  obtain ⟨hlo, hhi, -⟩ := h
  unfold Linker.InIrq
  omega

/-- A frame in an outer place is not touched by the saves of a new activation. -/
theorem saveFrame_saves {c : Loc} (ha : a.Placed k) (hb : b.Placed k)
    (hlt : a.spIrq.toNat + 8 ≤ b.spIrq.toNat) (hc : b.saves c = true) : saveFrame a m c = m c := by
  obtain ⟨ha0, ha4⟩ := ha.frame
  obtain ⟨hb0, hb4⟩ := hb.frame
  have hword : a.word.toNat ≠ b.frame.toNat ∧ a.word.toNat ≠ (b.frame + 4).toNat := by
    constructor <;> intro h
    · exact ha.2.2 (BitVec.eq_of_toNat_eq h ▸ hb.inIrq.1)
    · exact ha.2.2 (BitVec.eq_of_toNat_eq h ▸ hb.inIrq.2)
  have hcell : ∃ i : ℕ, c = .word i ∧ i ≠ a.word.toNat ∧ i ≠ a.frame.toNat ∧ i ≠ (a.frame + 4).toNat := by
    rcases (Bool.or_eq_true _ _).mp hc with h | h
    · exact ⟨_, beq_iff_eq.mp h, hword.1.symm, by omega, by omega⟩
    · exact ⟨_, beq_iff_eq.mp h, hword.2.symm, by omega, by omega⟩
  obtain ⟨i, rfl, hne, hne0, hne4⟩ := hcell
  unfold saveFrame
  rw [Function.update_of_ne (by simpa using hne), Function.update_of_ne (by simpa using hne0),
    Function.update_of_ne (by simpa using hne4)]

/-- **What `IRQ_Handler` saves** is on the IRQ stack. -/
theorem saveFrame_saved (ha : a.Placed k) : saveFrame a m (.word a.frame.toNat) = a.cpsr ∧
    saveFrame a m (.word (a.frame + 4).toNat) = a.pc := by
  obtain ⟨ha0, ha4⟩ := ha.frame
  have hword : a.frame.toNat ≠ a.word.toNat ∧ (a.frame + 4).toNat ≠ a.word.toNat := by
    constructor <;> intro h
    · exact ha.2.2 (BitVec.eq_of_toNat_eq h ▸ ha.inIrq.1)
    · exact ha.2.2 (BitVec.eq_of_toNat_eq h ▸ ha.inIrq.2)
  have hne : (a.frame + 4).toNat ≠ a.frame.toNat := by omega
  unfold saveFrame
  refine ⟨?_, ?_⟩
  · rw [Function.update_of_ne (by simpa using hword.1), Function.update_self]
  · rw [Function.update_of_ne (by simpa using hword.2), Function.update_of_ne (by simpa using hne),
      Function.update_self]

/-- A new frame. -/
theorem Framed.enter (h : Framed k m as) (ha : a.Placed k) (he : Entering p as a) :
    Framed k (remain a (saveFrame a m)) (a :: as) := by
  have hbelow : ∀ b ∈ as, a.spIrq.toNat + 8 ≤ b.spIrq.toNat := by
    intro c hc
    cases as with
    | nil => cases hc
    | cons b bs =>
      have hframe := (h.placed b List.mem_cons_self).frame.1
      rw [(he.nested b bs rfl).2]
      rcases List.mem_cons.mp hc with rfl | hc
      · exact Nat.le_of_eq hframe
      · have := h.2.2.1 c hc
        omega
  have hword : ∀ i, remain a (saveFrame a m) (.word i) = saveFrame a m (.word i) := fun i =>
    remain_of_ne (by simp)
  refine ⟨?_, ha, hbelow, h.congr fun b hb c hc => ?_⟩
  · rw [hword, hword]
    exact saveFrame_saved ha
  · have hcell : c ≠ .sram .currentInterruptPointer := by
      rintro rfl
      simp [Activation.saves] at hc
    rw [remain_of_ne hcell]
    exact saveFrame_saves ha (h.placed b hb) (hbelow b hb) hc

/-- **The return states stay as they are saved**, as long as no other code stores to them. -/
theorem Framed.move (h : Framed p.linker s.mem s.active) (hk : Kept p s mv)
    (hs : BlackBox.move p s mv = some s') : Framed p.linker s'.mem s'.active := by
  cases moved hs with
  | calibrate =>
    refine h.congr fun b _ c hc => calibrate_keeps _ _ ?_
    obtain ⟨i, rfl⟩ := word_of_saves hc
    rfl
  | store =>
    refine h.congr fun b hb d hd => Function.update_of_ne ?_ _ _
    rintro rfl
    have := List.all_eq_true.mp hk b hb
    rw [hd] at this
    cases this
  | enter he => exact h.enter hk he
  | leave ha =>
    rw [ha] at h
    refine h.2.2.2.congr fun b _ c hc => ?_
    obtain ⟨i, rfl⟩ := word_of_saves hc
    exact (guard_word i).trans (release_of_ne (by simp))

theorem framed_of_run (h₀ : Starts s₀) (hrun : Run (guarded (ofNext (BlackBox.move p)) (Kept p)) s₀ mvs s) :
    Framed p.linker s.mem s.active := by
  have hstart : Framed p.linker s₀.mem s₀.active := by
    rw [h₀.active]
    trivial
  exact hrun.inv (I := fun s => Framed p.linker s.mem s.active) hstart fun h hs => h.move hs.1 hs.2

/-! ## The last eight interrupts -/

/-- What the report shows behind a Data Abort: the records of the last calls of the guard, in the
order in which they were completed, behind zero rows where there were less than eight. `saved`: a
record has the return state that its own activation has saved. -/
structure RingPrinted (p : Setup) (s₀ : Sys) (mvs : List Move) (s : Sys) (r : Regs) : Prop where
  logged : s.rows.length = mvs.countP Move.isLeave
  report : ringReport ((abortHandler p.linker r).exec s.mem).2 =
    some (ringLines s.rows.length (lastEight s.rows))
  saved : Run (guarded (ofNext (move p)) (Kept p)) s₀ mvs s →
    ∀ a ∈ s.active, s.mem (.word a.frame.toNat) = a.cpsr ∧ s.mem (.word (a.frame + 4).toNat) = a.pc

/-- **The report of the last eight interrupts**, in every run. -/
theorem ring_printed (h₀ : Starts s₀) (hrun : Run (guarded (ofNext (move p)) (InStack p)) s₀ mvs s)
    (r : Regs) :
    RingPrinted p s₀ mvs s r := by
  obtain ⟨h, hr⟩ := ringed_of_run h₀ hrun
  exact ⟨length_rows h₀ hrun, ringReport_abort h hr r, fun hkept => (framed_of_run h₀ hkept).saved⟩

/-! ### A tick, and a doorbell in the next one -/

/-- The steps with `sp_irq` in the IRQ stack. -/
def stackedMove (p : Setup) (s : Sys) (mv : Move) : Option Sys := if InStack p s mv then move p s mv else none

/-- The registers at the time of the abort. -/
def abortRegs : Regs := ⟨0x10ff0, 0x12000, 8, 0xffff0000, 0, 0, 0x300⟩

def damagedRows : List Row :=
  [⟨53, tick.word - 0x40, 0, tick.word - 0x40, 0, tick.frame, 0x1f, 0x9000⟩,
    ⟨346, doorbell.word - 0x40, 1, doorbell.word, 122, doorbell.frame, 0x13, 0xa200⟩,
    ⟨53, tick.word - 0x40, 0, tick.word, 4, tick.frame, 0x1f, 0x9000⟩]

theorem rows_damagedRun : (Transition.exec (stackedMove sampleSetup) bootedSys damagedRun).map Sys.rows =
    some damagedRows := by
  decide +kernel

theorem ring_printed_damagedRun :
    ∃ s, Transition.exec (stackedMove sampleSetup) bootedSys damagedRun = some s ∧
    ringReport ((abortHandler bench abortRegs).exec s.mem).2 =
      some (ringLines 3 (lastEight damagedRows)) := by
  obtain ⟨s, hexec, hs⟩ := Option.map_eq_some_iff.mp rows_damagedRun
  have hreport := (ring_printed starts_booted (run_of_exec_guarded hexec) abortRegs).report
  rw [hs] at hreport
  exact ⟨s, hexec, hreport⟩

/-! ### Before the offset is captured -/

/-- The record with the alignment word that the activation has pushed, whether its address is known
or not. -/
def pushedRow (p : Setup) (a : Activation) (below : List Activation) (m : Mem) : Row :=
  { rowFor p a below m with addr := a.word, val := m (.word a.word.toNat) }

/-- The first tick is being handled. -/
def ticked : Sys := ⟨remain tick (saveFrame tick booted), [tick], [], []⟩

theorem stacked_ticked : guarded (ofNext (move sampleSetup)) (InStack sampleSetup) ticked .leave
    (ticked.leave sampleSetup tick []) := ⟨trivial, rfl⟩

/-- Before that the report shows the guard's own `sp` for the address of the word. -/
theorem not_pushed : ¬ ∀ (p : Setup) (s₀ s s' : Sys) (mvs : List Move) (a : Activation)
    (below : List Activation) (r : Regs), Starts s₀ →
    Run (guarded (ofNext (move p)) (InStack p)) s₀ mvs s → s.active = a :: below → move p s .leave = some s' →
    ∃ lines, ringReport ((abortHandler p.linker r).exec s'.mem).2 =
      some (lines ++ [(pushedRow p a below s.mem).line (s.rows.length % 8) true]) := by
  intro h
  have hexec : Transition.exec (stackedMove sampleSetup) bootedSys [.enter tick] = some ticked := rfl
  have hrun := run_of_exec_guarded hexec
  obtain ⟨lines, hlines⟩ := h sampleSetup bootedSys _ _ _ tick [] abortRegs starts_booted hrun rfl rfl
  obtain ⟨hi, hr⟩ := ringed_of_run starts_booted (hrun.snoc stacked_ticked)
  have hlines := (ringReport_abort hi hr abortRegs).symm.trans hlines
  have hlast := congrArg List.getLast? (Option.some.inj hlines)
  rw [List.getLast?_concat] at hlast
  have haddr := congrArg (Option.map RingLine.addr) hlast
  revert haddr
  decide +kernel

end CR8Devkit.BlackBox
