import CR8Devkit.BlackBox.Probe
import CR8Devkit.Lib.RingLog

/-!
# One call of `r8_irq_guard`

* `record`: what the guard stores before its check; `exec_r8IrqGuard`: the call is `record`, then
  the check.
* `Row`: one slot of the three ring arrays; `guard_rows`: the slot that a call writes.
* `Checks`, `exec_checkWord`: which call checks which word; `irqBad_noteDamage`, `Counted`: what it
  leaves in the box.
-/

namespace CR8Devkit.BlackBox

open Access Access.Prog RingLog

/-! ## The two parts of a call -/

/-- What the guard stores before its check. -/
def record (k : Linker) (g : Guard) : Code Unit := do
  let last ← get (.sram .irqLast)
  set (.sram .irqPrev) last
  set (.sram .irqLast) g.icciar
  let n ← get (.sram .irqCount)
  set (.sram .irqCount) (n + 1)
  noteSpMin g.sp
  noteSpMax g.sp
  noteRing k g

/-- The variables that are stored to. -/
def Sram.recorded (v : Sram) : Bool :=
  v == .irqLast || v == .irqPrev || v == .irqCount || v == .spMin || v == .spMax || v.inRing

variable {k : Linker} {g : Guard} {m m' : Mem}

theorem exec_r8IrqGuard (k : Linker) (g : Guard) (m : Mem) : ((r8IrqGuard k g).exec m).2 =
    if m (.sram .wordAddr) = 0 then ((record k g).exec m).2
    else ((guardCheck (m (.sram .wordAddr)) g).exec ((record k g).exec m).2).2 := by
  unfold r8IrqGuard record
  simp only [get_bind, set_bind, exec, exec_bind]
  split_ifs <;> rfl

/-! ## The record -/

section Record

theorem recorded_of_inRing {v : Sram} (h : v.inRing = true) : v.recorded = true := by
  simp [Sram.recorded, h]

theorem storesIn_record : (record k g).StoresIn fun a => ∃ v : Sram, v.recorded = true ∧ a = .sram v :=
  storesIn_get_bind fun _ => storesIn_set_bind ⟨_, rfl, rfl⟩ <| storesIn_set_bind ⟨_, rfl, rfl⟩ <|
    storesIn_get_bind fun _ => storesIn_set_bind ⟨_, rfl, rfl⟩ <|
    (storesIn_noteSpMin ⟨_, rfl, rfl⟩ _).bind fun _ => (storesIn_noteSpMax ⟨_, rfl, rfl⟩ _).bind fun _ =>
    storesIn_noteRing k g fun v hv => ⟨v, recorded_of_inRing hv, rfl⟩

/-- The record leaves everything else alone. -/
theorem record_keeps {a : Loc} (ha : ∀ v : Sram, v.recorded = true → a ≠ .sram v) :
    ((record k g).exec m).2 a = m a :=
  exec_frame storesIn_record fun ⟨v, hv, hav⟩ => ha v hv hav

theorem record_bb (f : Field) : ((record k g).exec m).2 (.bb f) = m (.bb f) :=
  record_keeps fun _ _ => by simp

theorem record_word (a : ℕ) : ((record k g).exec m).2 (.word a) = m (.word a) :=
  record_keeps fun _ _ => by simp

theorem record_sram {v : Sram} (hv : v.recorded = false) :
    ((record k g).exec m).2 (.sram v) = m (.sram v) := by
  refine record_keeps fun w hw h => ?_
  rw [Loc.sram.inj h, hw] at hv
  cases hv

/-- **The last two interrupts**: this one, and the one whose guard ran before it. -/
theorem record_last : ((record k g).exec m).2 (.sram .irqLast) = g.icciar ∧
    ((record k g).exec m).2 (.sram .irqPrev) = m (.sram .irqLast) := by
  have hrest : ∀ m : Mem, ∀ v : Sram, v = .irqLast ∨ v = .irqPrev →
      ((do noteSpMin g.sp
           noteSpMax g.sp
           noteRing k g : Code Unit).exec m).2 (.sram v) = m (.sram v) := by
    intro m v hv
    refine exec_frame (P := fun a => ∃ w : Sram, a = .sram w ∧ w ≠ .irqLast ∧ w ≠ .irqPrev) ?_ ?_
    · refine (storesIn_noteSpMin ⟨_, rfl, by decide⟩ _).bind fun _ =>
        (storesIn_noteSpMax ⟨_, rfl, by decide⟩ _).bind fun _ => storesIn_noteRing k g fun w hw => ?_
      refine ⟨w, rfl, ?_⟩
      constructor <;> rintro rfl <;> cases hw
    · rintro ⟨w, hw, hlast, hprev⟩
      obtain rfl := Loc.sram.inj hw
      exact hv.elim hlast hprev
  unfold record
  simp only [get_bind, set_bind, exec]
  refine ⟨(hrest _ _ (.inl rfl)).trans ?_, (hrest _ _ (.inr rfl)).trans ?_⟩ <;> simp

/-! ### The ring -/

/-- One slot of `g_r8_ring`, `g_r8_rw` and `g_r8_ri`. -/
structure Row where
  icciar : Word
  sp : Word
  depth : Word
  addr : Word
  val : Word
  spIrq : Word
  spsr : Word
  ret : Word
  deriving DecidableEq

def Row.zero : Row := ⟨0, 0, 0, 0, 0, 0, 0, 0⟩

def rowAt (m : Mem) (i : Fin 8) : Row where
  icciar := m (.sram (.ring i 0))
  sp := m (.sram (.ring i 1))
  depth := m (.sram (.ring i 2))
  addr := m (.sram (.rw i 0))
  val := m (.sram (.rw i 1))
  spIrq := m (.sram (.ri i 0))
  spsr := m (.sram (.ri i 1))
  ret := m (.sram (.ri i 2))

/-- The pointer lies in the IRQ stack. -/
def Linker.InIrq (k : Linker) (sp : Word) : Prop :=
  k.irqBase ≤ sp.toNat ∧ sp.toNat < k.irqBase + 4 * k.irqWords

instance (k : Linker) (sp : Word) : Decidable (k.InIrq sp) := inferInstanceAs (Decidable (_ ∧ _))

/-- What a call writes into its slot, with `sp_irq` in the IRQ stack. -/
def rowOf (g : Guard) (m : Mem) : Row where
  icciar := g.icciar
  sp := g.sp
  depth := m (.sram .currentInterruptPointer)
  addr := g.sp + m (.sram .wordOff)
  val := if m (.sram .wordOff) ≠ 0 then m (.word (g.sp + m (.sram .wordOff)).toNat) else 0
  spIrq := g.spIrq
  spsr := m (.word g.spIrq.toNat)
  ret := m (.word (g.spIrq + 4).toNat)

/-- The slot that the next call writes. -/
def slotOf (m : Mem) : Fin 8 := slot 8 (m (.sram .ringIdx)).toNat

def putRow (m : Mem) (i : Fin 8) (r : Row) : Mem :=
  Function.update (Function.update (Function.update (Function.update (Function.update (Function.update
    (Function.update (Function.update m (.sram (.ring i 0)) r.icciar) (.sram (.ring i 1)) r.sp)
    (.sram (.ring i 2)) r.depth) (.sram (.rw i 0)) r.addr) (.sram (.rw i 1)) r.val)
    (.sram (.ri i 0)) r.spIrq) (.sram (.ri i 1)) r.spsr) (.sram (.ri i 2)) r.ret

theorem rowAt_putRow (m : Mem) (i : Fin 8) (r : Row) : rowAt (putRow m i r) i = r := by
  simp [rowAt, putRow]

theorem rowAt_putRow_of_ne {i j : Fin 8} (h : j ≠ i) (r : Row) : rowAt (putRow m i r) j = rowAt m j := by
  simp [rowAt, putRow, h]

theorem exec_wordAt (a : Word) (m : Mem) : (wordAt a).exec m =
    (if m (.sram .wordOff) ≠ 0 then m (.word a.toNat) else 0, m) := by
  unfold wordAt
  simp only [get_bind, exec]
  split_ifs <;> rfl

theorem exec_noteReturn {si : Word} (h : k.InIrq si) (i : Fin 8) (m : Mem) :
    ((noteReturn k i si).exec m).2 = Function.update (Function.update (Function.update m (.sram (.ri i 0)) si)
      (.sram (.ri i 1)) (m (.word si.toNat))) (.sram (.ri i 2)) (m (.word (si + 4).toNat)) := by
  have hin : k.irqBase ≤ si.toNat ∧ si.toNat < k.irqBase + 4 * k.irqWords := h
  simp [noteReturn, hin, exec, Prog.get, Prog.set]

/-- **The ring**: one row, and the index behind it. -/
theorem exec_noteRing (h : k.InIrq g.spIrq) : ((noteRing k g).exec m).2 =
    Function.update (putRow m (slotOf m) (rowOf g m)) (.sram .ringIdx)
      (BitVec.ofNat 32 ((m (.sram .ringIdx)).toNat % 8) + 1) := by
  have hslot : Fin.ofNat 8 (m (.sram .ringIdx)).toNat = slotOf m := rfl
  unfold noteRing
  simp only [get_bind, set_bind, exec, exec_bind, exec_wordAt, exec_noteReturn h, hslot]
  simp [exec, Prog.set, putRow, rowOf]

/-- In front of the ring the record stores to none of the cells that `rowAt`, `rowOf` and `slotOf`
read. -/
theorem record_ring (k : Linker) (g : Guard) (m : Mem) : ∃ m₁,
    ((record k g).exec m).2 = ((noteRing k g).exec m₁).2 ∧ (∀ i, rowAt m₁ i = rowAt m i) ∧
      rowOf g m₁ = rowOf g m ∧ slotOf m₁ = slotOf m ∧ m₁ (.sram .ringIdx) = m (.sram .ringIdx) := by
  have hhead : (do let last ← get (.sram .irqLast)
                   set (.sram .irqPrev) last
                   set (.sram .irqLast) g.icciar
                   let n ← get (.sram .irqCount)
                   set (.sram .irqCount) (n + 1)
                   noteSpMin g.sp
                   noteSpMax g.sp : Code Unit).StoresIn fun a =>
      ∃ v : Sram, v.recorded = true ∧ v.inRing = false ∧ a = .sram v :=
    storesIn_get_bind fun _ => storesIn_set_bind ⟨_, rfl, rfl, rfl⟩ <|
      storesIn_set_bind ⟨_, rfl, rfl, rfl⟩ <| storesIn_get_bind fun _ =>
      storesIn_set_bind ⟨_, rfl, rfl, rfl⟩ <| (storesIn_noteSpMin ⟨_, rfl, rfl, rfl⟩ _).bind fun _ =>
      storesIn_noteSpMax ⟨_, rfl, rfl, rfl⟩ _
  have hring : ∀ v : Sram, v.inRing = true → ((_ : Code Unit).exec m).2 (.sram v) = m (.sram v) :=
    fun v hv => exec_frame hhead fun ⟨w, _, hw, h⟩ => by
      rw [← Loc.sram.inj h, hv] at hw
      cases hw
  have hother : ∀ a : Loc, (∀ v : Sram, v.recorded = true → a ≠ .sram v) →
      ((_ : Code Unit).exec m).2 a = m a :=
    fun a ha => exec_frame hhead fun ⟨v, hv, _, h⟩ => ha v hv h
  refine ⟨_, ?_, fun i => ?_, ?_, ?_, hring _ rfl⟩
  · unfold record
    simp only [get_bind, set_bind, exec, exec_bind]
  · unfold rowAt
    simp only [hring (.ring i _) rfl, hring (.rw i _) rfl, hring (.ri i _) rfl]
  · unfold rowOf
    rw [hother (.sram .currentInterruptPointer) (by rintro v hv ⟨⟩; cases hv),
      hother (.sram .wordOff) (by rintro v hv ⟨⟩; cases hv), hother (.word _) (by simp),
      hother (.word _) (by simp), hother (.word _) (by simp)]
  · unfold slotOf
    rw [hring _ rfl]

end Record

/-! ## The check -/

section Check

/-- What the box says about the first damaged alignment word. -/
structure Damage where
  icciar : Word
  got : Word
  sp : Word
  depth : Word
  prev : Word
  deriving DecidableEq

def damageAt (m : Mem) : Damage where
  icciar := m (.bb .irqCulprit)
  got := m (.bb .irqWordGot)
  sp := m (.bb .irqSp)
  depth := m (.bb .irqDepth)
  prev := m (.bb .irqPrev)

def damageOf (g : Guard) (got : Word) (m : Mem) : Damage where
  icciar := g.icciar
  got := got
  sp := g.sp
  depth := m (.sram .currentInterruptPointer)
  prev := m (.sram .irqPrev)

variable {got : Word}

/-- A later damage is only counted. -/
theorem exec_noteDamage (hr : Ready m) (h : m (.bb .irqSeen) ≠ 0) :
    ((noteDamage g got).exec m).2 = Function.update m (.bb .irqBad) (m (.bb .irqBad) + 1) := by
  have hmagic : m (.bb .magic) = r8BbMagic := hr
  have hseen : ¬ m (.bb .irqSeen) = 0#32 := h
  simp [noteDamage, r8BbInc, exec, Prog.get, Prog.set, hmagic, hseen]

/-- The first one is described. -/
theorem noteDamage_first (hr : Ready m) (h : m (.bb .irqSeen) = 0) :
    damageAt ((noteDamage g got).exec m).2 = damageOf g got m ∧
      ((noteDamage g got).exec m).2 (.bb .irqSeen) = 1 := by
  have hmagic : m (.bb .magic) = r8BbMagic := hr
  simp [noteDamage, r8BbInc, r8BbSet, exec, Prog.get, Prog.set, hmagic, h, damageAt, damageOf]

theorem irqBad_noteDamage (hr : Ready m) :
    ((noteDamage g got).exec m).2 (.bb .irqBad) = m (.bb .irqBad) + 1 := by
  have hmagic : m (.bb .magic) = r8BbMagic := hr
  by_cases hseen : m (.bb .irqSeen) = 0
  · simp [noteDamage, r8BbInc, r8BbSet, exec, Prog.get, Prog.set, hmagic, hseen]
  · rw [exec_noteDamage hr hseen, Function.update_self]

/-! ### Which call checks which word -/

theorem guardCheck_skips (addr : Word) (hoff : m (.sram .wordOff) = 0)
    (hdepth : m (.sram .currentInterruptPointer) ≠ 0) : ((guardCheck addr g).exec m).2 =
      Function.update m (.sram .nestSkip) (m (.sram .nestSkip) + 1) := by
  have hdepth' : ¬ m (.sram .currentInterruptPointer) = 0#32 := hdepth
  simp [guardCheck, exec, Prog.get, Prog.set, hoff, hdepth']

/-- The offset is captured where no interrupt is nested. -/
theorem guardCheck_captures (addr : Word) (hoff : m (.sram .wordOff) = 0)
    (hdepth : m (.sram .currentInterruptPointer) = 0) : ((guardCheck addr g).exec m).2 =
      ((checkWord g).exec (Function.update m (.sram .wordOff) (addr - g.sp))).2 := by
  simp [guardCheck, exec, Prog.get, Prog.set, hoff, hdepth]

theorem guardCheck_checks (addr : Word) (hoff : m (.sram .wordOff) ≠ 0) :
    (guardCheck addr g).exec m = (checkWord g).exec m := by
  have hoff' : ¬ m (.sram .wordOff) = 0#32 := hoff
  simp [guardCheck, exec, hoff']

def Intact (w : Word) : Prop := w = 0 ∨ w = 4

instance (w : Word) : Decidable (Intact w) := inferInstanceAs (Decidable (_ ∨ _))

theorem exec_checkWord {a w : Word} (ha : g.sp + m (.sram .wordOff) = a) (hw : m (.word a.toNat) = w) :
    ((checkWord g).exec m).2 = if Intact w then m else ((noteDamage g w).exec m).2 := by
  subst ha hw
  refine (apply_ite (fun p : Code Unit => (p.exec m).2) _ _ _).trans ?_
  rfl

/-! ### The count and the first damage -/

/-- The box counts the damaged words `ds` and describes the first of them. -/
structure Counted (m : Mem) (ds : List Damage) : Prop where
  ready : Ready m
  count : m (.bb .irqBad) = BitVec.ofNat 32 ds.length
  seen : m (.bb .irqSeen) = 0 ↔ ds = []
  first : ∀ d, ds.head? = some d → damageAt m = d

variable {ds : List Damage}

/-- The fields that `Counted` is about. -/
def Field.tells : Field → Bool
  | .magic | .irqBad | .irqSeen | .irqCulprit | .irqWordGot | .irqSp | .irqDepth | .irqPrev => true
  | _ => false

theorem Counted.congr (h : Counted m ds) (hm : ∀ f : Field, f.tells = true → m' (.bb f) = m (.bb f)) :
    Counted m' ds := by
  have hdamage : damageAt m' = damageAt m := by
    unfold damageAt
    rw [hm .irqCulprit rfl, hm .irqWordGot rfl, hm .irqSp rfl, hm .irqDepth rfl, hm .irqPrev rfl]
  refine ⟨?_, ?_, ?_, fun d hd => hdamage.trans (h.first d hd)⟩
  · exact (hm .magic rfl).trans h.ready
  · rw [hm .irqBad rfl, h.count]
  · rw [hm .irqSeen rfl, h.seen]

theorem ready_noteDamage (hr : Ready m) : Ready ((noteDamage g got).exec m).2 := by
  refine (exec_frame (P := fun a => ∃ f : Field, f.noted = true ∧ a = .bb f)
    (storesIn_noteDamage g (fun f hf => ⟨f, hf, rfl⟩) got) ?_).trans hr
  rintro ⟨f, hf, h⟩
  rw [← Loc.bb.inj h] at hf
  cases hf

/-- **One more damage.** -/
theorem Counted.noteDamage (h : Counted m ds) :
    Counted ((noteDamage g got).exec m).2 (ds ++ [damageOf g got m]) := by
  have hcount : m (.bb .irqBad) + 1 = BitVec.ofNat 32 (ds ++ [damageOf g got m]).length := by
    rw [h.count, List.length_append]
    exact (BitVec.ofNat_add _ 1).symm
  have hne : ds ++ [damageOf g got m] ≠ [] := by simp
  by_cases hseen : m (.bb .irqSeen) = 0
  · obtain ⟨hdamage, hone⟩ : damageAt ((BlackBox.noteDamage g got).exec m).2 = damageOf g got m ∧ _ :=
      noteDamage_first h.ready hseen
    obtain rfl := h.seen.mp hseen
    refine ⟨ready_noteDamage h.ready, (irqBad_noteDamage h.ready).trans hcount, ?_, fun d hd => ?_⟩
    · rw [hone]
      exact iff_of_false (by decide) hne
    · obtain rfl : damageOf g got m = d := Option.some.inj hd
      exact hdamage
  · have hds : ds ≠ [] := fun h0 => hseen (h.seen.mpr h0)
    have hkeep : ∀ f : Field, f ≠ .irqBad →
        ((BlackBox.noteDamage g got).exec m).2 (.bb f) = m (.bb f) := fun f hf => by
      rw [exec_noteDamage h.ready hseen, Function.update_of_ne (by simpa using hf)]
    have hdamage : damageAt ((BlackBox.noteDamage g got).exec m).2 = damageAt m := by
      simp [damageAt, hkeep]
    refine ⟨ready_noteDamage h.ready, (irqBad_noteDamage h.ready).trans hcount, ?_, fun d hd => ?_⟩
    · rw [hkeep _ (by decide)]
      exact iff_of_false hseen hne
    · rw [List.head?_append_of_ne_nil _ hds] at hd
      exact hdamage.trans (h.first d hd)

end Check

/-! ## A whole call -/

section Call

variable {ds : List Damage} {a w : Word}

/-- The check changes nothing that is recorded. -/
theorem guard_eq_record {c : Loc} (hbb : ∀ f : Field, f.noted = true → c ≠ .bb f)
    (hskip : c ≠ .sram .nestSkip) (hoff : c ≠ .sram .wordOff) :
    ((r8IrqGuard k g).exec m).2 c = ((record k g).exec m).2 c := by
  rw [exec_r8IrqGuard]
  split_ifs
  · rfl
  · refine exec_frame (P := fun c => (∃ f : Field, f.noted = true ∧ c = .bb f) ∨ c = .sram .nestSkip ∨
      c = .sram .wordOff) (storesIn_guardCheck g (fun f hf => .inl ⟨f, hf, rfl⟩) (.inr (.inl rfl))
        (.inr (.inr rfl)) _) ?_
    rintro (⟨f, hf, h⟩ | h | h)
    · exact hbb f hf h
    · exact hskip h
    · exact hoff h

theorem guard_sram {v : Sram} (hv : v.recorded = false) (hskip : v ≠ .nestSkip) (hoff : v ≠ .wordOff) :
    ((r8IrqGuard k g).exec m).2 (.sram v) = m (.sram v) := by
  rw [guard_eq_record (fun _ _ => by simp) (by simpa using hskip) (by simpa using hoff), record_sram hv]

theorem guard_word (i : ℕ) : ((r8IrqGuard k g).exec m).2 (.word i) = m (.word i) := by
  rw [guard_eq_record (fun _ _ => by simp) (by simp) (by simp), record_word]

theorem guard_last : ((r8IrqGuard k g).exec m).2 (.sram .irqLast) = g.icciar := by
  rw [guard_eq_record (fun _ _ => by simp) (by simp) (by simp), record_last.1]

/-- **The slot** that a call writes, and the index behind it. -/
theorem guard_rows (h : k.InIrq g.spIrq) :
    rowAt ((r8IrqGuard k g).exec m).2 (slotOf m) = rowOf g m ∧
      (∀ i, i ≠ slotOf m → rowAt ((r8IrqGuard k g).exec m).2 i = rowAt m i) ∧
      ((r8IrqGuard k g).exec m).2 (.sram .ringIdx) =
        BitVec.ofNat 32 ((m (.sram .ringIdx)).toNat % 8) + 1 := by
  have hcell : ∀ v : Sram, v.inRing = true →
      ((r8IrqGuard k g).exec m).2 (.sram v) = ((record k g).exec m).2 (.sram v) := fun v hv =>
    guard_eq_record (fun _ _ => by simp) (by rintro ⟨⟩; cases hv) (by rintro ⟨⟩; cases hv)
  have hrow : ∀ i, rowAt ((r8IrqGuard k g).exec m).2 i = rowAt ((record k g).exec m).2 i := fun i => by
    unfold rowAt
    simp only [hcell (.ring i _) rfl, hcell (.rw i _) rfl, hcell (.ri i _) rfl]
  obtain ⟨m₁, hm₁, hrows, hof, hslot, hidx⟩ := record_ring k g m
  have hupdate : ∀ (m : Mem) (x : Word) (i : Fin 8),
      rowAt (Function.update m (.sram .ringIdx) x) i = rowAt m i := fun m x i => by simp [rowAt]
  rw [hcell _ rfl, hm₁, exec_noteRing h, hslot, hof, hidx]
  refine ⟨?_, fun i hi => ?_, Function.update_self _ _ _⟩
  · rw [hrow, hm₁, exec_noteRing h, hslot, hof, hupdate, rowAt_putRow]
  · rw [hrow, hm₁, exec_noteRing h, hslot, hof, hupdate, rowAt_putRow_of_ne hi, hrows]

/-- The call checks the word at `w`. -/
def Checks (g : Guard) (m : Mem) (w : Word) : Prop :=
  m (.sram .wordAddr) ≠ 0 ∧
    if m (.sram .wordOff) = 0 then m (.sram .currentInterruptPointer) = 0 ∧ m (.sram .wordAddr) = w
    else g.sp + m (.sram .wordOff) = w

/-- It checks none: the address is not calibrated, or the offset not captured and the interrupt
nested. -/
def Skips (m : Mem) : Prop :=
  m (.sram .wordAddr) = 0 ∨ m (.sram .wordOff) = 0 ∧ m (.sram .currentInterruptPointer) ≠ 0

theorem Counted.record (h : Counted m ds) : Counted ((BlackBox.record k g).exec m).2 ds :=
  h.congr fun f _ => record_bb f

theorem counted_skips (h : Counted m ds) (hs : Skips m) : Counted ((r8IrqGuard k g).exec m).2 ds := by
  rw [exec_r8IrqGuard]
  by_cases haddr : m (.sram .wordAddr) = 0
  · rw [if_pos haddr]
    exact h.record
  · obtain ⟨hoff, hdepth⟩ := hs.resolve_left haddr
    rw [if_neg haddr, guardCheck_skips]
    · exact h.record.congr fun f _ => Function.update_of_ne (by simp) _ _
    · rw [record_sram rfl, hoff]
    · rwa [record_sram rfl]

/-- **A call counts the word that it checks**, unless it is 0 or 4. -/
theorem counted_checks (h : Counted m ds) (hc : Checks g m w) :
    Counted ((r8IrqGuard k g).exec m).2 (if Intact (m (.word w.toNat)) then ds else ds ++
      [⟨g.icciar, m (.word w.toNat), g.sp, m (.sram .currentInterruptPointer), m (.sram .irqLast)⟩]) := by
  obtain ⟨haddr, hw⟩ := hc
  -- the memory in which the offset is there
  obtain ⟨m₂, hexec, hsum, hword, hbox, hptr, hprev⟩ : ∃ m₂ : Mem,
      ((r8IrqGuard k g).exec m).2 = ((checkWord g).exec m₂).2 ∧ g.sp + m₂ (.sram .wordOff) = w ∧
        m₂ (.word w.toNat) = m (.word w.toNat) ∧ Counted m₂ ds ∧
        m₂ (.sram .currentInterruptPointer) = m (.sram .currentInterruptPointer) ∧
        m₂ (.sram .irqPrev) = m (.sram .irqLast) := by
    rw [exec_r8IrqGuard, if_neg haddr]
    by_cases hoff : m (.sram .wordOff) = 0
    · rw [if_pos hoff] at hw
      obtain ⟨hdepth, rfl⟩ := hw
      refine ⟨_, guardCheck_captures _ (by rw [record_sram rfl, hoff]) (by rw [record_sram rfl, hdepth]),
        ?_, ?_, ?_, ?_, ?_⟩
      · rw [Function.update_self, BitVec.add_comm, BitVec.sub_add_cancel]
      · rw [Function.update_of_ne (by simp), record_word]
      · exact h.record.congr fun f _ => Function.update_of_ne (by simp) _ _
      · rw [Function.update_of_ne (by simp), record_sram rfl]
      · rw [Function.update_of_ne (by simp), record_last.2]
    · rw [if_neg hoff] at hw
      refine ⟨_, congrArg Prod.snd (guardCheck_checks _ (by rwa [record_sram rfl])), ?_, record_word _,
        h.record, record_sram rfl, record_last.2⟩
      rw [record_sram rfl, hw]
  rw [hexec, exec_checkWord hsum hword]
  split_ifs
  · exact hbox
  · have hdamage : damageOf g (m (.word w.toNat)) m₂ =
        ⟨g.icciar, m (.word w.toNat), g.sp, m (.sram .currentInterruptPointer), m (.sram .irqLast)⟩ := by
      rw [damageOf, hptr, hprev]
    rw [← hdamage]
    exact hbox.noteDamage

/-- The offset behind a call. -/
theorem guard_wordOff : ((r8IrqGuard k g).exec m).2 (.sram .wordOff) =
    if m (.sram .wordAddr) ≠ 0 ∧ m (.sram .wordOff) = 0 ∧ m (.sram .currentInterruptPointer) = 0 then
      m (.sram .wordAddr) - g.sp
    else m (.sram .wordOff) := by
  have hcheck : ∀ m : Mem, ((checkWord g).exec m).2 (.sram .wordOff) = m (.sram .wordOff) := fun m => by
    refine exec_frame (P := fun c => ∃ f : Field, c = .bb f) ?_ (by simp)
    exact storesIn_get_bind fun _ => storesIn_get_bind fun _ => storesIn_ite (fun _ => trivial) fun _ =>
      storesIn_noteDamage g (fun f _ => ⟨f, rfl⟩) _
  rw [exec_r8IrqGuard]
  by_cases haddr : m (.sram .wordAddr) = 0
  · rw [if_pos haddr, if_neg (by tauto), record_sram rfl]
  rw [if_neg haddr]
  by_cases hoff : m (.sram .wordOff) = 0
  · by_cases hdepth : m (.sram .currentInterruptPointer) = 0
    · rw [if_pos ⟨haddr, hoff, hdepth⟩, guardCheck_captures _ (by rw [record_sram rfl, hoff])
        (by rw [record_sram rfl, hdepth]), hcheck, Function.update_self]
    · rw [if_neg (by tauto), guardCheck_skips _ (by rw [record_sram rfl, hoff])
        (by rwa [record_sram rfl]), Function.update_of_ne (by simp), record_sram rfl]
  · rw [if_neg (by tauto), guardCheck_checks _ (by rwa [record_sram rfl]), hcheck, record_sram rfl]

end Call

end CR8Devkit.BlackBox
