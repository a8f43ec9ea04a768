import CR8Devkit.Lib.Interference
import CR8Devkit.Lib.Transition
import Mathlib.Data.List.FinRange
import Mathlib.Data.BitVec

/-!
# The black box of the CM33

`cm33_blackbox.c` and the branch of `bb.py` that prints its box. The power may fail before any of
the stores, and Linux reads the box word by word while the CM33 runs.

* `Field`, `cm33BbInit`, `cm33BbPump`, `cm33BbHardfault`; `bbPy`: the reader.
* `Boot`: one boot, up to the moment at which it is cut off.
* **`boots_inv`**: over any number of boots, the box reports the last fault that was latched, and
  nothing else.
* **`report_whole`**: a reader that overlaps with the fault handler reports nothing or the whole
  fault.
-/

namespace CR8Devkit.Cm33

open Access Access.Prog Transition

abbrev Word := BitVec 32

/-! ## The box -/

/-- The words of `cm33_bb_t`, in order. -/
inductive Field
  | magic | version | bootCount | uptimeTicks | pad0 (i : Fin 12) | bootStage | faultType | cfsr | hfsr | bfar
  | mmfar | stackedPc | stackedLr | excReturn | pad1 (i : Fin 60) | tickCount
  deriving DecidableEq

namespace Field

/-- All words but the first by ascending address. -/
def rest : List Field := List.flatten [
  [.version, .bootCount, .uptimeTicks], (List.finRange 12).map pad0,
  [.bootStage, .faultType, .cfsr, .hfsr, .bfar, .mmfar, .stackedPc, .stackedLr, .excReturn],
  (List.finRange 60).map pad1, [.tickCount]]

def all : List Field := .magic :: rest

theorem mem_rest {f : Field} (h : f ≠ .magic) : f ∈ rest := by
  cases f with
  | magic => exact absurd rfl h
  | pad0 i | pad1 i => simp [rest]
  | _ => exact List.mem_of_elem_eq_true rfl

/-- The word at an offset. -/
def atOffset (off : ℕ) : Field := all.getD (off / 4) .magic

end Field

abbrev Mem := Field → Word

abbrev Code := Prog Field Word

def cm33BbMagic : Word := 0x33334242
def cm33BbVer : Word := 1

/-- The loop over the words of the box. -/
def clear : List Field → Code Unit
  | [] => pure ()
  | f :: fs => do
    Prog.set f 0
    clear fs

/-- Without the magic the whole box is cleared first. -/
def cm33BbInit : Code Unit := do
  let magic ← Prog.get .magic
  (if cm33BbMagic ≠ magic then do
      clear Field.all
      Prog.set .magic cm33BbMagic
      Prog.set .version cm33BbVer
    else pure ())
  let bootCount ← Prog.get .bootCount
  Prog.set .bootCount (bootCount + 1)
  Prog.set .faultType 0
  Prog.set .uptimeTicks 0
  Prog.set .bootStage 1

def cm33BbPump (t : Word) : Code Unit := do
  Prog.set .uptimeTicks t
  Prog.set .tickCount t

/-- `CM33_BB_STAGE`. -/
def cm33BbStage (n : Word) : Code Unit := Prog.set .bootStage n

/-- What `cm33_bb_hardfault` reads: the registers of the SCB, and the frames at `msp` and at `psp`. -/
structure Fault where
  cfsr : Word
  hfsr : Word
  mmfar : Word
  bfar : Word
  mspFrame : ℕ → Word
  pspFrame : ℕ → Word
  excReturn : Word

/-- Bit 2 of `EXC_RETURN` selects the frame. -/
def Fault.frame (F : Fault) : ℕ → Word := if F.excReturn &&& 0x4 ≠ 0 then F.pspFrame else F.mspFrame

/-- Up to its endless loop. -/
def cm33BbHardfault (F : Fault) : Code Unit := do
  Prog.set .cfsr F.cfsr
  Prog.set .hfsr F.hfsr
  Prog.set .mmfar F.mmfar
  Prog.set .bfar F.bfar
  Prog.set .stackedLr (F.frame 5)
  Prog.set .stackedPc (F.frame 6)
  Prog.set .excReturn F.excReturn
  Prog.set .faultType 3

/-! ## The reader -/

structure Record where
  type : Word
  cfsr : Word
  hfsr : Word
  bfar : Word
  mmfar : Word
  stackedPc : Word
  stackedLr : Word
  excReturn : Word
  deriving DecidableEq

/-- What `bb.py` prints of a CM33: boot count, uptime and stage, and the cause of death if there is
one. -/
inductive Report
  | other
  | cm33 (bootCount uptimeTicks bootStage : Word) (cause : Option Record)
  deriving DecidableEq

def Report.cause : Report → Option Record
  | other => none
  | cm33 _ _ _ cause => cause

def rd (off : ℕ) : Code Word := Prog.get (Field.atOffset off)

/-- The branch of `bb.py` for the magic of the CM33. -/
def bbPy : Code Report := do
  let m0 ← rd 0x00
  if m0 = 0x33334242 then do
    let bootCount ← rd 0x08
    let uptimeTicks ← rd 0x0C
    let bootStage ← rd 0x40
    let ft ← rd 0x44
    if ft ≠ 0 then do
      let cfsr ← rd 0x48
      let hfsr ← rd 0x4C
      let bfar ← rd 0x50
      let mmfar ← rd 0x54
      let stackedPc ← rd 0x58
      let stackedLr ← rd 0x5C
      let excReturn ← rd 0x60
      pure (.cm33 bootCount uptimeTicks bootStage
        (some ⟨ft, cfsr, hfsr, bfar, mmfar, stackedPc, stackedLr, excReturn⟩))
    else pure (.cm33 bootCount uptimeTicks bootStage none)
  else pure .other

/-- What there is to report of a fault. -/
def Fault.record (F : Fault) : Record :=
  ⟨3, F.cfsr, F.hfsr, F.bfar, F.mmfar, F.frame 6, F.frame 5, F.excReturn⟩

/-! ## Boots -/

/-- The stores of the tasks: those of `cm33_bb_pump` in one task, the stages in others. -/
inductive Store
  | uptimeTicks (t : Word)
  | tickCount (t : Word)
  | bootStage (n : Word)

def Store.field : Store → Field
  | uptimeTicks _ => .uptimeTicks
  | tickCount _ => .tickCount
  | bootStage _ => .bootStage

def Store.val : Store → Word
  | uptimeTicks t | tickCount t => t
  | bootStage n => n

def stores : List Store → Code Unit
  | [] => pure ()
  | s :: l => do
    Prog.set s.field s.val
    stores l

theorem cm33BbPump_eq (t : Word) : cm33BbPump t = stores [.uptimeTicks t, .tickCount t] := rfl

theorem cm33BbStage_eq (n : Word) : cm33BbStage n = stores [.bootStage n] := rfl

/-- How a boot is cut off: within `cm33_bb_init`, behind it, in the fault handler, or in its endless
loop; or the kernel stops the core and clears its memory. -/
inductive Cut
  | init
  | up
  | dying
  | dead (F : Fault)
  | stopped

/-- One boot from memory `m` on. -/
inductive Boot (m : Mem) : Cut → Mem → Prop
  | init {m'} (h : m' ∈ cm33BbInit.states m) : Boot m .init m'
  | up (l : List Store) : Boot m .up ((stores l).exec (cm33BbInit.exec m).2).2
  | dying {m'} (l : List Store) (F : Fault)
      (h : m' ∈ (cm33BbHardfault F).moments ((stores l).exec (cm33BbInit.exec m).2).2) : Boot m .dying m'
  | dead (l : List Store) (F : Fault) :
      Boot m (.dead F) ((cm33BbHardfault F).exec ((stores l).exec (cm33BbInit.exec m).2).2).2
  | stopped : Boot m .stopped fun _ => 0

/-- The last fault that was latched. -/
def lastFault : Option Fault → Cut → Option Fault
  | _, .dead F => some F
  | d, _ => d

/-- Since the memory was last cleared: the boots that got through `cm33_bb_init`, and all of them. -/
def tally : ℕ × ℕ → Cut → ℕ × ℕ
  | (passed, begun), .init => (passed, begun + 1)
  | _, .stopped => (0, 0)
  | (passed, begun), _ => (passed + 1, begun + 1)

def Ready (m : Mem) : Prop := m .magic = cm33BbMagic

instance (m : Mem) : Decidable (Ready m) := by unfold Ready; infer_instance

/-! ## What the code leaves behind -/

section Code

variable {m m' : Mem} {l : List Store} {F : Fault}

/-- The two parts of `cm33_bb_init`. -/
def fresh : Code Unit := do
  clear Field.all
  Prog.set .magic cm33BbMagic
  Prog.set .version cm33BbVer

def begin : Code Unit := do
  let bootCount ← Prog.get .bootCount
  Prog.set .bootCount (bootCount + 1)
  Prog.set .faultType 0
  Prog.set .uptimeTicks 0
  Prog.set .bootStage 1

theorem cm33BbInit_eq : cm33BbInit = Prog.get .magic >>= fun magic =>
    (if cm33BbMagic ≠ magic then fresh else pure ()) >>= fun _ => begin := rfl

theorem storesIn_clear (fs : List Field) : (clear fs).StoresIn (· ∈ fs) := by
  induction fs with
  | nil => exact trivial
  | cons f fs ih => exact storesIn_set_bind List.mem_cons_self (ih.mono fun _ => List.mem_cons_of_mem f)

theorem exec_clear {fs : List Field} {f : Field} (h : f ∈ fs) : ((clear fs).exec m).2 f = 0 := by
  induction fs generalizing m with
  | nil => cases h
  | cons g fs ih =>
    by_cases hf : f ∈ fs
    · exact ih hf
    · obtain rfl := (List.mem_cons.mp h).resolve_right hf
      have hkeep := exec_frame (m := Function.update m f 0) (storesIn_clear fs) hf
      exact hkeep.trans (Function.update_self _ _ _)

theorem magic_notin_rest : Field.magic ∉ Field.rest := by decide

/-- While the box is cleared it has no magic, and then it is all zero. -/
theorem states_fresh (hm : ¬ Ready m) (h : m' ∈ fresh.states m) :
    ¬ Ready m' ∨ Ready m' ∧ m' .bootCount = 0 ∧ m' .faultType = 0 := by
  have hzero : ∀ m : Mem, m .magic = 0 → ¬ Ready m := fun m h hr => by
    rw [Ready, h] at hr
    exact absurd hr (by decide)
  rcases mem_states_bind.mp h with h | h
  · rcases List.mem_cons.mp h with rfl | h
    · exact .inl hm
    · refine .inl (hzero _ ?_)
      rw [states_frame (storesIn_clear Field.rest) (mem_states_of_moments h) magic_notin_rest]
      exact Function.update_self _ _ _
  · have hall : ∀ f, ((clear Field.all).exec m).2 f = 0 := by
      intro f
      by_cases hf : f = .magic
      · exact exec_clear (by rw [hf]; exact List.mem_cons_self)
      · exact exec_clear (List.mem_cons_of_mem _ (Field.mem_rest hf))
    generalize ((clear Field.all).exec m).2 = m₁ at h hall
    rcases List.mem_cons.mp h with rfl | h
    · exact .inl (hzero _ (hall _))
    · right
      have hlist : m' = Function.update m₁ .magic cm33BbMagic ∨
          m' = Function.update (Function.update m₁ .magic cm33BbMagic) .version cm33BbVer := by
        change m' ∈ [Function.update m₁ .magic cm33BbMagic,
          Function.update (Function.update m₁ .magic cm33BbMagic) .version cm33BbVer] at h
        simpa only [List.mem_cons, List.not_mem_nil, or_false] using h
      rcases hlist with rfl | rfl
      · exact ⟨rfl, hall .bootCount, hall .faultType⟩
      · exact ⟨rfl, hall .bootCount, hall .faultType⟩

theorem exec_fresh (f : Field) : (fresh.exec m).2 f =
    if f = .version then cm33BbVer else if f = .magic then cm33BbMagic else 0 := by
  have hexec : (fresh.exec m).2 =
    Function.update (Function.update ((clear Field.all).exec m).2 .magic cm33BbMagic)
      .version cm33BbVer := by
    rw [fresh, exec_bind]
    rfl
  rw [hexec, Function.update_apply, Function.update_apply]
  split_ifs with hv hf
  · rfl
  · rfl
  · exact exec_clear (List.mem_cons_of_mem _ (Field.mem_rest hf))

theorem states_begin (h : m' ∈ begin.states m) : m' = m ∨
    m' = Function.update m .bootCount (m .bootCount + 1) ∨
    m' .magic = m .magic ∧ m' .faultType = 0 ∧ m' .bootCount = m .bootCount + 1 := by
  have hlist : m' = m ∨ m' = Function.update m .bootCount (m .bootCount + 1) ∨
      ∃ m₁, (begin.states m).drop 3 = m₁ ∧ m' ∈ m₁ := by
    rcases List.mem_cons.mp h with h | h
    · exact .inl h
    rcases List.mem_cons.mp h with h | h
    · exact .inl h
    rcases List.mem_cons.mp h with h | h
    · exact .inr (.inl h)
    · exact .inr (.inr ⟨_, rfl, h⟩)
  refine hlist.imp_right (Or.imp_right ?_)
  rintro ⟨_, rfl, h⟩
  change m' ∈ [_, _, _] at h
  simp only [List.mem_cons, List.not_mem_nil, or_false] at h
  rcases h with rfl | rfl | rfl <;> exact ⟨rfl, rfl, rfl⟩

/-- The boot count that `cm33_bb_init` goes on from. -/
def bootsFrom (m : Mem) : Word := if Ready m then m .bootCount else 0

theorem ready_begin (h : m' ∈ begin.states m) (hr : Ready m) : Ready m' := by
  rcases states_begin h with rfl | rfl | ⟨hmagic, -⟩
  · exact hr
  · exact hr
  · exact hmagic.trans hr

/-- **Cut off in `cm33_bb_init`**: nothing has happened but that the boot is counted; or the box is
not initialised; or it is, and reports no fault. -/
theorem states_init (h : m' ∈ cm33BbInit.states m) : m' = m ∨
    Ready m ∧ m' = Function.update m .bootCount (m .bootCount + 1) ∨ ¬ Ready m ∧ ¬ Ready m' ∨
    Ready m' ∧ m' .faultType = 0 ∧ (m' .bootCount = bootsFrom m + 1 ∨ ¬ Ready m ∧ m' .bootCount = 0) := by
  rw [cm33BbInit_eq] at h
  rcases List.mem_cons.mp h with rfl | h
  · exact .inl rfl
  change m' ∈ ((if cm33BbMagic ≠ m .magic then fresh else pure ()) >>= fun _ => begin).states m at h
  by_cases hr : Ready m
  · rw [if_neg (not_not.mpr hr.symm)] at h
    rcases states_begin h with rfl | rfl | ⟨hmagic, hft, hbc⟩
    · exact .inl rfl
    · exact .inr (.inl ⟨hr, rfl⟩)
    · refine .inr (.inr (.inr ⟨hmagic.trans hr, hft, .inl ?_⟩))
      rw [hbc, bootsFrom, if_pos hr]
  · rw [if_pos fun h => hr h.symm] at h
    rcases mem_states_bind.mp h with h | h
    · rcases states_fresh hr (mem_states_of_moments h) with hr' | ⟨hr', hbc, hft⟩
      · exact .inr (.inr (.inl ⟨hr, hr'⟩))
      · exact .inr (.inr (.inr ⟨hr', hft, .inr ⟨hr, hbc⟩⟩))
    · have hf := fun f => exec_fresh (m := m) f
      generalize (fresh.exec m).2 = m₁ at h hf
      have hr₁ : Ready m₁ := hf .magic
      refine .inr (.inr (.inr ⟨ready_begin h hr₁, ?_⟩))
      have hzero : bootsFrom m + 1 = m₁ .bootCount + 1 := by
        rw [hf, bootsFrom, if_neg hr]
        rfl
      rcases states_begin h with rfl | rfl | ⟨-, hft, hbc⟩
      · exact ⟨hf _, .inr ⟨hr, hf _⟩⟩
      · exact ⟨hf _, .inl hzero.symm⟩
      · exact ⟨hft, .inl (hbc.trans hzero.symm)⟩

/-- Behind `cm33_bb_init`. -/
theorem exec_init (m : Mem) : Ready (cm33BbInit.exec m).2 ∧ (cm33BbInit.exec m).2 .faultType = 0 ∧
    (cm33BbInit.exec m).2 .bootCount = bootsFrom m + 1 := by
  have hexec : (cm33BbInit.exec m).2 =
      (begin.exec (((if cm33BbMagic ≠ m .magic then fresh else pure ()) : Code Unit).exec m).2).2 := by
    rw [cm33BbInit_eq]
    exact congrArg Prod.snd (exec_bind (if cm33BbMagic ≠ m .magic then fresh else pure ()) (fun _ => begin) m)
  rw [hexec]
  by_cases hr : Ready m
  · rw [if_neg (not_not.mpr hr.symm), bootsFrom, if_pos hr]
    exact ⟨hr, rfl, rfl⟩
  · rw [if_pos fun h => hr h.symm, bootsFrom, if_neg hr]
    have hmagic : (fresh.exec m).2 .magic = cm33BbMagic := exec_fresh .magic
    refine ⟨hmagic, rfl, ?_⟩
    show (fresh.exec m).2 .bootCount + 1 = 0 + 1
    rw [exec_fresh]
    rfl

/-- The tasks store nothing but the times and the stage. -/
theorem storesIn_stores (l : List Store) :
    (stores l).StoresIn (· ∈ [.uptimeTicks, .tickCount, .bootStage]) := by
  induction l with
  | nil => exact trivial
  | cons s l ih => exact storesIn_set_bind (by cases s <;> simp [Store.field]) ih

/-- The first seven stores of `cm33_bb_hardfault`. -/
def details (F : Fault) : Code Unit := do
  Prog.set .cfsr F.cfsr
  Prog.set .hfsr F.hfsr
  Prog.set .mmfar F.mmfar
  Prog.set .bfar F.bfar
  Prog.set .stackedLr (F.frame 5)
  Prog.set .stackedPc (F.frame 6)
  Prog.set .excReturn F.excReturn

theorem cm33BbHardfault_eq (F : Fault) :
    cm33BbHardfault F = details F >>= fun _ => Prog.set .faultType 3 := rfl

theorem storesIn_details (F : Fault) :
    (details F).StoresIn (· ∈ [.cfsr, .hfsr, .mmfar, .bfar, .stackedLr, .stackedPc, .excReturn]) :=
  ⟨by decide, by decide, by decide, by decide, by decide, by decide, by decide, trivial⟩

/-- Up to its last store, the handler leaves the cause of death alone. -/
theorem moments_hardfault (h : m' ∈ (cm33BbHardfault F).moments m) :
    m' .magic = m .magic ∧ m' .faultType = m .faultType ∧ m' .bootCount = m .bootCount := by
  rw [cm33BbHardfault_eq, moments_bind] at h
  change m' ∈ (details F).states m at h
  have hs := fun f => states_frame (a := f) (storesIn_details F) h
  exact ⟨hs _ (by decide), hs _ (by decide), hs _ (by decide)⟩

/-- The whole fault is in the box. -/
structure Recorded (F : Fault) (m : Mem) : Prop where
  cfsr : m .cfsr = F.cfsr
  hfsr : m .hfsr = F.hfsr
  bfar : m .bfar = F.bfar
  mmfar : m .mmfar = F.mmfar
  stackedPc : m .stackedPc = F.frame 6
  stackedLr : m .stackedLr = F.frame 5
  excReturn : m .excReturn = F.excReturn
  faultType : m .faultType = 3

theorem exec_hardfault (F : Fault) (m : Mem) : Recorded F ((cm33BbHardfault F).exec m).2 ∧
    ((cm33BbHardfault F).exec m).2 .magic = m .magic ∧
    ((cm33BbHardfault F).exec m).2 .bootCount = m .bootCount :=
  ⟨⟨rfl, rfl, rfl, rfl, rfl, rfl, rfl, rfl⟩, rfl, rfl⟩

end Code

/-! ## Over many boots -/

section Boots

variable {m m' m₀ : Mem} {F : Fault} {cs : List Cut} {c : Cut}

/-- The report on a box that does not change meanwhile. -/
theorem cause_bbPy (m : Mem) : (bbPy.exec m).1.cause = if Ready m ∧ m .faultType ≠ 0 then
    some ⟨m .faultType, m .cfsr, m .hfsr, m .bfar, m .mmfar, m .stackedPc, m .stackedLr, m .excReturn⟩
    else none := by
  show Report.cause (Prog.exec (if m .magic = 0x33334242 then _ else pure Report.other : Code Report) m).1 = _
  by_cases hr : m .magic = 0x33334242
  · rw [if_pos hr]
    show Report.cause (Prog.exec (if m .faultType ≠ 0 then _ else pure _ : Code Report) m).1 = _
    by_cases hft : m .faultType ≠ 0
    · rw [if_pos hft, if_pos ⟨hr, hft⟩]
      rfl
    · rw [if_neg hft, if_neg fun h => hft h.2]
      rfl
  · rw [if_neg hr, if_neg fun h => hr h.1]
    rfl

theorem cause_recorded (hr : Ready m) (h : Recorded F m) : (bbPy.exec m).1.cause = some F.record := by
  have hft : m .faultType ≠ 0 := by
    rw [h.faultType]
    decide
  rw [cause_bbPy, if_pos ⟨hr, hft⟩, h.faultType, h.cfsr, h.hfsr, h.bfar, h.mmfar, h.stackedPc, h.stackedLr,
    h.excReturn]
  rfl

theorem cause_none (h : m .faultType = 0) : (bbPy.exec m).1.cause = none := by
  rw [cause_bbPy, if_neg fun hm => hm.2 h]

/-- The report after a boot that got through `cm33_bb_init`. -/
def Cut.cause : Cut → Option Record
  | .dead F => some F.record
  | _ => none

/-- What holds of the box between boots: it is initialised once a boot has got through
`cm33_bb_init`; its cause of death is the last fault that was latched; and every boot is counted,
but for those that were cut off too early. -/
structure Kept (m : Mem) (last : Option Fault) (boots : ℕ × ℕ) : Prop where
  ready : ¬ Ready m → boots.1 = 0
  fault : Ready m → m .faultType = 0 ∨ ∃ F, last = some F ∧ Recorded F m
  count : Ready m → ∃ n, m .bootCount = BitVec.ofNat 32 n ∧ boots.1 ≤ n ∧ n ≤ boots.2

theorem ofNat_succ (n : ℕ) : BitVec.ofNat 32 n + 1 = BitVec.ofNat 32 (n + 1) := (BitVec.ofNat_add n 1).symm

variable {last : Option Fault} {boots : ℕ × ℕ}

/-- The count goes on from the boots before. -/
theorem Kept.bootsFrom (hk : Kept m last boots) :
    ∃ n, bootsFrom m = BitVec.ofNat 32 n ∧ boots.1 ≤ n ∧ n ≤ boots.2 ∨ bootsFrom m = 0 ∧ boots.1 = 0 := by
  by_cases hr : Ready m
  · obtain ⟨n, hn, hle⟩ := hk.count hr
    exact ⟨n, .inl ⟨(if_pos hr).trans hn, hle⟩⟩
  · exact ⟨0, .inr ⟨if_neg hr, hk.ready hr⟩⟩

/-- Through `cm33_bb_init`, whatever has come after it. -/
theorem Kept.through (hk : Kept m last boots) (hr : Ready m') (hbc : m' .bootCount = Cm33.bootsFrom m + 1)
    {last' : Option Fault} (hf : m' .faultType = 0 ∨ ∃ F, last' = some F ∧ Recorded F m') :
    Kept m' last' (boots.1 + 1, boots.2 + 1) := by
  refine ⟨fun h => absurd hr h, fun _ => hf, fun _ => ?_⟩
  obtain ⟨n, ⟨hn, hlo, hhi⟩ | ⟨hn, hlo⟩⟩ := hk.bootsFrom
  · exact ⟨n + 1, by rw [hbc, hn, ofNat_succ], Nat.succ_le_succ hlo, Nat.succ_le_succ hhi⟩
  · exact ⟨1, by rw [hbc, hn]; rfl, by rw [hlo], Nat.succ_le_succ (Nat.zero_le _)⟩

theorem Kept.init (hk : Kept m last boots) (h : m' ∈ cm33BbInit.states m) :
    Kept m' last (boots.1, boots.2 + 1) := by
  rcases states_init h with rfl | ⟨hr, rfl⟩ | ⟨hr, hr'⟩ | ⟨hr', hft, hbc⟩
  · refine ⟨hk.ready, hk.fault, fun hr => ?_⟩
    obtain ⟨n, hn, hlo, hhi⟩ := hk.count hr
    exact ⟨n, hn, hlo, hhi.trans (Nat.le_succ _)⟩
  · refine ⟨fun h => absurd hr h, fun _ => ?_, fun _ => ?_⟩
    · refine (hk.fault hr).imp_right fun ⟨F, hF, hrec⟩ => ⟨F, hF, ?_⟩
      exact ⟨hrec.cfsr, hrec.hfsr, hrec.bfar, hrec.mmfar, hrec.stackedPc, hrec.stackedLr, hrec.excReturn,
        hrec.faultType⟩
    · obtain ⟨n, hn, hlo, hhi⟩ := hk.count hr
      refine ⟨n + 1, ?_, hlo.trans (Nat.le_succ _), Nat.succ_le_succ hhi⟩
      rw [Function.update_self, hn, ofNat_succ]
  · exact ⟨fun _ => hk.ready hr, fun h => absurd h hr', fun h => absurd h hr'⟩
  · refine ⟨fun h => absurd hr' h, fun _ => .inl hft, fun _ => ?_⟩
    rcases hbc with hbc | ⟨hr, hbc⟩
    · have hfault : m' .faultType = 0 ∨ ∃ F, last = some F ∧ Recorded F m' := .inl hft
      obtain ⟨n, hn, hlo, hhi⟩ := (hk.through hr' hbc hfault).count hr'
      exact ⟨n, hn, (Nat.le_succ _).trans hlo, hhi⟩
    · exact ⟨0, hbc, (hk.ready hr).le, Nat.zero_le _⟩

/-- **One boot.** -/
theorem Kept.boot (hk : Kept m last boots) (h : Boot m c m') :
    Kept m' (lastFault last c) (tally boots c) ∧ (c ≠ .init → (bbPy.exec m').1.cause = c.cause) := by
  obtain ⟨hr, hft, hbc⟩ := exec_init m
  have hup := fun l f (hf : f ∉ [.uptimeTicks, .tickCount, .bootStage]) =>
    exec_frame (m := (cm33BbInit.exec m).2) (storesIn_stores l) (a := f) hf
  cases h with
  | init h => exact ⟨hk.init h, fun h => absurd rfl h⟩
  | up l =>
    have hft' := (hup l .faultType (by decide)).trans hft
    exact ⟨hk.through ((hup l .magic (by decide)).trans hr)
      ((hup l .bootCount (by decide)).trans hbc) (.inl hft'),
      fun _ => cause_none hft'⟩
  | dying l F h =>
    obtain ⟨hmagic, hfault, hcount⟩ := moments_hardfault h
    have hft' := hfault.trans ((hup l .faultType (by decide)).trans hft)
    refine ⟨hk.through ?_ ?_ (.inl hft'), fun _ => cause_none hft'⟩
    · exact hmagic.trans ((hup l .magic (by decide)).trans hr)
    · exact hcount.trans ((hup l .bootCount (by decide)).trans hbc)
  | dead l F =>
    obtain ⟨hrec, hmagic, hcount⟩ := exec_hardfault F ((stores l).exec (cm33BbInit.exec m).2).2
    have hr' := hmagic.trans ((hup l .magic (by decide)).trans hr)
    refine ⟨hk.through hr' ?_ (.inr ⟨F, rfl, hrec⟩), fun _ => cause_recorded hr' hrec⟩
    exact hcount.trans ((hup l .bootCount (by decide)).trans hbc)
  | stopped =>
    have hr' : ¬ Ready fun _ => 0 := by decide
    exact ⟨⟨fun _ => rfl, fun h => absurd h hr', fun h => absurd h hr'⟩, fun _ => cause_none rfl⟩

/-- **Over any number of boots**, each cut off wherever it may be: a cause of death in the report is
that of the last fault that was latched; after a boot that got through `cm33_bb_init` the report
tells how it ended; and the boot count is that of the boots since the memory was last cleared, but
for those cut off early. -/
theorem boots_inv (h : Run Boot m₀ cs m) (h₀ : ¬ Ready m₀) :
    (∀ r, (bbPy.exec m).1.cause = some r → ∃ F, cs.foldl lastFault none = some F ∧ r = F.record) ∧
    (∀ cs' c, cs = cs' ++ [c] → c ≠ .init → (bbPy.exec m).1.cause = c.cause) ∧
    (Ready m → ∃ n, m .bootCount = BitVec.ofNat 32 n ∧
      (cs.foldl tally (0, 0)).1 ≤ n ∧ n ≤ (cs.foldl tally (0, 0)).2) := by
  let I : List Cut → Mem → Prop := fun cs m => Kept m (cs.foldl lastFault none) (cs.foldl tally (0, 0)) ∧
    ∀ cs' c, cs = cs' ++ [c] → c ≠ .init → (bbPy.exec m).1.cause = c.cause
  have hI : I cs m := by
    refine h.inv_trace (I := I) ⟨⟨fun _ => rfl, fun h => absurd h h₀, fun h => absurd h h₀⟩,
      fun cs' c hcs => ?_⟩
      fun {cs m c m'} ih hb => ?_
    · exact absurd hcs.symm (List.append_ne_nil_of_right_ne_nil _ (List.cons_ne_nil _ _))
    obtain ⟨hk, hc⟩ := ih.1.boot hb
    refine ⟨?_, fun cs' c' hcs => ?_⟩
    · rw [List.foldl_append, List.foldl_append]
      exact hk
    · obtain ⟨-, hcs⟩ := List.append_inj' hcs rfl
      cases hcs
      exact hc
  obtain ⟨hk, hlast⟩ := hI
  refine ⟨fun r hr => ?_, hlast, hk.count⟩
  by_cases hm : Ready m
  · rcases hk.fault hm with hft | ⟨F, hF, hrec⟩
    · rw [cause_none hft] at hr
      cases hr
    · rw [cause_recorded hm hrec] at hr
      exact ⟨F, hF, (Option.some.inj hr).symm⟩
  · rw [cause_bbPy, if_neg fun h => hm h.1] at hr
    cases hr

/-- Behind an arbitrary memory. -/
def cold : Mem := fun _ => 0xdeadbeef

def sampleFault : Fault where
  cfsr := 0x8200
  hfsr := 0x40000000
  mmfar := 0
  bfar := 0xf0000000
  mspFrame n := BitVec.ofNat 32 (0x100 + n)
  pspFrame n := BitVec.ofNat 32 (0x200 + n)
  excReturn := 0xfffffffd

/-- A boot, a fault in the next, and a third that is cut off at once: the fault is still there. -/
theorem boots_inv_cold : ∃ m, Run Boot cold [.up, .dead sampleFault, .init] m ∧
    ∃ n, m .bootCount = BitVec.ofNat 32 n ∧ 2 ≤ n ∧ n ≤ 3 := by
  let m₁ : Mem := ((stores []).exec (cm33BbInit.exec cold).2).2
  let m₂ : Mem := ((cm33BbHardfault sampleFault).exec ((stores []).exec (cm33BbInit.exec m₁).2).2).2
  have hrun : Run Boot cold [.up, .dead sampleFault, .init] m₂ :=
    ((Run.nil.snoc (.up [])).snoc (.dead (m := m₁) [] sampleFault)).snoc (.init List.mem_cons_self)
  have hready : Ready m₂ := (exec_hardfault sampleFault _).2.1.trans (exec_init m₁).1
  exact ⟨m₂, hrun, (boots_inv hrun (by decide)).2.2 hready⟩

end Boots

/-! ## Reading while the fault is latched -/

section Overlap

variable {m m' : Mem} {F : Fault} {l : List Store} {r : Report}

/-- From one moment of a run to the same or a later one. -/
def Moves (tr : List Mem) (m m' : Mem) : Prop := ∃ i j : ℕ, i ≤ j ∧ tr[i]? = some m ∧ tr[j]? = some m'

/-- A boot behind `cm33_bb_init`, up to a fault. -/
def life (l : List Store) (F : Fault) : Code Unit := stores l >>= fun _ => cm33BbHardfault F

/-- There is no cause of death yet, or the whole fault, which stays. -/
def Later (F : Fault) (m m' : Mem) : Prop :=
  (m' .faultType = 0 ∨ Recorded F m') ∧ (Recorded F m → Recorded F m')

/-- The cause of death is stored last. -/
theorem moments_life (hm : m .faultType = 0) (h : m' ∈ (life l F).moments m) : m' .faultType = 0 := by
  rw [life, moments_bind] at h
  rcases List.mem_append.mp h with h | h
  · exact (states_frame (storesIn_stores l) (mem_states_of_moments h) (by decide)).trans hm
  · exact (moments_hardfault h).2.1.trans ((exec_frame (storesIn_stores l) (by decide)).trans hm)

theorem exec_life (m : Mem) : Recorded F ((life l F).exec m).2 := by
  rw [life, exec_bind]
  exact (exec_hardfault F _).1

/-- A moment of the run, by its place. -/
theorem states_life (hm : m .faultType = 0) {k : ℕ} (h : ((life l F).states m)[k]? = some m') :
    k < ((life l F).moments m).length ∧ m' .faultType = 0 ∨
      k = ((life l F).moments m).length ∧ m' = ((life l F).exec m).2 := by
  rcases Nat.lt_or_ge k ((life l F).moments m).length with hlt | hge
  · rw [states, List.getElem?_append_left hlt] at h
    exact .inl ⟨hlt, moments_life hm (List.mem_of_getElem? h)⟩
  · rw [states, List.getElem?_append_right hge] at h
    obtain ⟨hk, hget⟩ := List.getElem?_eq_some_iff.mp h
    have hzero : k - ((life l F).moments m).length = 0 := Nat.lt_one_iff.mp hk
    refine .inr ⟨Nat.le_antisymm (Nat.sub_eq_zero_iff_le.mp hzero) hge, ?_⟩
    simp only [hzero, List.getElem_cons_zero] at hget
    exact hget.symm

/-- **The guarantee**: once the cause of death is there, the whole fault is, and stays. -/
theorem later_of_moves (hm : m .faultType = 0) {m₁ m₂ : Mem} (h : Moves ((life l F).states m) m₁ m₂) :
    Later F m₁ m₂ := by
  obtain ⟨i, j, hij, h₁, h₂⟩ := h
  rcases states_life hm h₂ with ⟨hlt, hft⟩ | ⟨-, rfl⟩
  · refine ⟨.inl hft, fun hrec => ?_⟩
    -- the earlier moment comes before the last store too
    rcases states_life hm h₁ with ⟨-, hft₁⟩ | ⟨hi, -⟩
    · rw [hrec.faultType] at hft₁
      exact absurd hft₁ (by decide)
    · omega
  · exact ⟨.inr (exec_life m), fun _ => exec_life m⟩

/-- Under the guarantee, what is printed is nothing or the whole fault. -/
theorem cause_of_later (h : bbPy.Under (Later F) m r m') : r.cause = none ∨ r.cause = some F.record := by
  obtain ⟨m₁, -, h⟩ := h
  change (if m₁ .magic = 0x33334242 then _ else pure Report.other : Code Report).Under (Later F) m₁ r m' at h
  by_cases hr : m₁ .magic = 0x33334242
  · rw [if_pos hr] at h
    obtain ⟨m₂, -, m₃, -, m₄, -, m₅, h₅, h⟩ := h
    change (if m₅ .faultType ≠ 0 then _ else pure _ : Code Report).Under (Later F) m₅ r m' at h
    by_cases hft : m₅ .faultType ≠ 0
    · rw [if_pos hft] at h
      obtain ⟨m₆, h₆, m₇, h₇, m₈, h₈, m₉, h₉, m₁₀, h₁₀, m₁₁, h₁₁, m₁₂, h₁₂, rfl, -⟩ := h
      have hrec₅ : Recorded F m₅ := h₅.1.resolve_left hft
      have hrec₆ := h₆.2 hrec₅
      have hrec₇ := h₇.2 hrec₆
      have hrec₈ := h₈.2 hrec₇
      have hrec₉ := h₉.2 hrec₈
      have hrec₁₀ := h₁₀.2 hrec₉
      have hrec₁₁ := h₁₁.2 hrec₁₀
      have hrec₁₂ := h₁₂.2 hrec₁₁
      right
      show some (Record.mk (m₅ .faultType) (m₆ .cfsr) (m₇ .hfsr) (m₈ .bfar) (m₉ .mmfar) (m₁₀ .stackedPc)
        (m₁₁ .stackedLr) (m₁₂ .excReturn)) = _
      rw [hrec₅.faultType, hrec₆.cfsr, hrec₇.hfsr, hrec₈.bfar, hrec₉.mmfar, hrec₁₀.stackedPc, hrec₁₁.stackedLr,
        hrec₁₂.excReturn]
      rfl
    · rw [if_neg hft] at h
      obtain ⟨rfl, -⟩ := h
      exact .inl rfl
  · rw [if_neg hr] at h
    obtain ⟨rfl, -⟩ := h
    exact .inl rfl

/-- **No torn report**: in a boot with any stores of the tasks and then a fault, a reader whose
words are read at any moments of it, one behind the other, prints no cause of death or the whole of
this one. -/
theorem report_whole {m₀ mᵣ : Mem}
    (h : bbPy.Under (Moves ((life l F).states (cm33BbInit.exec m₀).2)) mᵣ r m') :
    r.cause = none ∨ r.cause = some F.record :=
  cause_of_later (h.mono fun hm => later_of_moves (exec_init m₀).2.1 hm)

theorem storesIn_bbPy : bbPy.StoresIn fun _ => False :=
  fun _ => storesIn_ite (fun _ _ _ _ _ => storesIn_ite (fun _ _ _ _ _ _ _ _ => trivial) fun _ => trivial)
    fun _ => trivial

theorem moves_getD {tr : List Mem} {i : ℕ → ℕ} (hi : ∀ n, i n ≤ i (n + 1))
    (hlt : ∀ n, i n < tr.length) (n : ℕ) :
    Moves tr (tr.getD (i n) m) (tr.getD (i (n + 1)) m) := by
  have hget : ∀ n, tr[i n]? = some (tr.getD (i n) m) := fun n => by
    rw [List.getD_eq_getElem?_getD, List.getElem?_eq_getElem (hlt n), Option.getD_some]
  exact ⟨i n, i (n + 1), hi n, hget n, hget (n + 1)⟩

/-- The first boot, and the tasks in it. -/
def sampleBoot : Mem := (cm33BbInit.exec cold).2

def sampleTasks : List Store := [.uptimeTicks 7, .bootStage 3, .tickCount 7]

/-- When the words are read: the magic and the boot count while the tasks store, the stage in the
middle of the fault handler, the rest behind it. -/
def sampleMoments (n : ℕ) : ℕ := if n < 3 then n else if n = 3 then 6 else 11

/-- What the reader finds for its `n`-th word. -/
def sampleReadings (n : ℕ) : Mem :=
  ((life sampleTasks sampleFault).states sampleBoot).getD (sampleMoments n) cold

/-- A reader that overlaps with the tasks and with the fault. -/
theorem report_whole_sampleFault : ∃ m', bbPy.Under (Moves ((life sampleTasks sampleFault).states sampleBoot))
      (sampleReadings 0) (.cm33 1 7 3 (some sampleFault.record)) m' ∧
    (Report.cm33 1 7 3 (some sampleFault.record)).cause = some sampleFault.record := by
  have hlen : ((life sampleTasks sampleFault).states sampleBoot).length = 12 := rfl
  have hmoves : ∀ n, Moves ((life sampleTasks sampleFault).states sampleBoot) (sampleReadings n)
      (sampleReadings (n + 1)) :=
    moves_getD (fun n => by unfold sampleMoments; split_ifs <;> omega)
      (fun n => by rw [hlen]; unfold sampleMoments; split_ifs <;> omega)
  have hstart : Moves ((life sampleTasks sampleFault).states sampleBoot) (sampleReadings 0)
    (sampleReadings 0) :=
    ⟨0, 0, Nat.le_refl 0, rfl, rfl⟩
  obtain ⟨m', h⟩ := under_readings storesIn_bbPy hstart hmoves
  have hread : readings sampleReadings bbPy = .cm33 1 7 3 (some sampleFault.record) := by decide +kernel
  rw [hread] at h
  exact ⟨m', h, (report_whole h).resolve_left nofun⟩

end Overlap

end CR8Devkit.Cm33
