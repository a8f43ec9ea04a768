import CR8Devkit.Client.Mailbox
import CR8Devkit.Lib.Handles
import CR8Devkit.Lib.Transition
import Mathlib.Logic.Function.Basic
import Mathlib.Tactic.Common

/-!
# Bringing up the platform, and cleaning it up

`platform_init` and `platform_cleanup` of `platform_info.c` with `rz_proc_init` and `rz_proc_remove`
of `rz_rproc.c` below them: the devices that they open and close, the table `g_rsc_table` that all
instances share, and the status bytes in the resource table.

* `Env`: what an initialisation meets, each call of libmetal and OpenAMP that can fail.
* `next`: one call; `none` where the program dies of a null or an unmapped pointer.
* `Pool.Later` for every function: handles are given out once, and stay closed.
* `Closes`, `Removed`: what `rz_proc_remove` does to the devices.
-/

namespace CR8Devkit.Platform

open Transition Handles

open Mailbox (UioDev)

/-! ## Devices -/

/-- The entries of `vrinfo` in use, and `shm`. -/
inductive MemDev
  | rsc
  | ctl0
  | shm0
  | ctl1
  | shm1
  | shm
  deriving DecidableEq

inductive Dev
  | ipi (i : UioDev)
  | mem (d : MemDev)
  deriving DecidableEq

/-- `enum VRING_INFO_IDXS`. -/
inductive Vring
  | rsc
  | ctl
  | shm
  | mhu
  deriving DecidableEq

def uioDevs : List UioDev := [.mbx, .receiver1, .receiver2, .receiver3]

def receivers : List UioDev := [.receiver1, .receiver2, .receiver3]

/-- In the order in which they are opened and closed. -/
def memDevs : List MemDev := [.rsc, .ctl0, .shm0, .ctl1, .shm1, .shm]

def vrings : List Vring := [.rsc, .ctl, .shm, .mhu]

theorem mem_uioDevs (i : UioDev) : i ∈ uioDevs := by cases i <;> decide

theorem mem_memDevs (d : MemDev) : d ∈ memDevs := by cases d <;> decide

def rpvdevMaxNum : ℕ := 42

/-- An instance of `remoteproc`, with its `remoteproc_priv`. -/
structure Inst where
  notifyId : ℕ
  mbxChnId : UioDev
  /-- The devices whose regions `vr_info` names. -/
  vrInfo : Vring → Option ℕ
  /-- The device through which `rsc_table` is mapped. -/
  table : ℕ
  /-- The index of `rsc_table` in that mapping. -/
  slice : ℕ

structure State where
  pool : Pool
  /-- The `dev` of `ipi`, `vrinfo` and `shm`. -/
  dev : Dev → Option ℕ
  /-- Whether there is a `mem` in `vrinfo` or `shm`. -/
  mem : MemDev → Bool
  /-- The devices whose interrupt `rz_proc_irq_handler` handles. -/
  hooked : ℕ → Bool
  registered : UioDev → ℕ
  initialized : Bool
  gRscTable : Option ℕ
  insts : ℕ → Option Inst
  /-- How many instances there have been. -/
  created : ℕ
  /-- The status of the vdev in each slice of the resource table. -/
  status : ℕ → BitVec 8

/-- What the calls of `platform_init` into libmetal and OpenAMP return: `false` where they fail. -/
structure Env where
  priv : Bool
  inst : Bool
  openIpi : UioDev → Bool
  ioMbx : Bool
  irq : UioDev → Bool
  vrInfo : Bool
  openMem : MemDev → Bool
  ioMem : MemDev → Bool
  allocMem : MemDev → Bool
  allocAdd : Vring → Bool
  mmap : Bool
  /-- By attempt. -/
  setRscTable : ℕ → Bool

/-- `metal_device_open`. -/
def metalDeviceOpen (s : State) (d : Dev) : State :=
  { s with
    pool := s.pool.open
    dev := Function.update s.dev d (some s.pool.next) }

theorem metalDeviceOpen_self (s : State) (d : Dev) : (metalDeviceOpen s d).dev d = some s.pool.next :=
  Function.update_self ..

theorem metalDeviceOpen_of_ne (s : State) {d d' : Dev} (hne : d' ≠ d) :
    (metalDeviceOpen s d).dev d' = s.dev d' :=
  Function.update_of_ne hne ..

/-- `metal_device_close`, of a device that is not `NULL`. -/
def metalDeviceClose (s : State) (d : Dev) : State :=
  match s.dev d with
  | none => s
  | some h => { s with pool := s.pool.close h }

/-- The same, where the code clears `dev` as well. -/
def closeDev (s : State) (d : Dev) : State :=
  match s.dev d with
  | none => s
  | some h => { s with pool := s.pool.close h, dev := Function.update s.dev d none }

/-! ## `rz_rproc.c` -/

/-- Returns whether `ret` is zero. Without a region it is, although the device is closed again. -/
def initMemoryDeviceIndividual (e : Env) (d : MemDev) (s : State) : Option (Bool × State) :=
  if e.openMem d then
    let s := metalDeviceOpen s (.mem d)
    if e.ioMem d then
      -- the `memset` behind the allocation
      if e.allocMem d then some (true, { s with mem := Function.update s.mem d true }) else none
    else
      some (true, metalDeviceClose s (.mem d))
  else
    some (false, metalDeviceClose s (.mem d))

/-- One device after the other, whatever `ret` is. -/
def initMemoryDevices (e : Env) : List MemDev → State → Option (Bool × State)
  | [], s => some (true, s)
  | d :: ds, s =>
    (initMemoryDeviceIndividual e d s).bind fun r =>
      (initMemoryDevices e ds r.2).map fun r' => (r.1 && r'.1, r'.2)

/-- The template of an entry of `vr_info`. -/
def Vring.base (notifyId : ℕ) : Vring → MemDev
  | rsc => .rsc
  | ctl => if notifyId = 0 then .ctl0 else .ctl1
  | shm => if notifyId = 0 then .shm0 else .shm1
  | mhu => .shm

/-- `add_memory_device` for the four entries: it copies to and from a `mem` that may be `NULL`. -/
def addMemoryDevices (e : Env) (notifyId : ℕ) (s : State) : Option (Vring → Option ℕ) :=
  if vrings.all fun v => e.allocAdd v && s.mem (v.base notifyId) then
    some fun v => s.dev (.mem (v.base notifyId))
  else
    none

/-- Unless `vrinfo[0].rsc.dev` is there. -/
def initVrinfo (e : Env) (s : State) : Option (Bool × State) :=
  if s.dev (.mem .rsc) = none then initMemoryDevices e memDevs s else some (true, s)

def initMemoryDevice (e : Env) (notifyId : ℕ) (s : State) :
    Option (Option (Vring → Option ℕ) × State) :=
  if 1 < notifyId then
    some (none, s)
  else
    (initVrinfo e s).bind fun r =>
      if r.1 then (addMemoryDevices e notifyId r.2).map fun vrInfo => (some vrInfo, r.2)
      else some (none, r.2)

/-- What `rz_proc_init` leaves: the instance, or whether its `vr_info` is allocated. -/
inductive Init
  | done (vrInfo : Vring → Option ℕ)
  | failed (vrInfo : Bool)

/-- The mailbox is closed, and its `dev` stays. -/
def err1 (vrInfo : Bool) (s : State) : Init × State := (.failed vrInfo, metalDeviceClose s (.ipi .mbx))

/-- From `skip` on. -/
def createVrinfo (e : Env) (notifyId : ℕ) (s : State) : Option (Init × State) :=
  if e.vrInfo then
    (initMemoryDevice e notifyId s).map fun
      | (some vrInfo, s) => (.done vrInfo, s)
      | (none, s) => err1 true s
  else
    some (err1 false s)

/-- The loop over `metal_device_open`: what is in `dev` after it. -/
def openIpis (e : Env) : List UioDev → Pool → (UioDev → Option ℕ) × Pool
  | [], p => (fun _ => none, p)
  | i :: is, p =>
    if e.openIpi i then
      let r := openIpis e is p.open
      (Function.update r.1 i (some p.next), r.2)
    else
      openIpis e is p

def ipis (t : Dev → Option ℕ) (dev : UioDev → Option ℕ) : Dev → Option ℕ
  | .ipi i => dev i
  | .mem d => t (.mem d)

/-- The second loop, behind a `dev` without gaps. -/
def setIpis (s : State) (r : (UioDev → Option ℕ) × Pool) : State :=
  { s with
    pool := r.2
    dev := ipis s.dev r.1 }

/-- Returns whether `ret` is zero. -/
def rzEnableInterrupt (e : Env) (i : UioDev) (s : State) : Bool × State :=
  match s.dev (.ipi i) with
  | none => (true, s)
  | some h =>
    if s.registered i ≠ 0 then (true, s)
    else if e.irq i then (true, { s with hooked := Function.update s.hooked h true })
    else (false, s)

def enableInterrupts (e : Env) : List UioDev → State → Bool × State
  | [], s => (true, s)
  | i :: is, s =>
    let r := rzEnableInterrupt e i s
    if r.1 then enableInterrupts e is r.2 else r

def setInitialized (s : State) : State :=
  { s with
    registered := Function.update s.registered .mbx (s.registered .mbx + 1)
    initialized := true }

/-- From the mailbox's `irq_info` on. -/
def enableAndCreate (e : Env) (notifyId : ℕ) (s : State) : Option (Init × State) :=
  let r := enableInterrupts e receivers s
  if r.1 then createVrinfo e notifyId (setInitialized r.2) else some (err1 false r.2)

def rzProcInit (e : Env) (notifyId : ℕ) (s : State) : Option (Init × State) :=
  if s.initialized then
    createVrinfo e notifyId s
  else if s.registered .mbx = 0 then
    let r := openIpis e uioDevs s.pool
    if uioDevs.all e.openIpi then
      if e.ioMbx then enableAndCreate e notifyId (setIpis s r) else some (err1 false (setIpis s r))
    else
      -- what has been opened stays open
      some (.failed false, { s with pool := r.2 })
  else
    enableAndCreate e notifyId s

def deinitMemoryDeviceIndividual (s : State) (d : MemDev) : State :=
  closeDev { s with mem := Function.update s.mem d false } (.mem d)

def deinitMemoryDevice (s : State) : State := memDevs.foldl deinitMemoryDeviceIndividual s

def rzDisableInterrupt (s : State) (i : UioDev) : State :=
  match s.dev (.ipi i) with
  | none => s
  | some h =>
    if s.hooked h then
      { s with
        hooked := Function.update s.hooked h false
        registered := Function.update s.registered i 0 }
    else s

/-- `vrInfo`: whether the instance has a `vr_info`. -/
def rzProcRemove (vrInfo : Bool) (s : State) : State :=
  if 1 < s.registered .mbx then
    { s with registered := Function.update s.registered .mbx (s.registered .mbx - 1) }
  else
    let s := if vrInfo then deinitMemoryDevice s else s
    let s := if s.initialized then receivers.foldl rzDisableInterrupt s else s
    let s := uioDevs.foldl (fun s i => closeDev s (.ipi i)) s
    { s with registered := Function.update s.registered .mbx 0, initialized := false }

/-! ## `platform_info.c` -/

/-- `remoteproc_set_rsc_table`, and up to 500 more times. -/
def retryRscTable (setRscTable : ℕ → Bool) : Bool := (List.range (500 + 1)).any setRscTable

def platformCreateProc (e : Env) (procId rscId : ℕ) (mbxId : UioDev) (s : State) :
    Option (Option Inst × State) :=
  if e.priv && e.inst then
    (rzProcInit e procId s).map fun
      | (.failed vrInfo, s) => (none, rzProcRemove vrInfo s)
      | (.done vrInfo, s) =>
        match s.gRscTable with
        | some table => (some ⟨procId, mbxId, vrInfo, table, rscId⟩, s)
        | none =>
          match vrInfo .rsc with
          | some table =>
            if e.mmap && retryRscTable e.setRscTable then
              (some ⟨procId, mbxId, vrInfo, table, 0⟩, { s with gRscTable := some table })
            else
              (none, rzProcRemove true s)
          | none => (none, rzProcRemove true s)
  else
    some (none, s)

/-- `platform`: whether there is a place for the instance. -/
def platformInit (platform : Bool) (e : Env) (procId rscId : ℕ) (mbxId : UioDev) (s : State) :
    Option (Option Inst × State) :=
  if platform && decide (procId < rpvdevMaxNum) && decide (rscId < rpvdevMaxNum) then
    platformCreateProc e procId rscId mbxId s
  else
    some (none, s)

def virtioClearStatus (table slice : ℕ) (s : State) : Option State :=
  if s.pool.isOpen table then some { s with status := Function.update s.status slice 0 } else none

/-! ## Calls -/

inductive Act
  | init (platform : Bool) (e : Env) (procId rscId : ℕ) (mbxId : UioDev)
  /-- `platform_cleanup`, of an instance or of `NULL`. -/
  | cleanup (k : Option ℕ)
  /-- `platform_clear_driver_ok`. -/
  | clearDriverOk
  /-- `release_channel`: `virtio_clear_status` of the table of an instance. -/
  | release (k : ℕ)

/-- The instances are numbered as they come. -/
def addInst (s : State) (i : Inst) : State :=
  { s with insts := Function.update s.insts s.created (some i), created := s.created + 1 }

def next (s : State) : Act → Option State
  | .init platform e procId rscId mbxId =>
    (platformInit platform e procId rscId mbxId s).map fun r => r.1.elim r.2 (addInst r.2)
  | .cleanup none => some { s with gRscTable := none }
  | .cleanup (some k) =>
    (s.insts k).map fun _ =>
      { rzProcRemove true s with insts := Function.update s.insts k none, gRscTable := none }
  | .clearDriverOk => s.gRscTable.elim (some s) fun table => virtioClearStatus table 0 s
  | .release k => (s.insts k).bind fun i => virtioClearStatus i.table i.slice s

def start (status : ℕ → BitVec 8) : State where
  pool := .empty
  dev _ := none
  mem _ := false
  hooked _ := false
  registered _ := 0
  initialized := false
  gRscTable := none
  insts _ := none
  created := 0
  status := status

/-! ## What a call can do to the pool -/

variable {e : Env} {s s' : State} {a : Act} {n : ℕ}

theorem later_metalDeviceClose (d : Dev) : s.pool.Later (metalDeviceClose s d).pool := by
  unfold metalDeviceClose
  split
  · exact .refl _
  · exact Pool.later_close ..

theorem later_initMemoryDeviceIndividual {d : MemDev} {r : Bool × State}
    (h : initMemoryDeviceIndividual e d s = some r) : s.pool.Later r.2.pool := by
  unfold initMemoryDeviceIndividual at h
  split_ifs at h
  · cases h
    exact Pool.later_open _
  · cases h
    exact (Pool.later_open s.pool).trans (later_metalDeviceClose (s := metalDeviceOpen s (.mem d)) _)
  · cases h
    exact later_metalDeviceClose _

theorem later_initMemoryDevices {r : Bool × State} : ∀ {ds : List MemDev} {s : State},
    initMemoryDevices e ds s = some r → s.pool.Later r.2.pool := by
  intro ds
  induction ds generalizing r with
  | nil =>
    intro s h
    cases h
    exact .refl _
  | cons d ds ih =>
    intro s h
    obtain ⟨r₁, h₁, h₂⟩ := Option.bind_eq_some_iff.mp h
    obtain ⟨r₂, h₃, rfl⟩ := Option.map_eq_some_iff.mp h₂
    exact (later_initMemoryDeviceIndividual h₁).trans (ih (r := r₂) h₃)

theorem later_initVrinfo {r : Bool × State} (h : initVrinfo e s = some r) : s.pool.Later r.2.pool := by
  unfold initVrinfo at h
  split_ifs at h
  · exact later_initMemoryDevices h
  · cases h
    exact .refl _

theorem initMemoryDevice_cases {r : Option (Vring → Option ℕ) × State} (h : initMemoryDevice e n s = some r) :
    1 < n ∧ r = (none, s) ∨ ∃ r₀, initVrinfo e s = some r₀ ∧ n ≤ 1 ∧ r.2 = r₀.2 ∧
      (r₀.1 = true ∧ r.1 = addMemoryDevices e n r₀.2 ∧ r.1 ≠ none ∨ r₀.1 = false ∧ r.1 = none) := by
  unfold initMemoryDevice at h
  by_cases hn : 1 < n
  · rw [if_pos hn] at h
    cases h
    exact .inl ⟨hn, rfl⟩
  · rw [if_neg hn] at h
    obtain ⟨r₀, h₀, h⟩ := Option.bind_eq_some_iff.mp h
    refine .inr ⟨r₀, h₀, Nat.le_of_not_lt hn, ?_⟩
    by_cases hr : r₀.1 = true
    · rw [if_pos hr] at h
      obtain ⟨vr, hv, rfl⟩ := Option.map_eq_some_iff.mp h
      exact ⟨rfl, .inl ⟨hr, hv.symm, Option.some_ne_none _⟩⟩
    · rw [if_neg hr] at h
      cases h
      exact ⟨rfl, .inr ⟨Bool.eq_false_iff.mpr hr, rfl⟩⟩

theorem later_createVrinfo {r : Init × State} (h : createVrinfo e n s = some r) : s.pool.Later r.2.pool := by
  unfold createVrinfo at h
  split_ifs at h
  · obtain ⟨r₁, h₁, rfl⟩ := Option.map_eq_some_iff.mp h
    have hl : s.pool.Later r₁.2.pool := by
      rcases initMemoryDevice_cases h₁ with ⟨-, rfl⟩ | ⟨r₀, h₀, -, hr, -⟩
      · exact .refl _
      · rw [hr]
        exact later_initVrinfo h₀
    rcases r₁ with ⟨_ | vr, s₁⟩
    · exact hl.trans (later_metalDeviceClose _)
    · exact hl
  · cases h
    exact later_metalDeviceClose _

theorem later_openIpis : ∀ (is : List UioDev) (p : Pool), p.Later (openIpis e is p).2
  | [], p => .refl p
  | i :: is, p => by
    unfold openIpis
    split
    · exact (Pool.later_open p).trans (later_openIpis is _)
    · exact later_openIpis is p

/-- To enable interrupts changes only which are handled. -/
theorem enableInterrupts_eq : ∀ (is : List UioDev) (s : State),
    ∃ hooked, (enableInterrupts e is s).2 = { s with hooked := hooked }
  | [], s => ⟨s.hooked, rfl⟩
  | i :: is, s => by
    have h₁ : ∃ hooked, (rzEnableInterrupt e i s).2 = { s with hooked := hooked } := by
      unfold rzEnableInterrupt
      split
      · exact ⟨_, rfl⟩
      · split_ifs <;> exact ⟨_, rfl⟩
    obtain ⟨k, hk⟩ := h₁
    unfold enableInterrupts
    dsimp only
    split_ifs
    · rw [hk]
      exact enableInterrupts_eq is _
    · exact ⟨k, hk⟩

theorem later_enableAndCreate {r : Init × State} (h : enableAndCreate e n s = some r) :
    s.pool.Later r.2.pool := by
  obtain ⟨k, hk⟩ := enableInterrupts_eq (e := e) receivers s
  unfold enableAndCreate at h
  dsimp only at h
  rw [hk] at h
  split_ifs at h
  · exact later_createVrinfo (s := setInitialized { s with hooked := k }) h
  · cases h
    exact later_metalDeviceClose (s := { s with hooked := k }) _

theorem later_rzProcInit {r : Init × State} (h : rzProcInit e n s = some r) : s.pool.Later r.2.pool := by
  have ho := later_openIpis (e := e) uioDevs s.pool
  unfold rzProcInit at h
  dsimp only at h
  split_ifs at h
  · exact later_createVrinfo h
  · exact ho.trans (later_enableAndCreate (s := setIpis s _) h)
  · cases h
    exact ho.trans (later_metalDeviceClose (s := setIpis s _) _)
  · cases h
    exact ho
  · exact later_enableAndCreate h

/-! ## What `rz_proc_remove` closes -/

/-- The devices of a set are closed. -/
structure Closes (P : Dev → Prop) (s s' : State) : Prop where
  later : s.pool.Later s'.pool
  owns : Owns s.pool s.dev → Owns s'.pool s'.dev
  gone : ∀ d, P d → s'.dev d = none
  stays : ∀ d, ¬P d → s'.dev d = s.dev d
  /-- One of them was closed already. -/
  twice : ∀ d h, P d → s.dev d = some h → s.pool.isOpen h = false → s'.pool.closedTwice = true
  closed : ∀ d h, P d → s.dev d = some h → s'.pool.isOpen h = false
  shut : ∀ h, s.pool.isOpen h = false → s'.pool.isOpen h = false
  gRscTable : s'.gRscTable = s.gRscTable
  insts : s'.insts = s.insts
  created : s'.created = s.created
  status : s'.status = s.status

theorem Closes.refl (s : State) : Closes (fun _ => False) s s where
  later := .refl _
  owns := id
  gone _ := False.elim
  stays _ _ := rfl
  twice _ _ := False.elim
  closed _ _ := False.elim
  shut _ := id
  gRscTable := rfl
  insts := rfl
  created := rfl
  status := rfl

theorem Closes.trans {P Q : Dev → Prop} {s s₁ s₂ : State} (h₁ : Closes P s s₁) (h₂ : Closes Q s₁ s₂) :
    Closes (fun d => P d ∨ Q d) s s₂ where
  later := h₁.later.trans h₂.later
  owns := h₂.owns ∘ h₁.owns
  gone d hd := by
    by_cases hq : Q d
    · exact h₂.gone d hq
    · rw [h₂.stays d hq, h₁.gone d (hd.resolve_right hq)]
  stays d hd := by rw [h₂.stays d fun h => hd (.inr h), h₁.stays d fun h => hd (.inl h)]
  twice d h hd hh hc := by
    by_cases hp : P d
    · exact h₂.later.closedTwice (h₁.twice d h hp hh hc)
    · exact h₂.twice d h (hd.resolve_left hp) ((h₁.stays d hp).trans hh) (h₁.shut h hc)
  closed d h hd hh := by
    by_cases hp : P d
    · exact h₂.shut h (h₁.closed d h hp hh)
    · exact h₂.closed d h (hd.resolve_left hp) ((h₁.stays d hp).trans hh)
  shut h hh := h₂.shut h (h₁.shut h hh)
  gRscTable := h₂.gRscTable.trans h₁.gRscTable
  insts := h₂.insts.trans h₁.insts
  created := h₂.created.trans h₁.created
  status := h₂.status.trans h₁.status

theorem Closes.congr {P Q : Dev → Prop} (h : Closes P s s') (hpq : ∀ d, Q d ↔ P d) : Closes Q s s' := by
  rwa [show Q = P from funext fun d => propext (hpq d)]

theorem closes_foldl {α : Type} {f : State → α → State} {P : α → Dev → Prop}
    (hf : ∀ s a, Closes (P a) s (f s a)) (l : List α) (s : State) :
    Closes (fun d => ∃ a ∈ l, P a d) s (l.foldl f s) := by
  induction l generalizing s with
  | nil => exact (Closes.refl s).congr fun d => by simp
  | cons a l ih => exact ((hf s a).trans (ih _)).congr fun d => by simp

theorem closes_closeDev (s : State) (d : Dev) : Closes (· = d) s (closeDev s d) := by
  unfold closeDev
  cases hd : s.dev d with
  | none =>
    exact { Closes.refl s with
      gone := by
        rintro _ rfl
        exact hd
      stays := fun _ _ => rfl
      twice := by
        rintro _ h rfl hh
        exact absurd (hd.symm.trans hh) nofun
      closed := by
        rintro _ h rfl hh
        exact absurd (hd.symm.trans hh) nofun }
  | some h =>
    exact {
      later := Pool.later_close ..
      owns := fun ho => ho.drop hd
      gone := by
        rintro _ rfl
        exact Function.update_self ..
      stays := fun d' hne => Function.update_of_ne hne ..
      twice := by
        rintro _ h' rfl hh hc
        cases hd.symm.trans hh
        exact Pool.closedTwice_close_of_closed hc
      closed := by
        rintro _ h' rfl hh
        cases hd.symm.trans hh
        exact Pool.isOpen_close
      shut := fun _ => Pool.isOpen_close_of_closed
      gRscTable := rfl
      insts := rfl
      created := rfl
      status := rfl }

theorem closes_deinitMemoryDeviceIndividual (s : State) (d : MemDev) :
    Closes (· = .mem d) s (deinitMemoryDeviceIndividual s d) :=
  { closes_closeDev { s with mem := Function.update s.mem d false } (.mem d) with }

theorem closes_deinitMemoryDevice (s : State) : Closes (fun d => ∃ m, d = .mem m) s (deinitMemoryDevice s) :=
  (closes_foldl closes_deinitMemoryDeviceIndividual memDevs s).congr fun _ =>
    ⟨fun ⟨m, h⟩ => ⟨m, mem_memDevs m, h⟩, fun ⟨m, _, h⟩ => ⟨m, h⟩⟩

theorem closeDev_mem (s : State) (d : Dev) : (closeDev s d).mem = s.mem := by
  unfold closeDev
  split <;> rfl

theorem deinitMemoryDevice_mem (s : State) (d : MemDev) : (deinitMemoryDevice s).mem d = false := by
  have hf : ∀ (ds : List MemDev) (s : State), d ∈ ds ∨ s.mem d = false →
      (ds.foldl deinitMemoryDeviceIndividual s).mem d = false := by
    intro ds
    induction ds with
    | nil => exact fun s h => h.resolve_left (List.not_mem_nil)
    | cons d' ds ih =>
      intro s h
      have hm : (deinitMemoryDeviceIndividual s d').mem d = if d = d' then false else s.mem d := by
        unfold deinitMemoryDeviceIndividual
        rw [closeDev_mem]
        exact Function.update_apply ..
      refine ih _ ?_
      rw [hm]
      rcases h with h | h
      · rcases List.mem_cons.mp h with rfl | h
        · exact .inr (if_pos rfl)
        · exact .inl h
      · exact .inr (by rw [h, ite_self])
  exact hf memDevs s (.inl (mem_memDevs d))

theorem foldl_disable (is : List UioDev) (s : State) : ∃ hooked registered,
    is.foldl rzDisableInterrupt s =
      { s with
        hooked := hooked
        registered := registered } ∧
    (∀ h, hooked h = true → s.hooked h = true ∧ ∀ i ∈ is, s.dev (.ipi i) ≠ some h) ∧
    ∀ i, registered i = s.registered i ∨ registered i = 0 := by
  induction is generalizing s with
  | nil => exact ⟨s.hooked, s.registered, rfl, fun h hh => ⟨hh, nofun⟩, fun _ => .inl rfl⟩
  | cons i is ih =>
    have h₁ : ∃ hooked registered, rzDisableInterrupt s i =
          { s with
            hooked := hooked
            registered := registered } ∧
        (∀ h, hooked h = true → s.hooked h = true ∧ s.dev (.ipi i) ≠ some h) ∧
        ∀ i, registered i = s.registered i ∨ registered i = 0 := by
      unfold rzDisableInterrupt
      cases hd : s.dev (.ipi i) with
      | none => exact ⟨s.hooked, s.registered, rfl, fun h hh => ⟨hh, nofun⟩, fun _ => .inl rfl⟩
      | some x =>
        dsimp only
        split_ifs with hx
        · refine ⟨_, _, rfl, fun h hh => ?_, fun j => ?_⟩
          · rw [Function.update_apply] at hh
            split_ifs at hh with hne
            exact ⟨hh, fun he => hne (Option.some.inj he).symm⟩
          · rw [Function.update_apply]
            split_ifs
            · exact .inr rfl
            · exact .inl rfl
        · refine ⟨s.hooked, s.registered, rfl, fun h hh => ⟨hh, ?_⟩, fun _ => .inl rfl⟩
          rintro ⟨⟩
          exact hx hh
    obtain ⟨k₁, r₁, e₁, hk₁, hr₁⟩ := h₁
    obtain ⟨k, r, e, hk, hr⟩ := ih (rzDisableInterrupt s i)
    rw [e₁] at e hk hr
    refine ⟨k, r, by rw [List.foldl_cons, e₁, e], fun h hh => ?_, fun j => ?_⟩
    · obtain ⟨hh₁, hne⟩ := hk h hh
      exact ⟨(hk₁ h hh₁).1, fun j hj => (List.mem_cons.mp hj).elim (fun he => he ▸ (hk₁ h hh₁).2) (hne j)⟩
    · rcases hr j with h | h
      · exact (hr₁ j).imp h.trans h.trans
      · exact .inr h

/-- What closing a device leaves. -/
structure Quiet (s s' : State) : Prop where
  hooked : s'.hooked = s.hooked
  registered : s'.registered = s.registered
  initialized : s'.initialized = s.initialized

theorem quiet_closeDev (s : State) (d : Dev) : Quiet s (closeDev s d) := by
  unfold closeDev
  split <;> exact ⟨rfl, rfl, rfl⟩

theorem quiet_foldl {α : Type} {f : State → α → State} (hf : ∀ s a, Quiet s (f s a)) (l : List α)
    (s : State) :
    Quiet s (l.foldl f s) := by
  induction l generalizing s with
  | nil => exact ⟨rfl, rfl, rfl⟩
  | cons a l ih =>
    have h₁ := hf s a
    have h₂ := ih (f s a)
    exact ⟨h₂.hooked.trans h₁.hooked, h₂.registered.trans h₁.registered, h₂.initialized.trans h₁.initialized⟩

theorem quiet_deinitMemoryDevice (s : State) : Quiet s (deinitMemoryDevice s) :=
  quiet_foldl (fun s d =>
    have h := quiet_closeDev { s with mem := Function.update s.mem d false } (.mem d)
    ⟨h.hooked, h.registered, h.initialized⟩) memDevs s

/-- The devices that `rz_proc_remove` closes, with or without a `vr_info`. -/
def Removes (b : Bool) : Dev → Prop
  | .ipi _ => True
  | .mem _ => b = true

/-- `rz_proc_remove`, when the mailbox is registered once at most. -/
structure Removed (b : Bool) (s s' : State) : Prop where
  closes : Closes (Removes b) s s'
  mem : b = true → ∀ d, s'.mem d = false
  keep : b = false → s'.mem = s.mem
  hooked : ∀ h, s'.hooked h = true →
    s.hooked h = true ∧ (s.initialized = true → ∀ i ∈ receivers, s.dev (.ipi i) ≠ some h)
  initialized : s'.initialized = false
  registered_mbx : s'.registered .mbx = 0
  registered : ∀ i, s'.registered i = s.registered i ∨ s'.registered i = 0

/-- The memory devices go with the `vr_info`. -/
theorem closes_deinit (b : Bool) (s : State) :
    Closes (fun d => b = true ∧ ∃ m, d = .mem m) s (if b then deinitMemoryDevice s else s) := by
  cases b with
  | false => exact (Closes.refl s).congr fun _ => ⟨fun h => Bool.false_ne_true h.1, False.elim⟩
  | true => exact (closes_deinitMemoryDevice s).congr fun _ => ⟨And.right, fun h => ⟨rfl, h⟩⟩

theorem quiet_deinit (b : Bool) (s : State) : Quiet s (if b then deinitMemoryDevice s else s) := by
  cases b with
  | false => exact ⟨rfl, rfl, rfl⟩
  | true => exact quiet_deinitMemoryDevice s

/-- The interrupts are disabled if they had been enabled. -/
theorem disable_receivers (s : State) : ∃ hooked registered,
    (if s.initialized then receivers.foldl rzDisableInterrupt s else s) =
      { s with
        hooked := hooked
        registered := registered } ∧
    (∀ h, hooked h = true → s.hooked h = true ∧
      (s.initialized = true → ∀ i ∈ receivers, s.dev (.ipi i) ≠ some h)) ∧
    ∀ i, registered i = s.registered i ∨ registered i = 0 := by
  split_ifs with hi
  · obtain ⟨hk, rg, h, hh, hr⟩ := foldl_disable receivers s
    exact ⟨hk, rg, h, fun x hx => ⟨(hh x hx).1, fun _ => (hh x hx).2⟩, hr⟩
  · exact ⟨s.hooked, s.registered, rfl, fun x hx => ⟨hx, fun h => absurd h hi⟩, fun _ => .inl rfl⟩

theorem closes_ipis (s : State) :
    Closes (fun d => ∃ i, d = .ipi i) s (uioDevs.foldl (fun s i => closeDev s (.ipi i)) s) :=
  (closes_foldl (fun s i => closes_closeDev s (.ipi i)) uioDevs s).congr fun _ =>
    ⟨fun ⟨i, h⟩ => ⟨i, mem_uioDevs i, h⟩, fun ⟨i, _, h⟩ => ⟨i, h⟩⟩

theorem foldl_closeDev_mem (is : List UioDev) (s : State) :
    (is.foldl (fun s i => closeDev s (.ipi i)) s).mem = s.mem := by
  induction is generalizing s with
  | nil => rfl
  | cons i is ih => exact (ih _).trans (closeDev_mem ..)

theorem rzProcRemove_removed (b : Bool) (hr : s.registered .mbx ≤ 1) : Removed b s (rzProcRemove b s) := by
  obtain ⟨s₁, e₁⟩ : ∃ s₁, s₁ = if b then deinitMemoryDevice s else s := ⟨_, rfl⟩
  have c₁ : Closes (fun d => b = true ∧ ∃ m, d = .mem m) s s₁ := e₁ ▸ closes_deinit b s
  have q₁ : Quiet s s₁ := e₁ ▸ quiet_deinit b s
  obtain ⟨hk, rg, h₂, hh, hrg⟩ := disable_receivers s₁
  obtain ⟨s₃, e₃⟩ : ∃ s₃, s₃ = uioDevs.foldl (fun s i => closeDev s (.ipi i))
      { s₁ with
        hooked := hk
        registered := rg } := ⟨_, rfl⟩
  have c₃ := closes_ipis { s₁ with hooked := hk, registered := rg }
  have q₃ := quiet_foldl (fun s i => quiet_closeDev s (.ipi i))
    uioDevs { s₁ with hooked := hk, registered := rg }
  have m₃ : s₃.mem = s₁.mem := e₃ ▸ foldl_closeDev_mem uioDevs _
  rw [← e₃] at c₃ q₃
  have e₄ : rzProcRemove b s =
      { s₃ with
        registered := Function.update s₃.registered .mbx 0
        initialized := false } := by
    rw [rzProcRemove, if_neg (Nat.not_lt.mpr hr)]
    dsimp only
    rw [← e₁, h₂, ← e₃]
  have hreg : ∀ i, Function.update s₃.registered .mbx 0 i = s.registered i ∨
      Function.update s₃.registered .mbx 0 i = 0 := by
    intro i
    rcases eq_or_ne i .mbx with rfl | hne
    · exact .inr (Function.update_self ..)
    · rw [Function.update_of_ne hne, q₃.registered, ← q₁.registered]
      exact hrg i
  have c₂ : Closes (fun _ => False) s₁ { s₁ with hooked := hk, registered := rg } := { Closes.refl s₁ with }
  have c := (c₁.trans c₂).trans c₃
  rw [e₄]
  exact {
    closes := Closes.congr { c with } fun d => by cases d <;> simp [Removes]
    mem := by
      rintro rfl d
      exact (congrFun m₃ d).trans (e₁ ▸ deinitMemoryDevice_mem s d)
    keep := by
      rintro rfl
      exact m₃.trans (e₁ ▸ rfl)
    hooked := fun h hx => by
      have hx : s₃.hooked h = true := hx
      rw [q₃.hooked] at hx
      obtain ⟨h₅, h₆⟩ := hh h hx
      rw [q₁.hooked] at h₅
      refine ⟨h₅, fun hi i hm => ?_⟩
      rw [← c₁.stays (.ipi i) fun h => nomatch h.2]
      exact h₆ (q₁.initialized.trans hi) i hm
    initialized := rfl
    registered_mbx := Function.update_self UioDev.mbx 0 s₃.registered
    registered := hreg }

end CR8Devkit.Platform
