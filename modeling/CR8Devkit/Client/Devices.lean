import CR8Devkit.Client.Platform

/-!
# What `rz_proc_init` leaves

* `Inv`: all devices are there and open, each in one place, or none is there.
* **`rzProcInit_inv`**: with all that it needs, `rz_proc_init` brings everything up, or leaves it as
  it was.
* `GoesWrong`: behind the mailboxes something is missing.
* **`rzProcInit_wrong`**: then a device stays in its place although it is closed.
-/

namespace CR8Devkit.Platform

open Transition Handles

open Mailbox (UioDev)

variable {e : Env} {s s' : State} {a : Act} {n : ℕ}

/-! ## Runs without a break -/

/-- While `rz_proc_init` does not go wrong: all devices are there, or none. -/
structure Inv (s : State) : Prop where
  owns : Owns s.pool s.dev
  dev : ∀ d, s.dev d = none ↔ s.initialized = false
  mem : ∀ d, s.mem d = s.initialized
  hooked : ∀ h, s.hooked h = true → s.initialized = true ∧ ∃ i ∈ receivers, s.dev (.ipi i) = some h
  mbx : s.registered .mbx = if s.initialized then 1 else 0
  receiver : ∀ i, i ≠ .mbx → s.registered i = 0
  table : ∀ h, s.gRscTable = some h → s.dev (.mem .rsc) = some h

theorem inv_start (status : ℕ → BitVec 8) : Inv (start status) where
  owns := owns_empty
  dev _ := ⟨fun _ => rfl, fun _ => rfl⟩
  mem _ := rfl
  hooked _ h := absurd h Bool.false_ne_true
  mbx := rfl
  receiver _ _ := rfl
  table _ h := nomatch h

theorem Inv.mbx_le (hi : Inv s) : s.registered .mbx ≤ 1 := by
  rw [hi.mbx]
  split <;> omega

/-- Whoever calls `rz_proc_remove`, nothing is left. -/
theorem Removed.inv {b : Bool} (hr : Removed b s s') (hi : Inv s) (hb : s.initialized = true → b = true) :
    Inv { s' with gRscTable := none } := by
  have hdev : ∀ d, s'.dev d = none := by
    intro d
    by_cases hd : Removes b d
    · exact hr.closes.gone d hd
    · rw [hr.closes.stays d hd, hi.dev]
      refine Bool.eq_false_iff.mpr fun h => hd ?_
      cases d with
      | ipi => trivial
      | mem => exact hb h
  exact {
    owns := hr.closes.owns hi.owns
    dev := fun d => ⟨fun _ => hr.initialized, fun _ => hdev d⟩
    mem := fun d => by
      refine Eq.trans ?_ hr.initialized.symm
      cases b with
      | true => exact hr.mem rfl d
      | false =>
        rw [hr.keep rfl, hi.mem]
        exact Bool.eq_false_iff.mpr fun h => Bool.false_ne_true (hb h)
    hooked := fun h hh => by
      obtain ⟨h₁, h₂⟩ := hr.hooked h hh
      obtain ⟨h₃, i, hm, h₄⟩ := hi.hooked h h₁
      exact absurd h₄ (h₂ h₃ i hm)
    mbx := hr.registered_mbx.trans (if_neg (Bool.eq_false_iff.mp hr.initialized)).symm
    receiver := fun i hne => (hr.registered i).elim (fun h => h.trans (hi.receiver i hne)) id
    table := fun _ h => nomatch h }

theorem openIpis_owns (is : List UioDev) (p : Pool) (t : Dev → Option ℕ) (ho : Owns p t)
    (ht : ∀ i ∈ is, t (.ipi i) = none) (hn : is.Nodup) :
    Owns (openIpis e is p).2 (ipis t fun i => ((openIpis e is p).1 i).or (t (.ipi i))) ∧
    ∀ i, ((openIpis e is p).1 i = none ↔ i ∉ is ∨ e.openIpi i = false) := by
  induction is generalizing p t with
  | nil =>
    refine ⟨ho.sub fun d h hd => ?_, fun i => ⟨fun _ => .inl List.not_mem_nil, fun _ => rfl⟩⟩
    cases d <;> exact hd
  | cons i is ih =>
    obtain ⟨hi, hn⟩ := List.nodup_cons.mp hn
    unfold openIpis
    split_ifs with he
    · have ht' : ∀ j ∈ is, Function.update t (.ipi i) (some p.next) (.ipi j) = none := by
        intro j hj
        have hne : Dev.ipi j ≠ Dev.ipi i := fun h => hi (Dev.ipi.inj h ▸ hj)
        rw [Function.update_of_ne hne]
        exact ht j (List.mem_cons_of_mem _ hj)
      obtain ⟨h₁, h₂⟩ := ih p.open _ (ho.take (.ipi i)) ht' hn
      have hin : (openIpis e is p.open).1 i = none := (h₂ i).mpr (.inl hi)
      refine ⟨h₁.sub fun d h hd => ?_, fun j => ?_⟩
      · cases d with
        | mem d => exact hd
        | ipi j =>
          simp only [ipis] at hd ⊢
          rcases eq_or_ne j i with rfl | hne
          · rw [Function.update_self, Option.some_or] at hd
            rw [hin, Function.update_self, Option.none_or, hd]
          · rw [Function.update_of_ne hne] at hd
            rwa [Function.update_of_ne fun h => hne (Dev.ipi.inj h)]
      · dsimp only
        rcases eq_or_ne j i with rfl | hne
        · rw [Function.update_self]
          simp [he]
        · rw [Function.update_of_ne hne, h₂]
          simp [hne]
    · obtain ⟨h₁, h₂⟩ := ih p t ho (fun j hj => ht j (List.mem_cons_of_mem _ hj)) hn
      refine ⟨h₁, fun j => (h₂ j).trans ?_⟩
      rcases eq_or_ne j i with rfl | hne
      · simp [he, hi]
      · simp [hne]

theorem enableInterrupts_all (is : List UioDev) (s : State) (hr : ∀ i ∈ is, s.registered i = 0)
    (he : ∀ i ∈ is, e.irq i = true) : ∃ hooked, enableInterrupts e is s =
      (true, { s with hooked := hooked }) ∧
      ∀ h, hooked h = true → s.hooked h = true ∨ ∃ i ∈ is, s.dev (.ipi i) = some h := by
  induction is generalizing s with
  | nil => exact ⟨s.hooked, rfl, fun h hh => .inl hh⟩
  | cons i is ih =>
    have h₁ : ∃ hooked, rzEnableInterrupt e i s = (true, { s with hooked := hooked }) ∧
        ∀ h, hooked h = true → s.hooked h = true ∨ s.dev (.ipi i) = some h := by
      unfold rzEnableInterrupt
      cases hd : s.dev (.ipi i) with
      | none => exact ⟨s.hooked, rfl, fun h hh => .inl hh⟩
      | some x =>
        dsimp only
        rw [if_neg (not_not.mpr (hr i List.mem_cons_self)), if_pos (he i List.mem_cons_self)]
        refine ⟨_, rfl, fun h hh => ?_⟩
        rw [Function.update_apply] at hh
        split_ifs at hh with hx
        · exact .inr (congrArg some hx.symm)
        · exact .inl hh
    obtain ⟨k₁, e₁, hk₁⟩ := h₁
    obtain ⟨k, e₂, hk⟩ := ih { s with hooked := k₁ } (fun j hj => hr j (List.mem_cons_of_mem _ hj))
      fun j hj => he j (List.mem_cons_of_mem _ hj)
    refine ⟨k, ?_, fun h hh => ?_⟩
    · unfold enableInterrupts
      dsimp only
      rw [e₁, if_pos rfl, e₂]
    · rcases hk h hh with h₂ | ⟨j, hj, h₂⟩
      · exact (hk₁ h h₂).imp_right fun h => ⟨i, List.mem_cons_self, h⟩
      · exact .inr ⟨j, List.mem_cons_of_mem _ hj, h₂⟩

theorem initMemoryDevices_all (ds : List MemDev) (s : State) {r : Bool × State}
    (he : ∀ d ∈ ds, e.openMem d = true ∧ e.ioMem d = true) (h : initMemoryDevices e ds s = some r) :
    ∃ p t m, r = (true, { s with
        pool := p
        dev := t
        mem := m }) ∧
      (Owns s.pool s.dev → Owns p t) ∧ (∀ i, t (.ipi i) = s.dev (.ipi i)) ∧
      ∀ d, d ∈ ds ∨ s.dev (.mem d) ≠ none ∧ s.mem d = true → t (.mem d) ≠ none ∧ m d = true := by
  induction ds generalizing s r with
  | nil =>
    cases h
    exact ⟨s.pool, s.dev, s.mem, rfl, id, fun _ => rfl, fun d hd => hd.resolve_left List.not_mem_nil⟩
  | cons d ds ih =>
    obtain ⟨r₁, h₁, h₂⟩ := Option.bind_eq_some_iff.mp h
    obtain ⟨r₂, h₃, rfl⟩ := Option.map_eq_some_iff.mp h₂
    unfold initMemoryDeviceIndividual at h₁
    obtain ⟨he₁, he₂⟩ := he d List.mem_cons_self
    rw [if_pos he₁] at h₁
    dsimp only at h₁
    rw [if_pos he₂] at h₁
    obtain ⟨-, h₁⟩ := Option.ite_none_right_eq_some.mp h₁
    cases h₁
    obtain ⟨p, t, m, rfl, ho, ht, hm⟩ := ih _ (fun d' hd' => he d' (List.mem_cons_of_mem _ hd')) h₃
    refine ⟨p, t, m, rfl, fun hs => ho (hs.take _), fun i => ?_, fun d' hd' => hm d' ?_⟩
    · exact (ht i).trans (metalDeviceOpen_of_ne s (nofun : Dev.ipi i ≠ .mem d))
    · rcases eq_or_ne d' d with rfl | hne
      · have hd := metalDeviceOpen_self s (.mem d')
        have hm := Function.update_self d' true (metalDeviceOpen s (.mem d')).mem
        exact .inr ⟨fun h => Option.some_ne_none _ (hd.symm.trans h), hm⟩
      · rcases hd' with hd' | ⟨h₄, h₅⟩
        · exact .inl ((List.mem_cons.mp hd').resolve_left hne)
        · have hd := metalDeviceOpen_of_ne s fun h : Dev.mem d' = .mem d => hne (Dev.mem.inj h)
          have hm := Function.update_of_ne hne true (metalDeviceOpen s (.mem d)).mem
          exact .inr ⟨fun h => h₄ (hd.symm.trans h), hm.trans h₅⟩

theorem addMemoryDevices_eq {f : Vring → Option ℕ} (h : addMemoryDevices e n s = some f) :
    f = fun v => s.dev (.mem (v.base n)) :=
  (Option.some.inj (Option.ite_none_right_eq_some.mp h).2).symm

/-- With a `vr_info` for one of the two channels, if the memory devices all open. -/
theorem createVrinfo_done {r : Init × State} (hv : e.vrInfo = true) (hn : n ≤ 1)
    (ht : ∀ r₀, initVrinfo e s = some r₀ → r₀.1 = true) (h : createVrinfo e n s = some r) :
    ∃ s₁, initVrinfo e s = some (true, s₁) ∧ r = (.done fun v => s₁.dev (.mem (v.base n)), s₁) := by
  rw [createVrinfo, if_pos hv] at h
  obtain ⟨⟨o, s₁⟩, h₁, rfl⟩ := Option.map_eq_some_iff.mp h
  rcases initMemoryDevice_cases h₁ with ⟨h₂, -⟩ | ⟨⟨b, s₂⟩, h₀, -, h₂, h₃⟩
  · exact absurd hn (Nat.not_le_of_lt h₂)
  · obtain rfl : b = true := ht _ h₀
    obtain rfl : s₁ = s₂ := h₂
    refine ⟨s₁, h₀, ?_⟩
    rcases h₃ with ⟨-, h₃, hne⟩ | ⟨h₃, -⟩
    · dsimp only at h₃ hne
      cases ho : addMemoryDevices e n s₁ with
      | none => exact absurd (h₃.trans ho) hne
      | some f =>
        rw [h₃, ho]
        dsimp only
        rw [addMemoryDevices_eq ho]
    · exact absurd h₃ nofun

/-- All that `rz_proc_init` needs from its surroundings. -/
structure Env.Complete (e : Env) : Prop where
  ioMbx : e.ioMbx = true
  irq : ∀ i ∈ receivers, e.irq i = true
  mem : ∀ d, e.openMem d = true ∧ e.ioMem d = true

/-- The table of UIO devices is filled as far as they open. -/
theorem setIpis_spec (hi : Inv s) (hs : s.initialized = false) :
    Owns (setIpis s (openIpis e uioDevs s.pool)).pool (setIpis s (openIpis e uioDevs s.pool)).dev ∧
    (∀ i, (setIpis s (openIpis e uioDevs s.pool)).dev (.ipi i) = none ↔ e.openIpi i = false) ∧
    ∀ d, (setIpis s (openIpis e uioDevs s.pool)).dev (.mem d) = none := by
  have hdev : ∀ d, s.dev d = none := fun d => (hi.dev d).mpr hs
  obtain ⟨ho, hnone⟩ := openIpis_owns (e := e) uioDevs s.pool s.dev hi.owns (fun i _ => hdev _) (by decide)
  refine ⟨ho.sub fun d x hd => ?_, fun i => (hnone i).trans ?_, fun d => hdev (.mem d)⟩
  · cases d with
    | mem d => exact hd
    | ipi i =>
      have hd : (openIpis e uioDevs s.pool).1 i = some x := hd
      rw [ipis, hd, Option.some_or]
  · exact or_iff_right (not_not_intro (mem_uioDevs i))

theorem Inv.registered_receiver (hi : Inv s) : ∀ i ∈ receivers, s.registered i = 0 :=
  fun i hm => hi.receiver i fun h => absurd (h ▸ hm) (by decide)

/-- The first call of all: the steps up to the mailboxes. -/
theorem rzProcInit_first (hi : Inv s) (hs : s.initialized = false) (he : ∀ i, e.openIpi i = true) :
    rzProcInit e n s =
      if e.ioMbx then enableAndCreate e n (setIpis s (openIpis e uioDevs s.pool))
      else some (err1 false (setIpis s (openIpis e uioDevs s.pool))) := by
  have hmbx : s.registered .mbx = 0 := hi.mbx.trans (if_neg (Bool.eq_false_iff.mp hs))
  rw [rzProcInit, if_neg (Bool.eq_false_iff.mp hs), if_pos hmbx]
  exact if_pos (List.all_eq_true.mpr fun i _ => he i)

/-- A later call finds everything in its place. -/
theorem rzProcInit_again {r : Init × State} (hi : Inv s) (hs : s.initialized = true) (hv : e.vrInfo = true)
    (hn : n ≤ 1) (h : rzProcInit e n s = some r) : r = (.done fun v => s.dev (.mem (v.base n)), s) := by
  have hrsc : s.dev (.mem .rsc) ≠ none := fun h => absurd (((hi.dev _).mp h).symm.trans hs) Bool.false_ne_true
  have h₁ : initVrinfo e s = some (true, s) := if_neg hrsc
  rw [rzProcInit, if_pos hs] at h
  obtain ⟨s₁, h₂, rfl⟩ := createVrinfo_done hv hn (fun r₀ h₀ => by cases h₁.symm.trans h₀; rfl) h
  cases h₁.symm.trans h₂
  rfl

/-- Without all the UIO devices, what has been opened is lost. -/
theorem rzProcInit_lost {r : Init × State} (hi : Inv s) (hs : s.initialized = false)
    (he : ¬∀ i, e.openIpi i = true) (h : rzProcInit e n s = some r) :
    ∃ p, r = (.failed false, { s with pool := p }) ∧ Inv { s with pool := p } := by
  have hmbx : s.registered .mbx = 0 := hi.mbx.trans (if_neg (Bool.eq_false_iff.mp hs))
  rw [rzProcInit, if_neg (Bool.eq_false_iff.mp hs), if_pos hmbx] at h
  dsimp only at h
  rw [if_neg fun h => he fun i => List.all_eq_true.mp h i (mem_uioDevs i)] at h
  cases h
  obtain ⟨ho, -⟩ := setIpis_spec (e := e) hi hs
  refine ⟨_, rfl, { hi with owns := ?_ }⟩
  exact ho.sub fun d x hd => absurd (((hi.dev d).mpr hs).symm.trans hd) (Option.some_ne_none x).symm

/-- The memory devices, where they all open. -/
theorem initVrinfo_all {r : Bool × State} (hrsc : s.dev (.mem .rsc) = none)
    (he : ∀ d, e.openMem d = true ∧ e.ioMem d = true) (h : initVrinfo e s = some r) :
    ∃ p t m, r = (true, { s with
        pool := p
        dev := t
        mem := m }) ∧ (Owns s.pool s.dev → Owns p t) ∧ (∀ i, t (.ipi i) = s.dev (.ipi i)) ∧
      ∀ d, t (.mem d) ≠ none ∧ m d = true := by
  rw [initVrinfo, if_pos hrsc] at h
  obtain ⟨p, t, m, h₃, h₄, h₅, h₆⟩ := initMemoryDevices_all memDevs s (fun d _ => he d) h
  exact ⟨p, t, m, h₃, h₄, h₅, fun d => h₆ d (.inl (mem_memDevs d))⟩

/-- With all that it needs, the first call brings everything up. -/
theorem rzProcInit_up {r : Init × State} (hi : Inv s) (hs : s.initialized = false)
    (he : ∀ i, e.openIpi i = true)
    (hv : e.vrInfo = true) (hn : n ≤ 1) (hc : e.Complete) (h : rzProcInit e n s = some r) :
    ∃ s₁, r = (.done fun v => s₁.dev (.mem (v.base n)), s₁) ∧ Inv s₁ ∧ s₁.initialized = true ∧
      s₁.gRscTable = s.gRscTable ∧ s₁.insts = s.insts ∧ s₁.created = s.created ∧ s₁.status = s.status := by
  obtain ⟨ho, hipi, hmem⟩ := setIpis_spec (e := e) hi hs
  rw [rzProcInit_first hi hs he, if_pos hc.ioMbx] at h
  obtain ⟨s₀, hs₀⟩ : ∃ s₀, s₀ = setIpis s (openIpis e uioDevs s.pool) := ⟨_, rfl⟩
  rw [← hs₀] at h ho hipi hmem
  have hr₀ : s₀.registered = s.registered := hs₀ ▸ rfl
  obtain ⟨k, h₂, hk⟩ := enableInterrupts_all (e := e) receivers s₀ (hr₀ ▸ hi.registered_receiver) hc.irq
  rw [enableAndCreate, h₂] at h
  dsimp only at h
  rw [if_pos rfl] at h
  have hall := fun r₀ (h₀ : initVrinfo e (setInitialized { s₀ with hooked := k }) = some r₀) =>
    initVrinfo_all (s := setInitialized { s₀ with hooked := k }) (hmem .rsc) hc.mem h₀
  obtain ⟨s₁, h₃, rfl⟩ :=
    createVrinfo_done hv hn (fun r₀ h₀ => by obtain ⟨p, t, m, rfl, -⟩ := hall r₀ h₀; rfl) h
  obtain ⟨p, t, m, h₄, ho₂, hipi₂, hmem₂⟩ := hall _ h₃
  obtain rfl : s₁ = _ := (Prod.mk.inj h₄).2
  subst hs₀
  have hopen : ∀ i, t (.ipi i) ≠ none := fun i h => by
    have h₅ := (hipi i).mp ((hipi₂ i).symm.trans h)
    exact Bool.false_ne_true (h₅.symm.trans (he i))
  have hdev : ∀ d, t d ≠ none := fun d => by
    cases d with
    | mem d => exact (hmem₂ d).1
    | ipi i => exact hopen i
  refine ⟨_, rfl, ?_, rfl, rfl, rfl, rfl, rfl⟩
  exact {
    owns := ho₂ ho
    dev := fun d => ⟨fun h => absurd h (hdev d), nofun⟩
    mem := fun d => (hmem₂ d).2
    hooked := fun x hx => by
      refine ⟨rfl, ?_⟩
      rcases hk x hx with h₅ | ⟨i, hm, h₅⟩
      · exact absurd (hs.symm.trans (hi.hooked x h₅).1) Bool.false_ne_true
      · exact ⟨i, hm, (hipi₂ i).trans h₅⟩
    mbx := by
      show Function.update s.registered .mbx (s.registered .mbx + 1) .mbx = 1
      rw [Function.update_self, hi.mbx, hs]
      rfl
    receiver := fun i hne => (Function.update_of_ne hne _ s.registered).trans (hi.receiver i hne)
    table := fun x hx => absurd (((hi.dev _).mpr hs).symm.trans (hi.table x hx))
      (Option.some_ne_none x).symm }

theorem rzProcInit_inv {r : Init × State} (hi : Inv s)
    (hb : s.initialized = true ∨ (∀ i, e.openIpi i = true) → e.vrInfo = true ∧ n ≤ 1)
    (hc : s.initialized = false → (∀ i, e.openIpi i = true) → e.Complete) (h : rzProcInit e n s = some r) :
    (∃ p, s.initialized = false ∧ r = (.failed false, { s with pool := p }) ∧ Inv { s with pool := p }) ∨
    ∃ s₁, r = (.done fun v => s₁.dev (.mem (v.base n)), s₁) ∧ Inv s₁ ∧ s₁.initialized = true ∧
      (s.initialized = true → s₁ = s) ∧ s₁.gRscTable = s.gRscTable ∧ s₁.insts = s.insts ∧
      s₁.created = s.created ∧ s₁.status = s.status := by
  rcases Bool.eq_false_or_eq_true s.initialized with hs | hs
  · obtain ⟨hv, hn⟩ := hb (.inl hs)
    exact .inr ⟨s, rzProcInit_again hi hs hv hn h, hi, hs, fun _ => rfl, rfl, rfl, rfl, rfl⟩
  by_cases he : ∀ i, e.openIpi i = true
  · obtain ⟨hv, hn⟩ := hb (.inr he)
    obtain ⟨s₁, hr, hi₁, hs₁, hsame⟩ := rzProcInit_up hi hs he hv hn (hc hs he) h
    exact .inr ⟨s₁, hr, hi₁, hs₁, fun h => absurd (hs.symm.trans h) Bool.false_ne_true, hsame⟩
  · obtain ⟨p, hr, hp⟩ := rzProcInit_lost hi hs he h
    exact .inl ⟨p, hs, hr, hp⟩

/-! ## Runs with a break -/

theorem initMemoryDeviceIndividual_frame {d : MemDev} {r : Bool × State}
    (h : initMemoryDeviceIndividual e d s = some r) : ∃ p t m,
      r.2 = { s with
        pool := p
        dev := t
        mem := m } ∧
      (∀ x, x ≠ .mem d → t x = s.dev x) ∧
      (r.1 = true → e.openMem d = true ∧ t (.mem d) = some s.pool.next ∧ s.pool.next < p.next ∧
        (e.ioMem d = false → p.isOpen s.pool.next = false)) := by
  unfold initMemoryDeviceIndividual at h
  have ho := metalDeviceOpen_self s (.mem d)
  have hne : ∀ x, x ≠ .mem d → (metalDeviceOpen s (.mem d)).dev x = s.dev x :=
    fun x => metalDeviceOpen_of_ne s
  split_ifs at h with h₁ h₂
  · cases h
    exact ⟨_, _, _, rfl, hne, fun _ => ⟨h₁, ho, Nat.lt_succ_self _, fun h => absurd (h₂.symm.trans h) nofun⟩⟩
  · cases h
    have hc : metalDeviceClose (metalDeviceOpen s (.mem d)) (.mem d) =
        { metalDeviceOpen s (.mem d) with pool := s.pool.open.close s.pool.next } := by
      rw [metalDeviceClose, ho]
      rfl
    rw [hc]
    exact ⟨_, _, _, rfl, hne, fun _ => ⟨h₁, ho, Nat.lt_succ_self _, fun _ => Pool.isOpen_close⟩⟩
  · cases h
    unfold metalDeviceClose
    split <;> exact ⟨_, _, _, rfl, fun _ _ => rfl, nofun⟩

theorem initMemoryDevices_frame (ds : List MemDev) (s : State) {r : Bool × State}
    (h : initMemoryDevices e ds s = some r) : ∃ p t m,
      r.2 = { s with
        pool := p
        dev := t
        mem := m } ∧
      (∀ x, (∀ d ∈ ds, x ≠ .mem d) → t x = s.dev x) ∧
      (r.1 = true → ds.Nodup → ∀ d ∈ ds, e.openMem d = true ∧
        ∃ h, t (.mem d) = some h ∧ (e.ioMem d = false → p.isOpen h = false)) := by
  induction ds generalizing s r with
  | nil =>
    cases h
    exact ⟨_, _, _, rfl, fun _ _ => rfl, nofun⟩
  | cons d ds ih =>
    obtain ⟨⟨b, s₁⟩, h₁, h₂⟩ := Option.bind_eq_some_iff.mp h
    obtain ⟨r₂, h₃, rfl⟩ := Option.map_eq_some_iff.mp h₂
    have hl := later_initMemoryDevices h₃
    obtain ⟨p₁, t₁, m₁, e₁, hx₁, hd₁⟩ := initMemoryDeviceIndividual_frame h₁
    obtain ⟨p, t, m, e₂, hx, hd⟩ := ih s₁ h₃
    obtain rfl : s₁ = _ := e₁
    rw [e₂] at hl
    refine ⟨p, t, m, e₂, fun x hxd => ?_, fun hb hn d' hd' => ?_⟩
    · rw [hx x fun d' hd' => hxd d' (List.mem_cons_of_mem _ hd')]
      exact hx₁ x (hxd d List.mem_cons_self)
    · obtain ⟨hb₁, hb₂⟩ := Bool.and_eq_true_iff.mp hb
      obtain ⟨hnd, hn⟩ := List.nodup_cons.mp hn
      rcases List.mem_cons.mp hd' with rfl | hd'
      · obtain ⟨h₀, h₄, h₅, h₆⟩ := hd₁ hb₁
        refine ⟨h₀, s.pool.next, ?_, fun he => hl.closed _ h₅ (h₆ he)⟩
        rw [hx (.mem d') fun d'' hd'' he => hnd (Dev.mem.inj he ▸ hd'')]
        exact h₄
      · exact hd hb₂ hn d' hd'

theorem initVrinfo_frame {r : Bool × State} (h : initVrinfo e s = some r) : ∃ p t m,
    r.2 = { s with
      pool := p
      dev := t
      mem := m } ∧ ∀ i, t (.ipi i) = s.dev (.ipi i) := by
  unfold initVrinfo at h
  split_ifs at h
  · obtain ⟨p, t, m, e₁, hx, -⟩ := initMemoryDevices_frame memDevs s h
    exact ⟨p, t, m, e₁, fun i => hx _ fun _ _ => nofun⟩
  · cases h
    exact ⟨_, _, _, rfl, fun _ => rfl⟩

/-- No interrupt is enabled without `metal_irq_register`. -/
theorem enableInterrupts_irq (is : List UioDev) (s : State)
    (hs : ∀ i ∈ is, s.registered i = 0 ∧ s.dev (.ipi i) ≠ none) (h : (enableInterrupts e is s).1 = true) :
    ∀ i ∈ is, e.irq i = true := by
  induction is generalizing s with
  | nil => exact fun i hi => absurd hi List.not_mem_nil
  | cons i is ih =>
    obtain ⟨h₁, h₂⟩ := hs i List.mem_cons_self
    obtain ⟨x, hx⟩ := Option.ne_none_iff_exists'.mp h₂
    have he : rzEnableInterrupt e i s =
        if e.irq i then (true, { s with hooked := Function.update s.hooked x true }) else (false, s) := by
      unfold rzEnableInterrupt
      rw [hx]
      exact if_neg (not_not.mpr h₁)
    unfold enableInterrupts at h
    dsimp only at h
    rw [he] at h
    by_cases hi : e.irq i = true
    · rw [if_pos hi, if_pos rfl] at h
      have hm := ih { s with hooked := Function.update s.hooked x true }
        (fun j hj => hs j (List.mem_cons_of_mem _ hj)) h
      exact fun j hj => (List.mem_cons.mp hj).elim (fun he => he ▸ hi) (hm j)
    · rw [if_neg hi, if_neg Bool.false_ne_true] at h
      exact absurd h Bool.false_ne_true

/-- The mailbox is in its place, but closed. -/
def MbxClosed (s : State) : Prop :=
  s.registered .mbx ≤ 1 ∧ ∃ h, s.dev (.ipi .mbx) = some h ∧ s.pool.isOpen h = false

theorem mbxClosed_err1 {b : Bool} (hr : s.registered .mbx ≤ 1) (hd : s.dev (.ipi .mbx) ≠ none) :
    MbxClosed (err1 b s).2 := by
  obtain ⟨h, hh⟩ := Option.ne_none_iff_exists'.mp hd
  have e₁ : (err1 b s).2 = { s with pool := s.pool.close h } := by
    rw [err1, metalDeviceClose, hh]
  rw [e₁]
  exact ⟨hr, h, hh, Pool.isOpen_close⟩

/-- Either way `vrinfo` is opened first. -/
theorem createVrinfo_cases {r : Init × State} (hr : s.registered .mbx ≤ 1) (hd : s.dev (.ipi .mbx) ≠ none)
    (h : createVrinfo e n s = some r) :
    (∃ b, r.1 = .failed b) ∧ MbxClosed r.2 ∨
    ∃ s₁, initVrinfo e s = some (true, s₁) ∧ e.vrInfo = true ∧ n ≤ 1 ∧ (∃ f, r = (.done f, s₁)) := by
  rw [createVrinfo] at h
  split_ifs at h with hv
  · obtain ⟨⟨o, s₁⟩, h₁, rfl⟩ := Option.map_eq_some_iff.mp h
    rcases initMemoryDevice_cases h₁ with ⟨-, h₂⟩ | ⟨⟨b, s₂⟩, h₀, hn, h₂, h₃⟩
    · cases h₂
      exact .inl ⟨⟨true, rfl⟩, mbxClosed_err1 hr hd⟩
    · obtain rfl : s₁ = s₂ := h₂
      rcases h₃ with ⟨hb, h₃, hne⟩ | ⟨-, h₃⟩
      · obtain ⟨f, hf⟩ := Option.ne_none_iff_exists'.mp hne
        obtain rfl : o = some f := hf
        obtain rfl : b = true := hb
        exact .inr ⟨s₁, h₀, hv, hn, f, rfl⟩
      · obtain rfl : o = none := h₃
        obtain ⟨p, t, m, e₁, hi⟩ := initVrinfo_frame h₀
        obtain rfl : s₁ = _ := e₁
        exact .inl ⟨⟨true, rfl⟩, mbxClosed_err1 hr fun h => hd ((hi .mbx).symm.trans h)⟩
  · cases h
    exact .inl ⟨⟨false, rfl⟩, mbxClosed_err1 hr hd⟩

/-- `rz_proc_init` finds its mailboxes, but then misses something. -/
def GoesWrong (s : State) (e : Env) (notifyId : ℕ) : Prop :=
  if s.initialized then ¬(e.vrInfo = true ∧ notifyId ≤ 1)
  else (∀ i, e.openIpi i = true) ∧ ¬(e.vrInfo = true ∧ notifyId ≤ 1 ∧ e.Complete)

/-- `platform_init` has got arguments that it accepts. -/
def Accepted (platform : Bool) (procId rscId : ℕ) : Prop :=
  platform = true ∧ procId < rpvdevMaxNum ∧ rscId < rpvdevMaxNum

/-- A call in which `rz_proc_init` does. -/
def BreaksOff (s : State) : Act → Prop
  | .init platform e procId rscId _ =>
    Accepted platform procId rscId ∧ (e.priv = true ∧ e.inst = true) ∧ GoesWrong s e procId
  | _ => False

/-- The memory devices are in their places, but one of them is closed. -/
def MemClosed (s : State) : Prop :=
  s.initialized = true ∧ s.registered .mbx ≤ 1 ∧ s.dev (.ipi .mbx) ≠ none ∧ s.dev (.mem .rsc) ≠ none ∧
    ∃ d h, s.dev (.mem d) = some h ∧ s.pool.isOpen h = false

/-- All memory devices are in their places behind `initVrinfo`, also those that have no region. -/
theorem memClosed_initVrinfo {s₁ : State} (hinit : s.initialized = true) (hr : s.registered .mbx ≤ 1)
    (hmbx : s.dev (.ipi .mbx) ≠ none) (hrsc : s.dev (.mem .rsc) = none)
    (h : initVrinfo e s = some (true, s₁)) :
    (∀ d, e.openMem d = true) ∧ ∀ d, e.ioMem d = false → MemClosed s₁ := by
  rw [initVrinfo, if_pos hrsc] at h
  obtain ⟨p, t, m, e₁, hx, hd⟩ := initMemoryDevices_frame memDevs s h
  obtain rfl : s₁ = _ := e₁
  have hd := hd rfl (by decide)
  refine ⟨fun d => (hd d (mem_memDevs d)).1, fun d he => ?_⟩
  obtain ⟨-, y, h₂, -⟩ := hd .rsc (mem_memDevs _)
  obtain ⟨-, x, h₃, hclosed⟩ := hd d (mem_memDevs d)
  have hmbx₁ := hx (.ipi .mbx) fun _ _ => nofun
  exact ⟨hinit, hr, fun h => hmbx (hmbx₁.symm.trans h), fun h =>
    Option.some_ne_none y (h₂.symm.trans h), d, x, h₃,
    hclosed he⟩

/-- Behind the mailboxes, with something missing. -/
theorem enableAndCreate_wrong {r : Init × State} (hr : ∀ i, s.registered i = 0)
    (hd : ∀ i, s.dev (.ipi i) ≠ none)
    (hm : s.dev (.mem .rsc) = none) (hio : e.ioMbx = true) (hw : ¬(e.vrInfo = true ∧ n ≤ 1 ∧ e.Complete))
    (h : enableAndCreate e n s = some r) :
    (∃ b, r.1 = .failed b) ∧ MbxClosed r.2 ∨ (∃ f, r.1 = .done f) ∧ MemClosed r.2 := by
  obtain ⟨k, hk⟩ := enableInterrupts_eq (e := e) receivers s
  rw [enableAndCreate] at h
  split_ifs at h with hen
  · rw [hk] at h
    have hr₁ : (setInitialized { s with hooked := k }).registered .mbx ≤ 1 := by
      have hu := Function.update_self UioDev.mbx (s.registered .mbx + 1) s.registered
      exact Nat.le_of_eq (hu.trans (congrArg (· + 1) (hr .mbx)))
    rcases createVrinfo_cases hr₁ (hd .mbx) h with h₂ | ⟨s₂, h₂, hv, hn, f, rfl⟩
    · exact .inl h₂
    · obtain ⟨hopen, hclosed⟩ := memClosed_initVrinfo rfl hr₁ (hd .mbx) hm h₂
      obtain ⟨d, hd₁⟩ : ∃ d, e.ioMem d = false := by
        by_contra hmem
        refine hw ⟨hv, hn, hio, enableInterrupts_irq receivers s (fun i _ => ⟨hr i, hd i⟩) hen,
          fun d => ⟨hopen d, ?_⟩⟩
        exact (Bool.eq_false_or_eq_true _).resolve_right fun h => hmem ⟨d, h⟩
      exact .inr ⟨⟨f, rfl⟩, hclosed d hd₁⟩
  · cases h
    rw [hk]
    exact .inl ⟨⟨false, rfl⟩, mbxClosed_err1 (s := { s with hooked := k })
      ((hr .mbx).symm ▸ Nat.zero_le 1) (hd .mbx)⟩

theorem rzProcInit_wrong {r : Init × State} (hi : Inv s) (hw : GoesWrong s e n)
    (h : rzProcInit e n s = some r) :
    (∃ b, r.1 = .failed b) ∧ MbxClosed r.2 ∨ (∃ f, r.1 = .done f) ∧ MemClosed r.2 := by
  unfold GoesWrong at hw
  rcases Bool.eq_false_or_eq_true s.initialized with hs | hs
  · rw [if_pos hs] at hw
    rw [rzProcInit, if_pos hs] at h
    have hd : s.dev (.ipi .mbx) ≠ none := fun h => absurd (((hi.dev _).mp h).symm.trans hs) Bool.false_ne_true
    refine .inl ((createVrinfo_cases hi.mbx_le hd h).resolve_right ?_)
    rintro ⟨s₁, -, hv, hn, -⟩
    exact hw ⟨hv, hn⟩
  · rw [if_neg (Bool.eq_false_iff.mp hs)] at hw
    obtain ⟨he, hw⟩ := hw
    obtain ⟨-, hipi, hmem⟩ := setIpis_spec (e := e) hi hs
    have hd : ∀ i, (setIpis s (openIpis e uioDevs s.pool)).dev (.ipi i) ≠ none := fun i h =>
      Bool.false_ne_true (((hipi i).mp h).symm.trans (he i))
    have hr : ∀ i, (setIpis s (openIpis e uioDevs s.pool)).registered i = 0 := fun i => by
      by_cases hm : i = .mbx
      · exact hm ▸ hi.mbx.trans (if_neg (Bool.eq_false_iff.mp hs))
      · exact hi.receiver i hm
    rw [rzProcInit_first hi hs he] at h
    split_ifs at h with hio
    · exact enableAndCreate_wrong hr hd (hmem .rsc) hio hw h
    · cases h
      exact .inl ⟨⟨false, rfl⟩, mbxClosed_err1 ((hr .mbx).symm ▸ Nat.zero_le 1) (hd .mbx)⟩

end CR8Devkit.Platform
