import CR8Devkit.Client.Devices

/-!
# Instances of the platform over whole runs

Any sequence of `platform_init`, `platform_cleanup`, `platform_clear_driver_ok` and
`release_channel`, with any failures in between.

* `Goes`: what one call does that does not break off; `Broken`: what it leaves otherwise.
* **`devices`**: which runs close a device twice.
* **`regions`**: until when the regions of an instance stay open.
* **`slice`**: which slice of the resource table an instance has.
-/

namespace CR8Devkit.Platform

open Transition Handles

open Mailbox (UioDev)

variable {e : Env} {s s' : State} {a : Act} {n : ℕ}

/-! ## Steps -/

theorem later_rzProcRemove (b : Bool) (s : State) : s.pool.Later (rzProcRemove b s).pool := by
  by_cases hr : s.registered .mbx ≤ 1
  · exact (rzProcRemove_removed b hr).closes.later
  · rw [rzProcRemove, if_pos (Nat.not_le.mp hr)]
    exact .refl _

/-- What `platform_create_proc` does behind `rz_proc_init`. -/
theorem platformCreateProc_cases {rscId : ℕ} {mbxId : UioDev} {r : Option Inst × State}
    (h : platformCreateProc e n rscId mbxId s = some r) :
    ¬(e.priv = true ∧ e.inst = true) ∧ r = (none, s) ∨
    ∃ i s₁, (e.priv = true ∧ e.inst = true) ∧ rzProcInit e n s = some (i, s₁) ∧
      ((∃ b, i = .failed b ∧ r = (none, rzProcRemove b s₁)) ∨
       (∃ f, i = .done f ∧ ∃ table, s₁.gRscTable = some table ∧ r = (some ⟨n, mbxId, f, table, rscId⟩, s₁)) ∨
       (∃ f, i = .done f ∧ s₁.gRscTable = none ∧ (∃ table, f .rsc = some table ∧
          (e.mmap && retryRscTable e.setRscTable) = true ∧
          r = (some ⟨n, mbxId, f, table, 0⟩, { s₁ with gRscTable := some table }))) ∨
       ∃ f, i = .done f ∧ s₁.gRscTable = none ∧
          (f .rsc = none ∨ (e.mmap && retryRscTable e.setRscTable) = false) ∧ r =
            (none, rzProcRemove true s₁)) := by
  unfold platformCreateProc at h
  by_cases hp : (e.priv && e.inst) = true
  · rw [if_pos hp] at h
    obtain ⟨⟨i, s₁⟩, h₁, rfl⟩ := Option.map_eq_some_iff.mp h
    refine .inr ⟨i, s₁, Bool.and_eq_true_iff.mp hp, h₁, ?_⟩
    cases i with
    | failed b => exact .inl ⟨b, rfl, rfl⟩
    | done f =>
      dsimp only
      cases hg : s₁.gRscTable with
      | some table => exact .inr (.inl ⟨f, rfl, table, rfl, rfl⟩)
      | none =>
        cases hf : f .rsc with
        | none => exact .inr (.inr (.inr ⟨f, rfl, rfl, .inl hf, rfl⟩))
        | some table =>
          dsimp only
          split_ifs with hm
          · exact .inr (.inr (.inl ⟨f, rfl, rfl, table, hf, hm, rfl⟩))
          · exact .inr (.inr (.inr ⟨f, rfl, rfl, .inr (Bool.eq_false_iff.mpr hm), rfl⟩))
  · rw [if_neg hp] at h
    cases h
    exact .inl ⟨fun h => hp (Bool.and_eq_true_iff.mpr h), rfl⟩

theorem next_init_cases {platform : Bool} {rscId : ℕ} {mbxId : UioDev}
    (h : next s (.init platform e n rscId mbxId) = some s') :
    ¬Accepted platform n rscId ∧ s' = s ∨
    ∃ r, Accepted platform n rscId ∧ platformCreateProc e n rscId mbxId s = some r ∧
      s' = r.1.elim r.2 (addInst r.2) := by
  obtain ⟨r, h₁, rfl⟩ := Option.map_eq_some_iff.mp h
  unfold platformInit at h₁
  split_ifs at h₁ with ha
  · refine .inr ⟨r, ?_, h₁, rfl⟩
    simpa [Accepted, and_assoc] using ha
  · cases h₁
    refine .inl ⟨fun h => ha ?_, rfl⟩
    simpa [Accepted, and_assoc] using h

theorem virtioClearStatus_eq {table slice : ℕ} (h : virtioClearStatus table slice s = some s') :
    s' = { s with status := Function.update s.status slice 0 } :=
  (Option.some.inj (Option.ite_none_right_eq_some.mp h).2).symm

theorem next_clear (h : next s .clearDriverOk = some s' ∨ ∃ k, next s (.release k) = some s') :
    ∃ status, s' = { s with status := status } := by
  rcases h with h | ⟨k, h⟩
  · change s.gRscTable.elim _ _ = _ at h
    rcases Option.eq_none_or_eq_some s.gRscTable with hg | ⟨table, hg⟩
    · rw [hg] at h
      cases h
      exact ⟨s.status, rfl⟩
    · rw [hg] at h
      exact ⟨_, virtioClearStatus_eq h⟩
  · obtain ⟨i, -, h⟩ := Option.bind_eq_some_iff.mp h
    exact ⟨_, virtioClearStatus_eq h⟩

theorem later_next (h : next s a = some s') : s.pool.Later s'.pool := by
  cases a with
  | init platform e n rscId mbxId =>
    rcases next_init_cases h with ⟨-, rfl⟩ | ⟨r, -, h₁, rfl⟩
    · exact .refl _
    · rcases platformCreateProc_cases h₁ with ⟨-, rfl⟩ | ⟨i, s₁, -, h₂, h₃⟩
      · exact .refl _
      · have hl := later_rzProcInit h₂
        rcases h₃ with ⟨b, -, rfl⟩ | ⟨f, -, table, -, rfl⟩ | ⟨f, -, -, table, -, -, rfl⟩ | ⟨f, -, -, -, rfl⟩
        · exact hl.trans (later_rzProcRemove b s₁)
        · exact hl
        · exact hl
        · exact hl.trans (later_rzProcRemove true s₁)
  | cleanup k =>
    cases k with
    | none =>
      cases h
      exact .refl _
    | some k =>
      obtain ⟨i, -, rfl⟩ := Option.map_eq_some_iff.mp h
      exact later_rzProcRemove true s
  | clearDriverOk =>
    obtain ⟨st, rfl⟩ := next_clear (.inl h)
    exact .refl _
  | release k =>
    obtain ⟨st, rfl⟩ := next_clear (.inr ⟨k, h⟩)
    exact .refl _

/-- A device has been closed twice, or the next `rz_proc_remove` will do that. -/
def Broken (s : State) : Prop := s.pool.closedTwice = true ∨ MemClosed s

theorem MbxClosed.removed {b : Bool} (hc : MbxClosed s) : (rzProcRemove b s).pool.closedTwice = true := by
  obtain ⟨hr, h, hd, ho⟩ := hc
  exact (rzProcRemove_removed b hr).closes.twice (.ipi .mbx) h trivial hd ho

theorem MemClosed.removed (hc : MemClosed s) : (rzProcRemove true s).pool.closedTwice = true := by
  obtain ⟨-, hr, -, -, d, h, hd, ho⟩ := hc
  exact (rzProcRemove_removed true hr).closes.twice (.mem d) h rfl hd ho

/-- Whatever is behind `rz_proc_init`. -/
theorem broken_of_init {rscId : ℕ} {mbxId : UioDev} {r : Option Inst × State}
    (h : platformCreateProc e n rscId mbxId s = some r) (hp : e.priv = true ∧ e.inst = true)
    (hi : ∀ i, rzProcInit e n s = some i →
      (∃ b, i.1 = .failed b) ∧ MbxClosed i.2 ∨ (∃ f, i.1 = .done f) ∧ MemClosed i.2) :
    Broken (r.1.elim r.2 (addInst r.2)) := by
  rcases platformCreateProc_cases h with ⟨h₁, -⟩ | ⟨i, s₁, -, h₁, h₂⟩
  · exact absurd hp h₁
  · rcases hi _ h₁ with ⟨⟨b, hb⟩, hc⟩ | ⟨⟨f, hf⟩, hc⟩
    · obtain rfl : i = .failed b := hb
      rcases h₂ with ⟨b', hb, rfl⟩ | ⟨f, hf, -⟩ | ⟨f, hf, -⟩ | ⟨f, hf, -⟩
      · exact .inl hc.removed
      · exact absurd hf nofun
      · exact absurd hf nofun
      · exact absurd hf nofun
    · obtain rfl : i = .done f := hf
      rcases h₂ with ⟨b, hb, -⟩ | ⟨f', -, table, -, rfl⟩ | ⟨f', -, -, table, -, -, rfl⟩ | ⟨f', -, -, -, rfl⟩
      · exact absurd hb nofun
      · exact .inr hc
      · exact .inr hc
      · exact .inl hc.removed

theorem Inv.broken (hi : Inv s) (hb : BreaksOff s a) (h : next s a = some s') : Broken s' := by
  cases a with
  | init platform e n rscId mbxId =>
    obtain ⟨ha, hp, hw⟩ := hb
    rcases next_init_cases h with ⟨h₁, -⟩ | ⟨r, -, h₁, rfl⟩
    · exact absurd ha h₁
    · exact broken_of_init h₁ hp fun i h₂ => rzProcInit_wrong hi hw h₂
  | cleanup | clearDriverOk | release => exact hb.elim

theorem Broken.next (hb : Broken s) (h : next s a = some s') : Broken s' := by
  rcases hb with hb | hc
  · exact .inl ((later_next h).closedTwice hb)
  cases a with
  | init platform e n rscId mbxId =>
    rcases next_init_cases h with ⟨-, rfl⟩ | ⟨r, -, h₁, rfl⟩
    · exact .inr hc
    · by_cases hp : e.priv = true ∧ e.inst = true
      · refine broken_of_init h₁ hp fun i h₂ => ?_
        have hc' := hc
        obtain ⟨hs, hr, hd, hrsc, -⟩ := hc
        rw [rzProcInit, if_pos hs] at h₂
        refine (createVrinfo_cases hr hd h₂).imp_right ?_
        rintro ⟨s₁, h₃, -, -, f, rfl⟩
        have h₄ : initVrinfo e s = some (true, s) := if_neg hrsc
        cases h₄.symm.trans h₃
        exact ⟨⟨f, rfl⟩, hc'⟩
      · rcases platformCreateProc_cases h₁ with ⟨-, rfl⟩ | ⟨i, s₁, h₂, -⟩
        · exact .inr hc
        · exact absurd h₂ hp
  | cleanup k =>
    cases k with
    | none =>
      cases h
      exact .inr hc
    | some k =>
      obtain ⟨i, -, rfl⟩ := Option.map_eq_some_iff.mp h
      exact .inl hc.removed
  | clearDriverOk =>
    obtain ⟨st, rfl⟩ := next_clear (.inl h)
    exact .inr hc
  | release k =>
    obtain ⟨st, rfl⟩ := next_clear (.inr ⟨k, h⟩)
    exact .inr hc

/-- A call that takes down all that is there: a cleanup of any instance, or an initialisation
without a `g_rsc_table` that does not get one. -/
def TearsDown (s : State) : Act → Prop
  | .init platform e procId rscId _ =>
    Accepted platform procId rscId ∧ (e.priv = true ∧ e.inst = true) ∧ s.gRscTable = none ∧
      (e.mmap && retryRscTable e.setRscTable) = false
  | .cleanup k => k ≠ none
  | _ => False

theorem Inv.init_done (hi : Inv s) {platform : Bool} {rscId : ℕ} {mbxId : UioDev}
    (hb : ¬BreaksOff s (.init platform e n rscId mbxId)) (ha : Accepted platform n rscId)
    (hp : e.priv = true ∧ e.inst = true) {r : Init × State} (h : rzProcInit e n s = some r) :
    (∃ p, s.initialized = false ∧ r = (.failed false, { s with pool := p }) ∧ Inv { s with pool := p }) ∨
    ∃ s₁, r = (.done fun v => s₁.dev (.mem (v.base n)), s₁) ∧ Inv s₁ ∧ s₁.initialized = true ∧
      (s.initialized = true → s₁ = s) ∧ s₁.gRscTable = s.gRscTable ∧ s₁.insts = s.insts ∧
      s₁.created = s.created ∧ s₁.status = s.status := by
  have hw : ¬GoesWrong s e n := fun hw => hb ⟨ha, hp, hw⟩
  unfold GoesWrong at hw
  refine rzProcInit_inv hi ?_ ?_ h
  · rintro (hs | he)
    · rw [if_pos hs] at hw
      exact not_not.mp hw
    · rcases Bool.eq_false_or_eq_true s.initialized with hs | hs
      · rw [if_pos hs] at hw
        exact not_not.mp hw
      · rw [if_neg (Bool.eq_false_iff.mp hs)] at hw
        have hw := not_not.mp fun h => hw ⟨he, h⟩
        exact ⟨hw.1, hw.2.1⟩
  · intro hs he
    rw [if_neg (Bool.eq_false_iff.mp hs)] at hw
    exact (not_not.mp fun h => hw ⟨he, h⟩).2.2

/-- What a call does that does not break off. -/
structure Goes (s : State) (a : Act) (s' : State) : Prop where
  inv : Inv s'
  keeps : s.initialized = true → ¬TearsDown s a → s'.dev = s.dev ∧ s'.pool = s.pool ∧ s'.initialized = true
  tears : s.initialized = true → TearsDown s a → ∀ d h, s.dev d = some h → s'.pool.isOpen h = false
  creates : s'.created = s.created + 1 → ∃ i, s'.insts s.created = some i ∧ s'.initialized = true ∧
    (∀ v, i.vrInfo v = s'.dev (.mem (v.base i.notifyId))) ∧ s'.dev (.mem .rsc) = some i.table

/-- A call that leaves everything but the status bytes and what an instance is not made of. -/
theorem goes_of_same (hi : Inv s') (hd : s.initialized = true → s'.dev = s.dev ∧ s'.pool = s.pool)
    (hs : s'.initialized = s.initialized) (hc : s'.created = s.created)
    (ht : s.initialized = true → ¬TearsDown s a) :
    Goes s a s' where
  inv := hi
  keeps h _ := ⟨(hd h).1, (hd h).2, hs.trans h⟩
  tears h ht' := absurd ht' (ht h)
  creates h := absurd (hc.symm.trans h) (Nat.succ_ne_self _).symm

/-- A call of `rz_proc_remove` on the devices that are there. -/
theorem goes_of_removed {s₁ : State} (insts : ℕ → Option Inst) (hi : Inv s₁)
    (h₁ : s.initialized = true → s₁ = s) (hc : s₁.created = s.created)
    (ht : s.initialized = true → TearsDown s a) (hr : Removed true s₁ (rzProcRemove true s₁)) :
    Goes s a { rzProcRemove true s₁ with
      insts := insts
      gRscTable := none } where
  inv := { hr.inv hi fun _ => rfl with }
  keeps h ht' := absurd (ht h) ht'
  tears h _ d x hd := by
    obtain rfl := h₁ h
    exact hr.closes.closed d x (by cases d <;> trivial) hd
  creates h := absurd ((hr.closes.created.trans hc).symm.trans h) (Nat.succ_ne_self _).symm

theorem addInst_insts (i : Inst) (hc : s.created = n) : (addInst s i).insts n = some i := by
  rw [← hc]
  exact Function.update_self ..

/-- The UIO devices do not all open: there is nothing for `rz_proc_remove` to close. -/
theorem goes_of_lost {p : Pool} (hi : Inv s) (hs : s.initialized = false) (hip : Inv { s with pool := p }) :
    Goes s a (rzProcRemove false { s with pool := p }) := by
  have hs' : ¬s.initialized = true := Bool.eq_false_iff.mp hs
  have hr := rzProcRemove_removed false hip.mbx_le
  have hg : (rzProcRemove false { s with pool := p }).gRscTable = none := by
    rw [hr.closes.gRscTable]
    refine Option.eq_none_iff_forall_ne_some.mpr fun x hx => ?_
    exact absurd (((hi.dev _).mpr hs).symm.trans (hi.table x hx)) nofun
  refine goes_of_same ?_ (fun h => absurd h hs') (hr.initialized.trans hs.symm) hr.closes.created
    fun h => absurd h hs'
  exact { hr.inv hip fun h => absurd h hs' with
    table := fun x hx => absurd (hg.symm.trans hx) nofun }

/-- A new instance, over the devices of state `s₁`. -/
theorem goes_of_added {s₁ : State} {i : Inst} {table : ℕ} (hi₁ : Inv s₁) (hs₁ : s₁.initialized = true)
    (h₁ : s.initialized = true → s₁ = s) (hc : s₁.created = s.created) (ht : ¬TearsDown s a)
    (hv : ∀ v, i.vrInfo v = s₁.dev (.mem (v.base i.notifyId))) (htab : s₁.dev (.mem .rsc) = some table)
    (hit : i.table = table) : Goes s a (addInst { s₁ with gRscTable := some table } i) where
  inv := { hi₁ with table := fun _ hx => htab.trans hx }
  keeps h _ := by
    obtain rfl := h₁ h
    exact ⟨rfl, rfl, h⟩
  tears _ h := absurd h ht
  creates _ := ⟨i, addInst_insts (s := { s₁ with gRscTable := some table }) i hc, hs₁, hv, hit ▸ htab⟩

/-- Whatever `platform_create_proc` makes of the devices. -/
theorem Inv.goes_init (hi : Inv s) {platform : Bool} {rscId : ℕ} {mbxId : UioDev}
    (hb : ¬BreaksOff s (.init platform e n rscId mbxId)) (ha : Accepted platform n rscId)
    {r : Option Inst × State} (h : platformCreateProc e n rscId mbxId s = some r) :
    Goes s (.init platform e n rscId mbxId) (r.1.elim r.2 (addInst r.2)) := by
  rcases platformCreateProc_cases h with ⟨hp, rfl⟩ | ⟨i, s₁, hp, h₂, h₃⟩
  · exact goes_of_same hi (fun _ => ⟨rfl, rfl⟩) rfl rfl fun _ ht => hp ht.2.1
  rcases hi.init_done hb ha hp h₂ with ⟨p, hs, he, hip⟩ | ⟨s₂, he, hi₂, hs₂, h₄, hg, hk, hc, -⟩
  · obtain ⟨rfl, rfl⟩ := Prod.mk.inj he
    rcases h₃ with ⟨b, hb, rfl⟩ | ⟨f, hf, -⟩ | ⟨f, hf, -⟩ | ⟨f, hf, -⟩
    · obtain rfl : false = b := Init.failed.inj hb
      exact goes_of_lost hi hs hip
    · exact absurd hf nofun
    · exact absurd hf nofun
    · exact absurd hf nofun
  obtain ⟨rfl, rfl⟩ := Prod.mk.inj he
  rcases h₃ with ⟨b, hb, -⟩ | ⟨f, hf, t, ht, rfl⟩ | ⟨f, hf, hn, t, ht, hm, rfl⟩ | ⟨f, hf, hn, ht, rfl⟩
  · exact absurd hb nofun
  · obtain rfl := Init.done.inj hf
    have hn : s.gRscTable ≠ none := fun h => Option.some_ne_none t (ht.symm.trans (hg.trans h))
    have hadd := goes_of_added (a := .init platform e n rscId mbxId)
      (i := ⟨n, mbxId, fun v => s₁.dev (.mem (v.base n)), t, rscId⟩) hi₂ hs₂ h₄ hc (fun h => hn h.2.2.1)
      (fun _ => rfl) (hi₂.table t ht) rfl
    rwa [← ht] at hadd
  · obtain rfl := Init.done.inj hf
    exact goes_of_added hi₂ hs₂ h₄ hc (fun h => Bool.false_ne_true (h.2.2.2.symm.trans hm))
      (fun _ => rfl) ht rfl
  · obtain rfl := Init.done.inj hf
    have hrsc : s₁.dev (.mem .rsc) ≠ none := fun h =>
      Bool.false_ne_true (((hi₂.dev (.mem .rsc)).mp h).symm.trans hs₂)
    have hgo := goes_of_removed (a := .init platform e n rscId mbxId) (rzProcRemove true s₁).insts
      hi₂ h₄ hc (fun _ => ⟨ha, hp, hg.symm.trans hn, ht.resolve_left hrsc⟩)
        (rzProcRemove_removed true hi₂.mbx_le)
    rwa [← (rzProcRemove_removed true hi₂.mbx_le).closes.gRscTable.trans hn] at hgo

theorem Inv.goes (hi : Inv s) (hb : ¬BreaksOff s a) (h : next s a = some s') : Goes s a s' := by
  cases a with
  | init platform e n rscId mbxId =>
    rcases next_init_cases h with ⟨ha, rfl⟩ | ⟨r, ha, h₁, rfl⟩
    · exact goes_of_same hi (fun _ => ⟨rfl, rfl⟩) rfl rfl fun _ ht => ha ht.1
    · exact hi.goes_init hb ha h₁
  | cleanup k =>
    cases k with
    | none =>
      cases h
      exact goes_of_same { hi with table := fun _ h => nomatch h } (fun _ => ⟨rfl, rfl⟩)
        rfl rfl fun _ ht => ht rfl
    | some k =>
      obtain ⟨i, -, rfl⟩ := Option.map_eq_some_iff.mp h
      exact goes_of_removed (a := .cleanup (some k)) _ hi (fun _ => rfl) rfl (fun _ => Option.some_ne_none k)
        (rzProcRemove_removed true hi.mbx_le)
  | clearDriverOk =>
    obtain ⟨st, rfl⟩ := next_clear (.inl h)
    exact goes_of_same { hi with } (fun _ => ⟨rfl, rfl⟩) rfl rfl fun _ => id
  | release k =>
    obtain ⟨st, rfl⟩ := next_clear (.inr ⟨k, h⟩)
    exact goes_of_same { hi with } (fun _ => ⟨rfl, rfl⟩) rfl rfl fun _ => id

/-! ## The resource table -/

/-- What neither `rz_proc_init` nor `rz_proc_remove` touches. -/
structure Same (s s' : State) : Prop where
  gRscTable : s'.gRscTable = s.gRscTable
  created : s'.created = s.created

theorem Same.trans {s₁ s₂ : State} (h₁ : Same s s₁) (h₂ : Same s₁ s₂) : Same s s₂ :=
  ⟨h₂.gRscTable.trans h₁.gRscTable, h₂.created.trans h₁.created⟩

theorem same_err1 (b : Bool) (s : State) : Same s (err1 b s).2 := by
  unfold err1 metalDeviceClose
  cases s.dev (.ipi .mbx) <;> exact ⟨rfl, rfl⟩

theorem same_createVrinfo {r : Init × State} (h : createVrinfo e n s = some r) : Same s r.2 := by
  unfold createVrinfo at h
  split_ifs at h
  · obtain ⟨⟨o, s₁⟩, h₁, rfl⟩ := Option.map_eq_some_iff.mp h
    have hs : Same s s₁ := by
      rcases initMemoryDevice_cases h₁ with ⟨-, h₂⟩ | ⟨r₀, h₀, -, h₂, -⟩
      · cases h₂
        exact ⟨rfl, rfl⟩
      · obtain ⟨p, t, m, h₃, -⟩ := initVrinfo_frame h₀
        obtain rfl : s₁ = _ := h₂.trans h₃
        exact ⟨rfl, rfl⟩
    cases o with
    | none => exact hs.trans (same_err1 true s₁)
    | some f => exact hs
  · cases h
    exact same_err1 false s

theorem same_rzProcInit {r : Init × State} (h : rzProcInit e n s = some r) : Same s r.2 := by
  have henable : ∀ {s : State}, enableAndCreate e n s = some r → Same s r.2 := by
    intro s h
    obtain ⟨k, hk⟩ := enableInterrupts_eq (e := e) receivers s
    unfold enableAndCreate at h
    dsimp only at h
    rw [hk] at h
    split_ifs at h
    · exact (show Same s (setInitialized { s with hooked := k }) from ⟨rfl, rfl⟩).trans (same_createVrinfo h)
    · cases h
      exact (show Same s { s with hooked := k } from ⟨rfl, rfl⟩).trans (same_err1 false _)
  unfold rzProcInit at h
  dsimp only at h
  split_ifs at h
  · exact same_createVrinfo h
  · exact (show Same s (setIpis s _) from ⟨rfl, rfl⟩).trans (henable h)
  · cases h
    exact (show Same s (setIpis s _) from ⟨rfl, rfl⟩).trans (same_err1 false _)
  · cases h
    exact ⟨rfl, rfl⟩
  · exact henable h

theorem same_rzProcRemove (b : Bool) (s : State) : Same s (rzProcRemove b s) := by
  by_cases hr : s.registered .mbx ≤ 1
  · have h := (rzProcRemove_removed b hr).closes
    exact ⟨h.gRscTable, h.created⟩
  · rw [rzProcRemove, if_pos (Nat.not_le.mp hr)]
    exact ⟨rfl, rfl⟩

/-- A new instance comes with a `g_rsc_table`, and has the slice asked for if there was one. -/
theorem next_init_same {platform : Bool} {rscId : ℕ} {mbxId : UioDev}
    (h : next s (.init platform e n rscId mbxId) = some s') :
    Same s s' ∨ s'.created = s.created + 1 ∧ s'.gRscTable ≠ none ∧
      ∃ i, s'.insts s.created = some i ∧ i.slice = if s.gRscTable = none then 0 else rscId := by
  rcases next_init_cases h with ⟨-, rfl⟩ | ⟨r, -, h₁, rfl⟩
  · exact .inl ⟨rfl, rfl⟩
  rcases platformCreateProc_cases h₁ with ⟨-, rfl⟩ | ⟨i, s₁, -, h₂, h₃⟩
  · exact .inl ⟨rfl, rfl⟩
  have hs := same_rzProcInit h₂
  rcases h₃ with ⟨b, -, rfl⟩ | ⟨f, -, t, ht, rfl⟩ | ⟨f, -, hn, t, -, -, rfl⟩ | ⟨f, -, -, -, rfl⟩
  · exact .inl (hs.trans (same_rzProcRemove b s₁))
  · have hg : s.gRscTable ≠ none := by
      rw [← hs.gRscTable, ht]
      exact Option.some_ne_none t
    refine .inr ⟨congrArg Nat.succ hs.created, fun h => hg (hs.gRscTable.symm.trans h), ?_⟩
    exact ⟨⟨n, mbxId, f, t, rscId⟩, addInst_insts _ hs.created, (if_neg hg).symm⟩
  · refine .inr ⟨congrArg Nat.succ hs.created, Option.some_ne_none t, ?_⟩
    exact ⟨⟨n, mbxId, f, t, 0⟩, addInst_insts (s := { s₁ with gRscTable := some t }) _ hs.created,
      (if_pos (hs.gRscTable.symm.trans hn)).symm⟩
  · exact .inl (hs.trans (same_rzProcRemove true s₁))

/-! ## Main results -/

variable {status : ℕ → BitVec 8} {as bs : List Act} {s₁ s₂ s₃ : State}

/-- Surroundings in which nothing fails. -/
def ready : Env where
  priv := true
  inst := true
  openIpi _ := true
  ioMbx := true
  irq _ := true
  vrInfo := true
  openMem _ := true
  ioMem _ := true
  allocMem _ := true
  allocAdd _ := true
  mmap := true
  setRscTable _ := true

/-- No device is closed twice, and what stands in the tables is open, as long as no `rz_proc_init`
goes wrong behind its mailboxes, and never after that. -/
theorem devices (h : Run (ofNext next) (start status) as s) :
    (s.pool.closedTwice = false ∧ ∀ d h, s.dev d = some h → s.pool.isOpen h = true) ↔
      Run (guarded (ofNext next) fun s a => ¬BreaksOff s a) (start status) as s := by
  constructor
  · rintro ⟨hc, ho⟩
    have hrun : Run (guarded (ofNext next) fun s a => ¬BreaksOff s a) (start status) as s ∧ Inv s ∨
      Broken s := by
      refine h.inv_trace (I := fun as s => Run (guarded (ofNext next) fun s a => ¬BreaksOff s a)
        (start status) as s ∧
        Inv s ∨ Broken s) (.inl ⟨.nil, inv_start status⟩) fun {as s a s'} hs hn => ?_
      rcases hs with ⟨hr, hi⟩ | hb
      · by_cases hb : BreaksOff s a
        · exact .inr (hi.broken hb hn)
        · exact .inl ⟨hr.snoc ⟨hb, hn⟩, (hi.goes hb hn).inv⟩
      · exact .inr (hb.next hn)
    rcases hrun with ⟨hr, -⟩ | hb | ⟨-, -, -, -, d, x, hd, hx⟩
    · exact hr
    · exact absurd (hb.symm.trans hc) nofun
    · exact absurd ((ho _ x hd).symm.trans hx) nofun
  · intro hr
    have hi : Inv s := hr.inv (inv_start status) fun hi hs => (hi.goes hs.1 hs.2).inv
    exact ⟨hi.owns.once, hi.owns.isOpen⟩

theorem devices_two : ∃ s, Run (ofNext next) (start fun _ => 7)
      [.init true ready 0 0 .receiver2, .init true ready 1 1 .receiver2, .cleanup (some 0)] s ∧
    ((s.pool.closedTwice = false ∧ ∀ d h, s.dev d = some h → s.pool.isOpen h = true) ↔
      Run (guarded (ofNext next) fun s a => ¬BreaksOff s a) (start fun _ => 7)
        [.init true ready 0 0 .receiver2, .init true ready 1 1 .receiver2, .cleanup (some 0)] s) := by
  obtain ⟨s, h⟩ : ∃ s, exec next (start fun _ => 7)
      [.init true ready 0 0 .receiver2, .init true ready 1 1 .receiver2, .cleanup (some 0)] = some s :=
    Option.isSome_iff_exists.mp (by decide +kernel)
  exact ⟨s, run_of_exec h, devices (run_of_exec h)⟩

/-- The table and the regions of an instance are mapped exactly as long as no call takes the devices
down: the cleanup of one instance is that of all. -/
theorem regions {i : Inst} (h₁ : Run (guarded (ofNext next) fun s a => ¬BreaksOff s a) (start status) as s₁)
    (ha : guarded (ofNext next) (fun s a => ¬BreaksOff s a) s₁ a s₂) (hc : s₂.created = s₁.created + 1)
    (hi : s₂.insts s₁.created = some i)
    (h₂ : Run (guarded (ofNext next) fun s a => ¬BreaksOff s a) s₂ bs s₃) :
    (∀ v, i.vrInfo v ≠ none) ∧ ∀ h, h = i.table ∨ (∃ v, i.vrInfo v = some h) →
      (s₃.pool.isOpen h = true ↔
        Run (guarded (guarded (ofNext next) fun s a => ¬BreaksOff s a) fun s a => ¬TearsDown s a)
          s₂ bs s₃) := by
  have hi₁ : Inv s₁ := h₁.inv (inv_start status) fun hi hs => (hi.goes hs.1 hs.2).inv
  have hg := hi₁.goes ha.1 ha.2
  obtain ⟨j, hj, hs₂, hv, ht⟩ := hg.creates hc
  cases hi.symm.trans hj
  refine ⟨fun v h => ?_, fun x hx => ?_⟩
  · exact absurd (((hg.inv.dev _).mp ((hv v).symm.trans h)).symm.trans hs₂) nofun
  · obtain ⟨d, hd⟩ : ∃ d, s₂.dev d = some x := by
      rcases hx with rfl | ⟨v, hx⟩
      · exact ⟨_, ht⟩
      · exact ⟨_, (hv v).symm.trans hx⟩
    constructor
    · intro ho
      have hrun := h₂.inv_trace (I := fun bs s => Inv s ∧
          (Run (guarded (guarded (ofNext next) fun s a => ¬BreaksOff s a) fun s a => ¬TearsDown s a) s₂ bs s ∧
            s.dev d = some x ∧ s.initialized = true ∨ x < s.pool.next ∧ s.pool.isOpen x = false))
        ⟨hg.inv, .inl ⟨.nil, hd, hs₂⟩⟩ fun {bs s b s'} ⟨hi, hs⟩ hn => by
          have hgo := hi.goes hn.1 hn.2
          refine ⟨hgo.inv, ?_⟩
          have hl := later_next hn.2
          rcases hs with ⟨hr, hd, hs⟩ | ⟨hlt, hcl⟩
          · by_cases ht : TearsDown s b
            · exact .inr ⟨Nat.lt_of_lt_of_le (hi.owns.lt hd) hl.next, hgo.tears hs ht d x hd⟩
            · obtain ⟨h₁, -, h₃⟩ := hgo.keeps hs ht
              exact .inl ⟨hr.snoc ⟨ht, hn⟩, (congrFun h₁ d).trans hd, h₃⟩
          · exact .inr ⟨Nat.lt_of_lt_of_le hlt hl.next, hl.closed x hlt hcl⟩
      rcases hrun.2 with ⟨hr, -⟩ | ⟨-, hcl⟩
      · exact hr
      · exact absurd (ho.symm.trans hcl) nofun
    · intro hr
      have hs := hr.inv (I := fun s => Inv s ∧ s.dev d = some x ∧ s.initialized = true) ⟨hg.inv, hd, hs₂⟩
        fun {s b s'} ⟨hi, hd, hs⟩ hn => by
          have hgo := hi.goes hn.2.1 hn.2.2
          obtain ⟨h₁, -, h₃⟩ := hgo.keeps hs hn.1
          exact ⟨hgo.inv, (congrFun h₁ d).trans hd, h₃⟩
      exact hs.1.owns.isOpen d x hs.2.1

theorem not_breaksOff_ready {platform : Bool} {rscId : ℕ} {mbxId : UioDev} (hn : n ≤ 1) :
    ¬BreaksOff s (.init platform ready n rscId mbxId) := by
  rintro ⟨-, -, hw⟩
  unfold GoesWrong at hw
  split_ifs at hw
  · exact hw ⟨rfl, hn⟩
  · exact hw.2 ⟨rfl, hn, rfl, fun _ _ => rfl, fun _ => ⟨rfl, rfl⟩⟩

theorem regions_two : ∃ s₁ s₂ i, next (start fun _ => 7) (.init true ready 0 0 .receiver2) = some s₁ ∧
    exec next s₁ [.init true ready 1 1 .receiver2, .cleanup (some 1)] = some s₂ ∧ s₁.insts 0 = some i ∧
    (s₂.pool.isOpen i.table = true ↔
      Run (guarded (guarded (ofNext next) fun s a => ¬BreaksOff s a) fun s a => ¬TearsDown s a) s₁
        [.init true ready 1 1 .receiver2, .cleanup (some 1)] s₂) := by
  have h : (next (start fun _ => 7) (.init true ready 0 0 .receiver2)).elim false (fun s =>
      decide (s.created = 1) && (s.insts 0).isSome &&
        (exec next s [.init true ready 1 1 .receiver2, .cleanup (some 1)]).isSome) = true := by decide +kernel
  obtain ⟨s₁, h₁⟩ : ∃ s₁, next (start fun _ => 7) (.init true ready 0 0 .receiver2) = some s₁ :=
    Option.isSome_iff_exists.mp (by decide +kernel)
  rw [h₁, Option.elim_some] at h
  obtain ⟨h, h₂⟩ := Bool.and_eq_true_iff.mp h
  obtain ⟨hc, hi⟩ := Bool.and_eq_true_iff.mp h
  obtain ⟨i, hi⟩ := Option.isSome_iff_exists.mp hi
  obtain ⟨s₂, h₂⟩ := Option.isSome_iff_exists.mp h₂
  have hrun := (run_of_exec h₂).guard (P := fun s a => ¬BreaksOff s a) fun a ha s => by
    rcases List.mem_cons.mp ha with rfl | ha
    · exact not_breaksOff_ready (Nat.le_refl 1)
    · obtain rfl := List.mem_singleton.mp ha
      exact id
  have hr := regions (i := i) .nil ⟨not_breaksOff_ready (Nat.zero_le 1), h₁⟩ (of_decide_eq_true hc) hi hrun
  exact ⟨s₁, s₂, i, h₁, h₂, hi, hr.2 i.table (.inl rfl)⟩

/-- Without a cleanup `g_rsc_table` is set from the first new instance on. -/
theorem next_same (h : next s a = some s') (ha : ∀ k, a ≠ .cleanup k) :
    Same s s' ∨ s'.created = s.created + 1 ∧ s'.gRscTable ≠ none := by
  cases a with
  | init => exact (next_init_same h).imp_right fun h => ⟨h.1, h.2.1⟩
  | cleanup k => exact absurd rfl (ha k)
  | clearDriverOk =>
    obtain ⟨st, rfl⟩ := next_clear (.inl h)
    exact .inl ⟨rfl, rfl⟩
  | release k =>
    obtain ⟨st, rfl⟩ := next_clear (.inr ⟨k, h⟩)
    exact .inl ⟨rfl, rfl⟩

/-- At the start and behind a cleanup there is none. -/
theorem gRscTable_cleaned (h : Run (ofNext next) (start status) as s)
    (hc : as = [] ∨ ∃ cs k, as = cs ++ [.cleanup k]) : s.gRscTable = none := by
  cases h with
  | nil => rfl
  | @snoc as s₀ s a h hs =>
    obtain ⟨cs, k, h⟩ := hc.resolve_left fun h => absurd (List.append_eq_nil_iff.mp h).2 nofun
    obtain rfl : a = .cleanup k := (List.append_inj' h rfl).2 |> List.singleton_inj.mp
    cases k with
    | none =>
      cases hs
      rfl
    | some k =>
      obtain ⟨j, -, rfl⟩ := Option.map_eq_some_iff.mp hs
      rfl

theorem gRscTable_iff_created (h : Run (ofNext next) s as s') (ha : ∀ a ∈ as, ∀ k, a ≠ .cleanup k)
    (hg : s.gRscTable = none) : s'.gRscTable = none ↔ s'.created = s.created := by
  have hrun := h.inv_trace (I := fun as s' => (∀ a ∈ as, ∀ k, a ≠ .cleanup k) →
      s.created ≤ s'.created ∧ (s'.gRscTable = none ↔ s'.created = s.created))
    (fun _ => ⟨Nat.le_refl _, fun _ => rfl, fun _ => hg⟩) fun {as s₁ a s₂} ih hs hb => by
      obtain ⟨hb, ha⟩ := List.forall_mem_append.mp hb
      obtain ⟨hle, hiff⟩ := ih hb
      rcases next_same hs (ha _ (List.mem_singleton_self _)) with hs | ⟨hc, hg⟩
      · rw [hs.gRscTable, hs.created]
        exact ⟨hle, hiff⟩
      · rw [hc]
        exact ⟨Nat.le_succ_of_le hle, fun h => absurd h hg, fun h => by omega⟩
  exact (hrun ha).2

theorem gRscTable_kept (h : Run (ofNext next) s as s') (ha : ∀ a ∈ as, ∀ k, a ≠ .cleanup k)
    (hg : s.gRscTable ≠ none) : s'.gRscTable ≠ none := by
  refine h.inv_trace (I := fun as s' => (∀ a ∈ as, ∀ k, a ≠ .cleanup k) → s'.gRscTable ≠ none)
    (fun _ => hg) (fun {as s₁ a s₂} ih hs hb => ?_) ha
  obtain ⟨hb, ha⟩ := List.forall_mem_append.mp hb
  rcases next_same hs (ha _ (List.mem_singleton_self _)) with hs | ⟨-, hg⟩
  · exact fun h => ih hb (hs.gRscTable.symm.trans h)
  · exact hg

/-- `platform_clear_driver_ok` knows the table only, and that only as long as no cleanup has
forgotten it. -/
theorem status_clearDriverOk (hg : s.gRscTable ≠ none) (h : next s .clearDriverOk = some s') :
    s'.status = Function.update s.status 0 0 := by
  obtain ⟨t, ht⟩ := Option.ne_none_iff_exists'.mp hg
  change s.gRscTable.elim _ _ = _ at h
  rw [ht] at h
  rw [virtioClearStatus_eq h]

/-- The slice of an instance is the one asked for, except for the first instance there has been
since the start or the last cleanup: it gets slice 0, and `platform_clear_driver_ok` knows no other
up to the next cleanup. -/
theorem slice {platform : Bool} {e : Env} {n rscId : ℕ} {mbxId : UioDev} {s₀ : State} {i : Inst}
    (h₀ : Run (ofNext next) (start status) as s₀) (hc : as = [] ∨ ∃ cs k, as = cs ++ [.cleanup k])
    (h₁ : Run (ofNext next) s₀ bs s₁) (hb : ∀ a ∈ bs, ∀ k, a ≠ .cleanup k)
    (h₂ : next s₁ (.init platform e n rscId mbxId) = some s₂) (hn : s₂.created = s₁.created + 1)
    (hi : s₂.insts s₁.created = some i) :
    i.slice = (if s₁.created = s₀.created then 0 else rscId) ∧
      ∀ ds s₃ s₄, Run (ofNext next) s₂ ds s₃ → (∀ a ∈ ds, ∀ k, a ≠ .cleanup k) →
        next s₃ .clearDriverOk = some s₄ →
        s₄.status i.slice = if s₁.created = s₀.created ∨ rscId = 0 then 0 else s₃.status i.slice := by
  have hiff := gRscTable_iff_created h₁ hb (gRscTable_cleaned h₀ hc)
  obtain ⟨-, hg₂, j, hj, hs⟩ := (next_init_same h₂).resolve_left fun h =>
    Nat.succ_ne_self _ (hn.symm.trans h.created)
  cases hi.symm.trans hj
  rw [if_congr hiff rfl rfl] at hs
  refine ⟨hs, fun ds s₃ s₄ h₃ hd h₄ => ?_⟩
  rw [status_clearDriverOk (gRscTable_kept h₃ hd hg₂) h₄, Function.update_apply, hs]
  by_cases h₅ : s₁.created = s₀.created
  · rw [if_pos h₅, if_pos rfl, if_pos (.inl h₅)]
  · rw [if_neg h₅]
    exact if_congr (or_iff_right h₅).symm rfl rfl

theorem slice_one : ∃ s₁ s₂ s₃ s₄ i,
    exec next (start fun _ => 7) [.init true ready 0 0 .receiver2] = some s₁ ∧
    next s₁ (.init true ready 1 1 .receiver2) = some s₂ ∧ s₂.insts 1 = some i ∧
    exec next s₂ [.init true ready 0 0 .receiver2, .release 1] = some s₃ ∧ next s₃ .clearDriverOk = some s₄ ∧
    i.slice = 1 ∧ s₄.status 1 = s₃.status 1 := by
  have h : (exec next (start fun _ => 7) [.init true ready 0 0 .receiver2]).elim false (fun s =>
      decide (s.created = 1) && (next s (.init true ready 1 1 .receiver2)).elim false fun s' =>
        decide (s'.created = 2) && (s'.insts 1).isSome &&
          (exec next s' [.init true ready 0 0 .receiver2, .release 1]).elim false fun s' =>
            (next s' .clearDriverOk).isSome) = true := by decide +kernel
  obtain ⟨s₁, h₁⟩ : ∃ s₁, exec next (start fun _ => 7) [.init true ready 0 0 .receiver2] = some s₁ :=
    Option.isSome_iff_exists.mp (by decide +kernel)
  rw [h₁, Option.elim_some] at h
  obtain ⟨hc₁, h⟩ := Bool.and_eq_true_iff.mp h
  cases h₂ : next s₁ (.init true ready 1 1 .receiver2) with
  | none => exact absurd ((congrArg (Option.elim · false _) h₂).symm.trans h) nofun
  | some s₂ =>
    rw [h₂, Option.elim_some] at h
    obtain ⟨h, h'⟩ := Bool.and_eq_true_iff.mp h
    obtain ⟨hc₂, h⟩ := Bool.and_eq_true_iff.mp h
    obtain ⟨i, hi⟩ := Option.isSome_iff_exists.mp h
    cases h₃ : exec next s₂ [.init true ready 0 0 .receiver2, .release 1] with
    | none => exact absurd ((congrArg (Option.elim · false _) h₃).symm.trans h') nofun
    | some s₃ =>
      rw [h₃, Option.elim_some] at h'
      obtain ⟨s₄, h₄⟩ := Option.isSome_iff_exists.mp h'
      have hc₁ := of_decide_eq_true hc₁
      have hs := slice (i := i) .nil (.inl rfl) (run_of_exec h₁) (by simp) h₂
        (by rw [hc₁, of_decide_eq_true hc₂]) (by rw [hc₁, hi])
      have h₅ := hs.2 _ s₃ s₄ (run_of_exec h₃) (by simp) h₄
      rw [if_neg (by rw [hc₁]; decide)] at hs
      rw [hs.1, if_neg (by rw [hc₁]; decide)] at h₅
      exact ⟨s₁, s₂, s₃, s₄, i, h₁, h₂, hi, h₃, h₄, hs.1, h₅⟩

end CR8Devkit.Platform
