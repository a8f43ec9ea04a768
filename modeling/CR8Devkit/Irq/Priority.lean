import CR8Devkit.Irq.Exact

/-!
# Priorities bound the nesting

* `aligned_setPriority`: the priority byte is a multiple of 16, whatever the argument was.
* `ranks`: the priority bytes of the live interrupts; `signals`: what the interrupt controller
  signals.
* `Ranked`: the bytes get smaller with every acknowledge, so that there are at most 16 of them.
* **`pointer_bounded`**: the stack of interrupt numbers never overflows.
-/

namespace CR8Devkit.Irq

open Port (Layout Config Event Frame r0)
open BlackBox (Linker)
open Transition

/-! ## Priority bytes -/

/-- **The shift** clears the low four bits, and the mask and the cut to eight bits do not set them. -/
theorem aligned_setPriority (b : Bsp) (priority : Word) : (setPriority b priority).toNat % 16 = 0 := by
  have hshift : (priority <<< 4).toNat % 2 ^ 4 = 0 := by
    rw [BitVec.toNat_shiftLeft, Nat.shiftLeft_eq]
    omega
  have hmask : (priority <<< 4 &&& b.priorityMask).toNat % 2 ^ 4 = 0 := by
    rw [BitVec.toNat_and, Nat.and_mod_two_pow, hshift, Nat.zero_and]
  rw [setPriority, BitVec.toNat_setWidth]
  omega

/-- Increasing multiples of 16 from `lo` on. -/
theorem length_le_of_aligned {l : List (BitVec 8)} (lo : ℕ) (hl : l.Pairwise (· < ·))
    (ha : ∀ x ∈ l, x.toNat % 16 = 0) (hlo : lo % 16 = 0) (hle : lo ≤ 256)
    (h : ∀ x ∈ l, lo ≤ x.toNat) : 16 * l.length + lo ≤ 256 := by
  induction l generalizing lo with
  | nil => simpa using hle
  | cons x l ih =>
    obtain ⟨hx, hl⟩ := List.pairwise_cons.mp hl
    obtain ⟨hx16, ha⟩ := List.forall_mem_cons.mp ha
    have hlox := h x List.mem_cons_self
    have hlt := x.isLt
    have hrest := ih (x.toNat + 16) hl ha (by omega) (by omega) fun y hy => by
      have hxy : x.toNat < y.toNat := hx y hy
      have hy16 := ha y hy
      omega
    rw [List.length_cons]
    omega

/-! ## The live interrupts -/

/-- The priority of a live interrupt, unless its INTID is special. -/
def Phase.rank (b : Bsp) (p : Phase) : Option (BitVec 8) :=
  p.live.bind fun a => if b.isSpecial a.icciar then none else some a.priority

def ranks (b : Bsp) (acts : List Phase) : List (BitVec 8) := acts.filterMap (·.rank b)

/-- Below the priority of every live interrupt: a read of ICCIAR gives a special INTID, or one of a
priority byte strictly lower than all that have been acknowledged and not yet ended. -/
def signals (b : Bsp) (σ : Sys) (act : Act) : Bool :=
  match σ.port.frames, act with
  | .c .freeRTOSGetActiveIRQ _ :: _, .port .ret =>
    let r := σ.port.st.cpu.get r0
    b.isSpecial r || (ranks b σ.view.acts).all fun x => σ.view.gic.icdipr (gicIntid r).toNat < x
  | _, _ => true

/-- The priority bytes are multiples of 16, and those of the live interrupts fall from each to the
next newer one. -/
structure Ranked (b : Bsp) (v : View) : Prop where
  aligned : ∀ n, (v.gic.icdipr n).toNat % 16 = 0
  ranks : ∀ x ∈ ranks b v.acts, x.toNat % 16 = 0
  sorted : (Irq.ranks b v.acts).Pairwise (· < ·)

section Ranks

variable {L : Layout} {fpu : Bool} {b : Bsp} {k : Linker} {v v' : View} {acts : List Phase}
  {σ σ' σ₀ : Sys} {act : Act} {as : List Act}

theorem length_ranks (b : Bsp) (acts : List Phase) : (ranks b acts).length = depth b acts := by
  rw [ranks, List.length_filterMap_eq_countP, depth]
  refine List.countP_congr fun p _ => ?_
  unfold Phase.rank Phase.deep
  cases p.live with
  | none => exact Iff.rfl
  | some a =>
    show (if b.isSpecial a.icciar then none else some a.priority).isSome = true ↔
      (!b.isSpecial a.icciar) = true
    split_ifs with h <;> simp [h]

/-- **Sixteen priorities** are not enough for more than sixteen live interrupts. -/
theorem Ranked.depth_le (h : Ranked b v) : depth b v.acts ≤ 16 := by
  have := length_le_of_aligned 0 h.sorted h.ranks rfl (Nat.zero_le _) fun _ _ => Nat.zero_le _
  rw [length_ranks] at this
  omega

theorem Ranked.congr (h : Ranked b v) (hgic : v'.gic = v.gic)
    (hacts : Irq.ranks b v'.acts = Irq.ranks b v.acts) :
    Ranked b v' := by
  refine ⟨?_, ?_, ?_⟩
  · rw [hgic]
    exact h.aligned
  · rw [hacts]
    exact h.ranks
  · rw [hacts]
    exact h.sorted

theorem aligned_rBspIrqCfg {g : Gic} (h : ∀ n, (g.icdipr n).toNat % 16 = 0) (irq priority context : Word)
    (n : ℕ) : ((rBspIrqCfg b irq priority context g).icdipr n).toNat % 16 = 0 := by
  show (Function.update g.icdipr (byteAddr (irqNo b irq)) (setPriority b priority) n).toNat % 16 = 0
  by_cases hn : n = byteAddr (irqNo b irq)
  · rw [hn, Function.update_self]
    exact aligned_setPriority b priority
  · rw [Function.update_of_ne hn]
    exact h n

/-- **The priorities**, over one step in which the interrupt controller signals what it may. -/
theorem ranked_of_step (hs : Step L b k v v')
    (hack : ∀ r, v'.log = v.log ++ [.ack r] → b.isSpecial r = false →
      ∀ x ∈ ranks b v.acts, v.gic.icdipr (gicIntid r).toNat < x)
    (h : Ranked b v) : Ranked b v' := by
  cases hs with
  | quiet acts log vars gic =>
    rcases gic with gic | ⟨irq, pr, ctx, gic⟩
    · exact h.congr gic (by rw [acts])
    · refine ⟨?_, ?_, ?_⟩
      · rw [gic]
        exact aligned_rBspIrqCfg h.aligned irq pr ctx
      · rw [acts]
        exact h.ranks
      · rw [acts]
        exact h.sorted
  | take => exact h.congr rfl rfl
  | svc hv => exact h.congr rfl (by rw [hv]; rfl)
  | call hv => exact h.congr rfl (by rw [hv]; rfl)
  | stmt hv s => exact h.congr rfl (by rw [hv]; rfl)
  | back hv => exact h.congr rfl (by rw [hv]; rfl)
  | exit hv => exact h.congr rfl (by rw [hv]; rfl)
  | @ack ps hv r =>
    have hps : ranks b v.acts = ranks b ps := by
      rw [hv]
      rfl
    by_cases hr : b.isSpecial r = true
    · refine h.congr rfl ?_
      rw [hps]
      exact List.filterMap_cons_none (if_pos hr)
    · have hr := Bool.eq_false_of_not_eq_true hr
      have hrank : (Phase.acked ⟨r, v.gic.icdipr (gicIntid r).toNat⟩).rank b =
          some (v.gic.icdipr (gicIntid r).toNat) := by
        show (if b.isSpecial r = true then none else some _) = _
        rw [hr]
        rfl
      have hnew : ranks b (.acked ⟨r, v.gic.icdipr (gicIntid r).toNat⟩ :: ps) =
          v.gic.icdipr (gicIntid r).toNat :: ranks b v.acts := by
        rw [hps]
        exact List.filterMap_cons_some hrank
      refine ⟨h.aligned, ?_, ?_⟩
      · rw [hnew]
        exact List.forall_mem_cons.mpr ⟨h.aligned _, h.ranks⟩
      · rw [hnew]
        exact List.pairwise_cons.mpr ⟨hack r rfl hr, h.sorted⟩
  | @eoi a ps hv =>
    have hsub : (ranks b ps).Sublist (ranks b v.acts) := by
      rw [hv]
      exact (List.sublist_cons_self _ _).filterMap _
    have hnew : ranks b (.ended :: ps) = ranks b ps := rfl
    refine ⟨h.aligned, fun x hx => h.ranks x (hsub.subset ?_), ?_⟩
    · rwa [← hnew]
    · rw [hnew]
      exact h.sorted.sublist hsub

/-- Only the return of `FreeRTOS_GetActiveIRQ` is an acknowledge. -/
theorem ack_of_track {c : Config} {ev : Event} {r : Word} (h : (v.track b c ev).log = v.log ++ [.ack r]) :
    r = c.st.cpu.get r0 ∧ ev = .ret ∧ ∃ e fs, c.frames = .c .freeRTOSGetActiveIRQ e :: fs := by
  have hsame {v' : View} (hv : v'.log = v.log ++ [.ack r]) (hlog : v'.log = v.log) : False := by
    rw [hv] at hlog
    exact absurd hlog (by simp)
  unfold View.track at h
  split at h
  · exact (hsame h rfl).elim
  · exact (hsame h rfl).elim
  · next f e fs hfs =>
      have hack : acknowledge f (c.st.cpu.get r0) = [.ack r] := List.append_cancel_left h
      unfold acknowledge at hack
      split_ifs at hack with hf
      cases hack
      exact ⟨rfl, rfl, e, fs, hf ▸ hfs⟩
  · next f _ _ _ _ =>
      have heoi : endOfInterrupt f (c.st.cpu.get r0) = [.ack r] := List.append_cancel_left h
      unfold endOfInterrupt at heoi
      split_ifs at heoi
      cases heoi
  · exact (hsame h rfl).elim
  · exact (hsame h rfl).elim

theorem ack_of_next (h : next L fpu b k σ act = some σ') {r : Word}
    (hlog : σ'.view.log = σ.view.log ++ [.ack r]) :
    r = σ.port.st.cpu.get r0 ∧ act = .port .ret ∧ ∃ e fs, σ.port.frames = .c .freeRTOSGetActiveIRQ e :: fs := by
  have hsame : σ'.view.log ≠ σ.view.log := by
    rw [hlog]
    simp
  cases actStep_of_next h with
  | port =>
    obtain ⟨hr, rfl, hfs⟩ := ack_of_track hlog
    exact ⟨hr, rfl, hfs⟩
  | stmt | poke | cfg => cases hsame rfl

/-! ## Runs -/

/-- The pointer counts the numbers held, `remain` writes inside the array, `release` does not wrap,
and nothing is held when a task runs. -/
structure PointerBounded (b : Bsp) (σ : Sys) : Prop where
  count : σ.view.vars.pointer.toNat = (held b σ.view.acts).length
  index : ∀ a n todo ps, σ.view.acts = .handling a (.remain n :: todo) :: ps → σ.view.vars.pointer.toNat < 32
  release : ∀ a todo ps, σ.view.acts = .handling a (.release :: todo) :: ps → σ.view.vars.pointer ≠ 0
  rest : σ.port.frames = [.task] → σ.view.vars.pointer = 0

theorem ranked_of_next (h : Exact L b σ) (hr : Ranked b σ.view) (hsig : signals b σ act = true)
    (hs : next L fpu b k σ act = some σ') : Exact L b σ' ∧ Ranked b σ'.view := by
  have hdepth := hr.depth_le
  refine ⟨h.next (by omega) hs, ranked_of_step (step_of_next h.toNested hs).1 (fun r hlog hsp => ?_) hr⟩
  obtain ⟨rfl, rfl, e, fs, hfs⟩ := ack_of_next hs hlog
  unfold signals at hsig
  rw [hfs] at hsig
  have hall := (Bool.or_eq_true _ _).mp hsig
  rw [hsp] at hall
  exact fun x hx => of_decide_eq_true (List.all_eq_true.mp (hall.resolve_left nofun) x hx)

/-- **The interrupt numbers stay inside their array**, whatever priorities have been configured,
when the interrupt controller signals by them. -/
theorem pointer_bounded (h₀ : Boots σ₀) (hgic : ∀ n, σ₀.view.gic.icdipr n = 0)
    (hrun : Run (guarded (ofNext (next L fpu b k)) fun σ act => signals b σ act = true) σ₀ as σ) :
    PointerBounded b σ := by
  have hacts : σ₀.view.acts = [] := h₀.acts
  have hranked₀ : Ranked b σ₀.view := by
    refine ⟨fun n => ?_, ?_, ?_⟩
    · rw [hgic]
      rfl
    · rw [hacts]
      exact nofun
    · rw [hacts]
      exact .nil
  obtain ⟨h, hr⟩ := hrun.inv (I := fun σ => Exact L b σ ∧ Ranked b σ.view) ⟨h₀.exact, hranked₀⟩
    fun h hs => ranked_of_next h.1 h.2 hs.1 hs.2
  refine ⟨h.numbered.pointer, fun a n todo ps hv => ?_, fun a todo ps hv h0 => ?_, fun hfs => ?_⟩
  · obtain ⟨hpointer, hdepth⟩ := h.numbered.index hv h.below h.coded
    have := hr.depth_le
    omega
  · have hpointer := h.numbered.pointer
    have hheld : (Phase.handling a (.release :: todo)).held b = some (b.ident a.icciar) := rfl
    rw [hv, h0, held, List.filterMap_cons_some hheld] at hpointer
    cases hpointer
  · have hpointer := h.numbered.pointer
    have hfits := h.fits
    rw [hfs] at hfits
    rcases hfits.cases with ⟨-, hnil⟩ | ⟨_, _, _, _, _, _, hcons, -⟩ | ⟨_, _, _, _, _, _, _, _, hcons, -⟩
    · rw [hnil] at hpointer
      exact BitVec.eq_of_toNat_eq hpointer
    · cases hcons
    · cases hcons

end Ranks

/-- INTID 53 is configured to priority 3; INTID 54 keeps its reset priority and interrupts the
handler. -/
def rankedRun : List Act :=
  .cfg 21 3 0 :: vectored (icciarRegs 53 (fun i => BitVec.ofNat 32 i) 0x4fdc) ++
    [.port (.regs Port.sampleRegs)] ++
    (vectored (icciarRegs 54 (fun _ => 0x77) 0x4f5c)).dropLast.dropLast.dropLast.dropLast

/-- The steps of the system, with the interrupts that the controller signals. -/
def signalledNext (L : Layout) (fpu : Bool) (b : Bsp) (k : Linker) (σ : Sys) (act : Act) : Option Sys :=
  if signals b σ act = true then next L fpu b k σ act else none

/-- The next statement writes to the array. -/
def remaining : List Phase → Bool
  | .handling _ (.remain _ :: _) :: _ => true
  | _ => false

theorem remaining_rankedRun :
    (exec (signalledNext Port.sample true sampleBsp sampleLinker) sampleSys rankedRun).map
      (fun σ => (remaining σ.view.acts, depth sampleBsp σ.view.acts)) = some (true, 2) := by
  decide +kernel

theorem of_remaining {acts : List Phase} (h : remaining acts = true) :
    ∃ a n todo ps, acts = .handling a (.remain n :: todo) :: ps := by
  unfold remaining at h
  split at h
  · exact ⟨_, _, _, _, rfl⟩
  · cases h

theorem pointer_bounded_rankedRun : ∃ σ,
    exec (signalledNext Port.sample true sampleBsp sampleLinker) sampleSys rankedRun = some σ ∧
      depth sampleBsp σ.view.acts = 2 ∧ σ.view.vars.pointer.toNat < 32 := by
  obtain ⟨σ, hexec, hσ⟩ := Option.map_eq_some_iff.mp remaining_rankedRun
  obtain ⟨a, n, todo, ps, hacts⟩ := of_remaining (congrArg Prod.fst hσ)
  have hbound : PointerBounded sampleBsp σ :=
    pointer_bounded ⟨rfl, rfl, rfl, rfl, rfl, rfl⟩ (fun _ => rfl) (run_of_exec_guarded hexec)
  exact ⟨σ, hexec, congrArg Prod.snd hσ, hbound.index _ _ _ _ hacts⟩

end CR8Devkit.Irq
