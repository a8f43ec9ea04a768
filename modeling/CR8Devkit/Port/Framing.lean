import CR8Devkit.Port.Restore

/-!
# Where the guard finds the frames of the handlers

* `OnStacks`: the words that an activation has on the two stacks while `vApplicationIRQHandler`
  runs.
* `Framing`, `irqHandler_framing`: `vApplicationIRQHandler` is called with everything saved and the
  alignment word on top of the SVC stack.
* **`onStacks_of_run`**: over every run, for the activation that runs and for the one that it has
  interrupted.
-/

namespace CR8Devkit.Port

open Handler Transition

/-- An activation has interrupted `o` and has called in `e`: its words in state `s`. -/
structure OnStacks (o e s : St) : Prop where
  spSvc : e.cpu.spSvc = o.cpu.spSvc - 28 - pad o - 4
  spIrq : e.cpu.spIrq = o.cpu.spIrq - 8
  kept : s.cpu.spIrq = e.cpu.spIrq
  padWord : s.mem e.cpu.spSvc = pad o
  irqWords : loads s.mem e.cpu.spIrq 2 = [o.cpu.cpsr.toWord, o.cpu.pc]

/-- At a point of a handler that has interrupted `o`. -/
def Framing (L : Layout) (o : St) (k : Code) (s : St) : Prop :=
  Masked s ∧ ∀ k', k = .call .vApplicationIRQHandler k' → L.Room o.cpu ∧ Held L o s

section Framing

variable {L : Layout} {t : Trap} {o e s s' : St} {k : Code} {is : List Instr} {f : CFun}

/-- The called function leaves them alone. -/
theorem Held.onStacks (h : Held L o s) (hroom : L.Room o.cpu) (hin : Inside L f (enter L t f s) s') :
    OnStacks o (enter L t f s) s' := by
  have hbound := h.toNat_spSvc hroom
  have hJ := (toNat_saved hroom).2
  obtain ⟨⟨hlo, hhi⟩, hilo, hihi⟩ := hroom
  have hJlt := o.cpu.spIrq.isLt
  have hcpu : (enter L t f s).cpu = { s.cpu with lrSvc := L.ret f } := by
    show s.cpu.setLr (L.ret f) = _
    rw [Cpu.setLr, if_pos h.mode]
  have hmem : ∀ a, L.Used s.cpu a → s'.mem a = s.mem a := by
    intro a ha
    refine hin.mem a ?_
    rw [hcpu]
    exact ha
  constructor
  · rw [hcpu]
    exact h.spSvc
  · rw [hcpu]
    exact h.spIrq
  · refine (hin.banked ?_).1
    rw [hcpu]
    exact h.mode
  · rw [hcpu, hmem _ (.inl ⟨by omega, by omega, Nat.le_refl _⟩), h.padWord]
  · have hiq : (enter L t f s).cpu.spIrq = o.cpu.spIrq - 8 := by
      rw [hcpu]
      exact h.spIrq
    rw [hiq, ← h.irqWords]
    refine loads_congr (by omega) fun b hb hb' => hmem b (.inr ?_)
    rw [h.spIrq]
    omega

abbrev Frames (L : Layout) (t : Trap) (o : St) (k : Code) (s : St) : Prop :=
  (machine L t (Returns L)).Safe (Framing L o) (fun _ _ => True) k s

/-- Where `vApplicationIRQHandler` is not called. -/
theorem frames_masked (hk : ∀ f ∈ k.calls, f ≠ .vApplicationIRQHandler) (hm : Masked s) :
    Frames L t o k s := by
  refine Machine.safe_of_calls hm hk (fun k s hk hm => ⟨hm, fun k' h => ?_⟩) (fun _ _ => masked_run)
    (fun _ _ _ _ _ hs => hs.2.2.2) fun _ _ _ _ => trivial
  subst h
  exact absurd rfl (hk _ List.mem_cons_self)

/-- **The handler** calls `vApplicationIRQHandler` with its frame complete. -/
theorem irqHandler_framing (fpu : Bool) (hroom : L.Room o.cpu) (h : Entered o s) :
    Frames L t o (irqHandler fpu) s := by
  refine safe_irqHandler (fun i k s hm => ⟨hm, fun _ h => by cases h⟩)
    (fun f k s _ hm hheld => ⟨hm, fun _ _ => ⟨hroom, hheld⟩⟩) (fun s hm _ => ?_) hroom h
  exact frames_masked (by cases fpu <;> decide) hm

theorem svcHandler_framing (fpu : Bool) (hm : Masked s) : Frames L t o (svcHandler fpu) s :=
  frames_masked (by cases fpu <;> decide) hm

/-! ## Runs -/

/-- The discipline of `stacking`, with the frames. -/
def framing (L : Layout) : Discipline L :=
  { stacking L with inv := fun _ => Framing L }

theorem framing_lawful (L : Layout) (fpu : Bool) : (framing L).Lawful fpu :=
  stackingWith_lawful And.left (fun _ => svcHandler_framing fpu rfl) fun _ => irqHandler_framing fpu

theorem framing_of_run {fpu : Bool} {s₀ : St} {evs : List Event} {c : Config}
    (h₀ : s₀.cpu.cpsr.mode = sysMode) (hrun : Run (ofNext (next L fpu)) ⟨s₀, [.task]⟩ evs c) :
    (framing L).Good c.frames c.st :=
  stackingWith_of_run (framing_lawful L fpu) h₀ (hrun.guard fun _ _ _ => trivial)

/-- `vApplicationIRQHandler` has been entered with the words of its activation complete, and keeps
them. -/
theorem onStacks_of_good {fs : List Frame}
    (hg : (framing L).Good (.c .vApplicationIRQHandler e :: .asm t k o :: fs) s) :
    OnStacks o e s ∧ (framing L).Good fs o := by
  obtain ⟨hin, ⟨s₀, rfl, hk⟩, hgood, -⟩ := hg
  obtain ⟨hroom, hheld⟩ := hk.1.2 _ rfl
  exact ⟨hheld.onStacks hroom hin, hgood⟩

/-- **In every run**. -/
theorem onStacks_of_run {fpu : Bool} {s₀ : St} {evs : List Event} {c : Config} {fs : List Frame}
    (h₀ : s₀.cpu.cpsr.mode = sysMode) (hrun : Run (ofNext (next L fpu)) ⟨s₀, [.task]⟩ evs c)
    (hc : c.frames = .c .vApplicationIRQHandler e :: .asm t k o :: fs) : OnStacks o e c.st := by
  have hg := framing_of_run h₀ hrun
  rw [hc] at hg
  exact (onStacks_of_good hg).1

/-- The same of the activation that it has interrupted. -/
theorem onStacks_interrupted {fpu : Bool} {s₀ e' o' : St} {t' : Trap} {k' : Code} {evs : List Event}
    {c : Config} {fs : List Frame} (h₀ : s₀.cpu.cpsr.mode = sysMode)
    (hrun : Run (ofNext (next L fpu)) ⟨s₀, [.task]⟩ evs c)
    (hc : c.frames = .c .vApplicationIRQHandler e :: .asm t k o ::
      .c .vApplicationIRQHandler e' :: .asm t' k' o' :: fs) : OnStacks o' e' o := by
  have hg := framing_of_run h₀ hrun
  rw [hc] at hg
  exact (onStacks_of_good (onStacks_of_good hg).2).1

end Framing

end CR8Devkit.Port
