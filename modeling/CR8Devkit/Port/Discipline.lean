import CR8Devkit.Port.Interrupts

/-!
# Disciplines: invariants of a stack of frames

* `Discipline`: what holds of a task, inside a C function, and at every point and exit of a handler.
* `Discipline.Good`: it holds of every frame, each in the state it was left in.
* `Discipline.Lawful`: the conditions on the single frames, and **`Lawful.step`**: with them every
  step of the system keeps `Good`.
-/

namespace CR8Devkit.Port

open Handler

/-- About the running frame: a task in state `s`, a C function entered in `e`, a handler that has
interrupted `o` at code `k` or exit. The events that meet `may` are considered only. -/
structure Discipline (L : Layout) where
  may : Config → Event → Prop
  base : St → Prop
  inside : CFun → St → St → Prop
  inv : Trap → St → Code → St → Prop
  post : Trap → St → Exit → St → Prop

namespace Discipline

variable {L : Layout} (D : Discipline L) {fpu : Bool}

/-- From state `s` on, code `k` of a handler that has interrupted `o` is safe. -/
def Continues (t : Trap) (o : St) (k : Code) (s : St) : Prop :=
  (machine L t fun f e s => D.inside f e s ∧ Preserved e.cpu s.cpu).Safe (D.inv t o) (D.post t o) k s

/-- Only a task can be interrupted with IRQs masked, by `SVC`. -/
def Good : List Frame → St → Prop
  | [.task], s => D.base s
  | .asm t k o :: fs, s =>
    D.Continues t o k s ∧ Good fs o ∧ (fs = [.task] ∨ o.cpu.cpsr.masked = false)
  | .c f e :: .asm t k o :: fs, s =>
    D.inside f e s ∧ (∃ s₀, e = enter L t f s₀ ∧ D.Continues t o (.call f k) s₀) ∧ Good fs o ∧
      (fs = [.task] ∨ o.cpu.cpsr.masked = false)
  | _, _ => False

/-- The conditions that an event puts on single frames. -/
structure Lawful (fpu : Bool) : Prop where
  masked : ∀ {t o k s}, D.inv t o k s → s.cpu.cpsr.masked = true
  regs_task : ∀ {s g}, D.base s → D.base { s with cpu := s.cpu.setRegs g }
  regs_c : ∀ {f e s g}, D.inside f e s → g.sp.toNat ≤ e.cpu.sp.toNat →
    (f = .vApplicationIRQHandler ∨ g.masked = true) → D.inside f e { s with cpu := s.cpu.setRegs g }
  store_task : ∀ {s a v}, D.may ⟨s, [.task]⟩ (.store a v) → D.base s → D.base (s.store a v)
  store_c : ∀ {f e s fs a v}, D.may ⟨s, .c f e :: fs⟩ (.store a v) → D.inside f e s →
    ¬ L.Used e.cpu a → D.inside f e ((s.store a v).ask L a v)
  call : ∀ {t o f k s}, D.inv t o (.call f k) s → D.inside f (enter L t f s) (enter L t f s)
  svc : ∀ {s}, D.may ⟨s, [.task]⟩ .svc → D.base s →
    D.Continues .svc s (svcHandler fpu) { s with cpu := s.cpu.svcEntry, counted := false }
  take_task : ∀ {s}, D.may ⟨s, [.task]⟩ .take → s.cpu.cpsr.masked = false → L.Room s.cpu → D.base s →
    D.Continues .irq s (irqHandler fpu)
      { s.begin L [.task] with cpu := s.cpu.irqEntry, counted := false }
  take_c : ∀ {t o f k s₀ s}, s.cpu.cpsr.masked = false → L.Room s.cpu → D.inv t o (.call f k) s₀ →
    D.inside f (enter L t f s₀) s →
    D.Continues .irq s (irqHandler fpu) { s with cpu := s.cpu.irqEntry, counted := false }
  exit_task : ∀ {t o s}, D.post t o .movsPcLr s → D.base o →
    D.base { s with cpu := s.cpu.movsPcLr, counted := o.counted }
  exit_c : ∀ {t o f e s}, o.cpu.cpsr.masked = false → D.post t o .movsPcLr s → D.inside f e o →
    D.inside f e { s with cpu := s.cpu.movsPcLr, counted := o.counted }
  rfeia : ∀ {t o s}, D.post t o .rfeia s → D.base o → (s.cpu.rfeia s.mem).cpsr.mode = sysMode →
    D.base { s with cpu := s.cpu.rfeia s.mem, counted := false }

variable {D} {c c' : Config} {s : St} {fs : List Frame} {ev : Event} {t : Trap} {k : Code} {o : St}

/-- The running frame is the task, a handler, or a C function called from one. -/
theorem Good.cases (hg : D.Good fs s) : (fs = [.task] ∧ D.base s) ∨
    (∃ t k o fs', fs = .asm t k o :: fs' ∧ D.Continues t o k s) ∨
    ∃ f e t k o fs', fs = .c f e :: .asm t k o :: fs' ∧ D.inside f e s := by
  unfold Good at hg
  split at hg
  · exact .inl ⟨rfl, hg⟩
  · exact .inr (.inl ⟨_, _, _, _, rfl, hg.1⟩)
  · exact .inr (.inr ⟨_, _, _, _, _, _, rfl, hg.1⟩)
  · exact hg.elim

/-- A handler anywhere in the stack is at `k`, or at a call before `k`. -/
theorem Good.handler {fs₁ : List Frame} (hg : D.Good (fs₁ ++ .asm t k o :: fs) s) :
    ∃ k' s', D.Good (.asm t k' o :: fs) s' ∧ k'.exits = k.exits := by
  -- a C function and the handler that has called it are left together
  induction hn : fs₁.length using Nat.strongRecOn generalizing fs₁ s with
  | ind n ih =>
    rcases fs₁ with _ | ⟨f₁, _ | ⟨f₂, fs₁⟩⟩
    · exact ⟨k, s, hg, rfl⟩
    · rcases hg.cases with ⟨h, -⟩ | ⟨t', k', o', fs', h, -⟩ | ⟨f, e, t', k', o', fs', h, -⟩
      · cases h
      · obtain rfl := (List.cons.inj h).1
        exact ⟨k, o', hg.2.1, rfl⟩
      · cases h
        obtain ⟨-, ⟨s₀, -, hk⟩, hrest⟩ := hg
        exact ⟨_, s₀, ⟨hk, hrest⟩, rfl⟩
    · have hlen : fs₁.length + 2 = n := hn
      rcases hg.cases with ⟨h, -⟩ | ⟨t', k', o', fs', h, -⟩ | ⟨f, e, t', k', o', fs', h, -⟩
      · cases h
      · obtain rfl := (List.cons.inj h).1
        exact ih (fs₁.length + 1) (by omega) hg.2.1 rfl
      · obtain ⟨h₁, h⟩ := List.cons.inj h
        obtain rfl := (List.cons.inj h).1
        obtain rfl := h₁
        exact ih fs₁.length (by omega) hg.2.2.1 rfl

/-- A handler runs with IRQs masked. -/
theorem Lawful.masked_of_asm (hD : D.Lawful fpu) (hk : D.Continues t o k s) :
    s.cpu.cpsr.masked = true :=
  hD.masked hk.here

/-- The frame below an exit is resumed in the discipline. -/
theorem Lawful.resume (hD : D.Lawful fpu) (hpost : D.post t o .movsPcLr s) (hg : D.Good fs o)
    (hfs : fs = [.task] ∨ o.cpu.cpsr.masked = false) :
    D.Good fs { s with cpu := s.cpu.movsPcLr, counted := o.counted } := by
  rcases hfs with rfl | hmask
  · exact hD.exit_task hpost hg
  rcases hg.cases with ⟨rfl, hbase⟩ | ⟨t', k', o', fs', rfl, hk⟩ | ⟨f, e, t', k', o', fs', rfl, hin⟩
  · exact hD.exit_task hpost hbase
  · rw [hD.masked_of_asm hk] at hmask
    cases hmask
  · exact ⟨hD.exit_c hmask hpost hin, hg.2⟩

/-- One instruction of a handler. -/
theorem Lawful.run (hD : D.Lawful fpu) (hg : D.Good (.asm t k o :: fs) s)
    (h : runHandler L s (.asm t k o :: fs) = some c') : D.Good c'.frames c'.st := by
  obtain ⟨hk, hrest, hfs⟩ := hg
  cases k with
  | op i k =>
    cases h
    exact ⟨hk.2, hrest, hfs⟩
  | branch b yes no =>
    have hnext : D.Continues t o (if b.holds s.cpu.cpsr.nzcv then yes else no) s := by
      split_ifs with hb
      · exact hk.2.1 hb
      · exact hk.2.2 (Bool.eq_false_iff.mpr hb)
    cases h
    exact ⟨hnext, hrest, hfs⟩
  | call f k =>
    cases h
    exact ⟨hD.call hk.1, ⟨s, rfl, hk⟩, hrest, hfs⟩
  | exit x =>
    cases x with
    | movsPcLr =>
      cases h
      exact hD.resume hk.2 hrest hfs
    | rfeia =>
      rcases hrest.cases with ⟨rfl, hbase⟩ | ⟨_, _, _, _, rfl, -⟩ | ⟨_, _, _, _, _, _, rfl, -⟩
      · simp only [runHandler] at h
        split_ifs at h with hmode
        cases h
        exact hD.rfeia hk.2 hbase hmode
      · cases h
      · cases h

/-- **Every step keeps the discipline.** -/
theorem Lawful.step (hD : D.Lawful fpu) (hmay : D.may c ev) (hg : D.Good c.frames c.st)
    (h : next L fpu c ev = some c') : D.Good c'.frames c'.st := by
  obtain ⟨s, fs⟩ := c
  rcases hg.cases with ⟨rfl, hbase⟩ | ⟨t, k, o, fs, rfl, hk⟩ | ⟨f, e, t, k, o, fs, rfl, hin⟩
  · -- a task
    cases taskStep h with
    | regs g => exact hD.regs_task hbase
    | store a v => exact hD.store_task hmay hbase
    | svc => exact ⟨hD.svc hmay hbase, hbase, .inl rfl⟩
    | take hm hroom => exact ⟨hD.take_task hmay hm hroom hbase, hbase, .inl rfl⟩
  · -- a handler
    obtain rfl := run_of_next (hD.masked_of_asm hk) h
    exact hD.run hg h
  · -- a C function
    cases functionStep h with
    | regs hsp hm => exact ⟨hD.regs_c hin hsp hm, hg.2⟩
    | store hused => exact ⟨hD.store_c hmay hin hused, hg.2⟩
    | take hm hroom =>
      obtain ⟨-, ⟨s₀, rfl, hk⟩, -⟩ := id hg
      exact ⟨hD.take_c hm hroom hk.1 hin, hg, .inr hm⟩
    | ret hpres =>
      obtain ⟨-, ⟨s₀, rfl, hk⟩, hrest⟩ := hg
      exact ⟨hk.2 _ ⟨hin, hpres⟩, hrest⟩

end Discipline

end CR8Devkit.Port
