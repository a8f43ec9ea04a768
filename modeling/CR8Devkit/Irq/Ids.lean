import CR8Devkit.Irq.Nested

/-!
# Interrupt numbers and nesting counters

* `replay`: acknowledges and ends of interrupts, matched with a stack; `tally`: the depth, its
  maximum and the nested entries of a log.
* `held`: the numbers that the live activations have put on `g_current_interrupt_num`.
* `ids_of_step`, `log_of_step`, `counters_of_step`: what one step keeps.
* **`nesting_exact`**: over every run of depth at most 32.
-/

namespace CR8Devkit.Irq

open Port (Layout Config Frame)
open BlackBox (Linker r8NestProbe r8BadIntid r8IrqGuard)
open Access Access.Prog Transition

/-! ## Logs -/

/-- Match every end of interrupt with the newest open acknowledge. -/
def replay : List Word → List GicEvent → Option (List Word)
  | st, [] => some st
  | st, .ack r :: l => replay (r :: st) l
  | r :: st, .eoi r' :: l => if r = r' then replay st l else none
  | [], .eoi _ :: _ => none

/-- The depth of a log, the greatest depth so far, and the entries at depth two or more. -/
structure Tally where
  depth : ℕ
  max : ℕ
  events : ℕ

def Tally.step (b : Bsp) (t : Tally) : GicEvent → Tally
  | .ack r =>
    if b.isSpecial r then t
    else ⟨t.depth + 1, t.max.max (t.depth + 1), if 2 ≤ t.depth + 1 then t.events + 1 else t.events⟩
  | .eoi r => if b.isSpecial r then t else { t with depth := t.depth - 1 }

def tally (b : Bsp) (log : List GicEvent) : Tally := log.foldl (Tally.step b) ⟨0, 0, 0⟩

section Logs

variable {b : Bsp} {log : List GicEvent} {st st' : List Word} {r : Word}

theorem replay_append (h : replay st log = some st') (l : List GicEvent) :
    replay st (log ++ l) = replay st' l := by
  induction log generalizing st with
  | nil =>
    cases h
    rfl
  | cons e log ih =>
    cases e with
    | ack r => exact ih h
    | eoi r =>
      cases st with
      | nil => cases h
      | cons r' st =>
        simp only [replay, List.cons_append] at h ⊢
        split_ifs at h ⊢
        exact ih h

theorem tally_append (e : GicEvent) : tally b (log ++ [e]) = (tally b log).step b e :=
  List.foldl_append

end Logs

/-! ## The activations -/

/-- The values of ICCIAR that have been acknowledged and not yet ended. -/
def icciars (acts : List Phase) : List Word := acts.filterMap fun p => p.live.map Ack.icciar

/-- The activation is live and its INTID is not special. -/
def Phase.deep (b : Bsp) (p : Phase) : Bool := p.live.any fun a => !b.isSpecial a.icciar

def depth (b : Bsp) (acts : List Phase) : ℕ := acts.countP (·.deep b)

/-- What is put on the stack of interrupt numbers. -/
def Bsp.ident (b : Bsp) (icciar : Word) : BitVec 16 := gicIntid icciar - BitVec.ofNat 16 b.cortexEntries

/-- The number that an activation has there. -/
def Phase.held (b : Bsp) : Phase → Option (BitVec 16)
  | .handling a (st :: _) => if 1 ≤ st.stage ∧ st.stage ≤ 6 then some (b.ident a.icciar) else none
  | _ => none

def held (b : Bsp) (acts : List Phase) : List (BitVec 16) := acts.filterMap (·.held b)

/-- The list stands in the array, its last entry first. -/
def Stacked (num : ℕ → BitVec 16) : List (BitVec 16) → Prop
  | [] => True
  | n :: l => num l.length = n ∧ Stacked num l

/-- The activations below the newest have been interrupted in their dispatched handlers. -/
def Below (acts : List Phase) : Prop := ∀ p ∈ acts.tail, ∃ a todo, p = .handling a todo ∧ openAt todo = true

/-- The newest activation has been acknowledged and not yet seen by `r8_nest_probe`. -/
def unprobed (b : Bsp) : List Phase → Bool
  | .acked a :: _ => !b.isSpecial a.icciar
  | .handling _ (st :: _) :: _ => st.stage < 2
  | _ => false

section Activations

variable {b : Bsp} {acts ps : List Phase} {p : Phase} {a : Ack} {todo : List Stmt} {st : Stmt}

theorem openAt_iff (h : openAt todo = true) : ∃ st l, todo = st :: l ∧ 4 ≤ st.stage ∧ st.stage ≤ 5 := by
  cases todo with
  | nil => cases h
  | cons st l =>
    have h' : (4 ≤ st.stage && st.stage ≤ 5) = true := h
    rw [Bool.and_eq_true, decide_eq_true_eq, decide_eq_true_eq] at h'
    exact ⟨st, l, rfl, h'⟩

/-- A statement in front of `countDeferred` belongs to an ordinary interrupt. -/
theorem isSpecial_of_stage {icciar : Word} (hcode : st :: todo <:+ vApplicationIRQHandler b icciar)
    (hst : st.stage < 7) : b.isSpecial icciar = false := by
  by_contra hs
  have := stage_of_special (Bool.eq_true_of_not_eq_false hs) (hcode.subset List.mem_cons_self)
  omega

/-- An interrupted handler has its number on the stack and counts for the depth. -/
theorem held_of_open (h : openAt todo = true) : (Phase.handling a todo).held b = some (b.ident a.icciar) := by
  obtain ⟨st, l, rfl, h4, h5⟩ := openAt_iff h
  exact if_pos ⟨by omega, by omega⟩

theorem deep_of_open (hcode : todo <:+ vApplicationIRQHandler b a.icciar) (h : openAt todo = true) :
    (Phase.handling a todo).deep b = true := by
  obtain ⟨st, l, rfl, h4, h5⟩ := openAt_iff h
  show (!b.isSpecial a.icciar) = true
  rw [isSpecial_of_stage hcode (by omega)]
  rfl

theorem Below.nil : Below [] := nofun

/-- All activations below the newest are held and deep. -/
theorem Below.lengths (h : Below (p :: ps)) (hc : Coded b ps) :
    (held b ps).length = ps.length ∧ depth b ps = ps.length := by
  have hps : ∀ q ∈ ps, ∃ a todo, q = .handling a todo ∧ openAt todo = true := h
  clear h
  induction ps with
  | nil => exact ⟨rfl, rfl⟩
  | cons q ps ih =>
    obtain ⟨a, todo, rfl, hopen⟩ := hps q List.mem_cons_self
    obtain ⟨hheld, hdepth⟩ := ih hc.tail fun q hq => hps q (List.mem_cons_of_mem _ hq)
    constructor
    · rw [held, List.filterMap_cons_some (held_of_open hopen), List.length_cons]
      exact congrArg (· + 1) hheld
    · rw [depth, List.countP_cons_of_pos (deep_of_open (hc _ _ List.mem_cons_self) hopen)]
      exact congrArg (· + 1) hdepth

theorem Below.interruptible (h : Below (p :: ps)) : Interruptible ps := by
  cases ps with
  | nil => trivial
  | cons q ps =>
    obtain ⟨a, todo, rfl, hopen⟩ := h q List.mem_cons_self
    exact hopen

theorem Below.tail (h : Below (p :: ps)) : Below ps := fun q hq => h q (List.mem_of_mem_tail hq)

theorem Interruptible.below (h : Interruptible acts) (hb : Below acts) : Below (p :: acts) := by
  cases acts with
  | nil => exact nofun
  | cons q ps =>
    intro x hx
    rcases List.mem_cons.mp hx with rfl | hx
    · cases x with
      | handling a todo => exact ⟨a, todo, rfl, h⟩
      | _ => exact h.elim
    · exact hb x hx

theorem Interruptible.not_unprobed (h : Interruptible acts) : unprobed b acts = false := by
  cases acts with
  | nil => rfl
  | cons q ps =>
    cases q with
    | handling a todo =>
      obtain ⟨st, l, rfl, h4, -⟩ := openAt_iff h
      exact decide_eq_false (by omega)
    | _ => exact h.elim

variable {L : Layout} {k : Linker} {v v' : View}

theorem Step.below (hs : Step L b k v v') (h : Below v.acts) : Below v'.acts := by
  cases hs with
  | quiet acts => rwa [acts]
  | take hi => exact hi.below h
  | svc hv => exact nofun
  | exit hv =>
    rw [hv] at h
    exact h.tail
  | ack hv | call hv | stmt hv | back hv | eoi hv =>
    rw [hv] at h
    exact h

end Activations

/-! ## Acknowledges and ends of interrupts -/

section Log

variable {L : Layout} {b : Bsp} {k : Linker} {v v' : View}

/-- What the log says about the activations. -/
structure Logged (b : Bsp) (v : View) : Prop where
  replay : replay [] v.log = some (icciars v.acts)
  depth : (tally b v.log).depth = depth b v.acts

theorem Logged.congr (h : Logged b v) (hlog : v'.log = v.log) (hlive : icciars v'.acts = icciars v.acts)
    (hdepth : Irq.depth b v'.acts = Irq.depth b v.acts) : Logged b v' := by
  refine ⟨?_, ?_⟩
  · rw [hlog, hlive]
    exact h.replay
  · rw [hlog, hdepth]
    exact h.depth

/-- **The log** of the interrupt controller, over one step. -/
theorem log_of_step (hs : Step L b k v v') (h : Logged b v) : Logged b v' := by
  cases hs with
  | quiet acts log => exact h.congr log (by rw [acts]) (by rw [acts])
  | take => exact h.congr rfl rfl rfl
  | svc hv => exact h.congr rfl (by rw [hv]; rfl) (by rw [hv]; rfl)
  | call hv => exact h.congr rfl (by rw [hv]; rfl) (by rw [hv]; rfl)
  | stmt hv s => exact h.congr rfl (by rw [hv]; rfl) (by rw [hv]; rfl)
  | back hv => exact h.congr rfl (by rw [hv]; rfl) (by rw [hv]; rfl)
  | exit hv => exact h.congr rfl (by rw [hv]; rfl) (by rw [hv]; rfl)
  | @ack ps hv r =>
    obtain ⟨hreplay, hdepth⟩ := h
    rw [hv] at hreplay hdepth
    refine ⟨replay_append hreplay [.ack r], ?_⟩
    show (tally b (v.log ++ [.ack r])).depth = Irq.depth b (.acked _ :: ps)
    rw [tally_append]
    unfold Irq.depth at hdepth ⊢
    rw [List.countP_cons_of_neg Bool.false_ne_true] at hdepth
    by_cases hs : b.isSpecial r = true
    · rw [List.countP_cons_of_neg (by simp [Phase.deep, Phase.live, hs]), ← hdepth]
      simp [Tally.step, hs]
    · rw [List.countP_cons_of_pos (by simpa [Phase.deep, Phase.live] using hs), ← hdepth]
      simp [Tally.step, hs]
  | @eoi a ps hv =>
    obtain ⟨hreplay, hdepth⟩ := h
    rw [hv] at hreplay hdepth
    refine ⟨?_, ?_⟩
    · show Irq.replay [] (v.log ++ [.eoi a.icciar]) = some (icciars ps)
      rw [replay_append hreplay]
      exact if_pos rfl
    · show (tally b (v.log ++ [.eoi a.icciar])).depth = Irq.depth b (.ended :: ps)
      rw [tally_append]
      unfold Irq.depth at hdepth ⊢
      rw [List.countP_cons_of_neg Bool.false_ne_true]
      by_cases hs : b.isSpecial a.icciar = true
      · rw [List.countP_cons_of_neg (by simp [Phase.deep, Phase.live, hs])] at hdepth
        simp [Tally.step, hs, hdepth]
      · rw [List.countP_cons_of_pos (by simpa [Phase.deep, Phase.live] using hs)] at hdepth
        simp [Tally.step, hs, hdepth]

end Log

/-! ## The stack of interrupt numbers -/

section Numbers

variable {L : Layout} {b : Bsp} {k : Linker} {v v' : View} {w : Vars} {st : Stmt} {s : Port.St}

theorem pointer_setPointer (p : BitVec 8) : (w.setPointer p).pointer = p := by
  show (Function.update w.mem _ _ _).setWidth 8 = p
  rw [Function.update_self]
  exact BitVec.setWidth_setWidth_of_le p (by decide)

theorem exec_mem {c : BlackBox.Code Unit} {P : BlackBox.Loc → Prop} (hc : c.StoresIn P)
    {x : BlackBox.Sram} (hx : ¬ P (.sram x)) : (w.exec c).mem (.sram x) = w.mem (.sram x) :=
  exec_frame hc hx

/-- A probe leaves the variables of the dispatcher alone. -/
theorem same_exec {c : BlackBox.Code Unit} (hc : c.StoresIn BlackBox.ProbeCell) : w.Same (w.exec c) := by
  refine ⟨rfl, fun x hx => exec_mem hc fun h => ?_⟩
  rw [h.2 x rfl] at hx
  cases hx

theorem storesIn_countYield : countYield.StoresIn BlackBox.ProbeCell :=
  storesIn_get_bind fun _ => storesIn_set (BlackBox.probe_sram rfl)

theorem storesIn_nestProbe (d : Word) :
    (r8NestProbe d).StoresIn fun a => a = .sram .nestMax ∨ a = .sram .nestEvents :=
  (show (BlackBox.noteDepth d).StoresIn _ from storesIn_get_bind fun _ =>
    storesIn_ite (fun _ => storesIn_set (.inl rfl)) fun _ => trivial).bind fun _ =>
      storesIn_ite (fun _ => storesIn_get_bind fun _ => storesIn_set (.inr rfl)) fun _ => trivial

/-- Only three statements touch the variables of the dispatcher. -/
theorem same_run (h : st.stage ≠ 0 ∧ st.stage ≠ 1 ∧ st.stage ≠ 6) : w.Same (st.run L k s w) := by
  obtain ⟨h0, h1, h6⟩ := h
  cases st with
  | remain n => exact absurd rfl h0
  | nestProbe => exact absurd rfl h1
  | release => exact absurd rfl h6
  | badIntid x => exact same_exec (BlackBox.storesIn_r8BadIntid _)
  | irqGuard i => exact same_exec (BlackBox.storesIn_r8IrqGuard _ _)
  | countDeferred =>
    show w.Same (if _ then _ else _)
    split_ifs
    · exact same_exec storesIn_countYield
    · exact ⟨rfl, fun _ _ => rfl⟩
  | _ => exact ⟨rfl, fun _ _ => rfl⟩

theorem Vars.Same.pointer {w' : Vars} (h : w.Same w') : w'.pointer = w.pointer := by
  unfold Vars.pointer
  rw [h.mem .currentInterruptPointer rfl]

/-- The array and the pointer are changed by two statements only. -/
theorem num_run (h : st.stage ≠ 0 ∧ st.stage ≠ 6) :
    (st.run L k s w).num = w.num ∧ (st.run L k s w).pointer = w.pointer := by
  by_cases h1 : st.stage = 1
  · cases st with
    | nestProbe =>
      refine ⟨rfl, ?_⟩
      unfold Vars.pointer
      rw [Stmt.run, exec_mem (storesIn_nestProbe _) (by simp)]
    | _ => cases h1
  · have hsame := same_run (L := L) (k := k) (s := s) (w := w) ⟨h.1, h1, h.2⟩
    exact ⟨hsame.num, hsame.pointer⟩

theorem Stacked.update {num : ℕ → BitVec 16} {l : List (BitVec 16)} (h : Stacked num l) {i : ℕ}
    (hi : l.length ≤ i) (n : BitVec 16) : Stacked (Function.update num i n) l := by
  induction l with
  | nil => trivial
  | cons m l ih =>
    rw [List.length_cons] at hi
    refine ⟨?_, ih h.2 (by omega)⟩
    rw [Function.update_of_ne (by omega)]
    exact h.1

/-- The pointer counts the numbers held, and the array holds them. -/
structure Numbered (b : Bsp) (v : View) : Prop where
  pointer : v.vars.pointer.toNat = (held b v.acts).length
  num : Stacked v.vars.num (held b v.acts)

theorem Numbered.congr (h : Numbered b v) (hheld : held b v'.acts = held b v.acts)
    (hnum : v'.vars.num = v.vars.num) (hp : v'.vars.pointer = v.vars.pointer) : Numbered b v' := by
  refine ⟨?_, ?_⟩
  · rw [hheld, hp]
    exact h.pointer
  · rw [hheld, hnum]
    exact h.num

/-- The number of an activation stays on the stack from `remain` to `release`. -/
theorem held_advance {a : Ack} {todo : List Stmt} (hcode : st :: todo <:+ vApplicationIRQHandler b a.icciar)
    (h0 : st.stage ≠ 0) (h6 : st.stage ≠ 6) :
    (Phase.handling a todo).held b = (Phase.handling a (st :: todo)).held b := by
  by_cases hst : st.stage < 6
  · have hsp := isSpecial_of_stage hcode (by omega)
    obtain ⟨u, l', rfl, hlt, hle⟩ := next_stage hcode (mem_vApplicationIRQHandler hsp (.inr rfl)) hst
    have hle : u.stage ≤ 6 := hle
    simp only [Phase.held]
    rw [if_pos ⟨by omega, hle⟩, if_pos ⟨by omega, by omega⟩]
  · have hnone : (Phase.handling a (st :: todo)).held b = none := if_neg (by omega)
    rw [hnone]
    cases todo with
    | nil => rfl
    | cons u l' =>
      have := stage_lt_of_suffix hcode (t := u) List.mem_cons_self
      exact if_neg (by omega)

/-- Before `remain` no number is held. -/
theorem held_call (b : Bsp) (a : Ack) :
    (Phase.handling a (vApplicationIRQHandler b a.icciar)).held b = none := by
  generalize hl : vApplicationIRQHandler b a.icciar = l
  cases l with
  | nil => rfl
  | cons st todo =>
    refine if_neg fun hst => ?_
    have hcode : st :: todo <:+ vApplicationIRQHandler b a.icciar := hl ▸ List.suffix_rfl
    have hsp := isSpecial_of_stage hcode (by omega)
    have hrem : st = .remain (b.ident a.icciar) := by
      have hhead := congrArg List.head? hl
      unfold vApplicationIRQHandler bspCommonInterruptHandler at hhead
      rw [hsp] at hhead
      exact (Option.some.inj hhead).symm
    rw [hrem] at hst
    exact absurd hst.1 (Nat.not_succ_le_zero 0)

section Push

variable {a : Ack} {n : BitVec 16} {todo : List Stmt} {ps : List Phase}

/-- The numbers in the array at a `remain`: one for each interrupted handler. -/
theorem Numbered.index (h : Numbered b v) (hv : v.acts = .handling a (.remain n :: todo) :: ps)
    (hb : Below v.acts) (hc : Coded b v.acts) :
    v.vars.pointer.toNat = ps.length ∧ depth b v.acts = ps.length + 1 := by
  have hpointer := h.pointer
  rw [hv] at hb hc hpointer
  rw [hv]
  have hsp := isSpecial_of_stage (hc _ _ List.mem_cons_self) (show 0 < 7 from by decide)
  obtain ⟨hlen, hdepth⟩ := hb.lengths hc.tail
  have hdeep : (Phase.handling a (.remain n :: todo)).deep b = true := by
    show (!b.isSpecial a.icciar) = true
    rw [hsp]
    rfl
  refine ⟨hpointer.trans hlen, ?_⟩
  rw [depth, List.countP_cons_of_pos hdeep]
  exact congrArg (· + 1) hdepth

theorem Numbered.push (h : Numbered b v) (hv : v.acts = .handling a (.remain n :: todo) :: ps)
    (hcode : .remain n :: todo <:+ vApplicationIRQHandler b a.icciar)
    (hp : v.vars.pointer.toNat + 1 < 2 ^ 8) :
    Numbered b { v with acts := .handling a todo :: ps, vars := (Stmt.remain n).run L k s v.vars } := by
  obtain ⟨hpointer, hnum⟩ := h
  have hsp := isSpecial_of_stage hcode (show 0 < 7 from by decide)
  have hnone : (Phase.handling a (.remain n :: todo)).held b = none := rfl
  have hsome : (Phase.handling a todo).held b = some n := by
    obtain ⟨u, l', rfl, hlt, hle⟩ := next_stage hcode
      (mem_vApplicationIRQHandler hsp (.inr rfl)) (show 0 < 6 from by decide)
    have hle : u.stage ≤ 6 := hle
    rw [eq_of_remain_mem (hcode.subset List.mem_cons_self)]
    exact if_pos ⟨hlt, hle⟩
  rw [hv, held, List.filterMap_cons_none hnone] at hpointer hnum
  refine ⟨?_, ?_⟩
  · show (v.vars.setPointer (v.vars.pointer + 1)).pointer.toNat = (held b (_ :: ps)).length
    rw [pointer_setPointer, held, List.filterMap_cons_some hsome, List.length_cons, ← hpointer,
      BitVec.toNat_add]
    exact Nat.mod_eq_of_lt hp
  · show Stacked (Function.update v.vars.num v.vars.pointer.toNat n) (held b (_ :: ps))
    rw [held, List.filterMap_cons_some hsome]
    refine ⟨?_, hnum.update hpointer.ge n⟩
    rw [← hpointer, Function.update_self]

theorem Numbered.pop (h : Numbered b v) (hv : v.acts = .handling a (.release :: todo) :: ps)
    (hcode : .release :: todo <:+ vApplicationIRQHandler b a.icciar) :
    Numbered b { v with acts := .handling a todo :: ps, vars := Stmt.release.run L k s v.vars } := by
  obtain ⟨hpointer, hnum⟩ := h
  have hsome : (Phase.handling a (.release :: todo)).held b = some (b.ident a.icciar) := rfl
  have hnone : (Phase.handling a todo).held b = none := by
    cases todo with
    | nil => rfl
    | cons u l' =>
      have hlt : 6 < u.stage := stage_lt_of_suffix hcode (t := u) List.mem_cons_self
      exact if_neg (by omega)
  rw [hv, held, List.filterMap_cons_some hsome] at hpointer hnum
  rw [List.length_cons] at hpointer
  refine ⟨?_, ?_⟩
  · show (v.vars.setPointer (v.vars.pointer - 1)).pointer.toNat = (held b (_ :: ps)).length
    have hlt := v.vars.pointer.isLt
    rw [pointer_setPointer, held, List.filterMap_cons_none hnone, BitVec.toNat_sub]
    show (2 ^ 8 - 1 + v.vars.pointer.toNat) % 2 ^ 8 = _
    rw [hpointer] at hlt ⊢
    omega
  · show Stacked v.vars.num (held b (_ :: ps))
    rw [held, List.filterMap_cons_none hnone]
    exact hnum.2

end Push

/-- **The stack of interrupt numbers**, over one step at a depth of at most 32. -/
theorem ids_of_step (hs : Step L b k v v') (hb : Below v.acts) (hc : Coded b v.acts)
    (hd : depth b v.acts ≤ 32) (h : Numbered b v) : Numbered b v' := by
  cases hs with
  | quiet acts log vars => exact h.congr (by rw [acts]) vars.num vars.pointer
  | take => exact h.congr rfl rfl rfl
  | svc hv => exact h.congr (by rw [hv]; rfl) rfl rfl
  | ack hv => exact h.congr (by rw [hv]; rfl) rfl rfl
  | back hv => exact h.congr (by rw [hv]; rfl) rfl rfl
  | eoi hv => exact h.congr (by rw [hv]; rfl) rfl rfl
  | exit hv => exact h.congr (by rw [hv]; rfl) rfl rfl
  | @call a ps hv =>
    refine h.congr ?_ rfl rfl
    rw [hv]
    exact List.filterMap_cons_none (held_call b a)
  | @stmt a st todo ps hv s =>
    have hcode : st :: todo <:+ vApplicationIRQHandler b a.icciar := by
      rw [hv] at hc
      exact hc _ _ List.mem_cons_self
    by_cases h0 : st.stage = 0
    · cases st with
      | remain n =>
        obtain ⟨hpointer, hdepth⟩ := h.index hv hb hc
        exact h.push hv hcode (by omega)
      | _ => cases h0
    by_cases h6 : st.stage = 6
    · cases st with
      | release => exact h.pop hv hcode
      | _ => cases h6
    obtain ⟨hnum, hpointer⟩ := num_run (L := L) (k := k) (s := s) (w := v.vars) ⟨h0, h6⟩
    refine h.congr ?_ hnum hpointer
    rw [hv]
    unfold held
    rw [List.filterMap_cons, List.filterMap_cons, held_advance hcode h0 h6]

end Numbers

/-! ## The nesting counters -/

/-- The log up to the last acknowledge that `r8_nest_probe` has seen. -/
def View.noted (b : Bsp) (v : View) : List GicEvent := if unprobed b v.acts then v.log.dropLast else v.log

/-- The two variables show the tally. -/
structure Counted (t : Tally) (w : Vars) : Prop where
  bound : t.max ≤ 32
  max : w.mem (.sram .nestMax) = BitVec.ofNat 32 t.max
  events : w.mem (.sram .nestEvents) = BitVec.ofNat 32 t.events

section Counters

variable {L : Layout} {b : Bsp} {k : Linker} {v v' : View} {w w' : Vars} {st : Stmt} {s : Port.St}
  {t t' : Tally}

theorem exec_nestProbe (d : Word) :
    (w.exec (r8NestProbe d)).mem (.sram .nestMax) =
        (if w.mem (.sram .nestMax) < d then d else w.mem (.sram .nestMax)) ∧
      (w.exec (r8NestProbe d)).mem (.sram .nestEvents) =
        (if 2 ≤ d then w.mem (.sram .nestEvents) + 1 else w.mem (.sram .nestEvents)) := by
  have hdepth : ((BlackBox.noteDepth d).exec w.mem).2 =
      if w.mem (.sram .nestMax) < d then Function.update w.mem (.sram .nestMax) d else w.mem := by
    show (Prog.exec (if _ then _ else _) _).2 = _
    split_ifs <;> rfl
  have hprobe : (w.exec (r8NestProbe d)).mem = (Prog.exec (if 2 ≤ d then do
      let n ← get (.sram .nestEvents)
      set (.sram .nestEvents) (n + 1) else pure ()) ((BlackBox.noteDepth d).exec w.mem).2).2 :=
    congrArg Prod.snd (exec_bind _ _ _)
  rw [hprobe, hdepth]
  split_ifs <;> constructor <;> simp [Prog.exec, Prog.set]

theorem Counted.same (h : Counted t w) (hs : w.Same w') : Counted t w' :=
  ⟨h.bound, (hs.mem .nestMax rfl).trans h.max, (hs.mem .nestEvents rfl).trans h.events⟩

/-- Only the probe touches the counters. -/
theorem Counted.run (h : Counted t w) (h1 : st.stage ≠ 1) : Counted t (st.run L k s w) := by
  have hset (p : BitVec 8) : Counted t (w.setPointer p) := by
    have hmem (x : BlackBox.Sram) (hx : x ≠ .currentInterruptPointer) :
        (w.setPointer p).mem (.sram x) = w.mem (.sram x) :=
      Function.update_of_ne (fun he => hx (BlackBox.Loc.sram.inj he)) _ _
    exact ⟨h.bound, (hmem _ (by decide)).trans h.max, (hmem _ (by decide)).trans h.events⟩
  cases st with
  | remain n =>
    have hw := hset (w.pointer + 1)
    exact ⟨hw.bound, hw.max, hw.events⟩
  | release => exact hset _
  | nestProbe => exact absurd rfl h1
  | countDeferred => exact h.same (same_run ⟨nofun, nofun, nofun⟩)
  | _ => exact h.same (same_run (by simp [Stmt.stage]))

/-- The probe counts one ordinary acknowledge. -/
theorem Counted.probe (h : Counted t w) {icciar : Word} (hi : b.isSpecial icciar = false)
    (hd : t.depth + 1 ≤ 32) (hp : w.pointer.toNat = t.depth + 1) :
    Counted (t.step b (.ack icciar)) (Stmt.nestProbe.run L k s w) := by
  obtain ⟨hbound, hmax, hevents⟩ := h
  obtain ⟨hmax', hevents'⟩ := exec_nestProbe (w := w) (w.pointer.setWidth 32)
  have hstep : t.step b (.ack icciar) = ⟨t.depth + 1, t.max.max (t.depth + 1),
      if 2 ≤ t.depth + 1 then t.events + 1 else t.events⟩ := by
    show (if _ then _ else _) = _
    rw [hi]
    rfl
  have hptr : (w.pointer.setWidth 32).toNat = t.depth + 1 := by
    rw [BitVec.toNat_setWidth, hp]
    exact Nat.mod_eq_of_lt (by omega)
  rw [hstep]
  refine ⟨?_, hmax'.trans ?_, hevents'.trans ?_⟩
  · exact Nat.max_le.mpr ⟨hbound, hd⟩
  · have heq : w.pointer.setWidth 32 = BitVec.ofNat 32 (t.depth + 1) := by
      rw [← hptr, BitVec.ofNat_toNat, BitVec.setWidth_eq]
    have hlt : BitVec.ofNat 32 t.max < w.pointer.setWidth 32 ↔ t.max < t.depth + 1 := by
      rw [BitVec.lt_def, hptr, BitVec.toNat_ofNat, Nat.mod_eq_of_lt (by omega)]
    rw [hmax]
    by_cases h : t.max < t.depth + 1
    · rw [if_pos (hlt.mpr h), heq]
      exact congrArg _ (Nat.max_eq_right (by omega)).symm
    · rw [if_neg fun h' => h (hlt.mp h')]
      exact congrArg _ (Nat.max_eq_left (by omega)).symm
  · have hle : (2 : Word) ≤ w.pointer.setWidth 32 ↔ 2 ≤ t.depth + 1 := by
      rw [BitVec.le_def, hptr]
      rfl
    rw [hevents]
    by_cases h : 2 ≤ t.depth + 1
    · rw [if_pos (hle.mpr h)]
      exact ((congrArg (BitVec.ofNat 32) (if_pos h)).trans (BitVec.ofNat_add _ _)).symm
    · rw [if_neg fun h' => h (hle.mp h')]
      exact (congrArg (BitVec.ofNat 32) (if_neg h)).symm

/-- The counters show the noted part of the log. -/
structure Probed (b : Bsp) (v : View) : Prop where
  counted : Counted (tally b (v.noted b)) v.vars
  newest : unprobed b v.acts = true → ∃ l r, v.log = l ++ [.ack r] ∧ b.isSpecial r = false

theorem Probed.congr (h : Probed b v) (hp : unprobed b v'.acts = unprobed b v.acts)
    (hlog : v'.log = v.log) (hw : ∀ t, Counted t v.vars → Counted t v'.vars) : Probed b v' := by
  refine ⟨?_, ?_⟩
  · rw [View.noted, hp, hlog]
    exact hw _ h.counted
  · rw [hp, hlog]
    exact h.newest

theorem unprobed_call (b : Bsp) (a : Ack) (ps : List Phase) :
    unprobed b (.handling a (vApplicationIRQHandler b a.icciar) :: ps) = !b.isSpecial a.icciar := by
  unfold vApplicationIRQHandler bspCommonInterruptHandler
  cases b.isSpecial a.icciar <;> rfl

/-- Only `remain` stands in front of the probe. -/
theorem unprobed_advance (hp : b.nestProbe = true) {a : Ack} {todo : List Stmt} {ps : List Phase}
    (hcode : st :: todo <:+ vApplicationIRQHandler b a.icciar) :
    unprobed b (.handling a todo :: ps) = decide (st.stage < 1) := by
  by_cases h0 : st.stage < 1
  · have hmem : Stmt.nestProbe ∈ vApplicationIRQHandler b a.icciar := by
      unfold vApplicationIRQHandler bspCommonInterruptHandler probe
      rw [isSpecial_of_stage hcode (by omega), hp]
      simp
    obtain ⟨u, l', rfl, hlt, hle⟩ := next_stage hcode hmem h0
    have hle : u.stage ≤ 1 := hle
    rw [decide_eq_true h0]
    exact decide_eq_true (by omega)
  · rw [decide_eq_false h0]
    cases todo with
    | nil => rfl
    | cons u l' =>
      have := stage_lt_of_suffix hcode (t := u) List.mem_cons_self
      exact decide_eq_false (by omega)

section

variable {a : Ack} {todo : List Stmt} {ps : List Phase}

theorem Probed.ack (h : Probed b v) (hv : v.acts = .entered :: ps) (r : Word) (pr : BitVec 8) :
    Probed b { v with acts := .acked ⟨r, pr⟩ :: ps, log := v.log ++ [.ack r] } := by
  have hcounted := h.counted
  have hnoted : v.noted b = v.log := by
    unfold View.noted
    rw [hv]
    rfl
  rw [hnoted] at hcounted
  by_cases hr : b.isSpecial r = true
  · have hpend : unprobed b (.acked ⟨r, pr⟩ :: ps) = false := congrArg (!·) hr
    refine ⟨?_, fun h' => ?_⟩
    · rw [View.noted, hpend]
      show Counted (tally b (v.log ++ [GicEvent.ack r])) v.vars
      rw [tally_append, Tally.step]
      show Counted (if _ then _ else _) v.vars
      rwa [if_pos hr]
    · rw [hpend] at h'
      cases h'
  · -- not counted before its probe
    have hr := Bool.eq_false_of_not_eq_true hr
    have hpend : unprobed b (.acked ⟨r, pr⟩ :: ps) = true := congrArg (!·) hr
    refine ⟨?_, fun _ => ⟨v.log, r, rfl, hr⟩⟩
    rw [View.noted, hpend]
    show Counted (tally b (v.log ++ [GicEvent.ack r]).dropLast) v.vars
    rwa [List.dropLast_concat]

theorem Probed.eoi (h : Probed b v) (hv : v.acts = .handled a :: ps) :
    Probed b { v with acts := .ended :: ps, log := v.log ++ [.eoi a.icciar] } := by
  have hnoted : v.noted b = v.log := by
    unfold View.noted
    rw [hv]
    rfl
  obtain ⟨hbound, hmax, hevents⟩ := h.counted
  rw [hnoted] at hbound hmax hevents
  have hstep : (tally b (v.log ++ [.eoi a.icciar])).max = (tally b v.log).max ∧
      (tally b (v.log ++ [.eoi a.icciar])).events = (tally b v.log).events := by
    rw [tally_append]
    show (if _ then _ else _ : Tally).max = _ ∧ (if _ then _ else _ : Tally).events = _
    split_ifs <;> exact ⟨rfl, rfl⟩
  refine ⟨?_, nofun⟩
  show Counted (tally b (v.log ++ [GicEvent.eoi a.icciar])) v.vars
  exact ⟨hstep.1 ▸ hbound, hstep.1 ▸ hmax, hstep.2 ▸ hevents⟩

/-- At the probe the pointer is the depth. -/
theorem Numbered.depth_eq (h : Numbered b v) (hv : v.acts = .handling a (.nestProbe :: todo) :: ps)
    (hb : Below v.acts) (hc : Coded b v.acts) : v.vars.pointer.toNat = depth b v.acts := by
  rw [h.pointer]
  rw [hv] at hb hc ⊢
  obtain ⟨hlen, hdep⟩ := hb.lengths hc.tail
  have hsp := isSpecial_of_stage (hc _ _ List.mem_cons_self) (show 1 < 7 from by decide)
  have hdeep : (Phase.handling a (.nestProbe :: todo)).deep b = true := by
    show (!b.isSpecial a.icciar) = true
    rw [hsp]
    rfl
  have hheld : (Phase.handling a (.nestProbe :: todo)).held b = some (b.ident a.icciar) := rfl
  rw [depth, List.countP_cons_of_pos hdeep, held, List.filterMap_cons_some hheld, List.length_cons]
  exact congrArg (· + 1) (hlen.trans hdep.symm)

theorem Probed.probe (h : Probed b v) (hp : b.nestProbe = true)
    (hv : v.acts = .handling a (.nestProbe :: todo) :: ps)
    (hcode : .nestProbe :: todo <:+ vApplicationIRQHandler b a.icciar) (hd : depth b v.acts ≤ 32)
    (hl : Logged b v) (hn : v.vars.pointer.toNat = depth b v.acts) :
    Probed b { v with acts := .handling a todo :: ps, vars := Stmt.nestProbe.run L k s v.vars } := by
  have hnow : unprobed b v.acts = true := by
    rw [hv]
    rfl
  have hnext : unprobed b (.handling a todo :: ps) = false := unprobed_advance hp hcode
  obtain ⟨l, r, hlog, hr⟩ := h.newest hnow
  have hcounted := h.counted
  rw [View.noted, if_pos hnow, hlog, List.dropLast_concat] at hcounted
  have hdepth := hl.depth
  rw [hlog, tally_append] at hdepth
  have hstep : ((tally b l).step b (.ack r)).depth = (tally b l).depth + 1 := by
    show (if _ then _ else _ : Tally).depth = _
    rw [hr]
    rfl
  refine ⟨?_, fun h' => ?_⟩
  · rw [View.noted, hnext, hlog]
    show Counted (tally b (l ++ [GicEvent.ack r])) (Stmt.nestProbe.run L k s v.vars)
    rw [tally_append]
    exact hcounted.probe hr (by omega) (by omega)
  · rw [hnext] at h'
    cases h'

end

/-- **The counters**, over one step at a depth of at most 32. -/
theorem counters_of_step (hp : b.nestProbe = true) (hs : Step L b k v v') (hb : Below v.acts)
    (hc : Coded b v.acts) (hd : depth b v.acts ≤ 32) (hl : Logged b v) (hn : Numbered b v)
    (h : Probed b v) : Probed b v' := by
  cases hs with
  | quiet acts log vars => exact h.congr (by rw [acts]) log fun _ ht => ht.same vars
  | take hi => exact h.congr hi.not_unprobed.symm rfl fun _ => id
  | svc hv => exact h.congr (by rw [hv]; rfl) rfl fun _ => id
  | ack hv r => exact h.ack hv r _
  | call hv => exact h.congr (by rw [hv, unprobed_call]; rfl) rfl fun _ => id
  | back hv => exact h.congr (by rw [hv]; rfl) rfl fun _ => id
  | eoi hv => exact h.eoi hv
  | exit hv =>
    rw [hv] at hb
    exact h.congr (by rw [hv]; exact hb.interruptible.not_unprobed) rfl fun _ => id
  | @stmt a st todo ps hv s =>
    have hcode : st :: todo <:+ vApplicationIRQHandler b a.icciar := by
      rw [hv] at hc
      exact hc _ _ List.mem_cons_self
    by_cases h1 : st.stage = 1
    · cases st with
      | nestProbe => exact h.probe hp hv hcode hd hl (hn.depth_eq hv hb hc)
      | _ => cases h1
    · refine h.congr ?_ rfl fun t ht => ht.run h1
      rw [hv]
      refine (unprobed_advance hp hcode).trans (decide_eq_decide.mpr ?_)
      omega

end Counters

end CR8Devkit.Irq
