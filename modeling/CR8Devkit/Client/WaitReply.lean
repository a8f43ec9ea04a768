import Mathlib.Data.List.Basic
import Mathlib.Data.Int.Notation
import Mathlib.Tactic.Common

/-!
# Waiting for a reply of the R8

`wait_reply` with its two loops, the one of `platform_poll` inside its own, against an arbitrary
environment: receive interrupts, time-outs of the condition variable, messages in the virtqueue and
the monotonic clock.

* `waitRound`, `waitReply`: one round of the innermost loop, and the call.
* `waitLoop_spec`: the round at which a call returns, and with what.
* `meets_iff`: the exact condition under which it returns `0` after a delivery and `-1` after the
  deadline without one; `returns_of_leaves`: it returns if the inner loop is left again and again.
-/

namespace CR8Devkit.WaitReply

/-! ## Received messages -/

abbrev Byte := BitVec 8

/-- `sizeof(g_reply_buf)`. -/
def replyBufSize : ℕ := 4096

structure Reply where
  buf : List Byte
  len : ℕ
  ready : Bool

def msgCb (r : Reply) (data : List Byte) : Reply :=
  let len := min data.length replyBufSize
  ⟨data.take len ++ r.buf.drop len, len, true⟩

/-- The reply variables and the `sync` flag of this thread's mailbox: the thread that calls
`platform_poll` has one of the four, so `thread_specific_ipi` is not `NULL`. -/
structure Client where
  reply : Reply
  sync : Bool

/-- `remoteproc_get_notification` hands every message it finds to `msg_cb`. -/
def Client.notify (c : Client) (inbox : List (List Byte)) : Client :=
  { c with reply := inbox.foldl msgCb c.reply }

theorem foldl_msgCb_ready (inbox : List (List Byte)) (r : Reply) :
    (inbox.foldl msgCb r).ready = (r.ready || !inbox.isEmpty) := by
  induction inbox generalizing r with
  | nil => simp
  | cons d inbox ih =>
    rw [List.foldl_cons, ih]
    simp [msgCb]

/-! ## The clock -/

structure Timespec where
  sec : ℤ
  nsec : ℤ

/-- C's integer division truncates. -/
def msBetween (a b : Timespec) : ℤ :=
  (b.sec - a.sec) * 1000 + Int.tdiv (b.nsec - a.nsec) 1000000

def Timespec.Valid (t : Timespec) : Prop := 0 ≤ t.nsec ∧ t.nsec < 1000000000

def Timespec.le (a b : Timespec) : Prop := a.sec < b.sec ∨ a.sec = b.sec ∧ a.nsec ≤ b.nsec

theorem tdiv_million (x : ℤ) : Int.tdiv x 1000000 =
    x / 1000000 + if 0 ≤ x ∨ 1000000 ∣ x then 0 else 1 := Int.tdiv_eq_ediv

theorem msBetween_mono {a b c : Timespec} (ha : a.Valid) (hb : b.Valid) (hc : c.Valid)
    (h : b.le c) : msBetween a b ≤ msBetween a c := by
  obtain ⟨_, _⟩ := ha
  obtain ⟨_, _⟩ := hb
  obtain ⟨_, _⟩ := hc
  unfold Timespec.le at h
  simp only [msBetween, tdiv_million]
  split_ifs <;> omega

/-! ## `platform_poll` and `wait_reply` -/

/-- What one round of the innermost loop meets: `irq` is a receive interrupt since the last test of
the flag, `timedOut` the result `ETIMEDOUT` of the wait, `inbox` what the virtqueue holds if it is
looked at, `now` the clock after it. -/
structure Tick where
  irq : Bool
  timedOut : Bool
  inbox : List (List Byte)
  now : Timespec

/-- The ticks of a call, with a monotonic clock that grows beyond every bound. -/
structure Env where
  start : Timespec
  tick : ℕ → Tick
  start_valid : start.Valid
  now_valid : ∀ n, (tick n).now.Valid
  now_mono : ∀ {m n}, m ≤ n → (tick m).now.le (tick n).now
  unbounded : ∀ b : ℤ, ∃ n, b < msBetween start (tick n).now

/-- The handler of the mailbox interrupt clears the flag. -/
def Client.interrupt (c : Client) (t : Tick) : Client := { c with sync := c.sync && !t.irq }

/-- One round of the loop of `platform_poll`, and whether it breaks. A wait that times out looks at
the virtqueue too, and goes round again. -/
def pollRound (t : Tick) (c : Client) : Client × Bool :=
  let c := c.interrupt t
  if c.sync = false then ({ c with sync := true }.notify t.inbox, true)
  else if t.timedOut then (c.notify t.inbox, false)
  else (c, false)

/-- What `wait_reply` does after `platform_poll`: the deadline first, then its loop condition. -/
def afterPoll (start : Timespec) (timeoutMs : ℤ) (t : Tick) (c : Client) : Option ℤ :=
  if timeoutMs < msBetween start t.now then some (-1)
  else if c.reply.ready then some 0
  else none

/-- One round of the innermost loop, and what `wait_reply` returns after it. -/
def waitRound (gPoll : Bool) (start : Timespec) (timeoutMs : ℤ) (t : Tick) (c : Client) :
    Client × Option ℤ :=
  if gPoll then
    let c := (c.interrupt t).notify t.inbox
    (c, afterPoll start timeoutMs t c)
  else
    let (c, left) := pollRound t c
    (c, if left then afterPoll start timeoutMs t c else none)

/-- The round looks at the virtqueue. -/
def looks (gPoll : Bool) (t : Tick) (c : Client) : Bool :=
  gPoll || !(c.interrupt t).sync || t.timedOut

theorem pollRound_reply (t : Tick) (c : Client) : (pollRound t c).1.reply =
    if looks false t c then t.inbox.foldl msgCb c.reply else c.reply := by
  have hi : (c.interrupt t).reply = c.reply := rfl
  cases hs : (c.interrupt t).sync <;> cases ht : t.timedOut <;>
    simp [pollRound, looks, Client.notify, hi, hs, ht]

theorem waitRound_reply (gPoll : Bool) (start : Timespec) (timeoutMs : ℤ) (t : Tick) (c : Client) :
    (waitRound gPoll start timeoutMs t c).1.reply =
      if looks gPoll t c then t.inbox.foldl msgCb c.reply else c.reply := by
  cases gPoll with
  | true => rfl
  | false => exact pollRound_reply t c

theorem ready_of_afterPoll {start : Timespec} {timeoutMs : ℤ} {t : Tick} {c : Client}
    (h : afterPoll start timeoutMs t c = some 0) : c.reply.ready = true := by
  unfold afterPoll at h
  split_ifs at h with hlate hready
  · cases h
  · exact hready

theorem ready_of_waitRound {gPoll : Bool} {start : Timespec} {timeoutMs : ℤ} {t : Tick} {c : Client}
    (h : (waitRound gPoll start timeoutMs t c).2 = some 0) :
    (waitRound gPoll start timeoutMs t c).1.reply.ready = true := by
  cases gPoll with
  | true => exact ready_of_afterPoll h
  | false =>
    by_cases hl : (pollRound t c).2 = true
    · exact ready_of_afterPoll ((if_pos hl).symm.trans h)
    · exact absurd ((if_neg hl).symm.trans h) nofun

variable (gPoll : Bool) (timeoutMs : ℤ) (e : Env) (c₀ : Client)

/-- At most `k` rounds from round `n` on: the round that returned, the state, the result. -/
def waitLoop : ℕ → ℕ → Client → Option (ℕ × Client × ℤ)
  | 0, _, _ => none
  | k + 1, n, c =>
    match waitRound gPoll e.start timeoutMs (e.tick n) c with
    | (c, some r) => some (n, c, r)
    | (c, none) => waitLoop k (n + 1) c

/-- `wait_reply`, cut off after `k` rounds. -/
def waitReply (k : ℕ) : Option (ℕ × Client × ℤ) :=
  waitLoop gPoll timeoutMs e k 0 { c₀ with reply := { c₀.reply with ready := false } }

/-! ### What happens in round `n` -/

/-- Round `n` gets to the checks of `wait_reply`: it polls busily, or finds the flag clear. -/
def Leaves (n : ℕ) : Prop :=
  gPoll = true ∨ (n = 0 ∧ c₀.sync = false) ∨ (e.tick n).irq = true

/-- Round `n` looks at the virtqueue. -/
def Looks (n : ℕ) : Prop := Leaves gPoll e c₀ n ∨ (e.tick n).timedOut = true

/-- A message has been delivered by the end of round `n`. -/
def Delivered (n : ℕ) : Prop := ∃ i ≤ n, Looks gPoll e c₀ i ∧ (e.tick i).inbox ≠ []

/-- More than the time-out has elapsed by the end of round `n`. -/
def Late (n : ℕ) : Prop := timeoutMs < msBetween e.start (e.tick n).now

/-- The state before round `n`, as far as the rounds to come depend on it. -/
structure Before (n : ℕ) (c : Client) : Prop where
  sync : gPoll = false → (c.sync = false ↔ n = 0 ∧ c₀.sync = false)
  ready : c.reply.ready = true ↔ ∃ i < n, Looks gPoll e c₀ i ∧ (e.tick i).inbox ≠ []

variable {gPoll timeoutMs e c₀} {n : ℕ} {c : Client}

instance : Decidable (Leaves gPoll e c₀ n) := by unfold Leaves; infer_instance
instance : Decidable (Looks gPoll e c₀ n) := by unfold Looks; infer_instance
instance : Decidable (Late timeoutMs e n) := by unfold Late; infer_instance

/-- After the round the flag is set (unless the client polls busily), and the reply is ready exactly
if a message has been delivered. -/
theorem Before.next {c' : Client} (h : Before gPoll e c₀ n c)
    (hs : gPoll = false → c'.sync = true)
    (hr : c'.reply.ready = true ↔
      c.reply.ready = true ∨ Looks gPoll e c₀ n ∧ (e.tick n).inbox ≠ []) :
    Before gPoll e c₀ (n + 1) c' := by
  refine ⟨fun hp => ?_, ?_⟩
  · simp [hs hp]
  · rw [hr, h.ready, Nat.exists_lt_succ_right]

theorem notify_ready (c : Client) (inbox : List (List Byte)) :
    (c.notify inbox).reply.ready = true ↔ c.reply.ready = true ∨ inbox ≠ [] := by
  simp [Client.notify, foldl_msgCb_ready]

/-- The flag is found clear exactly in the rounds that leave. -/
theorem interrupt_sync (h : Before false e c₀ n c) :
    (c.interrupt (e.tick n)).sync = false ↔ Leaves false e c₀ n := by
  have hs := h.sync rfl
  simp only [Client.interrupt, Leaves, Bool.false_eq_true, false_or, ← hs]
  cases c.sync <;> cases (e.tick n).irq <;> simp

theorem waitRound_of_pollRound {t : Tick} {start : Timespec} {c' : Client} {left : Bool}
    (h : pollRound t c = (c', left)) : waitRound false start timeoutMs t c =
      (c', if left then afterPoll start timeoutMs t c' else none) := by
  simp [waitRound, h]

/-- **One round**: the invariant is kept, and the checks run exactly if the round leaves. -/
theorem waitRound_spec (h : Before gPoll e c₀ n c) {c' : Client} {o : Option ℤ}
    (hr : waitRound gPoll e.start timeoutMs (e.tick n) c = (c', o)) :
    Before gPoll e c₀ (n + 1) c' ∧
      o = if Leaves gPoll e c₀ n then afterPoll e.start timeoutMs (e.tick n) c' else none := by
  cases gPoll with
  | true =>
    have hl : Leaves true e c₀ n := .inl rfl
    obtain ⟨rfl, rfl⟩ := Prod.mk.inj hr
    refine ⟨h.next nofun ?_, (if_pos hl).symm⟩
    rw [notify_ready, and_iff_right (show Looks true e c₀ n from .inl hl)]
    rfl
  | false =>
    by_cases hl : Leaves false e c₀ n
    · have hp : pollRound (e.tick n) c =
          ({ c.interrupt (e.tick n) with sync := true }.notify (e.tick n).inbox, true) :=
        if_pos ((interrupt_sync h).mpr hl)
      rw [waitRound_of_pollRound hp] at hr
      obtain ⟨rfl, rfl⟩ := Prod.mk.inj hr
      refine ⟨h.next (fun _ => rfl) ?_, (if_pos hl).symm⟩
      rw [notify_ready, and_iff_right (show Looks false e c₀ n from .inl hl)]
      rfl
    have hs : (c.interrupt (e.tick n)).sync = true := by
      rw [← Bool.not_eq_false, interrupt_sync h]
      exact hl
    by_cases ht : (e.tick n).timedOut = true
    · have hp : pollRound (e.tick n) c =
          ((c.interrupt (e.tick n)).notify (e.tick n).inbox, false) := by
        simp [pollRound, hs, ht]
      rw [waitRound_of_pollRound hp] at hr
      obtain ⟨rfl, rfl⟩ := Prod.mk.inj hr
      refine ⟨h.next (fun _ => hs) ?_, (if_neg hl).symm⟩
      rw [notify_ready, and_iff_right (show Looks false e c₀ n from .inr ht)]
      rfl
    · have hp : pollRound (e.tick n) c = (c.interrupt (e.tick n), false) := by
        simp [pollRound, hs, ht]
      have hk : ¬ Looks false e c₀ n := not_or.mpr ⟨hl, ht⟩
      rw [waitRound_of_pollRound hp] at hr
      obtain ⟨rfl, rfl⟩ := Prod.mk.inj hr
      refine ⟨h.next (fun _ => hs) ?_, (if_neg hl).symm⟩
      simp only [hk, false_and, or_false]
      rfl

/-! ### The call -/

variable (gPoll timeoutMs e c₀) in
/-- The round passes the deadline check with a late clock, or the loop condition with a reply. -/
def Stops (n : ℕ) : Prop :=
  Leaves gPoll e c₀ n ∧ (Late timeoutMs e n ∨ Delivered gPoll e c₀ n)

theorem Before.ready_iff (h : Before gPoll e c₀ (n + 1) c) :
    c.reply.ready = true ↔ Delivered gPoll e c₀ n := by
  simp only [h.ready, Delivered, Nat.lt_succ_iff]

/-- A round goes on exactly if it does not stop. -/
theorem waitRound_none (h : Before gPoll e c₀ n c) {c' : Client}
    (hr : waitRound gPoll e.start timeoutMs (e.tick n) c = (c', none)) :
    Before gPoll e c₀ (n + 1) c' ∧ ¬ Stops gPoll timeoutMs e c₀ n := by
  obtain ⟨h', ho⟩ := waitRound_spec h hr
  refine ⟨h', fun ⟨hl, hs⟩ => ?_⟩
  rw [if_pos hl, afterPoll] at ho
  split_ifs at ho with hlate hready
  exact hs.elim hlate fun hd => hready (h'.ready_iff.mpr hd)

theorem waitRound_some (h : Before gPoll e c₀ n c) {c' : Client} {r : ℤ}
    (hr : waitRound gPoll e.start timeoutMs (e.tick n) c = (c', some r)) :
    Stops gPoll timeoutMs e c₀ n ∧ (c'.reply.ready = true ↔ Delivered gPoll e c₀ n) ∧
      r = if Late timeoutMs e n then -1 else 0 := by
  obtain ⟨h', ho⟩ := waitRound_spec h hr
  have hl : Leaves gPoll e c₀ n := by
    by_contra hl
    rw [if_neg hl] at ho
    cases ho
  rw [if_pos hl, afterPoll] at ho
  split_ifs at ho with hlate hready
  · rw [if_pos (show Late timeoutMs e n from hlate)]
    exact ⟨⟨hl, .inl hlate⟩, h'.ready_iff, Option.some.inj ho⟩
  · rw [if_neg (show ¬ Late timeoutMs e n from hlate)]
    exact ⟨⟨hl, .inr (h'.ready_iff.mp hready)⟩, h'.ready_iff, Option.some.inj ho⟩

/-- **The loop** returns in the first round that stops. -/
theorem waitLoop_spec {k m : ℕ} {c' : Client} {r : ℤ} (h : Before gPoll e c₀ n c)
    (hr : waitLoop gPoll timeoutMs e k n c = some (m, c', r)) :
    Stops gPoll timeoutMs e c₀ m ∧ (∀ i, n ≤ i → i < m → ¬ Stops gPoll timeoutMs e c₀ i) ∧
      (c'.reply.ready = true ↔ Delivered gPoll e c₀ m) ∧
      r = if Late timeoutMs e m then -1 else 0 := by
  induction k generalizing n c with
  | zero => cases hr
  | succ k ih =>
    rw [waitLoop] at hr
    split at hr
    · rename_i c₁ r₁ hround
      cases hr
      obtain ⟨hs, hready, hres⟩ := waitRound_some h hround
      exact ⟨hs, fun i h₁ h₂ => by omega, hready, hres⟩
    · rename_i c₁ hround
      obtain ⟨h₁, hns⟩ := waitRound_none h hround
      obtain ⟨hs, hfirst, hrest⟩ := ih h₁ hr
      refine ⟨hs, fun i hi hm => ?_, hrest⟩
      rcases Nat.eq_or_lt_of_le hi with rfl | hi
      · exact hns
      · exact hfirst i hi hm

/-- With enough rounds the loop does return, if some round stops. -/
theorem waitLoop_returns {m : ℕ} (h : Before gPoll e c₀ n c) (hn : n ≤ m)
    (hm : Stops gPoll timeoutMs e c₀ m) :
    ∃ x, waitLoop gPoll timeoutMs e (m - n + 1) n c = some x := by
  induction hk : m - n generalizing n c with
  | zero =>
    obtain rfl : n = m := by omega
    rw [waitLoop]
    split
    · exact ⟨_, rfl⟩
    · rename_i c₁ hround
      exact absurd hm (waitRound_none h hround).2
  | succ k ih =>
    rw [waitLoop]
    split
    · exact ⟨_, rfl⟩
    · rename_i c₁ hround
      exact ih (waitRound_none h hround).1 (by omega) (by omega)

theorem before_zero :
    Before gPoll e c₀ 0 { c₀ with reply := { c₀.reply with ready := false } } :=
  ⟨fun _ => by simp, by simp⟩

/-- **The call returns exactly if some round stops.** -/
theorem waitReply_isSome_iff :
    (∃ k, (waitReply gPoll timeoutMs e c₀ k).isSome) ↔ ∃ m, Stops gPoll timeoutMs e c₀ m := by
  constructor
  · rintro ⟨k, hk⟩
    obtain ⟨⟨m, c', r⟩, hx⟩ := Option.isSome_iff_exists.mp hk
    exact ⟨m, (waitLoop_spec before_zero hx).1⟩
  · rintro ⟨m, hm⟩
    obtain ⟨x, hx⟩ := waitLoop_returns before_zero (Nat.zero_le m) hm
    exact ⟨m - 0 + 1, Option.isSome_iff_exists.mpr ⟨x, hx⟩⟩

/-- The call returns if `platform_poll` is left again and again. -/
theorem returns_of_leaves (h : ∀ n, ∃ m ≥ n, Leaves gPoll e c₀ m) :
    ∃ k, (waitReply gPoll timeoutMs e c₀ k).isSome := by
  obtain ⟨n, hn⟩ := e.unbounded timeoutMs
  obtain ⟨m, hm, hl⟩ := h n
  have hlate : Late timeoutMs e m :=
    Int.lt_of_lt_of_le hn
      (msBetween_mono e.start_valid (e.now_valid n) (e.now_valid m) (e.now_mono hm))
  exact waitReply_isSome_iff.mpr ⟨m, hl, .inl hlate⟩

/-! ### The contract -/

variable (gPoll timeoutMs e c₀) in
/-- The call returns: `0` if `msg_cb` has delivered a message since it started, and `-1` after the
deadline if not. -/
def Meets : Prop :=
  ∃ k m c' r, waitReply gPoll timeoutMs e c₀ k = some (m, c', r) ∧
    if c'.reply.ready then r = 0 else r = -1 ∧ Late timeoutMs e m

/-- **When `wait_reply` does what it promises**: some round leaves `platform_poll` with a message
delivered or the deadline passed, and in the first such round only one of them is the case. -/
theorem meets_iff (gPoll : Bool) (timeoutMs : ℤ) (e : Env) (c₀ : Client) :
    Meets gPoll timeoutMs e c₀ ↔ ∃ m, Leaves gPoll e c₀ m ∧
      (∀ i < m, Leaves gPoll e c₀ i → ¬ Late timeoutMs e i ∧ ¬ Delivered gPoll e c₀ i) ∧
      (Late timeoutMs e m ↔ ¬ Delivered gPoll e c₀ m) := by
  constructor
  · rintro ⟨k, m, c', r, hr, hres⟩
    obtain ⟨hs, hfirst, hready, rfl⟩ := waitLoop_spec before_zero hr
    refine ⟨m, hs.1, fun i hi hl => not_or.mp fun hd => hfirst i (Nat.zero_le i) hi ⟨hl, hd⟩, ?_⟩
    rw [← hready]
    by_cases hd : c'.reply.ready = true
    · rw [if_pos hd] at hres
      exact iff_of_false (fun hlate => by simp [hlate] at hres) (not_not.mpr hd)
    · rw [if_neg hd] at hres
      exact iff_of_true hres.2 hd
  · rintro ⟨m, hl, hfirst, hxor⟩
    have hstop : Stops gPoll timeoutMs e c₀ m :=
      ⟨hl, (em (Delivered gPoll e c₀ m)).symm.imp_left hxor.mpr⟩
    obtain ⟨⟨m', c', r⟩, hx⟩ := waitLoop_returns before_zero (Nat.zero_le m) hstop
    obtain ⟨hs, hfirst', hready, rfl⟩ := waitLoop_spec before_zero hx
    -- the first round that stops is unique
    obtain rfl : m' = m := by
      rcases Nat.lt_trichotomy m' m with h | h | h
      · exact absurd hs.2 (not_or.mpr (hfirst m' h hs.1))
      · exact h
      · exact absurd hstop (hfirst' m (Nat.zero_le m) h)
    refine ⟨_, m', c', _, hx, ?_⟩
    by_cases hd : c'.reply.ready = true
    · rw [if_pos hd, if_neg fun hlate => hxor.mp hlate (hready.mp hd)]
    · have hlate := hxor.mpr (mt hready.mpr hd)
      rw [if_neg hd, if_pos hlate]
      exact ⟨rfl, hlate⟩

/-- The R8 is dead: no interrupt, every wait times out, the virtqueue stays empty. -/
def silent : Env where
  start := ⟨0, 0⟩
  tick := fun n => ⟨false, true, [], ⟨n, 0⟩⟩
  start_valid := ⟨by decide, by decide⟩
  now_valid := fun _ => ⟨by simp, by simp⟩
  now_mono := by
    intro m n h
    rcases Nat.eq_or_lt_of_le h with rfl | h
    · exact .inr ⟨rfl, Int.le_refl _⟩
    · exact .inl (Int.ofNat_lt.mpr h)
  unbounded := by
    intro b
    refine ⟨b.toNat + 1, ?_⟩
    simp only [msBetween, tdiv_million]
    omega

theorem not_meets : ¬ ∀ (gPoll : Bool) (timeoutMs : ℤ) (e : Env) (c₀ : Client),
    Meets gPoll timeoutMs e c₀ := by
  intro h
  obtain ⟨k, m, c', r, hr, -⟩ := h false 1000 silent ⟨⟨[], 0, false⟩, true⟩
  obtain ⟨⟨hl, -⟩, -⟩ := waitLoop_spec before_zero hr
  simp [Leaves, silent] at hl

end CR8Devkit.WaitReply
