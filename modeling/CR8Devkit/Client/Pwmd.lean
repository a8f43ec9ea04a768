import CR8Devkit.Client.Proto
import CR8Devkit.Lib.Transition
import Mathlib.Data.List.Induction
import Mathlib.Data.List.Nodup

/-!
# pwmd and the R8

pwmd's command loop, the R8 that answers each command once and in order after any delay, and the
vring between them.

* `Daemon.finish`: what one command does to pwmd's counters, and its report.
* `next`: one step of pwmd or of the R8; `Paired`: every report with `ok` 1 carries what the R8
  produced for that command.
* `answer_unique`: the R8 answers no command twice; `paired_of_clear`: in every run that sends a
  command only when no earlier reply is outstanding, the reports are paired.
-/

namespace CR8Devkit.Pwmd

open WaitReply Proto

/-! ## One command -/

/-- `seq` and `consecutive_fail`. -/
structure Daemon where
  seq : ℕ
  consecutiveFail : ℕ
  deriving DecidableEq

inductive Failure
  | trysend | timeout | short | magic | abi
  deriving DecidableEq

def Failure.text : Failure → String
  | trysend => "trysend"
  | timeout => "timeout"
  | short => "short"
  | magic => "magic"
  | abi => "abi"

/-- The checks of the reply buffer after a successful wait. -/
def checkReply (r : Reply) : Except Failure PwmRsp :=
  let rsp := PwmRsp.decode r.buf
  if r.len < pwmRspSize then .error .short
  else if rsp.magic ≠ pwmRspMagic then .error .magic
  else if rsp.abiVer ≠ pwmAbiVer then .error .abi
  else .ok rsp

/-- The counters after a command, its report, and whether pwmd gives up. -/
def Daemon.finish (d : Daemon) (c : PwmCmd) : Except Failure PwmRsp → Daemon × Report × Bool
  | .ok r => (⟨d.seq + 1, 0⟩, pwmdWriteJson (d.seq + 1) c (some r) none, false)
  | .error e => (⟨d.seq + 1, d.consecutiveFail + 1⟩,
      pwmdWriteJson (d.seq + 1) c none (some e.text), 10 ≤ d.consecutiveFail + 1)

section Finish

variable (d : Daemon) (c : PwmCmd) (o : Except Failure PwmRsp)

theorem Daemon.finish_seq : (d.finish c o).1.seq = d.seq + 1 := by cases o <;> rfl

theorem Daemon.finish_report_seq : (d.finish c o).2.1.seq = d.seq + 1 := by
  cases o <;> simp [finish]

theorem Daemon.finish_report_req : (d.finish c o).2.1.req = c := by
  cases o <;> simp [finish]

theorem Daemon.finish_consecutiveFail :
    (d.finish c o).1.consecutiveFail = if o.isOk then 0 else d.consecutiveFail + 1 := by
  cases o <;> rfl

/-- pwmd gives up at a failure that at least nine others precede. -/
theorem Daemon.finish_gaveUp :
    (d.finish c o).2.2 = true ↔ o.isOk = false ∧ 10 ≤ d.consecutiveFail + 1 := by
  cases o <;> simp [finish, Except.isOk, Except.toBool]

end Finish

/-! ## The system -/

/-- Where pwmd is: waiting for a line, about to try to send for the `a`-th time, in the
`platform_poll` after a failed try, in `wait_reply`, or done. -/
inductive Phase
  | idle
  | sending (c : PwmCmd) (a : ℕ)
  | draining (c : PwmCmd) (a : ℕ)
  | waiting (c : PwmCmd) (start : Timespec)
  | stopped

/-- pwmd, the commands the R8 has not answered, the replies in the vring; and for the record every
answer of the R8 and every report. A command is known by the `seq` of its report. -/
structure Sys where
  phase : Phase
  daemon : Daemon
  client : Client
  queue : List (ℕ × PwmCmd)
  vring : List (ℕ × PwmRsp)
  answers : List (ℕ × PwmRsp)
  reports : List Report

inductive SendResult
  | ok (start : Timespec)
  | noBuff
  | failed

/-- `round` is one round of `platform_poll` or `wait_reply` that finds the first `n` replies of the
vring; `signal` sets `force_stop`. -/
inductive Event
  | line (l : List Char)
  | eof
  | signal (now : Timespec)
  | trysend (r : SendResult)
  | round (irq timedOut : Bool) (n : ℕ) (now : Timespec)
  | answer (r : PwmRsp)

def Sys.finish (s : Sys) (c : PwmCmd) (o : Except Failure PwmRsp) : Sys :=
  let (d, rep, gaveUp) := s.daemon.finish c o
  { s with daemon := d, reports := s.reports ++ [rep], phase := if gaveUp then .stopped else .idle }

/-- After `wait_reply(1000)`. -/
def Sys.waited (s : Sys) (c : PwmCmd) (ret : ℤ) : Sys :=
  s.finish c (if ret = 0 then checkReply s.client.reply else .error .timeout)

/-- After the `a`-th try: two hundred are made. -/
def Sys.retry (s : Sys) (c : PwmCmd) (a : ℕ) : Sys :=
  if a + 1 < 200 then { s with phase := .sending c (a + 1) } else s.finish c (.error .trysend)

/-- The messages a round meets. -/
def Sys.tick (s : Sys) (irq timedOut : Bool) (n : ℕ) (now : Timespec) : Tick :=
  ⟨irq, timedOut, (s.vring.take n).map fun x => x.2.encode, now⟩

/-- The vring after a round: it is emptied as far as the round looked at it. -/
def Sys.after (s : Sys) (looked : Bool) (n : ℕ) (c : Client) : Sys :=
  { s with client := c, vring := if looked then s.vring.drop n else s.vring }

def next (gPoll : Bool) (s : Sys) : Event → Option Sys
  | .line l =>
    match s.phase with
    | .idle =>
      match scanLine l with
      | some c => some { s with phase := .sending c 0 }
      | none => some s
    | _ => none
  | .eof =>
    match s.phase with
    | .idle => some { s with phase := .stopped }
    | _ => none
  | .signal now =>
    match s.phase with
    | .waiting c start =>
      let ret := (afterPoll start 1000 ⟨false, false, [], now⟩ s.client).getD (-1)
      some { s.waited c ret with phase := .stopped }
    | _ => some { s with phase := .stopped }
  | .trysend r =>
    match s.phase, r with
    | .sending c _, .ok start =>
      some { s with
        phase := .waiting c start
        client := { s.client with reply := { s.client.reply with ready := false } }
        queue := s.queue ++ [(s.daemon.seq + 1, c)] }
    | .sending c a, .noBuff => some { s with phase := .draining c a }
    | .sending c _, .failed => some (s.finish c (.error .trysend))
    | _, _ => none
  | .round irq timedOut n now =>
    let t := s.tick irq timedOut n now
    match s.phase with
    | .draining c a =>
      let (c', left) := pollRound t s.client
      let s' := s.after (looks false t s.client) n c'
      some (if left then s'.retry c a else s')
    | .waiting c start =>
      let (c', ret) := waitRound gPoll start 1000 t s.client
      let s' := s.after (looks gPoll t s.client) n c'
      some (match ret with
        | some ret => s'.waited c ret
        | none => s')
    | _ => none
  | .answer r =>
    match s.queue with
    | [] => none
    | (k, _) :: q =>
      some { s with queue := q, vring := s.vring ++ [(k, r)], answers := s.answers ++ [(k, r)] }

/-- pwmd at its start, with nothing outstanding. -/
def init (c : Client) : Sys := ⟨.idle, ⟨0, 0⟩, c, [], [], [], []⟩

/-- A report with `ok` 1 carries the counts that the R8 produced for that command, with status 0. -/
def Paired (s : Sys) : Prop := ∀ k c p d f, .ok k c p d f ∈ s.reports →
  ∃ r, (k, r) ∈ s.answers ∧ r.status = 0 ∧ r.periodCounts = p ∧ r.dutyCounts = d

/-- A command is sent only when every earlier one has been answered and its reply taken. -/
def Clear (s : Sys) : Event → Prop
  | .trysend (.ok _) => s.queue = [] ∧ s.vring = []
  | _ => True

/-! ## The reply buffer -/

/-- The buffer holds reply `r`, with older bytes behind it. -/
def Holds (b : Reply) (r : PwmRsp) : Prop := b.len = pwmRspSize ∧ ∃ l, b.buf = r.encode ++ l

theorem holds_msgCb (b : Reply) (r : PwmRsp) : Holds (msgCb b r.encode) r :=
  ⟨rfl, _, rfl⟩

theorem foldl_msgCb (xs : List (ℕ × PwmRsp)) (b : Reply) :
    (xs.map fun x => x.2.encode).foldl msgCb b = b ∧ xs = [] ∨
      ∃ x ∈ xs, Holds ((xs.map fun x => x.2.encode).foldl msgCb b) x.2 := by
  induction xs using List.reverseRecOn with
  | nil => exact .inl ⟨rfl, rfl⟩
  | append_singleton xs x _ =>
    refine .inr ⟨x, by simp, ?_⟩
    rw [List.map_append, List.foldl_append]
    exact holds_msgCb _ _

theorem checkReply_of_holds {b : Reply} {r r' : PwmRsp} (h : Holds b r)
    (hr : checkReply b = .ok r') : r' = r := by
  obtain ⟨-, l, hl⟩ := h
  rw [checkReply, hl, PwmRsp.decode_encode] at hr
  split_ifs at hr
  exact (Except.ok.inj hr).symm

/-! ## What a step does -/

/-- Each event, in the phases that it happens in. -/
inductive Step (gPoll : Bool) (s : Sys) : Event → Sys → Prop
  | parsed {l : List Char} {c : PwmCmd} (hp : s.phase = .idle) :
      Step gPoll s (.line l) { s with phase := .sending c 0 }
  | skipped {l : List Char} (hp : s.phase = .idle) : Step gPoll s (.line l) s
  | eof (hp : s.phase = .idle) : Step gPoll s .eof { s with phase := .stopped }
  | interrupted {now start : Timespec} {c : PwmCmd} (hp : s.phase = .waiting c start) :
      Step gPoll s (.signal now)
        { s.waited c ((afterPoll start 1000 ⟨false, false, [], now⟩ s.client).getD (-1)) with phase := .stopped }
  | signal {now : Timespec} (hp : ∀ c start, s.phase ≠ .waiting c start) :
      Step gPoll s (.signal now) { s with phase := .stopped }
  | sent {c : PwmCmd} {a : ℕ} {start : Timespec} (hp : s.phase = .sending c a) :
      Step gPoll s (.trysend (.ok start)) { s with
        phase := .waiting c start
        client := { s.client with reply := { s.client.reply with ready := false } }
        queue := s.queue ++ [(s.daemon.seq + 1, c)] }
  | full {c : PwmCmd} {a : ℕ} (hp : s.phase = .sending c a) :
      Step gPoll s (.trysend .noBuff) { s with phase := .draining c a }
  | failed {c : PwmCmd} {a : ℕ} (hp : s.phase = .sending c a) :
      Step gPoll s (.trysend .failed) (s.finish c (.error .trysend))
  | drains {irq timedOut looked : Bool} {n a : ℕ} {now : Timespec} {c : PwmCmd} {c' : Client}
      (hp : s.phase = .draining c a) (hc : c'.reply = if looked then
        (s.tick irq timedOut n now).inbox.foldl msgCb s.client.reply else s.client.reply) :
      Step gPoll s (.round irq timedOut n now) (s.after looked n c')
  | drained {irq timedOut looked : Bool} {n a : ℕ} {now : Timespec} {c : PwmCmd} {c' : Client}
      (hp : s.phase = .draining c a) (hc : c'.reply = if looked then
        (s.tick irq timedOut n now).inbox.foldl msgCb s.client.reply else s.client.reply) :
      Step gPoll s (.round irq timedOut n now) ((s.after looked n c').retry c a)
  | waits {irq timedOut looked : Bool} {n : ℕ} {now start : Timespec} {c : PwmCmd} {c' : Client}
      (hp : s.phase = .waiting c start) (hc : c'.reply = if looked then
        (s.tick irq timedOut n now).inbox.foldl msgCb s.client.reply else s.client.reply) :
      Step gPoll s (.round irq timedOut n now) (s.after looked n c')
  | waited {irq timedOut looked : Bool} {n : ℕ} {now start : Timespec} {c : PwmCmd} {c' : Client} {ret : ℤ}
      (hp : s.phase = .waiting c start) (hc : c'.reply = if looked then
        (s.tick irq timedOut n now).inbox.foldl msgCb s.client.reply else s.client.reply)
      (hret : ret = 0 → c'.reply.ready = true) :
      Step gPoll s (.round irq timedOut n now) ((s.after looked n c').waited c ret)
  | answer {r : PwmRsp} {k : ℕ} {c : PwmCmd} {q : List (ℕ × PwmCmd)} (hq : s.queue = (k, c) :: q) :
      Step gPoll s (.answer r)
        { s with queue := q, vring := s.vring ++ [(k, r)], answers := s.answers ++ [(k, r)] }

/-- **The cases of a step.** -/
theorem step_of_next {gPoll : Bool} {s s' : Sys} {ev : Event} (hs : next gPoll s ev = some s') :
    Step gPoll s ev s' := by
  cases ev with
  | line l =>
    simp only [next] at hs
    split at hs
    · split at hs <;> cases hs
      · exact .parsed ‹_›
      · exact .skipped ‹_›
    · cases hs
  | eof =>
    simp only [next] at hs
    split at hs <;> cases hs
    exact .eof ‹_›
  | signal now =>
    simp only [next] at hs
    split at hs <;> cases hs
    · exact .interrupted ‹_›
    · exact .signal ‹_›
  | trysend r =>
    simp only [next] at hs
    split at hs <;> cases hs
    · exact .sent ‹_›
    · exact .full ‹_›
    · exact .failed ‹_›
  | round irq timedOut n now =>
    simp only [next] at hs
    split at hs <;> cases hs
    · have hc := pollRound_reply (s.tick irq timedOut n now) s.client
      split_ifs
      · exact .drained ‹_› hc
      · exact .drains ‹_› hc
    · rename_i c start hp
      have hc := waitRound_reply gPoll start 1000 (s.tick irq timedOut n now) s.client
      split
      · rename_i ret hret
        refine .waited hp hc fun h0 => ready_of_waitRound ?_
        rw [hret, h0]
      · exact .waits hp hc
  | answer r =>
    simp only [next] at hs
    split at hs <;> cases hs
    exact .answer ‹_›

/-! ## What a step keeps -/

section Steps

variable {gPoll : Bool} {s s' : Sys} {ev : Event}

/-- While pwmd waits, everything outstanding belongs to its command, and so does the buffer once it
is marked ready. -/
structure Inv (s : Sys) : Prop where
  paired : Paired s
  vring : ∀ x ∈ s.vring, x ∈ s.answers
  queue : ∀ c start, s.phase = .waiting c start → (∀ x ∈ s.queue, x.1 = s.daemon.seq + 1) ∧
    ∀ x ∈ s.vring, x.1 = s.daemon.seq + 1
  ready : ∀ c start, s.phase = .waiting c start → s.client.reply.ready = true →
    ∃ r, (s.daemon.seq + 1, r) ∈ s.answers ∧ Holds s.client.reply r

/-- Outside `wait_reply` only the first half of the invariant says anything. -/
theorem Inv.of_phase (hp : Paired s) (hv : ∀ x ∈ s.vring, x ∈ s.answers)
    (h : ∀ c start, s.phase ≠ .waiting c start) : Inv s :=
  ⟨hp, hv, fun c start hc => absurd hc (h c start), fun c start hc => absurd hc (h c start)⟩

theorem finish_phase (c : PwmCmd) (o : Except Failure PwmRsp) (c' : PwmCmd) (start : Timespec) :
    (s.finish c o).phase ≠ .waiting c' start := by
  simp only [Sys.finish]
  split_ifs <;> nofun

/-- A published reply must be the R8's answer to that command; a published failure leaves the
reports paired. -/
theorem Inv.finish (h : Inv s) (c : PwmCmd) {o : Except Failure PwmRsp}
    (ho : ∀ r, o = .ok r → (s.daemon.seq + 1, r) ∈ s.answers) : Inv (s.finish c o) := by
  refine .of_phase ?_ h.vring (finish_phase c _)
  intro k c' p d f hmem
  rcases List.mem_append.mp hmem with hmem | hmem
  · exact h.paired k c' p d f hmem
  · cases o with
    | error e => simp [pwmdWriteJson] at hmem
    | ok r =>
      simp only [pwmdWriteJson, List.mem_singleton] at hmem
      split_ifs at hmem with hst
      obtain ⟨rfl, rfl, rfl, rfl, rfl⟩ := Report.ok.inj hmem
      exact ⟨r, ho r rfl, hst, rfl, rfl⟩

theorem Inv.finish_error (h : Inv s) (c : PwmCmd) (e : Failure) : Inv (s.finish c (.error e)) :=
  h.finish c fun r hr => by cases hr

/-- Leaving `wait_reply`. -/
theorem Inv.waited (h : Inv s) {c : PwmCmd} {start : Timespec} (hp : s.phase = .waiting c start)
    {ret : ℤ} (hret : ret = 0 → s.client.reply.ready = true) : Inv (s.waited c ret) := by
  unfold Sys.waited
  split_ifs with h0
  · obtain ⟨r, hr, hholds⟩ := h.ready c start hp (hret h0)
    cases hc : checkReply s.client.reply with
    | error e => exact h.finish_error c e
    | ok r' =>
      rw [checkReply_of_holds hholds hc]
      refine h.finish c fun r' hr' => ?_
      cases hr'
      exact hr
  · exact h.finish_error c .timeout

theorem Inv.retry (h : Inv s) (c : PwmCmd) (a : ℕ) : Inv (s.retry c a) := by
  unfold Sys.retry
  split_ifs
  · exact .of_phase h.paired h.vring nofun
  · exact h.finish_error c .trysend

/-- A round hands on replies that are outstanding, and leaves the others where they are. -/
theorem Inv.after (h : Inv s) {irq timedOut : Bool} {n : ℕ} {now : Timespec} {looked : Bool}
    {c' : Client} (hc : c'.reply = if looked then
      (s.tick irq timedOut n now).inbox.foldl msgCb s.client.reply else s.client.reply) :
    Inv (s.after looked n c') := by
  have hsub : ∀ x ∈ (s.after looked n c').vring, x ∈ s.vring := by
    intro x hx
    simp only [Sys.after] at hx
    split_ifs at hx
    · exact List.mem_of_mem_drop hx
    · exact hx
  refine ⟨h.paired, fun x hx => h.vring x (hsub x hx), fun c start hp => ?_, fun c start hp hr => ?_⟩
  · obtain ⟨hq, hv⟩ := h.queue c start hp
    exact ⟨hq, fun x hx => hv x (hsub x hx)⟩
  cases looked with
  | false =>
    simp only [Sys.after, hc] at hr ⊢
    exact h.ready c start hp hr
  | true =>
    simp only [Sys.after, hc, if_true] at hr ⊢
    rcases foldl_msgCb (s.vring.take n) s.client.reply with ⟨hb, -⟩ | ⟨⟨k, r⟩, hx, hholds⟩
    · simp only [Sys.tick, hb] at hr ⊢
      exact h.ready c start hp hr
    · have hmem := List.mem_of_mem_take hx
      obtain rfl : k = s.daemon.seq + 1 := (h.queue c start hp).2 _ hmem
      exact ⟨r, h.vring _ hmem, hholds⟩

/-- The answer to the oldest command. -/
theorem Inv.answer (h : Inv s) {k : ℕ} {c : PwmCmd} {q : List (ℕ × PwmCmd)}
    (hq : s.queue = (k, c) :: q) (r : PwmRsp) :
    Inv { s with queue := q, vring := s.vring ++ [(k, r)], answers := s.answers ++ [(k, r)] } := by
  refine ⟨fun k' c' p d f hmem => ?_, fun x hx => ?_, fun c' start hp => ?_, fun c' start hp hr => ?_⟩
  · obtain ⟨r', hr', hrest⟩ := h.paired k' c' p d f hmem
    exact ⟨r', List.mem_append_left _ hr', hrest⟩
  · rcases List.mem_append.mp hx with hx | hx
    · exact List.mem_append_left _ (h.vring x hx)
    · exact List.mem_append_right _ hx
  · obtain ⟨hqk, hv⟩ := h.queue c' start hp
    rw [hq] at hqk
    refine ⟨fun x hx => hqk x (List.mem_cons_of_mem _ hx), fun x hx => ?_⟩
    rcases List.mem_append.mp hx with hx | hx
    · exact hv x hx
    · rw [List.mem_singleton.mp hx]
      exact hqk _ List.mem_cons_self
  · obtain ⟨r', hr', hholds⟩ := h.ready c' start hp hr
    exact ⟨r', List.mem_append_left _ hr', hholds⟩

/-- **One step** that sends nothing while a reply is outstanding. -/
theorem Inv.step (h : Inv s) (hg : Clear s ev) (hs : next gPoll s ev = some s') : Inv s' := by
  cases step_of_next hs with
  | parsed | eof | signal | full => exact .of_phase h.paired h.vring nofun
  | skipped => exact h
  | interrupted hp =>
    rename_i now start c
    have hret : (afterPoll start 1000 ⟨false, false, [], now⟩ s.client).getD (-1) = 0 →
        s.client.reply.ready = true := by
      intro h0
      cases ha : afterPoll start 1000 ⟨false, false, [], now⟩ s.client with
      | none =>
        rw [ha] at h0
        cases h0
      | some ret =>
        rw [ha] at h0
        obtain rfl : ret = 0 := h0
        exact ready_of_afterPoll ha
    have hw := h.waited hp hret
    exact .of_phase hw.paired hw.vring nofun
  | sent hp =>
    obtain ⟨hq, hv⟩ := hg
    refine ⟨h.paired, h.vring, fun _ _ _ => ⟨fun x hx => ?_, fun x hx => ?_⟩, fun _ _ _ hr => ?_⟩
    · simp only [hq, List.nil_append, List.mem_singleton] at hx
      rw [hx]
    · rw [hv] at hx
      exact absurd hx List.not_mem_nil
    · cases hr
  | failed => exact h.finish_error _ _
  | drains hp hc => exact h.after hc
  | drained hp hc => exact (h.after hc).retry _ _
  | waits hp hc => exact h.after hc
  | waited hp hc hret => exact (h.after hc).waited hp hret
  | answer hq => exact h.answer hq _

end Steps

/-! ## Tags -/

/-- The numbers of all commands sent so far. -/
def Sys.tags (s : Sys) : List ℕ := s.answers.map Prod.fst ++ s.queue.map Prod.fst

def Phase.isWaiting : Phase → Bool
  | waiting .. => true
  | _ => false

section Tags

variable {gPoll : Bool} {s s' : Sys} {ev : Event}

/-- The numbers stay, and `seq` moves on when `wait_reply` is left. -/
def Keeps (s s' : Sys) : Prop := s'.tags = s.tags ∧ (s'.daemon.seq = s.daemon.seq + 1 ∨
  s'.daemon.seq = s.daemon.seq ∧ (s.phase.isWaiting = true → s'.phase.isWaiting = true))

theorem finish_seq (c : PwmCmd) (o : Except Failure PwmRsp) :
    (s.finish c o).daemon.seq = s.daemon.seq + 1 := s.daemon.finish_seq c o

theorem finish_keeps (c : PwmCmd) (o : Except Failure PwmRsp) : Keeps s (s.finish c o) :=
  ⟨rfl, .inl (finish_seq c o)⟩

theorem keeps_of_not_waiting (ht : s'.tags = s.tags) (hd : s'.daemon = s.daemon)
    (hp : s.phase.isWaiting = false) : Keeps s s' :=
  ⟨ht, .inr ⟨by rw [hd], fun h => by rw [hp] at h; cases h⟩⟩

theorem retry_keeps (c : PwmCmd) (a : ℕ) (hp : s.phase.isWaiting = false) :
    Keeps s (s.retry c a) := by
  unfold Sys.retry
  split_ifs
  · exact keeps_of_not_waiting rfl rfl hp
  · exact finish_keeps _ _

/-- **What a step does to the numbers**: it adds the next one, or keeps them. -/
theorem step_tags (hs : next gPoll s ev = some s') : Keeps s s' ∨
    s'.tags = s.tags ++ [s.daemon.seq + 1] ∧ s'.daemon.seq = s.daemon.seq ∧
      s.phase.isWaiting = false ∧ s'.phase.isWaiting = true := by
  have hidle : ∀ {p : Phase}, (∀ c start, p ≠ .waiting c start) → p.isWaiting = false := by
    intro p hp
    cases p with
    | waiting c start => exact absurd rfl (hp c start)
    | _ => rfl
  cases step_of_next hs with
  | parsed hp | skipped hp | eof hp | full hp | drains hp =>
    exact .inl (keeps_of_not_waiting rfl rfl (by rw [hp]; rfl))
  | signal hp => exact .inl (keeps_of_not_waiting rfl rfl (hidle hp))
  | interrupted => exact .inl ⟨rfl, .inl (finish_seq _ _)⟩
  | sent hp =>
    refine .inr ⟨?_, rfl, by rw [hp]; rfl, rfl⟩
    simp [Sys.tags]
  | failed => exact .inl (finish_keeps _ _)
  | drained hp => exact .inl (retry_keeps _ _ (by rw [Sys.after, hp]; rfl))
  | waits => exact .inl ⟨rfl, .inr ⟨rfl, fun h => h⟩⟩
  | waited => exact .inl (finish_keeps _ _)
  | answer hq =>
    refine .inl ⟨?_, .inr ⟨rfl, fun h => h⟩⟩
    simp [Sys.tags, hq]

/-- Every command has a number of its own. -/
def Numbered (s : Sys) : Prop := s.tags.Nodup ∧
  ∀ k ∈ s.tags, k ≤ s.daemon.seq ∨ k = s.daemon.seq + 1 ∧ s.phase.isWaiting = true

theorem Numbered.step (h : Numbered s) (hs : next gPoll s ev = some s') : Numbered s' := by
  obtain ⟨hnd, hle⟩ := h
  rcases step_tags hs with ⟨ht, hseq⟩ | ⟨ht, hseq, hw, hw'⟩
  · refine ⟨by rwa [ht], fun k hk => ?_⟩
    rw [ht] at hk
    rcases hle k hk with hle | ⟨rfl, hwait⟩ <;> rcases hseq with hseq | ⟨hseq, hkeep⟩
    · exact .inl (by omega)
    · exact .inl (by omega)
    · exact .inl (by omega)
    · exact .inr ⟨by omega, hkeep hwait⟩
  · have hlt : ∀ k ∈ s.tags, k ≤ s.daemon.seq := fun k hk =>
      (hle k hk).resolve_right fun hk => by rw [hw] at hk; cases hk.2
    rw [Numbered, ht, hseq]
    refine ⟨?_, fun k hk => ?_⟩
    · rw [List.nodup_append]
      refine ⟨hnd, List.nodup_singleton _, fun x hx y hy => ?_⟩
      have := hlt x hx
      rw [List.mem_singleton.mp hy]
      omega
    · rcases List.mem_append.mp hk with hk | hk
      · exact .inl (hlt k hk)
      · exact .inr ⟨List.mem_singleton.mp hk, hw'⟩

/-- **The R8 answers no command twice**, in any run. -/
theorem answer_unique {c : Client} {es : List Event}
    (h : Transition.Run (Transition.ofNext (next gPoll)) (init c) es s) {k : ℕ} {r r' : PwmRsp}
    (hr : (k, r) ∈ s.answers) (hr' : (k, r') ∈ s.answers) : r = r' := by
  have hn : Numbered s := h.inv (I := Numbered) ⟨List.nodup_nil, nofun⟩ fun hi hs => hi.step hs
  have hnd := (List.nodup_append.mp hn.1).1
  have := List.inj_on_of_nodup_map hnd hr hr' rfl
  exact congrArg Prod.snd this

end Tags

/-- **Reports are paired** in every run that sends a command only when no reply to an earlier one is
outstanding. -/
theorem paired_of_clear {gPoll : Bool} {c : Client} {es : List Event} {s : Sys}
    (h : Transition.Run (Transition.guarded (Transition.ofNext (next gPoll)) Clear) (init c) es s) :
    Paired s := by
  have h₀ : Inv (init c) := .of_phase (fun _ _ _ _ _ h => absurd h List.not_mem_nil)
    (fun x hx => absurd hx List.not_mem_nil) nofun
  exact (h.inv (I := Inv) h₀ fun hi hs => hi.step hs.1 hs.2).paired

/-! ## A late reply -/

def freshClient : Client := ⟨⟨[], 0, false⟩, true⟩

/-- The R8's answer to a command it accepts. -/
def accepted (period duty : Word) : PwmRsp :=
  ⟨pwmRspMagic, pwmAbiVer, 0, period, duty, 200000000⟩

/-- The first command is answered too late, but the answer is taken while the second command waits
for a buffer; that one is answered in time. -/
def drainedRun : List Event :=
  [.line (printLine 6 'a' 1000 500), .trysend (.ok ⟨10, 0⟩), .round true false 0 ⟨11, 1000000⟩,
    .line (printLine 6 'a' 2000 100), .trysend .noBuff, .answer (accepted 200000 100000),
    .round true false 1 ⟨12, 0⟩, .trysend (.ok ⟨12, 0⟩),
    .answer (accepted 100000 10000), .round true false 1 ⟨12, 1000000⟩]

theorem paired_drainedRun : ∃ s, Transition.exec (next false) (init freshClient) drainedRun = some s ∧
    s.reports.map Report.isOk = [false, true] ∧
    .ok 2 ⟨6, false, 2000, 100⟩ 100000 10000 200000000 ∈ s.reports ∧ Paired s := by
  refine ⟨_, rfl, by decide +kernel, by decide +kernel, ?_⟩
  have hrun : Transition.Run (Transition.guarded (Transition.ofNext (next false)) Clear)
      (init freshClient) drainedRun _ :=
    .cons ⟨trivial, rfl⟩ (.cons ⟨⟨rfl, rfl⟩, rfl⟩ (.cons ⟨trivial, rfl⟩ (.cons ⟨trivial, rfl⟩
      (.cons ⟨trivial, rfl⟩ (.cons ⟨trivial, rfl⟩ (.cons ⟨trivial, rfl⟩
        (.cons ⟨⟨rfl, rfl⟩, rfl⟩ (.cons ⟨trivial, rfl⟩ (.single ⟨trivial, rfl⟩)))))))))
  exact paired_of_clear hrun

/-- The R8 answers the first command two seconds after it was sent; the second command, sent in
between, is reported with that answer. -/
def lateRun : List Event :=
  [.line (printLine 6 'a' 1000 500), .trysend (.ok ⟨10, 0⟩), .round true false 0 ⟨11, 1000000⟩,
    .line (printLine 6 'a' 2000 100), .trysend (.ok ⟨12, 0⟩), .answer (accepted 200000 100000),
    .round true false 1 ⟨12, 1000000⟩, .answer (accepted 100000 10000)]

theorem not_paired : ¬ ∀ (gPoll : Bool) (c : Client) (es : List Event) (s : Sys),
    Transition.Run (Transition.ofNext (next gPoll)) (init c) es s → Paired s := by
  intro h
  obtain ⟨s, hs, hrep, hans⟩ : ∃ s, Transition.exec (next false) (init freshClient) lateRun = some s ∧
      .ok 2 ⟨6, false, 2000, 100⟩ 200000 100000 200000000 ∈ s.reports ∧
      s.answers = [(1, accepted 200000 100000), (2, accepted 100000 10000)] :=
    ⟨_, rfl, by decide +kernel, by decide +kernel⟩
  obtain ⟨r, hr, -, hp, -⟩ := h false freshClient lateRun s (Transition.run_of_exec hs) _ _ _ _ _ hrep
  rw [hans] at hr
  simp only [List.mem_cons, Prod.mk.injEq, List.not_mem_nil, or_false] at hr
  rcases hr with ⟨h1, -⟩ | ⟨-, rfl⟩
  · cases h1
  · revert hp
    decide

end CR8Devkit.Pwmd
