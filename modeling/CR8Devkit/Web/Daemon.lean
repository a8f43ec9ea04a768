import CR8Devkit.Client.Pwmd
import Mathlib.Logic.Function.Basic

/-!
# The web server and pwmd

`Daemon.send` of the web server in its single steps, interleaved with pwmd: the pipe of command
lines, the JSON file that holds the latest report only, restarts and time-outs. The lock admits one
call at a time, so a run is a sequence of calls by any threads. The report file can always be
written, replaced and read: `pwmd_write_json` says nothing when its `fopen` fails, and a report is
then missing.

* `Command`, `doPost`: the arguments as the HTTP handler lets them through.
* `Channel`: the present pwmd, with its pipe, its file and all its reports; `Channel.Wf`.
* `next`: one step of a call, of pwmd or of its process.
* `Wf`: what holds of the present pwmd and the pending call in every reachable state
  (`wf_of_run`).
-/

namespace CR8Devkit.Web

open Proto Pwmd

/-! ## Commands -/

def validGpt : List ℕ := [0, 4, 5, 6, 7, 8, 9]

/-- The arguments of `Daemon.send`. -/
structure Command where
  gpt : ℕ
  ch : Char
  freqHz : ℕ
  dutyPermille : ℕ
  gpt_valid : gpt ∈ validGpt
  ch_valid : ch = 'a' ∨ ch = 'b'
  freq_valid : 1 ≤ freqHz ∧ freqHz ≤ 1000000
  duty_valid : dutyPermille ≤ 1000
  deriving DecidableEq

/-- The range checks of `do_POST`. -/
def InRange (gpt : ℤ) (ch : Char) (freq duty : ℤ) : Prop :=
  (0 ≤ gpt ∧ gpt.toNat ∈ validGpt) ∧ (ch = 'a' ∨ ch = 'b') ∧ (1 ≤ freq ∧ freq ≤ 1000000) ∧
    0 ≤ duty ∧ duty ≤ 1000

instance (gpt : ℤ) (ch : Char) (freq duty : ℤ) : Decidable (InRange gpt ch freq duty) :=
  inferInstanceAs (Decidable ((_ ∧ _) ∧ _ ∧ _ ∧ _))

section InRange

variable {gpt : ℤ} {ch : Char} {freq duty : ℤ} (h : InRange gpt ch freq duty)

include h

theorem InRange.gpt_valid : gpt.toNat ∈ validGpt := h.1.2

theorem InRange.ch_valid : ch = 'a' ∨ ch = 'b' := h.2.1

theorem InRange.freq_valid : 1 ≤ freq.toNat ∧ freq.toNat ≤ 1000000 := by
  obtain ⟨-, -, hf, -⟩ := h
  omega

theorem InRange.duty_valid : duty.toNat ≤ 1000 := by
  obtain ⟨-, -, -, hd⟩ := h
  omega

end InRange

/-- The integers of the request, and its channel in lower case. -/
def doPost (gpt : ℤ) (ch : List Char) (freq duty : ℤ) : Except String Command :=
  match ch with
  | [c] =>
    if h : InRange gpt c freq duty then
      .ok ⟨gpt.toNat, c, freq.toNat, duty.toNat, InRange.gpt_valid h, InRange.ch_valid h,
        InRange.freq_valid h, InRange.duty_valid h⟩
    else .error "out of range"
  | _ => .error "out of range"

namespace Command

/-- The key of `applied`. -/
def key (c : Command) : List Char := Nat.toDigits 10 c.gpt ++ [c.ch]

def line (c : Command) : List Char := printLine c.gpt c.ch c.freqHz c.dutyPermille

/-- What pwmd makes of the line. -/
def toCmd (c : Command) : PwmCmd :=
  ⟨.ofNat 32 c.gpt, c.ch == 'b' || c.ch == 'B', .ofNat 32 c.freqHz, .ofNat 32 c.dutyPermille⟩

variable (c : Command)

theorem gpt_lt : c.gpt < 10 := by
  have h := c.gpt_valid
  simp only [validGpt, List.mem_cons, List.not_mem_nil, or_false] at h
  omega

theorem scanLine_line : scanLine c.line = some c.toCmd := by
  have hg := c.gpt_lt
  have hf := c.freq_valid
  have hd := c.duty_valid
  refine scanLine_printLine (by omega) (by omega) (by omega) ?_
  rcases c.ch_valid with h | h <;> rw [h] <;> decide

end Command

def chOf (useB : Bool) : Char := if useB then 'b' else 'a'

/-- The comparison of a report's request fields with the arguments of the call. -/
def claims (r : Report) (c : Command) : Bool :=
  r.req.gpt.toNat == c.gpt && chOf r.req.useB == c.ch && r.req.freqHz.toNat == c.freqHz &&
    r.req.dutyPermille.toNat == c.dutyPermille

/-- The report repeats the arguments of the call. -/
def Matches (r : Report) (c : Command) : Prop :=
  r.req.gpt.toNat = c.gpt ∧ chOf r.req.useB = c.ch ∧ r.req.freqHz.toNat = c.freqHz ∧
    r.req.dutyPermille.toNat = c.dutyPermille

theorem claims_eq_true {r : Report} {c : Command} : claims r c = true ↔ Matches r c := by
  simp only [claims, Matches, Bool.and_eq_true, beq_iff_eq, and_assoc]

/-- The comparison is exact: 32 bits hold every valid argument. -/
theorem claims_iff {r : Report} {c c' : Command} (h : r.req = c'.toCmd) :
    claims r c = true ↔ c' = c := by
  have hg := c'.gpt_lt
  have hf := c'.freq_valid
  have hd := c'.duty_valid
  have hch : chOf (c'.ch == 'b' || c'.ch == 'B') = c'.ch := by
    rcases c'.ch_valid with h | h <;> rw [h] <;> rfl
  simp only [claims, h, Command.toCmd, BitVec.toNat_ofNat, hch, Bool.and_eq_true, beq_iff_eq]
  rw [Nat.mod_eq_of_lt (by omega), Nat.mod_eq_of_lt (by omega), Nat.mod_eq_of_lt (by omega)]
  obtain ⟨g, ch, f, d, _, _, _, _⟩ := c
  obtain ⟨g', ch', f', d', _, _, _, _⟩ := c'
  simp only [Command.mk.injEq]
  tauto

/-! ## The present pwmd -/

/-- A line of the pipe; the number tells apart lines with the same text. -/
structure Line where
  id : ℕ
  cmd : Command
  deriving DecidableEq

/-- A published report, the line it is about, and whether a valid reply came for it. -/
structure Entry where
  line : Line
  valid : Bool
  report : Report
  deriving DecidableEq

/-- In the command loop, past it on the way out, or no process at all. -/
inductive Proc
  | running | leaving | gone
  deriving DecidableEq

def Proc.alive : Proc → Bool
  | gone => false
  | _ => true

/-- pwmd from one start to the next: `pipe` holds the lines it has not finished, `json` its file;
and for the record every line written to it and every report it has published. -/
structure Channel where
  proc : Proc
  gaveUp : Bool
  daemon : Pwmd.Daemon
  pipe : List Line
  json : Option Entry
  written : List Line
  log : List Entry

namespace Channel

/-- `Daemon.start`: the old file is removed, and `seq` counts from 1 again. -/
def start (up : Bool) : Channel := ⟨if up then .running else .gone, false, ⟨0, 0⟩, [], none, [], []⟩

def write (p : Channel) (l : Line) : Channel :=
  { p with pipe := p.pipe ++ [l], written := p.written ++ [l] }

def entry (p : Channel) (l : Line) (c : PwmCmd) (o : Except Failure PwmRsp) : Entry :=
  ⟨l, o.isOk, (p.daemon.finish c o).2.1⟩

/-- pwmd has finished line `l`; `rest` is what remains in the pipe. -/
def publish (p : Channel) (l : Line) (rest : List Line) (c : PwmCmd) (o : Except Failure PwmRsp) :
    Channel :=
  let gaveUp := (p.daemon.finish c o).2.2
  { proc := if gaveUp then .leaving else .running
    gaveUp
    daemon := (p.daemon.finish c o).1
    pipe := rest
    json := some (p.entry l c o)
    written := p.written
    log := p.log ++ [p.entry l c o] }

/-- The `seq` in the file, 0 without one. -/
def seq0 (p : Channel) : ℕ := p.json.elim 0 fun e => e.report.seq

end Channel

/-! ## The system -/

/-- Where a call of `send` is: before the lock's first check, before it reads the file, about to
write its line, or polling. The lines that were unfinished when it read the file are its backlog. -/
inductive Stage
  | checking
  | reading
  | writing (seq0 : ℕ) (backlog : List Line)
  | polling (seq0 : ℕ) (backlog : List Line) (own : Line)

structure Call where
  cmd : Command
  stage : Stage

/-- What the browser gets for one request. -/
inductive Response
  | report (own : Line) (backlog : List Line) (e : Entry)
  | error (text : String)
  deriving DecidableEq

structure Sys where
  pwmd : Channel
  applied : List Char → Option Report
  lastRestart : ℤ
  call : Option Call
  nextId : ℕ
  history : List Entry
  responses : List Response

/-- `check` carries the clock in milliseconds, the result of `wait_ready` and whether the new
process lives; `write` the text of a broken pipe's exception; `finish` what came of the oldest line;
`stop` is `force_stop` seen by the loop, `exit` the end of the process. -/
inductive Event
  | post (gpt : ℤ) (ch : List Char) (freq duty : ℤ)
  | check (now : ℤ) (ready up : Bool)
  | read
  | write (broken : String)
  | poll
  | timeout
  | finish (o : Except Failure PwmRsp)
  | stop
  | exit

namespace Sys

/-- The pending call ends with an error. -/
def fail (s : Sys) (text : String) : Sys :=
  { s with call := none, responses := s.responses ++ [.error text] }

def restart (s : Sys) (now : ℤ) (up : Bool) : Sys :=
  { s with pwmd := .start up, lastRestart := now }

/-- The pending call takes report `e` for its own. -/
def claim (s : Sys) (c : Command) (backlog : List Line) (own : Line) (e : Entry) : Sys :=
  { s with
    applied := if e.report.isOk then Function.update s.applied c.key (some e.report) else s.applied
    call := none
    responses := s.responses ++ [.report own backlog e] }

def poll (s : Sys) (c : Command) (seq0 : ℕ) (backlog : List Line) (own : Line) : Sys :=
  match s.pwmd.json with
  | none => s
  | some e =>
    if seq0 < e.report.seq then
      if claims e.report c then s.claim c backlog own e
      else { s with call := some ⟨c, .polling e.report.seq backlog own⟩ }
    else s

end Sys

def next (s : Sys) : Event → Option Sys
  | .post gpt ch freq duty =>
    match doPost gpt ch freq duty with
    | .error text => some { s with responses := s.responses ++ [.error text] }
    | .ok c => if s.call.isNone then some { s with call := some ⟨c, .checking⟩ } else none
  | .check now ready up =>
    match s.call with
    | some ⟨c, .checking⟩ =>
      if s.pwmd.proc.alive then some { s with call := some ⟨c, .reading⟩ }
      else if now - s.lastRestart < 30000 then some (s.fail "daemon dead (recent restart failed)")
      else if ready then some { s.restart now up with call := some ⟨c, .reading⟩ }
      else some ((s.restart now up).fail "daemon restart failed")
    | _ => none
  | .read =>
    match s.call with
    | some ⟨c, .reading⟩ => some { s with call := some ⟨c, .writing s.pwmd.seq0 s.pwmd.pipe⟩ }
    | _ => none
  | .write broken =>
    match s.call with
    | some ⟨c, .writing seq0 backlog⟩ =>
      if s.pwmd.proc.alive then
        some { s with
          pwmd := s.pwmd.write ⟨s.nextId, c⟩
          nextId := s.nextId + 1
          call := some ⟨c, .polling seq0 backlog ⟨s.nextId, c⟩⟩ }
      else some (s.fail ("stdin write: " ++ broken))
    | _ => none
  | .poll =>
    match s.call with
    | some ⟨c, .polling seq0 backlog own⟩ => some (s.poll c seq0 backlog own)
    | _ => none
  | .timeout =>
    match s.call with
    | some ⟨_, .polling _ _ _⟩ => some (s.fail "timeout waiting daemon")
    | _ => none
  | .finish o =>
    match s.pwmd.proc, s.pwmd.pipe with
    | .running, l :: rest =>
      match scanLine l.cmd.line with
      | none => some { s with pwmd := { s.pwmd with pipe := rest } }
      | some c =>
        some { s with
          pwmd := s.pwmd.publish l rest c o
          history := s.history ++ [s.pwmd.entry l c o] }
    | _, _ => none
  | .stop => if s.pwmd.proc = .running then some { s with pwmd.proc := .leaving } else none
  | .exit => if s.pwmd.proc.alive then some { s with pwmd.proc := .gone } else none

/-- The server after it has started pwmd. -/
def init : Sys := ⟨.start true, fun _ => none, 0, none, 0, [], []⟩

/-! ## Reports in order -/

/-- The reports without a valid reply since the last one with. -/
def failures (log : List Entry) : ℕ := (log.reverse.takeWhile fun e => !e.valid).length

theorem failures_append (log : List Entry) (e : Entry) :
    failures (log ++ [e]) = if e.valid then 0 else failures log + 1 := by
  cases h : e.valid <;> simp [failures, h]

namespace Channel

/-- The written lines are the reported ones followed by the unfinished ones; the reports are
numbered from 1 and repeat the parameters of their lines; the file holds the last one; and pwmd has
given up exactly when the last ten had no valid reply. -/
structure Wf (p : Channel) : Prop where
  json : p.json = p.log.getLast?
  written : p.written = p.log.map Entry.line ++ p.pipe
  seqs : p.log.map (fun e => e.report.seq) = List.range' 1 p.log.length
  seq : p.daemon.seq = p.log.length
  reqs : ∀ e ∈ p.log, e.report.req = e.line.cmd.toCmd
  fails : p.daemon.consecutiveFail = failures p.log
  gaveUp : p.gaveUp = true ↔ failures p.log = 10
  fails_le : failures p.log ≤ 10
  running : p.proc = .running → failures p.log < 10

variable {p : Channel}

theorem Wf.start (up : Bool) : (start up).Wf where
  json := rfl
  written := rfl
  seqs := rfl
  seq := rfl
  reqs := fun _ h => absurd h List.not_mem_nil
  fails := rfl
  gaveUp := by simp [Channel.start, failures]
  fails_le := Nat.zero_le 10
  running := fun _ => Nat.zero_lt_succ 9

theorem Wf.write (h : p.Wf) (l : Line) : (p.write l).Wf where
  json := h.json
  written := by simp only [Channel.write, h.written, List.append_assoc]
  seqs := h.seqs
  seq := h.seq
  reqs := h.reqs
  fails := h.fails
  gaveUp := h.gaveUp
  fails_le := h.fails_le
  running := h.running

/-- Leaving the loop, or the process ending. -/
theorem Wf.halt (h : p.Wf) {q : Proc} (hq : q ≠ .running) : Wf { p with proc := q } where
  json := h.json
  written := h.written
  seqs := h.seqs
  seq := h.seq
  reqs := h.reqs
  fails := h.fails
  gaveUp := h.gaveUp
  fails_le := h.fails_le
  running := fun hr => absurd hr hq

/-- **One line**: its report is the next of the log. -/
theorem Wf.publish (h : p.Wf) (hp : p.proc = .running) {l : Line} {rest : List Line}
    (hpipe : p.pipe = l :: rest) (o : Except Failure PwmRsp) :
    (p.publish l rest l.cmd.toCmd o).Wf := by
  have hlt := h.running hp
  have hfail : failures (p.log ++ [p.entry l l.cmd.toCmd o]) =
      if o.isOk then 0 else failures p.log + 1 := failures_append _ _
  have hgive := p.daemon.finish_gaveUp l.cmd.toCmd o
  rw [h.fails] at hgive
  constructor
  · simp [Channel.publish]
  · simp [Channel.publish, h.written, hpipe, entry]
  · simp only [Channel.publish, List.map_append, h.seqs, List.length_append, List.map_singleton,
      List.length_singleton, List.range'_concat, entry, Daemon.finish_report_seq, h.seq]
    congr 2
    omega
  · simp [Channel.publish, Daemon.finish_seq, h.seq]
  · intro e he
    rcases List.mem_append.mp he with he | he
    · exact h.reqs e he
    · rw [List.mem_singleton.mp he]
      exact Daemon.finish_report_req _ _ _
  · show (p.daemon.finish l.cmd.toCmd o).1.consecutiveFail = _
    rw [Daemon.finish_consecutiveFail, h.fails]
    exact hfail.symm
  · show (p.daemon.finish l.cmd.toCmd o).2.2 = true ↔ failures (p.log ++ _) = 10
    rw [hgive, hfail]
    cases o.isOk <;> simp; omega
  · show failures (p.log ++ _) ≤ 10
    rw [hfail]
    split_ifs <;> omega
  · intro hr
    show failures (p.log ++ _) < 10
    have hno : (p.daemon.finish l.cmd.toCmd o).2.2 = false := by
      by_contra hc
      rw [Bool.not_eq_false] at hc
      simp [Channel.publish, hc] at hr
    rw [hfail]
    split_ifs with ho
    · omega
    · rw [Bool.eq_false_iff, Ne, hgive] at hno
      simp only [Bool.not_eq_true] at ho
      simp only [ho, true_and] at hno
      omega

/-- The file holds the report of the last line pwmd has finished, and its `seq` is their number. -/
theorem Wf.seq_of_json (h : p.Wf) {e : Entry} (he : p.json = some e) :
    e.report.seq = p.log.length ∧ e ∈ p.log := by
  rw [h.json] at he
  obtain ⟨log, hlog⟩ := List.getLast?_eq_some_iff.mp he
  have hs := h.seqs
  rw [hlog] at hs ⊢
  rw [List.length_append, List.length_singleton, List.range'_concat, List.map_append] at hs
  have := List.append_inj_right' hs rfl
  simp only [List.map_cons, List.map_nil, List.cons.injEq, and_true] at this
  exact ⟨by simp; omega, by simp⟩

/-- A report with a higher `seq` than `n` stands behind the first `n` ones. -/
theorem Wf.mem_drop (h : p.Wf) {e : Entry} (he : p.json = some e) {n : ℕ} (hn : n < e.report.seq) :
    e ∈ p.log.drop n := by
  obtain ⟨hseq, -⟩ := h.seq_of_json he
  rw [h.json] at he
  obtain ⟨log, hlog⟩ := List.getLast?_eq_some_iff.mp he
  rw [hlog, List.length_append, List.length_singleton] at hseq
  rw [hlog, List.drop_append_of_le_length (by omega)]
  exact List.mem_append_right _ (List.mem_singleton_self e)

theorem Wf.seq0 (h : p.Wf) : p.seq0 = p.log.length := by
  unfold Channel.seq0
  cases hj : p.json with
  | none =>
    rw [h.json, List.getLast?_eq_none_iff] at hj
    rw [hj]
    rfl
  | some e => exact (h.seq_of_json hj).1

end Channel

/-! ## What a step keeps -/

/-- From the read on, every line behind the first `seq0` ones is in the call's backlog or its own,
and its own is the last line written. -/
def Call.Turn (p : Channel) : Call → Prop
  | ⟨_, .writing seq0 backlog⟩ => seq0 ≤ p.log.length ∧ ∀ l ∈ p.written.drop seq0, l ∈ backlog
  | ⟨c, .polling seq0 backlog own⟩ => seq0 ≤ p.log.length ∧ seq0 < p.written.length ∧
      own.cmd = c ∧ p.written.getLast? = some own ∧
      ∀ l ∈ p.written.drop seq0, l ∈ backlog ∨ l = own
  | _ => True

structure Wf (s : Sys) : Prop where
  pwmd : s.pwmd.Wf
  fresh : ∀ l ∈ s.pwmd.written, l.id < s.nextId
  nodup : s.pwmd.written.Nodup
  turn : ∀ call, s.call = some call → call.Turn s.pwmd

/-- The turn of a call outlasts whatever pwmd does: no line is written by anyone else. -/
theorem Call.Turn.mono {p q : Channel} {call : Call} (h : call.Turn p)
    (hw : q.written = p.written) (hl : p.log.length ≤ q.log.length) : call.Turn q := by
  obtain ⟨c, stage⟩ := call
  cases stage with
  | checking => trivial
  | reading => trivial
  | writing seq0 backlog =>
    obtain ⟨hle, hmem⟩ := h
    exact ⟨Nat.le_trans hle hl, by rwa [hw]⟩
  | polling seq0 backlog own =>
    obtain ⟨hle, hrest⟩ := h
    exact ⟨Nat.le_trans hle hl, by rwa [hw]⟩

section Steps

variable {s s' : Sys} {ev : Event}

/-- A step of the server that leaves pwmd alone. -/
theorem Wf.call (h : Wf s) (hp : s'.pwmd = s.pwmd) (hn : s'.nextId = s.nextId)
    (ht : ∀ call, s'.call = some call → call.Turn s.pwmd) : Wf s' :=
  ⟨by rw [hp]; exact h.pwmd, by rw [hp, hn]; exact h.fresh, by rw [hp]; exact h.nodup,
    by rw [hp]; exact ht⟩

/-- A step of pwmd. -/
theorem Wf.channel (h : Wf s) {p : Channel} (hp : p.Wf) (hw : p.written = s.pwmd.written)
    (hl : s.pwmd.log.length ≤ p.log.length) (hist : List Entry) :
    Wf { s with pwmd := p, history := hist } where
  pwmd := hp
  fresh := fun l hl => h.fresh l (by rwa [← hw])
  nodup := by rw [hw]; exact h.nodup
  turn := fun call hc => (h.turn call hc).mono hw hl

theorem Wf.fail (h : Wf s) (text : String) : Wf (s.fail text) :=
  h.call rfl rfl fun _ hc => by cases hc

theorem wf_restart (now : ℤ) (up : Bool) {c : Command}
    (hc : s.call = some ⟨c, .checking⟩) : Wf (s.restart now up) where
  pwmd := .start up
  fresh := fun _ h => absurd h List.not_mem_nil
  nodup := List.nodup_nil
  turn := fun call hcall => by
    obtain rfl : ⟨c, .checking⟩ = call := Option.some.inj (hc.symm.trans hcall)
    trivial

/-- Once its line is reported, the call finds that report in the file and claims it. -/
theorem Wf.own_reported (h : Wf s) {c : Command} {seq0 : ℕ} {backlog : List Line} {own : Line}
    (hc : s.call = some ⟨c, .polling seq0 backlog own⟩) (hown : own ∈ s.pwmd.log.map Entry.line) :
    ∃ e, s.pwmd.json = some e ∧ e.line = own ∧ s.pwmd.pipe = [] ∧ seq0 < e.report.seq ∧
      claims e.report c = true := by
  obtain ⟨-, hlt, hcmd, hlast, -⟩ := h.turn _ hc
  have hnd := h.nodup
  rw [h.pwmd.written] at hlt hlast hnd
  -- its line is the last one written, so nothing is left in the pipe
  have hpipe : s.pwmd.pipe = [] := by
    by_contra hne
    rw [List.getLast?_append_of_ne_nil _ hne] at hlast
    exact (List.nodup_append.mp hnd).2.2 own hown own (List.mem_of_getLast? hlast) rfl
  rw [hpipe, List.append_nil, List.getLast?_map, ← h.pwmd.json] at hlast
  obtain ⟨e, he, rfl⟩ := Option.map_eq_some_iff.mp hlast
  obtain ⟨hseq, hmem⟩ := h.pwmd.seq_of_json he
  rw [hpipe, List.append_nil, List.length_map] at hlt
  exact ⟨e, he, rfl, hpipe, by omega, (claims_iff (h.pwmd.reqs e hmem)).mpr hcmd⟩

/-- A report that the call sees is about a line of its backlog or its own line. -/
theorem Wf.line_of_seen (h : Wf s) {c : Command} {seq0 : ℕ} {backlog : List Line} {own : Line}
    (hc : s.call = some ⟨c, .polling seq0 backlog own⟩) {e : Entry} (he : s.pwmd.json = some e)
    (hseq : seq0 < e.report.seq) : e.line ∈ backlog ∨ e.line = own := by
  obtain ⟨hle, -, -, -, hmem⟩ := h.turn _ hc
  apply hmem
  rw [h.pwmd.written, List.drop_append_of_le_length (by rwa [List.length_map]), ← List.map_drop]
  exact List.mem_append_left _ (List.mem_map_of_mem (h.pwmd.mem_drop he hseq))

/-- A line is written, of a new id. -/
theorem Wf.sent (h : Wf s) {c : Command} {seq0 : ℕ} {backlog : List Line}
    (hc : s.call = some ⟨c, .writing seq0 backlog⟩) : Wf { s with
      pwmd := s.pwmd.write ⟨s.nextId, c⟩
      nextId := s.nextId + 1
      call := some ⟨c, .polling seq0 backlog ⟨s.nextId, c⟩⟩ } := by
  obtain ⟨hle, hmem⟩ := h.turn _ hc
  have hlen : s.pwmd.log.length ≤ s.pwmd.written.length := by
    rw [h.pwmd.written, List.length_append, List.length_map]
    omega
  refine ⟨h.pwmd.write _, fun l hl => ?_, ?_, fun call hcall => ?_⟩
  · rcases List.mem_append.mp hl with hl | hl
    · have := h.fresh l hl
      show l.id < s.nextId + 1
      omega
    · rw [List.mem_singleton.mp hl]
      exact Nat.lt_succ_self _
  · refine List.nodup_append.mpr ⟨h.nodup, List.nodup_singleton _, fun l hl l' hl' => ?_⟩
    rw [List.mem_singleton.mp hl']
    rintro rfl
    exact Nat.lt_irrefl _ (h.fresh _ hl)
  · obtain rfl := Option.some.inj hcall
    refine ⟨hle, ?_, rfl, List.getLast?_concat .., fun l hl => ?_⟩
    · simp only [Channel.write, List.length_append, List.length_singleton]
      omega
    · rw [Channel.write, List.drop_append_of_le_length (by omega)] at hl
      rcases List.mem_append.mp hl with hl | hl
      · exact .inl (hmem l hl)
      · exact .inr (List.mem_singleton.mp hl)

/-- **One poll**. -/
theorem Wf.poll (h : Wf s) {c : Command} {seq0 : ℕ} {backlog : List Line} {own : Line}
    (hc : s.call = some ⟨c, .polling seq0 backlog own⟩) : Wf (s.poll c seq0 backlog own) := by
  unfold Sys.poll
  split
  · exact h
  rename_i e he
  split_ifs with hseq hclaim
  · exact h.call rfl rfl fun _ hcall => by cases hcall
  · refine h.call rfl rfl fun call hcall => ?_
    obtain rfl := Option.some.inj hcall
    obtain ⟨hle, hlt, hcmd, hlast, hmem⟩ := h.turn _ hc
    obtain ⟨hn, -⟩ := h.pwmd.seq_of_json he
    refine ⟨Nat.le_of_eq hn, ?_, hcmd, hlast, fun l hl => hmem l ?_⟩
    · -- otherwise the pipe is empty and the file holds the report of the call's own line
      by_contra hge
      have hpipe : s.pwmd.pipe = [] := by
        rw [h.pwmd.written, List.length_append, List.length_map] at hge
        exact List.eq_nil_of_length_eq_zero (by omega)
      have hown : own ∈ s.pwmd.log.map Entry.line := by
        rw [h.pwmd.written, hpipe, List.append_nil] at hlast
        exact List.mem_of_getLast? hlast
      obtain ⟨e', he', -, -, -, hclaim'⟩ := h.own_reported hc hown
      obtain rfl : e = e' := Option.some.inj (he.symm.trans he')
      exact hclaim hclaim'
    · rw [show e.report.seq = seq0 + (e.report.seq - seq0) by omega, ← List.drop_drop] at hl
      exact List.mem_of_mem_drop hl
  · exact h

/-! ## What a step does -/

/-- Each event, in the stages of a call that it happens in. -/
inductive Step (s : Sys) : Event → Sys → Prop
  | refused {gpt freq duty : ℤ} {ch : List Char} {text : String} :
      Step s (.post gpt ch freq duty) { s with responses := s.responses ++ [.error text] }
  | posted {gpt freq duty : ℤ} {ch : List Char} {c : Command} (hc : s.call = none) :
      Step s (.post gpt ch freq duty) { s with call := some ⟨c, .checking⟩ }
  | alive {now : ℤ} {ready up : Bool} {c : Command} (hc : s.call = some ⟨c, .checking⟩) :
      Step s (.check now ready up) { s with call := some ⟨c, .reading⟩ }
  | dead {now : ℤ} {ready up : Bool} {c : Command} {text : String} (hc : s.call = some ⟨c, .checking⟩) :
      Step s (.check now ready up) (s.fail text)
  | restarted {now : ℤ} {ready up : Bool} {c : Command} (hc : s.call = some ⟨c, .checking⟩) :
      Step s (.check now ready up) { s.restart now up with call := some ⟨c, .reading⟩ }
  | lost {now : ℤ} {ready up : Bool} {c : Command} {text : String} (hc : s.call = some ⟨c, .checking⟩) :
      Step s (.check now ready up) ((s.restart now up).fail text)
  | read {c : Command} (hc : s.call = some ⟨c, .reading⟩) :
      Step s .read { s with call := some ⟨c, .writing s.pwmd.seq0 s.pwmd.pipe⟩ }
  | written {broken : String} {c : Command} {seq0 : ℕ} {backlog : List Line}
      (hc : s.call = some ⟨c, .writing seq0 backlog⟩) : Step s (.write broken) { s with
        pwmd := s.pwmd.write ⟨s.nextId, c⟩
        nextId := s.nextId + 1
        call := some ⟨c, .polling seq0 backlog ⟨s.nextId, c⟩⟩ }
  | broken {broken text : String} {c : Command} {seq0 : ℕ} {backlog : List Line}
      (hc : s.call = some ⟨c, .writing seq0 backlog⟩) : Step s (.write broken) (s.fail text)
  | poll {c : Command} {seq0 : ℕ} {backlog : List Line} {own : Line}
      (hc : s.call = some ⟨c, .polling seq0 backlog own⟩) : Step s .poll (s.poll c seq0 backlog own)
  | timeout {text : String} : Step s .timeout (s.fail text)
  | finish {o : Except Failure PwmRsp} {l : Line} {rest : List Line} (hproc : s.pwmd.proc = .running)
      (hpipe : s.pwmd.pipe = l :: rest) : Step s (.finish o) { s with
        pwmd := s.pwmd.publish l rest l.cmd.toCmd o
        history := s.history ++ [s.pwmd.entry l l.cmd.toCmd o] }
  | stop : Step s .stop { s with pwmd.proc := .leaving }
  | exit : Step s .exit { s with pwmd.proc := .gone }

/-- **The cases of a step.** -/
theorem step_of_next (hs : next s ev = some s') : Step s ev s' := by
  cases ev with
  | post gpt ch freq duty =>
    simp only [next] at hs
    split at hs
    · cases hs
      exact .refused
    · split_ifs at hs with hnone
      cases hs
      exact .posted (Option.isNone_iff_eq_none.mp hnone)
  | check now ready up =>
    simp only [next] at hs
    split at hs
    · rename_i c hc
      split_ifs at hs <;> cases hs
      · exact .alive hc
      · exact .dead hc
      · exact .restarted hc
      · exact .lost hc
    · cases hs
  | read =>
    simp only [next] at hs
    split at hs <;> cases hs
    exact .read ‹_›
  | write broken =>
    simp only [next] at hs
    split at hs
    · rename_i c seq0 backlog hc
      split_ifs at hs <;> cases hs
      · exact .written hc
      · exact .broken hc
    · cases hs
  | poll =>
    simp only [next] at hs
    split at hs <;> cases hs
    exact .poll ‹_›
  | timeout =>
    simp only [next] at hs
    split at hs <;> cases hs
    exact .timeout
  | finish o =>
    simp only [next] at hs
    split at hs
    · rename_i l rest hproc hpipe
      rw [Command.scanLine_line] at hs
      cases hs
      exact .finish hproc hpipe
    · cases hs
  | stop =>
    simp only [next] at hs
    split_ifs at hs
    cases hs
    exact .stop
  | exit =>
    simp only [next] at hs
    split_ifs at hs
    cases hs
    exact .exit

/-- **One step**. -/
theorem Wf.step (h : Wf s) (hs : next s ev = some s') : Wf s' := by
  -- the stages that say nothing
  have hplain : ∀ {s : Sys} {c : Command} {st : Stage}, Wf s → st = .checking ∨ st = .reading →
      Wf { s with call := some ⟨c, st⟩ } := by
    intro s c st h hst
    refine h.call rfl rfl fun call hcall => ?_
    obtain rfl := Option.some.inj hcall
    rcases hst with rfl | rfl <;> trivial
  cases step_of_next hs with
  | refused => exact h.call rfl rfl h.turn
  | posted => exact hplain h (.inl rfl)
  | alive => exact hplain h (.inr rfl)
  | dead | broken | timeout => exact h.fail _
  | restarted hc => exact hplain (wf_restart _ _ hc) (.inr rfl)
  | lost hc => exact (wf_restart _ _ hc).fail _
  | read =>
    refine h.call rfl rfl fun call hcall => ?_
    obtain rfl := Option.some.inj hcall
    refine ⟨Nat.le_of_eq h.pwmd.seq0, fun l hl => ?_⟩
    rwa [h.pwmd.written, List.drop_left' (by rw [List.length_map, h.pwmd.seq0])] at hl
  | written hc => exact h.sent hc
  | poll hc => exact h.poll hc
  | finish hproc hpipe =>
    refine h.channel (h.pwmd.publish hproc hpipe _) rfl ?_ _
    simp [Channel.publish]
  | stop => exact h.channel (h.pwmd.halt (q := .leaving) (by decide)) rfl (Nat.le_refl _) _
  | exit => exact h.channel (h.pwmd.halt (q := .gone) (by decide)) rfl (Nat.le_refl _) _

end Steps

theorem Wf.init : Wf init where
  pwmd := .start true
  fresh := fun _ h => absurd h List.not_mem_nil
  nodup := List.nodup_nil
  turn := fun _ h => by cases h

theorem wf_of_run {es : List Event} {s : Sys}
    (h : Transition.Run (Transition.ofNext next) init es s) : Wf s :=
  h.inv (I := Wf) .init fun hi hs => hi.step hs

end CR8Devkit.Web
