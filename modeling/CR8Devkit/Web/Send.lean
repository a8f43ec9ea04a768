import CR8Devkit.Web.Daemon

/-!
# What a call of `send` returns

* `step_cases`: a step publishes a report, returns one, or is `Quiet`.
* `report_line`: a returned report is about the call's own line, or about a line with the same
  parameters that was unfinished when the call read the file; the second can happen
  (`not_own_report`).
* `reports_complete`: the reports follow the lines one by one, and a call whose line is reported
  returns a report at its next poll.
-/

namespace CR8Devkit.Web

open Proto Pwmd Transition

/-! ## Where reports go -/

/-- The `seq0` of a call that has read the file. -/
def Stage.seq0 : Stage → Option ℕ
  | .writing seq0 _ | .polling seq0 _ _ => some seq0
  | _ => none

/-- A step that neither publishes nor returns a report: a restart forgets the log, the pending call
moves on, and if it was polling it still is unless it timed out. -/
structure Quiet (s : Sys) (ev : Event) (s' : Sys) : Prop where
  history : s'.history = s.history
  applied : s'.applied = s.applied
  log : s'.pwmd.log = s.pwmd.log ∨ s'.pwmd.log = []
  responses : s'.responses = s.responses ∨ ∃ text, s'.responses = s.responses ++ [.error text]
  seq0 : ∀ call n, s'.call = some call → call.stage.seq0 = some n →
    s'.pwmd.log = s.pwmd.log ∧ (n = s.pwmd.seq0 ∨
      ∃ call' m, s.call = some call' ∧ call'.stage.seq0 = some m ∧ m ≤ n)
  own : ∀ c n backlog own, s.call = some ⟨c, .polling n backlog own⟩ →
    ev = .timeout ∨ s'.pwmd.json = s.pwmd.json ∧ ∃ n', s'.call = some ⟨c, .polling n' backlog own⟩

section Steps

variable {s s' : Sys} {ev : Event}

/-- The call stays as it is. -/
theorem Quiet.idle (hc : s'.call = s.call) (hl : s'.pwmd.log = s.pwmd.log)
    (hj : s'.pwmd.json = s.pwmd.json) (hh : s'.history = s.history) (ha : s'.applied = s.applied)
    (hr : s'.responses = s.responses ∨ ∃ text, s'.responses = s.responses ++ [.error text]) :
    Quiet s ev s' where
  history := hh
  applied := ha
  log := .inl hl
  responses := hr
  seq0 := fun call n hcall hn => ⟨hl, .inr ⟨call, n, by rw [← hc, hcall], hn, Nat.le_refl n⟩⟩
  own := fun c n backlog own hcall => .inr ⟨hj, n, by rw [hc, hcall]⟩

/-- A call that is not polling ends, or goes on to a stage without a `seq0`. -/
theorem Quiet.turn (hown : ∀ c n backlog own, s.call ≠ some ⟨c, .polling n backlog own⟩)
    (hc : ∀ call, s'.call = some call → call.stage.seq0 = none)
    (hl : s'.pwmd.log = s.pwmd.log ∨ s'.pwmd.log = []) (hh : s'.history = s.history)
    (ha : s'.applied = s.applied)
    (hr : s'.responses = s.responses ∨ ∃ text, s'.responses = s.responses ++ [.error text]) :
    Quiet s ev s' where
  history := hh
  applied := ha
  log := hl
  responses := hr
  seq0 := fun call n hcall hn => by rw [hc call hcall] at hn; cases hn
  own := fun c n backlog own hcall => absurd hcall (hown c n backlog own)

/-- **What a step does**: nothing to the reports, or it publishes one, or it returns one. -/
theorem step_cases (hs : next s ev = some s') : Quiet s ev s' ∨
    (∃ l rest o, ev = .finish o ∧ s.pwmd.proc = .running ∧ s.pwmd.pipe = l :: rest ∧
      s' = { s with
        pwmd := s.pwmd.publish l rest l.cmd.toCmd o
        history := s.history ++ [s.pwmd.entry l l.cmd.toCmd o] }) ∨
    ∃ c n backlog own e, ev = .poll ∧ s.call = some ⟨c, .polling n backlog own⟩ ∧
      s.pwmd.json = some e ∧ n < e.report.seq ∧ claims e.report c = true ∧
      s' = s.claim c backlog own e := by
  have hstage : ∀ {c : Command} {st : Stage}, st.seq0 = none → ∀ call : Call,
      some ⟨c, st⟩ = some call → call.stage.seq0 = none := by
    intro c st hst call hcall
    rw [← Option.some.inj hcall]
    exact hst
  cases step_of_next hs with
  | refused => exact .inl (.idle rfl rfl rfl rfl rfl (.inr ⟨_, rfl⟩))
  | posted hc | alive hc => exact .inl (.turn (by simp [hc]) (hstage rfl) (.inl rfl) rfl rfl (.inl rfl))
  | restarted hc => exact .inl (.turn (by simp [hc]) (hstage rfl) (.inr rfl) rfl rfl (.inl rfl))
  | dead hc | broken hc =>
    exact .inl (.turn (by simp [hc]) (fun _ h => by cases h) (.inl rfl) rfl rfl (.inr ⟨_, rfl⟩))
  | lost hc => exact .inl (.turn (by simp [hc]) (fun _ h => by cases h) (.inr rfl) rfl rfl (.inr ⟨_, rfl⟩))
  | read hc =>
    refine .inl ⟨rfl, rfl, .inl rfl, .inl rfl, fun call n hcall hn => ?_, by simp [hc]⟩
    obtain rfl := Option.some.inj hcall
    exact ⟨rfl, .inl (Option.some.inj hn).symm⟩
  | written hc =>
    refine .inl ⟨rfl, rfl, .inl rfl, .inl rfl, fun call n hcall hn => ?_, by simp [hc]⟩
    obtain rfl := Option.some.inj hcall
    exact ⟨rfl, .inr ⟨_, n, hc, hn, Nat.le_refl n⟩⟩
  | poll hc =>
    rename_i c seq0 backlog own
    unfold Sys.poll
    split
    · exact .inl (.idle rfl rfl rfl rfl rfl (.inl rfl))
    · rename_i e he
      split_ifs with hseq hclaim
      · exact .inr (.inr ⟨c, seq0, backlog, own, e, rfl, hc, he, hseq, hclaim, rfl⟩)
      · refine .inl ⟨rfl, rfl, .inl rfl, .inl rfl, fun call n hcall hn => ?_, fun c' n b o h => ?_⟩
        · obtain rfl := Option.some.inj hcall
          have hle : seq0 ≤ n := by
            rw [← Option.some.inj hn]
            exact Nat.le_of_lt hseq
          exact ⟨rfl, .inr ⟨_, seq0, hc, rfl, hle⟩⟩
        · rw [hc] at h
          cases h
          exact .inr ⟨rfl, _, rfl⟩
      · exact .inl (.idle rfl rfl rfl rfl rfl (.inl rfl))
  | timeout =>
    refine .inl ⟨rfl, rfl, .inl rfl, .inr ⟨_, rfl⟩, fun call n hcall _ => ?_, fun _ _ _ _ _ => .inl rfl⟩
    cases hcall
  | finish hproc hpipe => exact .inr (.inl ⟨_, _, _, rfl, hproc, hpipe, rfl⟩)
  | stop | exit => exact .inl (.idle rfl rfl rfl rfl rfl (.inl rfl))

end Steps

/-! ## Attribution -/

structure Attributed (s : Sys) : Prop where
  log : ∀ e ∈ s.pwmd.log, e ∈ s.history
  responses : ∀ own backlog e, .report own backlog e ∈ s.responses → e ∈ s.history ∧
    claims e.report own.cmd = true ∧ (e.line = own ∨ e.line ∈ backlog ∧ e.line.cmd = own.cmd)

/-- Responses so far stay attributed while the history grows. -/
theorem Attributed.quiet {s s' : Sys} (h : Attributed s) (hlog : ∀ e ∈ s'.pwmd.log, e ∈ s'.history)
    (hh : ∀ e ∈ s.history, e ∈ s'.history)
    (hr : s'.responses = s.responses ∨ ∃ text, s'.responses = s.responses ++ [.error text]) :
    Attributed s' := by
  refine ⟨hlog, fun own backlog e hmem => ?_⟩
  have hmem : .report own backlog e ∈ s.responses := by
    rcases hr with hr | ⟨text, hr⟩
    · rwa [hr] at hmem
    · rw [hr] at hmem
      exact (List.mem_append.mp hmem).resolve_right fun hmem => by cases List.mem_singleton.mp hmem
  obtain ⟨he, hrest⟩ := h.responses own backlog e hmem
  exact ⟨hh e he, hrest⟩

theorem Attributed.step {s s' : Sys} {ev : Event} (hw : Wf s) (h : Attributed s)
    (hs : next s ev = some s') : Attributed s' := by
  rcases step_cases hs with hq | ⟨l, rest, o, -, -, -, rfl⟩ |
    ⟨c, n, backlog, own, e, -, hc, he, hseq, hclaim, rfl⟩
  · refine h.quiet (fun e he => ?_) (fun e he => by rwa [hq.history]) hq.responses
    rw [hq.history]
    rcases hq.log with hl | hl
    · exact h.log e (by rwa [← hl])
    · rw [hl] at he
      cases he
  · refine h.quiet (fun e he => ?_) (fun e he => List.mem_append_left _ he) (.inl rfl)
    rcases List.mem_append.mp he with he | he
    · exact List.mem_append_left _ (h.log e he)
    · exact List.mem_append_right _ he
  · refine ⟨h.log, fun own' backlog' e' hmem => ?_⟩
    rcases List.mem_append.mp hmem with hmem | hmem
    · exact h.responses own' backlog' e' hmem
    obtain ⟨rfl, rfl, rfl⟩ := Response.report.inj (List.mem_singleton.mp hmem)
    obtain ⟨-, hlog⟩ := hw.pwmd.seq_of_json he
    obtain ⟨-, -, hcmd, -, -⟩ := hw.turn _ hc
    rw [hcmd]
    refine ⟨h.log _ hlog, hclaim, ?_⟩
    rcases hw.line_of_seen hc he hseq with hb | ho
    · exact .inr ⟨hb, (claims_iff (hw.pwmd.reqs _ hlog)).mp hclaim⟩
    · exact .inl ho

theorem Attributed.init : Attributed init where
  log := fun _ h => absurd h List.not_mem_nil
  responses := fun _ _ _ h => absurd h List.not_mem_nil

theorem attributed_of_run {es : List Event} {s : Sys} (h : Run (ofNext next) init es s) :
    Wf s ∧ Attributed s :=
  h.inv (I := fun s => Wf s ∧ Attributed s) ⟨.init, .init⟩ fun hi hs =>
    ⟨hi.1.step hs, hi.2.step hi.1 hs⟩

/-- **A returned report** is pwmd's report of the call's own line, or of a line with the same
parameters that pwmd had not finished when the call read the file. -/
theorem report_line {es : List Event} {s : Sys} (h : Run (ofNext next) init es s) {own : Line}
    {backlog : List Line} {e : Entry} (hr : .report own backlog e ∈ s.responses) :
    e ∈ s.history ∧ (e.line = own ∨ e.line ∈ backlog ∧ e.line.cmd = own.cmd) := by
  obtain ⟨he, -, hline⟩ := (attributed_of_run h).2.responses own backlog e hr
  exact ⟨he, hline⟩

/-- The R8's answer to a command it accepts. -/
def accepted (period duty : Word) : Except Failure PwmRsp := .ok (Pwmd.accepted period duty)

def slowPost : List Event := [.post 6 ['a'] 1000 500, .check 60000 true true, .read, .write ""]

def khz : Command := ⟨6, 'a', 1000, 500, by decide, by decide, by decide, by decide⟩

/-- Both requests ask for the same; pwmd is slow and finishes the first line while the second call
waits. -/
def repeatedRun : List Event :=
  slowPost ++ [.timeout] ++ slowPost ++ [.finish (accepted 200000 100000), .poll]

/-- The report of the first line. -/
def khzEntry : Entry := ⟨⟨0, khz⟩, true, .ok 1 khz.toCmd 200000 100000 200000000⟩

theorem responses_repeatedRun : (exec next init repeatedRun).map Sys.responses =
    some [.error "timeout waiting daemon", .report ⟨1, khz⟩ [⟨0, khz⟩] khzEntry] := by
  decide +kernel

theorem report_line_repeatedRun : ∃ s, Run (ofNext next) init repeatedRun s ∧
    khzEntry ∈ s.history ∧ (khzEntry.line = ⟨1, khz⟩ ∨
      khzEntry.line ∈ [(⟨0, khz⟩ : Line)] ∧ khzEntry.line.cmd = khz) := by
  obtain ⟨s, hs, hr⟩ := Option.map_eq_some_iff.mp responses_repeatedRun
  have hmem : .report ⟨1, khz⟩ [⟨0, khz⟩] khzEntry ∈ s.responses := by
    rw [hr]
    exact List.mem_cons_of_mem _ List.mem_cons_self
  exact ⟨s, run_of_exec hs, report_line (run_of_exec hs) hmem⟩

/-- The report of an earlier line, whose call has timed out, is returned for a later one. -/
theorem not_own_report : ¬ ∀ (es : List Event) (s : Sys), Run (ofNext next) init es s →
    ∀ own backlog e, .report own backlog e ∈ s.responses → e.line = own := by
  intro h
  obtain ⟨s, hs, hr⟩ := Option.map_eq_some_iff.mp responses_repeatedRun
  have hmem : .report ⟨1, khz⟩ [⟨0, khz⟩] khzEntry ∈ s.responses := by
    rw [hr]
    exact List.mem_cons_of_mem _ List.mem_cons_self
  have hline := h repeatedRun s (run_of_exec hs) _ _ _ hmem
  revert hline
  decide

/-! ## Completeness -/

/-- The present pwmd publishes one report for each line it finishes, in line order and numbered from
1, each with the parameters of its line; it gives up at the tenth report in a row without a valid
reply; no call returns a report with other parameters than its own; and a polling call whose line
is reported returns a report at its next poll. -/
structure Complete (s : Sys) : Prop where
  lines : s.pwmd.written = s.pwmd.log.map Entry.line ++ s.pwmd.pipe ∧ s.pwmd.written.Nodup
  seqs : s.pwmd.log.map (fun e => e.report.seq) = List.range' 1 s.pwmd.log.length
  fields : ∀ e ∈ s.pwmd.log, Matches e.report e.line.cmd
  file : s.pwmd.json = s.pwmd.log.getLast?
  gaveUp : s.pwmd.gaveUp = true ↔ failures s.pwmd.log = 10
  tenth : failures s.pwmd.log ≤ 10 ∧ (s.pwmd.gaveUp = true → s.pwmd.proc ≠ .running)
  returned : ∀ own backlog e, .report own backlog e ∈ s.responses → Matches e.report own.cmd
  found : ∀ c seq0 backlog own, s.call = some ⟨c, .polling seq0 backlog own⟩ →
    own ∈ s.pwmd.log.map Entry.line → ∃ e s', next s .poll = some s' ∧ s'.call = none ∧
      s'.responses = s.responses ++ [.report own backlog e]

/-- **Completeness**, after any run. -/
theorem reports_complete {es : List Event} {s : Sys} (h : Run (ofNext next) init es s) :
    Complete s := by
  obtain ⟨hw, ha⟩ := attributed_of_run h
  constructor
  · exact ⟨hw.pwmd.written, hw.nodup⟩
  · exact hw.pwmd.seqs
  · intro e he
    exact claims_eq_true.mp ((claims_iff (hw.pwmd.reqs e he)).mpr rfl)
  · exact hw.pwmd.json
  · exact hw.pwmd.gaveUp
  · refine ⟨hw.pwmd.fails_le, fun hg hr => ?_⟩
    have hlt := hw.pwmd.running hr
    rw [hw.pwmd.gaveUp] at hg
    omega
  · intro own backlog e hr
    obtain ⟨-, hclaim, -⟩ := ha.responses own backlog e hr
    exact claims_eq_true.mp hclaim
  · intro c seq0 backlog own hc hown
    obtain ⟨e, he, -, -, hseq, hclaim⟩ := hw.own_reported hc hown
    have hpoll : next s .poll = some (s.claim c backlog own e) := by
      simp only [next, hc, Sys.poll, he, if_pos hseq, if_pos hclaim]
    exact ⟨e, _, hpoll, rfl, rfl⟩

/-- The report of the second line overwrites the first one's before the second call polls. -/
def overwrittenRun : List Event :=
  slowPost ++ [.timeout] ++ slowPost ++ [.finish (.error .timeout), .finish (accepted 200000 100000)]

theorem reports_complete_overwrittenRun : ∃ s, Run (ofNext next) init overwrittenRun s ∧
    s.pwmd.log.map Entry.line = [⟨0, khz⟩, ⟨1, khz⟩] ∧ Complete s := by
  have hlog : (exec next init overwrittenRun).map (fun s => s.pwmd.log.map Entry.line) =
      some [⟨0, khz⟩, ⟨1, khz⟩] := by decide +kernel
  obtain ⟨s, hs, hl⟩ := Option.map_eq_some_iff.mp hlog
  exact ⟨s, run_of_exec hs, hl, reports_complete (run_of_exec hs)⟩

end CR8Devkit.Web
