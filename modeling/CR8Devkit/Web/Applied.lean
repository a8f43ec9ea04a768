import CR8Devkit.Web.Send

/-!
# What a reloaded page restores

`applied` against the history of all reports. pwmd's reports are taken at their word: the R8 has
accepted a command exactly when its report has `ok` 1.

* `lastAccepted`: the last accepted report of a channel.
* `Timely`: the steps after which the waiting call still finds the accepted report of its line.
* `restores_of_timely`: with such steps only, `applied` is right whenever no call is pending;
  `not_restores`: not so once a call has timed out too early.
-/

namespace CR8Devkit.Web

open Proto Pwmd Transition

/-! ## Channels -/

theorem Command.key_eq_iff {c c' : Command} : c.key = c'.key ↔ c.gpt = c'.gpt ∧ c.ch = c'.ch := by
  constructor
  · intro h
    obtain ⟨hg, hc⟩ := List.append_inj' h rfl
    have hn := congrArg (fun l => Nat.ofDigitChars 10 l 0) hg
    simp only [Nat.ofDigitChars_toDigits (b := 10) (by decide) (by decide)] at hn
    exact ⟨hn, List.head_eq_of_cons_eq hc⟩
  · rintro ⟨hg, hc⟩
    rw [key, key, hg, hc]

/-- A report about the channel with status 0. -/
def Entry.accepted (e : Entry) (gpt : ℕ) (ch : Char) : Bool :=
  e.report.isOk && e.line.cmd.gpt == gpt && e.line.cmd.ch == ch

def lastAccepted (history : List Entry) (gpt : ℕ) (ch : Char) : Option Report :=
  (history.filter fun e => e.accepted gpt ch).getLast?.map Entry.report

theorem lastAccepted_append (history : List Entry) (e : Entry) (gpt : ℕ) (ch : Char) :
    lastAccepted (history ++ [e]) gpt ch =
      if e.accepted gpt ch then some e.report else lastAccepted history gpt ch := by
  cases h : e.accepted gpt ch <;> simp [lastAccepted, h]

/-- The cache agrees with the history on every channel. -/
def Cached (applied : List Char → Option Report) (history : List Entry) : Prop :=
  ∀ c : Command, applied c.key = lastAccepted history c.gpt c.ch

section Cached

variable {applied : List Char → Option Report} {history : List Entry} {e : Entry}

theorem Cached.refused (h : Cached applied history) (he : e.report.isOk = false) :
    Cached applied (history ++ [e]) := by
  intro c
  rw [lastAccepted_append, Entry.accepted, he]
  exact h c

/-- The accepted report enters the cache under its key. -/
theorem Cached.update (h : Cached applied history) (he : e.report.isOk = true) :
    Cached (Function.update applied e.line.cmd.key (some e.report)) (history ++ [e]) := by
  intro c
  rw [lastAccepted_append, Entry.accepted, he, Bool.true_and]
  by_cases hk : c.key = e.line.cmd.key
  · obtain ⟨hg, hc⟩ := Command.key_eq_iff.mp hk
    rw [hk, Function.update_self, hg, hc]
    simp
  · rw [Function.update_of_ne hk, h c, if_neg]
    intro hchan
    rw [Bool.and_eq_true, beq_iff_eq, beq_iff_eq] at hchan
    exact hk (Command.key_eq_iff.mpr ⟨hchan.1.symm, hchan.2.symm⟩)

end Cached

/-! ## Calls that wait long enough -/

/-- A valid reply with status 0. -/
def accepts : Except Failure PwmRsp → Bool
  | .ok r => r.status == 0
  | .error _ => false

theorem isOk_entry (p : Channel) (l : Line) (c : PwmCmd) (o : Except Failure PwmRsp) :
    (p.entry l c o).report.isOk = accepts o := by
  cases o with
  | error f => rfl
  | ok r =>
    simp only [Channel.entry, Daemon.finish, pwmdWriteJson, accepts]
    split_ifs with h
    · exact (beq_iff_eq.mpr h).symm
    · exact (beq_eq_false_iff_ne.mpr h).symm

/-- pwmd finishes a line that the R8 accepts while the call that wrote it is polling; and no call
times out with the accepted report of its line already published. -/
def Timely (s : Sys) : Event → Prop
  | .finish o => accepts o = true → ∀ l rest, s.pwmd.pipe = l :: rest →
      ∃ c n backlog, s.call = some ⟨c, .polling n backlog l⟩
  | .timeout => ∀ c n backlog own, s.call = some ⟨c, .polling n backlog own⟩ →
      ∀ e ∈ s.pwmd.log, e.line = own → e.report.isOk = false
  | _ => True

/-- With nothing left to do, the cache holds what each channel was last commanded. -/
def Restores (s : Sys) : Prop := s.call = none → s.pwmd.pipe = [] → Cached s.applied s.history

/-- Either the cache is up to date and nothing accepted has been published since the pending call
read the file, or exactly the accepted report of the pending call's line is missing. -/
def Synced (s : Sys) : Prop :=
  (Cached s.applied s.history ∧ ∀ call n, s.call = some call → call.stage.seq0 = some n →
    ∀ e ∈ s.pwmd.log.drop n, e.report.isOk = false) ∨
  ∃ history e, s.history = history ++ [e] ∧ Cached s.applied history ∧ e.report.isOk = true ∧
    s.pwmd.json = some e ∧ ∃ c n backlog, s.call = some ⟨c, .polling n backlog e.line⟩

theorem Call.Turn.seq0_le {p : Channel} {call : Call} {n : ℕ} (h : call.Turn p)
    (hn : call.stage.seq0 = some n) : n ≤ p.log.length := by
  obtain ⟨c, stage⟩ := call
  cases stage with
  | checking => cases hn
  | reading => cases hn
  | writing seq0 backlog =>
    rw [← Option.some.inj hn]
    exact h.1
  | polling seq0 backlog own =>
    rw [← Option.some.inj hn]
    exact h.1

section Steps

variable {s s' : Sys} {ev : Event}

theorem Synced.quiet (hw : Wf s) (h : Synced s) (ht : Timely s ev) (hq : Quiet s ev s') :
    Synced s' := by
  rcases h with ⟨hc, hold⟩ | ⟨history, e, hh, hc, hok, hj, c, n, backlog, hcall⟩
  · left
    refine ⟨by rwa [hq.applied, hq.history], fun call n hcall hn e he => ?_⟩
    obtain ⟨hl, hseq⟩ := hq.seq0 call n hcall hn
    rw [hl] at he
    rcases hseq with rfl | ⟨call', m, hcall', hm, hle⟩
    · rw [hw.pwmd.seq0, List.drop_length] at he
      exact absurd he List.not_mem_nil
    · rw [show n = m + (n - m) by omega, ← List.drop_drop] at he
      exact hold call' m hcall' hm e (List.mem_of_mem_drop he)
  · rcases hq.own c n backlog e.line hcall with rfl | ⟨hj', n', hcall'⟩
    · have := ht c n backlog e.line hcall e (hw.pwmd.seq_of_json hj).2 rfl
      rw [hok] at this
      cases this
    · right
      refine ⟨history, e, ?_, ?_, hok, ?_, c, n', backlog, hcall'⟩
      · rw [hq.history, hh]
      · rwa [hq.applied]
      · rw [hj', hj]

/-- pwmd finishes a line: while the pending call's own report is unseen, none is left. -/
theorem Synced.publish (hw : Wf s) (h : Synced s) {l : Line} {rest : List Line}
    {o : Except Failure PwmRsp} (ht : Timely s (.finish o)) (hpipe : s.pwmd.pipe = l :: rest) :
    Synced { s with
      pwmd := s.pwmd.publish l rest l.cmd.toCmd o
      history := s.history ++ [s.pwmd.entry l l.cmd.toCmd o] } := by
  rcases h with ⟨hc, hold⟩ | ⟨history, e, -, -, -, hj, c, n, backlog, hcall⟩
  · have hok := isOk_entry s.pwmd l l.cmd.toCmd o
    cases ho : accepts o with
    | true =>
      rw [ho] at hok
      obtain ⟨c, n, backlog, hcall⟩ := ht ho l rest hpipe
      exact .inr ⟨s.history, _, rfl, hc, hok, rfl, c, n, backlog, hcall⟩
    | false =>
      rw [ho] at hok
      refine .inl ⟨hc.refused hok, fun call n hcall hn e he => ?_⟩
      have hle := (hw.turn call hcall).seq0_le hn
      simp only [Channel.publish] at he
      rw [List.drop_append_of_le_length hle] at he
      rcases List.mem_append.mp he with he | he
      · exact hold call n hcall hn e he
      · rw [List.mem_singleton.mp he]
        exact hok
  · have hown : e.line ∈ s.pwmd.log.map Entry.line :=
      List.mem_map_of_mem (hw.pwmd.seq_of_json hj).2
    obtain ⟨-, -, -, hempty, -⟩ := hw.own_reported hcall hown
    rw [hempty] at hpipe
    cases hpipe

/-- The pending call returns a report: its own, or one that was refused. -/
theorem Synced.claim (hw : Wf s) (h : Synced s) {c : Command} {n : ℕ} {backlog : List Line}
    {own : Line} {e : Entry} (hcall : s.call = some ⟨c, .polling n backlog own⟩)
    (hj : s.pwmd.json = some e) (hseq : n < e.report.seq) :
    Synced (s.claim c backlog own e) := by
  refine .inl ⟨?_, fun call n hcall => by cases hcall⟩
  show Cached (if e.report.isOk then _ else s.applied) s.history
  rcases h with ⟨hc, hold⟩ | ⟨history, e', hh, hc, hok, hj', c', n', backlog', hcall'⟩
  · have hok := hold _ n hcall rfl e (hw.pwmd.mem_drop hj hseq)
    rwa [hok]
  · obtain rfl : e' = e := Option.some.inj (hj'.symm.trans hj)
    obtain rfl : own = e'.line := by
      rw [hcall] at hcall'
      cases hcall'
      rfl
    obtain ⟨-, -, rfl, -, -⟩ := hw.turn _ hcall
    rw [hok, if_pos rfl, hh]
    exact hc.update hok

theorem Synced.step (hw : Wf s) (h : Synced s) (ht : Timely s ev) (hs : next s ev = some s') :
    Synced s' := by
  rcases step_cases hs with hq | ⟨l, rest, o, rfl, -, hpipe, rfl⟩ |
    ⟨c, n, backlog, own, e, -, hc, he, hseq, -, rfl⟩
  · exact h.quiet hw ht hq
  · exact h.publish hw ht hpipe
  · exact h.claim hw hc he hseq

end Steps

/-- **The restored state is right** in every run with timely steps only. -/
theorem restores_of_timely {es : List Event} {s : Sys}
    (h : Run (guarded (ofNext next) Timely) init es s) : Restores s := by
  have h₀ : Synced init := .inl ⟨fun _ => rfl, fun _ _ hc => by cases hc⟩
  have hs : Wf s ∧ Synced s := h.inv (I := fun s => Wf s ∧ Synced s) ⟨.init, h₀⟩ fun hi hs =>
    ⟨hi.1.step hs.2, hi.2.step hi.1 hs.1 hs.2⟩
  intro hcall _
  rcases hs.2 with ⟨hc, -⟩ | ⟨_, e, -, -, -, -, c, n, backlog, hpoll⟩
  · exact hc
  · rw [hcall] at hpoll
    cases hpoll

/-- A command for GPT 4 that pwmd has not finished when the call gives up. -/
def backlogPost : List Event := [.post 4 ['b'] 800 100, .check 60000 true true, .read, .write "", .timeout]

def eightHundred : Command := ⟨4, 'b', 800, 100, by decide, by decide, by decide, by decide⟩

/-- It is refused while the next call polls, which then gets its own report. -/
def refusedRun : List Event :=
  backlogPost ++ slowPost ++ [.finish (.error .timeout), .poll, .finish (accepted 200000 100000), .poll]

theorem restores_refusedRun : ∃ s, exec next init refusedRun = some s ∧ s.call = none ∧ s.pwmd.pipe = [] ∧
    s.applied khz.key = some (.ok 2 khz.toCmd 200000 100000 200000000) ∧ s.applied eightHundred.key = none ∧
    Cached s.applied s.history := by
  have hlate : ∀ e ∈ ([] : List Entry), e.line = ⟨0, eightHundred⟩ → e.report.isOk = false :=
    fun _ he => absurd he List.not_mem_nil
  have hrun : Run (guarded (ofNext next) Timely) init refusedRun _ :=
    .cons ⟨trivial, rfl⟩ (.cons ⟨trivial, rfl⟩ (.cons ⟨trivial, rfl⟩ (.cons ⟨trivial, rfl⟩
      (.cons ⟨fun _ _ _ _ h => by cases h; exact hlate, rfl⟩
    (.cons ⟨trivial, rfl⟩ (.cons ⟨trivial, rfl⟩ (.cons ⟨trivial, rfl⟩ (.cons ⟨trivial, rfl⟩
      (.cons ⟨fun h => absurd h Bool.false_ne_true, rfl⟩ (.cons ⟨trivial, rfl⟩
        (.cons ⟨fun _ l rest h => ⟨khz, 1, [⟨0, eightHundred⟩], by cases h; rfl⟩, rfl⟩
          (.single ⟨trivial, rfl⟩))))))))))))
  exact ⟨_, rfl, rfl, rfl, by decide +kernel, by decide +kernel, restores_of_timely hrun rfl rfl⟩

/-- The call times out, then pwmd finishes its line, and the R8 has accepted it. -/
def abandonedRun : List Event := slowPost ++ [.timeout, .finish (accepted 200000 100000)]

theorem not_restores : ¬ ∀ (es : List Event) (s : Sys), Run (ofNext next) init es s → Restores s := by
  intro h
  have hend : (exec next init abandonedRun).map (fun s =>
      (s.call.isNone, s.pwmd.pipe, s.applied khz.key, lastAccepted s.history 6 'a')) =
      some (true, [], none, some khzEntry.report) := by decide +kernel
  obtain ⟨s, hs, he⟩ := Option.map_eq_some_iff.mp hend
  simp only [Prod.mk.injEq, Option.isNone_iff_eq_none] at he
  obtain ⟨hcall, hpipe, happlied, hlast⟩ := he
  have hrest : s.applied khz.key = lastAccepted s.history 6 'a' :=
    h abandonedRun s (run_of_exec hs) hcall hpipe khz
  rw [happlied, hlast] at hrest
  cases hrest

end CR8Devkit.Web
