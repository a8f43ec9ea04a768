import CR8Devkit.Client.UartRx
import CR8Devkit.Lib.Transition

/-!
# uartd

uartd's loop over its standard input, against any R8 and any transport.

* `Uartd`, `Uartd.round`, `next`: the daemon's state, one round of its loop, and one step of the
  system, in which others write to the pipe, close it, or set `force_stop`.
* `Faithful`: the received text is what the accepted replies carried, each once and in order.
* `Quiet`: no busy reply to a `SEND` carries bytes; `Inv.step`: then a step keeps the text faithful.
* `Missing`: the number of bytes lost so far, which never falls (`missing_of_run`).
* `faithful_iff`: the text is faithful exactly after the runs that are quiet throughout.
-/

namespace CR8Devkit.Uart

open WaitReply (Byte)
open Proto (Word)
open Buffer Transition

/-! ## The daemon -/

/-- The content of the JSON file, before escaping. -/
structure UartReport where
  seq : ℕ
  status : Word
  txTotal : Word
  rxTotal : Word
  rxDropped : Word
  rxText : List Byte

/-- uartd with its pipe; and for the record the commands it exchanged (a retry is not a new one),
the replies it accepted and the bytes it copied behind the received text. -/
structure Uartd where
  stdin : List Byte
  closed : Bool
  running : Bool
  rxAcc : ℤ → Byte
  rxLen : ℤ
  seq : ℕ
  idle : ℕ
  fails : ℕ
  json : Option UartReport
  sent : List UartCmd
  accepted : List UartRsp
  appended : List Byte

inductive Poll
  | eintr | error | timeout | ready

/-- What one round meets: `behind` is the stack behind `rsp.data`, `opened` tells whether the JSON
file could be written. -/
structure Round where
  poll : Poll
  first : Exchange
  second : Exchange
  behind : ℤ → Byte
  opened : Bool

/-- The buffers when `rsp` has been received. -/
def buffers (rxAcc : ℤ → Byte) (rsp : UartRsp) (behind : ℤ → Byte) : Buf → ℤ → Byte
  | .rxAcc => rxAcc
  | .rspData => fun i => if 0 ≤ i ∧ i < uartDataMax then rsp.data.getD i.toNat 0 else behind i

namespace Uartd

variable (s : Uartd) (r : Round)

/-- The bytes of the reply, and the JSON file. -/
def report (rsp : UartRsp) : Uartd :=
  let m := buffers s.rxAcc rsp r.behind
  let acc := accumulate m s.rxLen rsp.rxLen
  let len := (accumulation s.rxLen rsp.rxLen).2
  let s := { s with
    rxAcc := acc .rxAcc
    rxLen := len
    appended := s.appended ++ slice (m .rspData) 0 (taken rsp.rxLen).toNat }
  if r.opened then
    { s with
      seq := s.seq + 1
      json := some ⟨s.seq + 1, rsp.status, rsp.txTotal, rsp.rxTotal, rsp.rxDropped, text acc len⟩ }
  else s

def accept (rsp : UartRsp) : Uartd := { s with accepted := s.accepted ++ [rsp] }

/-- From `uartd_xfer` to the end of the round. A busy `SEND` is tried once more, into the same
`rsp`. -/
def exchange (cmd : UartCmd) (haveSend : Bool) : Uartd :=
  let s := { s with sent := s.sent ++ [cmd] }
  match uartdXfer r.first with
  | none => { s with fails := s.fails + 1, running := s.running && decide (s.fails + 1 < 10) }
  | some rsp =>
    let s := { s with fails := 0 }.accept rsp
    if haveSend = true ∧ rsp.status = uartErrTxBusy then
      match uartdXfer r.second with
      | none => s
      | some rsp => (s.accept rsp).report r rsp
    else s.report r rsp

/-- What a line asks for; an empty one falls through to a query. -/
def line : Line → Uartd
  | .send text => { s with idle := 0 }.exchange r (sendCmd text) true
  | .empty => { s with idle := 0 }.exchange r queryCmd false
  | .unknown => s

/-- One round of the loop. -/
def round : Option Uartd :=
  match r.poll with
  | .eintr => some s
  | .error => some { s with running := false }
  | .timeout =>
    if s.stdin ≠ [] ∨ s.closed = true then none
    else if s.idle + 1 < 10 then some { s with idle := s.idle + 1 }
    else some ({ s with idle := 0 }.exchange r queryCmd false)
  | .ready =>
    if s.stdin = [] then if s.closed = true then some { s with running := false } else none
    else
      let (l, rest) := fgets lineMax s.stdin
      if complete lineMax l s.closed = true then some ({ s with stdin := rest }.line r (parseLine l))
      else none

end Uartd

inductive Event
  | write (b : List Byte)
  | close
  | stop
  | round (r : Round)

def next (s : Uartd) : Event → Option Uartd
  | .write b => if s.closed = true then none else some { s with stdin := s.stdin ++ b }
  | .close => some { s with closed := true }
  | .stop => some { s with running := false }
  | .round r => if s.running = true then s.round r else none

/-- uartd at its start. -/
def init : Uartd := ⟨[], false, true, fun _ => 0, 0, 0, 0, 0, none, [], [], []⟩

/-! ## The received text -/

/-- `data[0..rx_len)`. -/
def UartRsp.received (rsp : UartRsp) : List Byte := rsp.data.take rsp.rxLen.toNat

/-- The bytes of the accepted replies, in the order of their acceptance. -/
def Uartd.stream (s : Uartd) : List Byte := s.accepted.flatMap UartRsp.received

/-- What was appended is what the accepted replies carried, and the text is its last 4096 bytes. -/
def Faithful (s : Uartd) : Prop :=
  s.appended = s.stream ∧ text (fun _ => s.rxAcc) s.rxLen = s.stream.rtake rxAccSize

/-- No reply claims more bytes than `data` holds. -/
def Fits (r : Round) : Prop := ∀ x ∈ [r.first, r.second], ∀ rsp, uartdXfer x = some rsp →
  rsp.rxLen.toNat ≤ uartDataMax

/-- If the first reply is `UART_ERR_TXBUSY`, it carries no bytes. -/
def BusyEmpty (r : Round) : Prop := ∀ rsp, uartdXfer r.first = some rsp →
  rsp.status = uartErrTxBusy → rsp.rxLen = 0

/-- The line read in this round is a `send`. -/
def Uartd.haveSend (s : Uartd) (r : Round) : Prop :=
  match r.poll with
  | .ready => ∃ text, parseLine (fgets lineMax s.stdin).1 = .send text
  | _ => False

/-- The replies fit. -/
def EventFits (_ : Uartd) : Event → Prop
  | .round r => Fits r
  | _ => True

/-- The replies fit, and a busy reply to a `SEND` carries no bytes. -/
def Quiet (s : Uartd) : Event → Prop
  | .round r => Fits r ∧ (s.haveSend r → BusyEmpty r)
  | _ => True

/-! ### One exchange -/

variable {s s' : Uartd} {r : Round} {rsp : UartRsp}

/-- The bytes of a reply as they lie in memory. -/
theorem slice_rspData (hd : rsp.data.length = uartDataMax) (h : rsp.rxLen.toNat ≤ uartDataMax)
    (acc behind : ℤ → Byte) :
    slice (buffers acc rsp behind .rspData) 0 rsp.rxLen.toNat = rsp.received := by
  have hlen : (slice (buffers acc rsp behind .rspData) 0 rsp.rxLen.toNat).length =
      rsp.received.length := by
    rw [length_slice, UartRsp.received, List.length_take, hd, Nat.min_eq_left h]
  refine List.ext_getElem hlen fun i hi _ => ?_
  rw [length_slice] at hi
  have hin : 0 ≤ (0 + (i : ℤ)) ∧ (0 + (i : ℤ)) < uartDataMax := by omega
  have hi' : i < rsp.data.length := by omega
  simp only [slice, UartRsp.received, List.getElem_map, List.getElem_range, List.getElem_take,
    buffers, if_pos hin]
  simp only [Int.zero_add, Int.toNat_natCast, List.getD_eq_getElem?_getD,
    List.getElem?_eq_getElem hi', Option.getD_some]

/-- The text with its fill level in range. -/
structure Inv (s : Uartd) : Prop where
  faithful : Faithful s
  nonneg : 0 ≤ s.rxLen
  le : s.rxLen ≤ rxAccSize

/-- Publishing a reply appends its bytes. -/
theorem report_spec (h0 : 0 ≤ s.rxLen) (h1 : s.rxLen ≤ rxAccSize)
    (hd : rsp.data.length = uartDataMax) (hw : rsp.rxLen.toNat ≤ uartDataMax) :
    (s.report r rsp).accepted = s.accepted ∧
      (s.report r rsp).appended = s.appended ++ rsp.received ∧
      text (fun _ => (s.report r rsp).rxAcc) (s.report r rsp).rxLen =
        (text (fun _ => s.rxAcc) s.rxLen ++ rsp.received).rtake rxAccSize ∧
      0 ≤ (s.report r rsp).rxLen ∧ (s.report r rsp).rxLen ≤ rxAccSize := by
  obtain ⟨-, hlo, hhi⟩ := (safe_iff h0 h1 rsp.rxLen).mpr hw
  have hslice := slice_rspData hd hw s.rxAcc r.behind
  have htext := text_accumulate (m := buffers s.rxAcc rsp r.behind) h0 h1 hw
  have htaken : (taken rsp.rxLen).toNat = rsp.rxLen.toNat := by
    rw [taken_of_le hw, Int.toNat_natCast]
  rw [hslice] at htext
  unfold Uartd.report
  cases r.opened with
  | false => exact ⟨rfl, by simp only [htaken, hslice]; rfl, htext, hlo, hhi⟩
  | true => exact ⟨rfl, by simp only [htaken, hslice]; rfl, htext, hlo, hhi⟩

theorem stream_accept (s : Uartd) (rsp : UartRsp) :
    (s.accept rsp).stream = s.stream ++ rsp.received := by
  simp [Uartd.stream, Uartd.accept]

theorem received_eq_nil (hd : rsp.data.length = uartDataMax) :
    rsp.received = [] ↔ rsp.rxLen = 0 := by
  have hmax : uartDataMax = 384 := rfl
  rw [UartRsp.received, List.take_eq_nil_iff, ← List.length_eq_zero_iff, hd]
  constructor
  · intro h
    exact BitVec.eq_of_toNat_eq (h.resolve_right (by omega))
  · intro h
    exact .inl (by rw [h]; rfl)

/-- An accepted reply that is published keeps everything in step. -/
theorem Inv.report (h : Inv s) (hd : rsp.data.length = uartDataMax)
    (hw : rsp.rxLen.toNat ≤ uartDataMax) : Inv ((s.accept rsp).report r rsp) := by
  obtain ⟨hacc, happ, htext, h0, h1⟩ :=
    report_spec (s := s.accept rsp) (r := r) h.nonneg h.le hd hw
  have hstream : ((s.accept rsp).report r rsp).stream = s.stream ++ rsp.received := by
    rw [← stream_accept]
    simp only [Uartd.stream, hacc]
  refine ⟨⟨?_, ?_⟩, h0, h1⟩
  · rw [happ, hstream, ← h.faithful.1]
    rfl
  · have hold : text (fun _ => (s.accept rsp).rxAcc) (s.accept rsp).rxLen =
        s.stream.rtake rxAccSize := h.faithful.2
    rw [htext, hold, rtake_append_rtake, hstream]

/-- An accepted reply without bytes that is not published does no harm. -/
theorem Inv.accept (h : Inv s) (hr : rsp.received = []) : Inv (s.accept rsp) := by
  have hstream : (s.accept rsp).stream = s.stream := by
    rw [stream_accept, hr, List.append_nil]
  refine ⟨⟨?_, ?_⟩, h.nonneg, h.le⟩
  · rw [hstream]
    exact h.faithful.1
  · rw [hstream]
    exact h.faithful.2

/-- The invariant reads only the buffer and the records. -/
theorem Inv.congr (h : Inv s) (hacc : s'.rxAcc = s.rxAcc) (hlen : s'.rxLen = s.rxLen)
    (hrec : s'.accepted = s.accepted) (happ : s'.appended = s.appended) : Inv s' := by
  have hstream : s'.stream = s.stream := by rw [Uartd.stream, Uartd.stream, hrec]
  obtain ⟨⟨h₁, h₂⟩, h₃, h₄⟩ := h
  refine ⟨⟨?_, ?_⟩, ?_, ?_⟩
  · rw [happ, hstream, h₁]
  · rw [hacc, hlen, hstream, h₂]
  · rwa [hlen]
  · rwa [hlen]

theorem fits_first (h : Fits r) (hx : uartdXfer r.first = some rsp) :
    rsp.rxLen.toNat ≤ uartDataMax := h _ List.mem_cons_self _ hx

theorem fits_second (h : Fits r) (hx : uartdXfer r.second = some rsp) :
    rsp.rxLen.toNat ≤ uartDataMax := h _ (List.mem_cons_of_mem _ List.mem_cons_self) _ hx

/-- **An exchange keeps the text faithful** unless it retries a `SEND` whose first reply carried
bytes. -/
theorem Inv.exchange (h : Inv s) (hf : Fits r) {cmd : UartCmd} {haveSend : Bool}
    (hb : haveSend = true → BusyEmpty r) : Inv (s.exchange r cmd haveSend) := by
  unfold Uartd.exchange
  cases hx : uartdXfer r.first with
  | none => exact h.congr rfl rfl rfl rfl
  | some rsp =>
    have h' : Inv { s with sent := s.sent ++ [cmd], fails := 0 } := h.congr rfl rfl rfl rfl
    have hd := uartdXfer_length hx
    by_cases hbusy : haveSend = true ∧ rsp.status = uartErrTxBusy
    · simp only [if_pos hbusy]
      have hempty := (received_eq_nil hd).mpr (hb hbusy.1 rsp hx hbusy.2)
      have h'' := h'.accept hempty
      cases hx' : uartdXfer r.second with
      | none => exact h''
      | some rsp' => exact h''.report (uartdXfer_length hx') (fits_second hf hx')
    · simp only [if_neg hbusy]
      exact h'.report hd (fits_first hf hx)

/-! ### Lost bytes -/

/-- `k` bytes of accepted replies are missing from the text. -/
structure Missing (s : Uartd) (k : ℕ) : Prop where
  stream : s.stream.length = s.appended.length + k
  nonneg : 0 ≤ s.rxLen
  le : s.rxLen ≤ rxAccSize

variable {k : ℕ}

theorem Missing.congr (h : Missing s k) (hlen : s'.rxLen = s.rxLen)
    (hrec : s'.accepted = s.accepted) (happ : s'.appended = s.appended) : Missing s' k := by
  obtain ⟨h₁, h₂, h₃⟩ := h
  refine ⟨?_, ?_, ?_⟩
  · rwa [happ, Uartd.stream, hrec]
  · rwa [hlen]
  · rwa [hlen]

theorem Missing.accept (h : Missing s k) (rsp : UartRsp) :
    Missing (s.accept rsp) (k + rsp.received.length) := by
  refine ⟨?_, h.nonneg, h.le⟩
  rw [stream_accept, List.length_append, h.stream, Nat.add_assoc]
  rfl

/-- A published reply loses nothing. -/
theorem Missing.report (h : Missing s k) (hd : rsp.data.length = uartDataMax)
    (hw : rsp.rxLen.toNat ≤ uartDataMax) : Missing ((s.accept rsp).report r rsp) k := by
  obtain ⟨hacc, happ, -, h0, h1⟩ := report_spec (s := s.accept rsp) (r := r) h.nonneg h.le hd hw
  refine ⟨?_, h0, h1⟩
  have hstream := (h.accept rsp).stream
  rw [happ, Uartd.stream, hacc, ← Uartd.stream, List.length_append]
  omega

/-- **What an exchange loses.** -/
theorem Missing.exchange (h : Missing s k) (hf : Fits r) (cmd : UartCmd) (haveSend : Bool) :
    ∃ j, Missing (s.exchange r cmd haveSend) (k + j) ∧
      (j = 0 → haveSend = true → BusyEmpty r) := by
  unfold Uartd.exchange
  cases hx : uartdXfer r.first with
  | none => exact ⟨0, h.congr rfl rfl rfl, fun _ _ rsp hr => by rw [hx] at hr; cases hr⟩
  | some rsp =>
    have h' : Missing { s with sent := s.sent ++ [cmd], fails := 0 } k := h.congr rfl rfl rfl
    have hd := uartdXfer_length hx
    by_cases hbusy : haveSend = true ∧ rsp.status = uartErrTxBusy
    · simp only [if_pos hbusy]
      refine ⟨rsp.received.length, ?_, fun hj _ rsp' hr _ => ?_⟩
      · have h'' := h'.accept rsp
        cases hx' : uartdXfer r.second with
        | none => exact h''
        | some rsp' => exact h''.report (uartdXfer_length hx') (fits_second hf hx')
      · rw [hx, Option.some_inj] at hr
        rw [← hr]
        exact (received_eq_nil hd).mp (List.length_eq_zero_iff.mp hj)
    · simp only [if_neg hbusy]
      refine ⟨0, h'.report hd (fits_first hf hx), fun _ hsend rsp' hr hst => ?_⟩
      rw [hx, Option.some_inj] at hr
      exact absurd ⟨hsend, hr ▸ hst⟩ hbusy

/-! ### Runs -/

theorem Inv.line (h : Inv s) (hf : Fits r) {l : Line} (hb : ∀ text, l = .send text → BusyEmpty r) :
    Inv (s.line r l) := by
  have h' : Inv { s with idle := 0 } := h.congr rfl rfl rfl rfl
  cases l with
  | send text => exact h'.exchange hf fun _ => hb text rfl
  | empty => exact h'.exchange hf fun hq => absurd hq (by decide)
  | unknown => exact h

/-- **One step.** -/
theorem Inv.step {e : Event} (h : Inv s) (hq : Quiet s e) (hs : next s e = some s') : Inv s' := by
  cases e with
  | write b =>
    simp only [next] at hs
    split_ifs at hs
    cases hs
    exact h.congr rfl rfl rfl rfl
  | close => cases hs; exact h.congr rfl rfl rfl rfl
  | stop => cases hs; exact h.congr rfl rfl rfl rfl
  | round r =>
    obtain ⟨hf, hb⟩ := hq
    simp only [next] at hs
    split_ifs at hs
    simp only [Uartd.round] at hs
    unfold Uartd.haveSend at hb
    split at hs
    · cases hs
      exact h
    · cases hs
      exact h.congr rfl rfl rfl rfl
    · split_ifs at hs
      · cases hs
        exact h.congr rfl rfl rfl rfl
      · cases hs
        have h' : Inv { s with idle := 0 } := h.congr rfl rfl rfl rfl
        exact h'.exchange hf fun hq => absurd hq (by decide)
    · rename_i hp
      simp only [hp] at hb
      split_ifs at hs
      · cases hs
        exact h.congr rfl rfl rfl rfl
      · cases hs
        have h' : Inv { s with stdin := (fgets lineMax s.stdin).2 } := h.congr rfl rfl rfl rfl
        exact h'.line hf fun text hl => hb ⟨text, hl⟩

theorem inv_init : Inv init := ⟨⟨rfl, rfl⟩, Int.le_refl 0, by decide⟩

/-- In every run in which no busy reply to a `SEND` carries bytes, the text is faithful. -/
theorem faithful_of_quiet {es : List Event} (h : Run (guarded (ofNext next) Quiet) init es s) :
    Faithful s :=
  (h.inv inv_init fun hi hs => hi.step hs.1 hs.2).faithful

theorem Missing.line (h : Missing s k) (hf : Fits r) (l : Line) :
    ∃ j, Missing (s.line r l) (k + j) ∧ (j = 0 → ∀ text, l = .send text → BusyEmpty r) := by
  have h' : Missing { s with idle := 0 } k := h.congr rfl rfl rfl
  cases l with
  | send text =>
    obtain ⟨j, hj, hb⟩ := h'.exchange hf (sendCmd text) true
    exact ⟨j, hj, fun h0 _ _ => hb h0 rfl⟩
  | empty =>
    obtain ⟨j, hj, -⟩ := h'.exchange hf queryCmd false
    exact ⟨j, hj, fun _ _ hl => Line.noConfusion hl⟩
  | unknown => exact ⟨0, h, fun _ _ hl => Line.noConfusion hl⟩

/-- One step loses nothing only if it is quiet. -/
theorem Missing.step {e : Event} (h : Missing s k) (hf : EventFits s e) (hs : next s e = some s') :
    ∃ j, Missing s' (k + j) ∧ (j = 0 → Quiet s e) := by
  cases e with
  | write b =>
    simp only [next] at hs
    split_ifs at hs
    cases hs
    exact ⟨0, h.congr rfl rfl rfl, fun _ => trivial⟩
  | close => cases hs; exact ⟨0, h.congr rfl rfl rfl, fun _ => trivial⟩
  | stop => cases hs; exact ⟨0, h.congr rfl rfl rfl, fun _ => trivial⟩
  | round r =>
    have hquiet : ∀ {j : ℕ}, (j = 0 → s.haveSend r → BusyEmpty r) → j = 0 → Quiet s (.round r) :=
      fun hb h0 => ⟨hf, hb h0⟩
    simp only [next] at hs
    split_ifs at hs
    simp only [Uartd.round] at hs
    split at hs
    · rename_i hp
      cases hs
      exact ⟨0, h, hquiet fun _ hsend => by simp only [Uartd.haveSend, hp] at hsend⟩
    · rename_i hp
      cases hs
      exact ⟨0, h.congr rfl rfl rfl, hquiet fun _ hsend => by simp only [Uartd.haveSend, hp] at hsend⟩
    · rename_i hp
      have hno : ¬ s.haveSend r := fun hsend => by simp only [Uartd.haveSend, hp] at hsend
      split_ifs at hs
      · cases hs
        exact ⟨0, h.congr rfl rfl rfl, hquiet fun _ hsend => absurd hsend hno⟩
      · cases hs
        have h' : Missing { s with idle := 0 } k := h.congr rfl rfl rfl
        obtain ⟨j, hj, -⟩ := h'.exchange hf queryCmd false
        exact ⟨j, hj, hquiet fun _ hsend => absurd hsend hno⟩
    · rename_i hp
      split_ifs at hs with hnil
      · cases hs
        refine ⟨0, h.congr rfl rfl rfl, hquiet fun _ hsend => ?_⟩
        simp only [Uartd.haveSend, hp, hnil] at hsend
        obtain ⟨text, ht⟩ := hsend
        cases ht
      · cases hs
        have h' : Missing { s with stdin := (fgets lineMax s.stdin).2 } k := h.congr rfl rfl rfl
        obtain ⟨j, hj, hb⟩ := h'.line hf (parseLine (fgets lineMax s.stdin).1)
        refine ⟨j, hj, hquiet fun h0 hsend => ?_⟩
        simp only [Uartd.haveSend, hp] at hsend
        obtain ⟨text, ht⟩ := hsend
        exact hb h0 text ht

/-- Along a run the number of missing bytes never falls. -/
theorem missing_of_run {es : List Event} (h : Run (guarded (ofNext next) EventFits) init es s) :
    ∃ k, Missing s k ∧ (k = 0 → Run (guarded (ofNext next) Quiet) init es s) := by
  induction h with
  | nil => exact ⟨0, ⟨rfl, Int.le_refl 0, by decide⟩, fun _ => .nil⟩
  | snoc _ hstep ih =>
    obtain ⟨k, hk, hrun⟩ := ih
    obtain ⟨j, hj, hquiet⟩ := hk.step hstep.1 hstep.2
    refine ⟨k + j, hj, fun h0 => ?_⟩
    have hk0 : k = 0 := by omega
    have hj0 : j = 0 := by omega
    exact (hrun hk0).snoc ⟨hquiet hj0, hstep.2⟩

/-- **The received text is what the accepted replies carried, each once and in order, exactly when
no busy reply to a `SEND` carried bytes.** -/
theorem faithful_iff {es : List Event} (h : Run (guarded (ofNext next) EventFits) init es s) :
    Faithful s ↔ Run (guarded (ofNext next) Quiet) init es s := by
  refine ⟨fun hs => ?_, faithful_of_quiet⟩
  obtain ⟨k, hk, hrun⟩ := missing_of_run h
  refine hrun ?_
  have hlen := hk.stream
  rw [hs.1] at hlen
  omega

/-! ### A busy `SEND` -/

/-- `"send hi\n"`. -/
def hello : List Byte := sendPrefix ++ [104, 105, 10]

/-- An exchange with the given status and bytes. -/
def answered (status : Word) (bytes : List Byte) : Exchange where
  trysend _ := 400
  stopped _ := false
  late := false
  waited := 0
  reply := ⟨Proto.le32 uartRspMagic ++ Proto.le32 uartAbiVer ++ Proto.le32 status ++
    List.replicate 12 0 ++ Proto.le32 (.ofNat 32 bytes.length) ++ bytes ++
    List.replicate (uartDataMax - bytes.length) 0, uartRspSize, true⟩

/-- The first answer is `UART_ERR_TXBUSY` and carries `bytes`, the second accepts the text and
carries `retried`. -/
def busyRound (bytes retried : List Byte) : Round :=
  ⟨.ready, answered uartErrTxBusy bytes, answered 0 retried, fun _ => 0, true⟩

theorem fits_answered {x : Exchange} {w : Word} (hw : w.toNat ≤ uartDataMax)
    (hx : (uartdXfer x).map UartRsp.rxLen = some w) :
    ∀ rsp, uartdXfer x = some rsp → rsp.rxLen.toNat ≤ uartDataMax := by
  intro rsp h
  rw [h] at hx
  rwa [Option.some_inj.mp hx]

theorem fits_busyRound {bytes : List Byte} {w : Word} (hw : w.toNat ≤ uartDataMax)
    (h : (uartdXfer (answered uartErrTxBusy bytes)).map UartRsp.rxLen = some w) :
    Fits (busyRound bytes [79, 75]) := by
  have hretry : (uartdXfer (answered 0 [79, 75])).map UartRsp.rxLen = some 2 := by decide +kernel
  simp only [Fits, busyRound, List.forall_mem_cons]
  exact ⟨fits_answered hw h, fits_answered (by decide) hretry, nofun⟩

theorem run_hello {P : Uartd → Event → Prop} {r : Round} {s : Uartd}
    (h : exec next init [.write hello, .round r] = some s) (hw : ∀ s, P s (.write hello))
    (hr : ∀ s, P s (.round r)) :
    Run (guarded (ofNext next) P) init [.write hello, .round r] s :=
  (run_of_exec h).guard (List.forall_mem_cons.mpr ⟨hw, List.forall_mem_singleton.mpr hr⟩)

/-- The answer to the retry carries `"OK"`, and that is the text. -/
theorem faithful_iff_busyRound : ∃ s, exec next init [.write hello, .round (busyRound [] [79, 75])] = some s ∧
    s.appended = [79, 75] ∧ text (fun _ => s.rxAcc) s.rxLen = [79, 75] := by
  have hx : (uartdXfer (answered uartErrTxBusy [])).map UartRsp.rxLen = some 0 := by decide +kernel
  have hrun : (exec next init [.write hello, .round (busyRound [] [79, 75])]).map Uartd.stream =
      some [79, 75] := by decide +kernel
  obtain ⟨s, hs, hstream⟩ := Option.map_eq_some_iff.mp hrun
  have hfits := fits_busyRound (by decide) hx
  have hempty : BusyEmpty (busyRound [] [79, 75]) := fun rsp h _ =>
    Option.some_inj.mp ((congrArg (Option.map UartRsp.rxLen) h).symm.trans hx)
  have hf := (faithful_iff (run_hello hs (fun _ => trivial) fun _ => hfits)).mpr
    (run_hello hs (fun _ => trivial) fun _ => ⟨hfits, fun _ => hempty⟩)
  rw [Faithful, hstream] at hf
  exact ⟨s, hs, hf⟩

/-- One byte is lost. -/
theorem not_faithful : ¬ ∀ (es : List Event) (s : Uartd),
    Run (guarded (ofNext next) EventFits) init es s → Faithful s := by
  intro h
  have hx : (uartdXfer (answered uartErrTxBusy [65])).map UartRsp.rxLen = some 1 := by
    decide +kernel
  have hrun : (exec next init [.write hello, .round (busyRound [65] [79, 75])]).map
      (fun s => (s.appended, s.stream)) = some ([79, 75], [65, 79, 75]) := by decide +kernel
  obtain ⟨s, hs, hlost⟩ := Option.map_eq_some_iff.mp hrun
  obtain ⟨happ, hstream⟩ := Prod.mk.inj hlost
  have hf := (h _ s (run_hello hs (fun _ => trivial) fun _ => fits_busyRound (by decide) hx)).1
  rw [happ, hstream] at hf
  cases hf

end CR8Devkit.Uart
