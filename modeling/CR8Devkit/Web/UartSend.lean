import CR8Devkit.Client.Uartd

/-!
# Text from the page to the UART

* `utf8`: Python's `str.encode`; `uartText`, `wire`: what `/api/uart/send` keeps of a text, and the
  line that `writeline` puts into uartd's pipe for it.
* `fgets_line`, `fgets_long`: how `fgets` cuts such a line; `parseLine_wire`: what is left of it.
* `performs_iff`: uartd makes exactly one `SEND` of the text, whole and alone, exactly when the text
  takes at most 383 bytes and does not end in a carriage return; `served_of_run`: in a run in which
  only such texts are written every one is sent once, in order.
-/

namespace CR8Devkit.Web

open WaitReply (Byte)
open Uart

/-! ## UTF-8 -/

def utf8Char (c : Char) : List Byte := (String.utf8EncodeChar c).map UInt8.toBitVec

/-- `str.encode()`. -/
def utf8 (s : List Char) : List Byte := s.flatMap utf8Char

theorem utf8_append (s t : List Char) : utf8 (s ++ t) = utf8 s ++ utf8 t := List.flatMap_append

/-- A byte below 128 is an ASCII character of its own. -/
theorem toNat_of_mem_utf8Char {c : Char} {b : Byte} (h : b ∈ utf8Char c) (hb : b.toNat < 128) :
    c.toNat = b.toNat := by
  obtain ⟨x, hx, rfl⟩ := List.mem_map.mp h
  have hx' : x.toNat < 128 := hb
  have hgoal : c.toNat = x.toNat := by
    unfold String.utf8EncodeChar at hx
    have hv : c.val.toNat = c.toNat := rfl
    simp only [hv] at hx
    split_ifs at hx <;>
      simp only [List.mem_cons, List.not_mem_nil, or_false] at hx <;>
      rcases hx with rfl | rfl | rfl | rfl <;>
      simp only [UInt8.toNat_ofNat'] at hx' ⊢ <;> omega
  exact hgoal

theorem eq_of_mem_utf8Char {c d : Char} (hd : d.toNat < 128)
    (h : BitVec.ofNat 8 d.toNat ∈ utf8Char c) : c = d := by
  have hnat : (BitVec.ofNat 8 d.toNat).toNat = d.toNat := by
    rw [BitVec.toNat_ofNat]
    omega
  have heq := toNat_of_mem_utf8Char h (by omega)
  exact Char.toNat_inj.mp (heq.trans hnat)

theorem not_mem_utf8 {s : List Char} {c : Char} (hc : c.toNat < 128) (hs : c ∉ s) :
    BitVec.ofNat 8 c.toNat ∉ utf8 s := by
  intro h
  obtain ⟨d, hd, hb⟩ := List.mem_flatMap.mp h
  exact hs (eq_of_mem_utf8Char hc hb ▸ hd)

theorem utf8Char_ne_nil (c : Char) : utf8Char c ≠ [] := by
  have h := c.utf8Size_pos
  rw [← String.length_utf8EncodeChar, List.length_pos_iff] at h
  simp [utf8Char, h]

/-! ## The line in the pipe -/

/-- What is sent: the first 380 characters, with a blank for each newline. -/
def uartText (text : List Char) : List Char :=
  (text.take 380).map fun c => if c = '\n' then ' ' else c

/-- The line written for a text. -/
def wire (text : List Char) : List Byte := utf8 ("send ".toList ++ uartText text ++ ['\n'])

/-- The bytes that should go out. -/
def message (text : List Char) : List Byte := utf8 (uartText text) ++ [10]

theorem wire_eq (text : List Char) : wire text = sendPrefix ++ utf8 (uartText text) ++ [10] := by
  have hprefix : utf8 "send ".toList = sendPrefix := by decide
  have hnl : utf8 ['\n'] = [10] := by decide
  rw [wire, utf8_append, utf8_append, hprefix, hnl]

theorem newline_not_mem (text : List Char) : '\n' ∉ uartText text := by
  intro h
  obtain ⟨c, -, hc⟩ := List.mem_map.mp h
  split_ifs at hc with hn
  · cases hc
  · exact hn hc

/-- No byte of the text is a newline. -/
theorem ten_not_mem (text : List Char) : (10 : Byte) ∉ utf8 (uartText text) :=
  not_mem_utf8 (c := '\n') (by decide) (newline_not_mem text)

/-- A text without NUL has no zero byte. -/
theorem zero_not_mem {text : List Char} (h : '\x00' ∉ text) :
    (0 : Byte) ∉ utf8 (uartText text) := by
  refine not_mem_utf8 (c := '\x00') (by decide) fun hmem => ?_
  obtain ⟨c, hc, heq⟩ := List.mem_map.mp hmem
  split_ifs at heq
  · cases heq
  · exact h (heq ▸ List.mem_of_mem_take hc)

/-! ## Reading the line -/

/-- A line that fits is read whole. -/
theorem fgets_line {n : ℕ} {l rest : List Byte} (h : 10 ∉ l) (hn : l.length < n) :
    fgets n (l ++ 10 :: rest) = (l ++ [10], rest) := by
  induction l generalizing n with
  | nil =>
    obtain ⟨n, rfl⟩ : ∃ k, n = k + 1 := ⟨n - 1, by simp at hn; omega⟩
    rfl
  | cons c l ih =>
    obtain ⟨n, rfl⟩ : ∃ k, n = k + 1 := ⟨n - 1, by simp at hn; omega⟩
    obtain ⟨hc, hl⟩ := not_or.mp (mt List.mem_cons.mpr h)
    have hlen : l.length < n := by simpa using hn
    simp only [List.cons_append, fgets, ih hl hlen, if_neg (Ne.symm hc)]

/-- A longer one is cut. -/
theorem fgets_long {n : ℕ} {l : List Byte} (rest : List Byte) (h : 10 ∉ l) (hn : n ≤ l.length) :
    fgets n (l ++ rest) = (l.take n, l.drop n ++ rest) := by
  induction l generalizing n with
  | nil =>
    obtain rfl : n = 0 := by simpa using hn
    rfl
  | cons c l ih =>
    cases n with
    | zero => rfl
    | succ n =>
      obtain ⟨hc, hl⟩ := not_or.mp (mt List.mem_cons.mpr h)
      have hlen : n ≤ l.length := by simpa using hn
      simp only [List.cons_append, fgets, ih hl hlen, if_neg (Ne.symm hc), List.take_succ_cons,
        List.drop_succ_cons]

/-- A newline or a carriage return. -/
def isEol (c : Byte) : Bool := c == 10 || c == 13

/-- The text keeps its characters, but not its trailing carriage returns. -/
theorem parseLine_wire {b : List Byte} (h0 : 0 ∉ b) :
    parseLine (sendPrefix ++ b ++ [10]) = .send (b.rdropWhile isEol) := by
  have htake : (sendPrefix ++ b ++ [10]).takeWhile (fun c => c != 0) = sendPrefix ++ b ++ [10] := by
    refine List.takeWhile_eq_self_iff.mpr fun c hc => ?_
    have hmem : c ∈ sendPrefix ∨ c ∈ b ∨ c = 10 := by simpa [or_assoc] using hc
    have hprefix : ∀ c ∈ sendPrefix, (c != 0) = true := by decide
    rcases hmem with hc | hc | rfl
    · exact hprefix c hc
    · simpa using fun e : c = 0 => h0 (e ▸ hc)
    · decide
  have hstrip : (sendPrefix ++ b).rdropWhile isEol = sendPrefix ++ b.rdropWhile isEol := by
    have hkeep : sendPrefix.reverse.dropWhile isEol = sendPrefix.reverse := by decide
    unfold List.rdropWhile
    rw [List.reverse_append, List.dropWhile_append, hkeep]
    split_ifs with he
    · rw [List.isEmpty_iff] at he
      simp [he]
    · simp
  have hline : stripLine (sendPrefix ++ b ++ [10]) = sendPrefix ++ b.rdropWhile isEol := by
    rw [stripLine, htake, List.rdropWhile_concat_pos _ _ _ (by decide)]
    exact hstrip
  simp only [parseLine, hline, List.prefix_append, if_true]
  rw [List.drop_left' (by decide)]

/-- Nothing is stripped unless the text ends in a carriage return. -/
theorem strip_eq_self_iff {s : List Char} (hs : '\n' ∉ s) :
    (utf8 s).rdropWhile isEol = utf8 s ↔ s.getLast? ≠ some '\r' := by
  rcases List.eq_nil_or_concat s with rfl | ⟨l, c, rfl⟩
  · exact iff_of_true rfl nofun
  rw [List.concat_eq_append] at hs ⊢
  have hc : c ≠ '\n' := by
    rintro rfl
    exact hs (by simp)
  have hlast : utf8 (l ++ [c]) = utf8 l ++ utf8Char c := by
    rw [utf8_append]
    simp [utf8]
  have hne := utf8Char_ne_nil c
  rw [List.rdropWhile_eq_self_iff, hlast, List.getLast?_concat]
  constructor
  · intro h he
    obtain rfl := Option.some_inj.mp he
    refine h (by simp [hne]) ?_
    have hcr : utf8Char '\r' = [13] := by decide
    rw [List.getLast_append_of_ne_nil _ hne]
    simp only [hcr, List.getLast_singleton]
    decide
  · intro h hnil
    rw [List.getLast_append_of_ne_nil _ hne]
    intro heol
    have hmem := List.getLast_mem hne
    have hval : ((utf8Char c).getLast hne = 10) ∨ (utf8Char c).getLast hne = 13 := by
      simpa [isEol] using heol
    rcases hval with hv | hv
    · rw [hv] at hmem
      exact hc (eq_of_mem_utf8Char (d := '\n') (by decide) hmem)
    · rw [hv] at hmem
      exact h (congrArg some (eq_of_mem_utf8Char (d := '\r') (by decide) hmem))

/-! ## One text -/

/-- uartd makes one `SEND` of the text, with all its bytes, and leaves the rest of the pipe alone;
whatever its state, whatever follows in the pipe and whatever the R8 answers. -/
def Performs (text : List Char) : Prop := ∀ (s : Uartd) (rest : List Byte) (r : Round),
  s.running = true → r.poll = .ready → s.stdin = wire text ++ rest →
    ∃ s' c, Uart.next s (.round r) = some s' ∧ s'.stdin = rest ∧ s'.sent = s.sent ++ [c] ∧
      c.op = uartOpSend ∧ c.payload = message text

/-- The text takes at most 383 bytes and does not end in a carriage return. -/
def Short (text : List Char) : Prop := (utf8 (uartText text)).length ≤ uartDataMax - 1 ∧
  (uartText text).getLast? ≠ some '\r'

instance (text : List Char) : Decidable (Short text) := by unfold Short; infer_instance

theorem exchange_stdin (s : Uartd) (r : Round) (cmd : UartCmd) (haveSend : Bool) :
    (s.exchange r cmd haveSend).stdin = s.stdin ∧
      (s.exchange r cmd haveSend).sent = s.sent ++ [cmd] := by
  have hreport : ∀ (s : Uartd) rsp, (s.report r rsp).stdin = s.stdin ∧
      (s.report r rsp).sent = s.sent := by
    intro s rsp
    unfold Uartd.report
    cases r.opened <;> exact ⟨rfl, rfl⟩
  unfold Uartd.exchange
  split
  · exact ⟨rfl, rfl⟩
  · dsimp only
    split_ifs
    · split
      · exact ⟨rfl, rfl⟩
      · exact hreport _ _
    · exact hreport _ _

/-- The round that reads from a pipe with a complete line in it. -/
theorem round_ready {s : Uartd} {r : Round} (hrun : s.running = true) (hp : r.poll = .ready)
    {l rest : List Byte} (hne : s.stdin ≠ []) (hl : fgets lineMax s.stdin = (l, rest))
    (hc : complete lineMax l s.closed = true) :
    Uart.next s (.round r) = some ({ s with stdin := rest }.line r (parseLine l)) := by
  simp only [Uart.next, if_pos hrun, Uartd.round, hp, if_neg hne, hl, if_pos hc]

/-- **A text whose line fits into `fgets`' buffer** is sent as one command, cut and stripped. -/
theorem round_wire {text : List Char} (h0 : '\x00' ∉ text)
    (hlen : (utf8 (uartText text)).length ≤ 505) {s : Uartd} {rest : List Byte} {r : Round}
    (hrun : s.running = true) (hp : r.poll = .ready) (hs : s.stdin = wire text ++ rest) :
    Uart.next s (.round r) = some (({ s with stdin := rest, idle := 0 } : Uartd).exchange r
      (sendCmd ((utf8 (uartText text)).rdropWhile isEol)) true) := by
  have hpre : (10 : Byte) ∉ sendPrefix ++ utf8 (uartText text) := by
    rw [List.mem_append, not_or]
    exact ⟨by decide, ten_not_mem text⟩
  have hstdin : s.stdin = (sendPrefix ++ utf8 (uartText text)) ++ 10 :: rest := by
    rw [hs, wire_eq, List.append_assoc _ [10] rest]
    rfl
  have hread : fgets lineMax s.stdin = (sendPrefix ++ utf8 (uartText text) ++ [10], rest) := by
    rw [hstdin, fgets_line hpre]
    simp only [List.length_append, sendPrefix, List.length_cons, List.length_nil, lineMax]
    omega
  have hcomplete : complete lineMax (sendPrefix ++ utf8 (uartText text) ++ [10]) s.closed = true := by
    simp [complete]
  rw [round_ready hrun hp (by rw [hstdin]; simp) hread hcomplete, parseLine_wire (zero_not_mem h0)]
  rfl

/-- A longer line leaves its tail in the pipe. -/
theorem round_long {text : List Char} (hlen : 506 ≤ (utf8 (uartText text)).length) {s : Uartd}
    {r : Round} (hrun : s.running = true) (hp : r.poll = .ready) (hs : s.stdin = wire text) :
    ∃ s', Uart.next s (.round r) = some s' ∧ s'.stdin ≠ [] := by
  have hpre : (10 : Byte) ∉ sendPrefix ++ utf8 (uartText text) := by
    rw [List.mem_append, not_or]
    exact ⟨by decide, ten_not_mem text⟩
  have hlong : lineMax ≤ (sendPrefix ++ utf8 (uartText text)).length := by
    simp only [List.length_append, sendPrefix, List.length_cons, List.length_nil, lineMax]
    omega
  have hread := fgets_long [10] hpre hlong
  rw [← wire_eq, ← hs] at hread
  have hcomplete : complete lineMax ((sendPrefix ++ utf8 (uartText text)).take lineMax) s.closed =
      true := by
    rw [complete, List.length_take, Nat.min_eq_left hlong]
    simp
  refine ⟨_, round_ready hrun hp (by rw [hs, wire_eq]; simp) hread hcomplete, ?_⟩
  have hstdin : ∀ (s : Uartd) l, (s.line r l).stdin = s.stdin := by
    intro s l
    cases l with
    | send text => exact (exchange_stdin _ _ _ _).1
    | empty => exact (exchange_stdin _ _ _ _).1
    | unknown => rfl
  rw [hstdin]
  simp

theorem short_of_performs {text : List Char} (h0 : '\x00' ∉ text) (h : Performs text) :
    Short text := by
  let s : Uartd := { Uart.init with stdin := wire text }
  let x : Exchange := answered 0 []
  let r : Round := ⟨.ready, x, x, fun _ => 0, true⟩
  obtain ⟨s', c, hnext, hrest, hsent, -, hpay⟩ := h s [] r rfl rfl (List.append_nil _).symm
  by_cases hlen : (utf8 (uartText text)).length ≤ 505
  · rw [round_wire h0 hlen rfl rfl (List.append_nil _).symm, Option.some_inj] at hnext
    have hc : c = sendCmd ((utf8 (uartText text)).rdropWhile isEol) := by
      rw [← hnext, (exchange_stdin _ _ _ _).2] at hsent
      simpa using hsent.symm
    rw [hc, payload_sendCmd, message, List.append_left_inj] at hpay
    -- what is sent is a prefix of what is left, and that is a prefix of the text
    have hprefix := List.rdropWhile_prefix isEol (l := utf8 (uartText text))
    have hle := hprefix.length_le
    have hcut := congrArg List.length hpay
    rw [List.length_take] at hcut
    have hstrip := hprefix.eq_of_length (by omega)
    exact ⟨by omega, (strip_eq_self_iff (newline_not_mem text)).mp hstrip⟩
  · obtain ⟨s₁, hs₁, hne⟩ := round_long (s := s) (r := r) (by omega) rfl rfl rfl
    rw [hnext, Option.some_inj] at hs₁
    exact absurd (hs₁ ▸ hrest) hne

theorem performs_of_short {text : List Char} (h0 : '\x00' ∉ text) (h : Short text) :
    Performs text := by
  obtain ⟨hlen, hcr⟩ := h
  intro s rest r hrun hp hs
  have hmax : uartDataMax - 1 = 383 := rfl
  have hstrip := (strip_eq_self_iff (newline_not_mem text)).mpr hcr
  have hnext := round_wire h0 (by omega) hrun hp hs
  rw [hstrip] at hnext
  obtain ⟨hin, hsent⟩ := exchange_stdin { s with stdin := rest, idle := 0 } r
    (sendCmd (utf8 (uartText text))) true
  refine ⟨_, _, hnext, hin, hsent, rfl, ?_⟩
  rw [payload_sendCmd, List.take_of_length_le hlen, message]

/-- **uartd makes one `SEND` of the text, whole and alone, exactly when the text takes at most 383
bytes and does not end in a carriage return.** -/
theorem performs_iff {text : List Char} (h0 : '\x00' ∉ text) : Performs text ↔ Short text :=
  ⟨short_of_performs h0, performs_of_short h0⟩

/-- Just short enough. -/
def longest : List Char := List.replicate 127 '中' ++ ['h', 'i']

theorem performs_iff_longest : (utf8 (uartText longest)).length = 383 ∧ Performs longest :=
  ⟨by decide +kernel, (performs_iff (by decide)).mpr (by decide +kernel)⟩

/-- A hundred and twenty-eight Chinese characters are 384 bytes. -/
theorem not_performs : ¬ ∀ text : List Char, '\x00' ∉ text → Performs text := by
  intro h
  have hnul : '\x00' ∉ List.replicate 128 '中' := by decide
  exact absurd (short_of_performs hnul (h _ hnul)) (by decide +kernel)

/-! ## Any number of texts -/

inductive WebEvent
  | send (text : List Char)
  | round (r : Round)
  | stop

def WebEvent.event : WebEvent → Uart.Event
  | send text => .write (wire text)
  | round r => .round r
  | stop => .stop

def webNext (s : Uartd) (e : WebEvent) : Option Uartd := Uart.next s e.event

/-- The texts sent. -/
def texts (es : List WebEvent) : List (List Char) := es.filterMap fun
  | .send text => some text
  | _ => none

/-- The payloads of the `SEND`s made. -/
def sends (s : Uartd) : List (List Byte) :=
  (s.sent.filter fun c => c.op == uartOpSend).map UartCmd.payload

/-- Only texts that `performs_iff` is about. -/
def SendsShort (_ : Uartd) : WebEvent → Prop
  | .send text => '\x00' ∉ text ∧ Short text
  | _ => True

/-- The texts of `ts` are sent in order, the last ones still being in the pipe. -/
def Served (ts : List (List Char)) (s : Uartd) : Prop := ∃ done pending, ts = done ++ pending ∧
  (∀ t ∈ pending, '\x00' ∉ t ∧ Short t) ∧ s.stdin = pending.flatMap wire ∧
    sends s = done.map message

theorem Served.congr {ts : List (List Char)} {s s' : Uartd} (h : Served ts s)
    (hin : s'.stdin = s.stdin) (hsends : sends s' = sends s) : Served ts s' := by
  obtain ⟨done, pending, h₁, h₂, h₃, h₄⟩ := h
  exact ⟨done, pending, h₁, h₂, hin.trans h₃, hsends.trans h₄⟩

theorem Served.query {ts : List (List Char)} {s : Uartd} (h : Served ts s) (r : Round) :
    Served ts (({ s with idle := 0 } : Uartd).exchange r queryCmd false) := by
  obtain ⟨hin, hsent⟩ := exchange_stdin { s with idle := 0 } r queryCmd false
  have hq : (queryCmd.op == uartOpSend) = false := by decide
  refine h.congr hin ?_
  simp only [sends, hsent, List.filter_append, List.filter_singleton, hq]
  simp

/-- A round serves the oldest text in the pipe, or none. -/
theorem Served.round {ts : List (List Char)} {s s' : Uartd} {r : Round} (h : Served ts s)
    (hs : Uart.next s (.round r) = some s') : Served ts s' := by
  have hrun : s.running = true := by
    by_contra hrun
    simp [Uart.next, hrun] at hs
  cases hp : r.poll with
  | eintr =>
    simp only [Uart.next, if_pos hrun, Uartd.round, hp] at hs
    cases hs
    exact h
  | error =>
    simp only [Uart.next, if_pos hrun, Uartd.round, hp] at hs
    cases hs
    exact h.congr rfl rfl
  | timeout =>
    simp only [Uart.next, if_pos hrun, Uartd.round, hp] at hs
    split_ifs at hs
    · cases hs
      exact h.congr rfl rfl
    · cases hs
      exact h.query r
  | ready =>
    obtain ⟨done, pending, hts, hall, hin, hsends⟩ := h
    cases pending with
    | nil =>
      simp only [Uart.next, if_pos hrun, Uartd.round, hp, hin, List.flatMap_nil, if_true] at hs
      split_ifs at hs
      cases hs
      exact ⟨done, [], hts, hall, rfl, hsends⟩
    | cons t pending =>
      obtain ⟨⟨ht0, ht⟩, hall⟩ := List.forall_mem_cons.mp hall
      obtain ⟨s₁, c, hs₁, hin₁, hsent, hop, hpay⟩ :=
        performs_of_short ht0 ht s (pending.flatMap wire) r hrun hp hin
      rw [hs, Option.some_inj] at hs₁
      subst hs₁
      refine ⟨done ++ [t], pending, by rw [hts]; simp, hall, hin₁, ?_⟩
      have hfilter : (c.op == uartOpSend) = true := by rw [hop]; rfl
      have hold : sends s' = sends s ++ [c.payload] := by
        simp only [sends, hsent, List.filter_append, List.filter_singleton, hfilter]
        simp
      rw [hold, hsends, hpay, List.map_append]
      rfl

/-- **In a run in which only short texts are written, every text is sent once, whole and in order.** -/
theorem served_of_run {es : List WebEvent} {s : Uartd}
    (h : Transition.Run (Transition.guarded (Transition.ofNext webNext) SendsShort) Uart.init es s) :
    Served (texts es) s := by
  refine h.inv_trace (I := fun es s => Served (texts es) s)
    ⟨[], [], rfl, nofun, rfl, rfl⟩ fun {es s e s'} hi hstep => ?_
  obtain ⟨hshort, hs⟩ := hstep
  cases e with
  | send text =>
    obtain ⟨done, pending, hts, hall, hin, hsends⟩ := hi
    simp only [Transition.ofNext, webNext, WebEvent.event, Uart.next] at hs
    split_ifs at hs
    cases hs
    refine ⟨done, pending ++ [text], ?_, ?_, ?_, hsends⟩
    · have hsnoc : texts (es ++ [.send text]) = texts es ++ [text] := by simp [texts]
      rw [hsnoc, hts, List.append_assoc]
    · intro t ht
      rcases List.mem_append.mp ht with ht | ht
      · exact hall t ht
      · rw [List.mem_singleton.mp ht]
        exact hshort
    · simp [hin]
  | round r =>
    have hts : texts (es ++ [.round r]) = texts es := by simp [texts]
    rw [hts]
    exact hi.round hs
  | stop =>
    have hts : texts (es ++ [.stop]) = texts es := by simp [texts]
    rw [hts]
    cases hs
    exact hi.congr rfl rfl

end CR8Devkit.Web
