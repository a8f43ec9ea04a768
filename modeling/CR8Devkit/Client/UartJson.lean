import CR8Devkit.Client.Uartd
import CR8Devkit.Lib.Json

/-!
# The file that uartd writes

* `uartdJsonEscape`, `UartReport.jsonLine`: what is written, as characters and as bytes
  (`jsonFile`).
* `spells_escapeByte`: the escape of a byte stands for the code point of the same number.
* `loads_jsonLine`: the line is read as an object with the fields of the report.
* `Chunk`, `appendAll`: the replies of any number of exchanges; `chunks_of_run`: whatever uartd has
  written in a run it has written after such a sequence.
* **`loads_jsonFile`**: after each of them the file gives the last 4096 bytes.
-/

namespace CR8Devkit.Uart

open WaitReply (Byte)
open Proto (Word)
open Buffer Transition
open Json (Text Value Spells SpellsAll Reads intText)

/-! ## The text -/

/-- `%04x`. -/
def hex04 (n : ℕ) : Text := (Nat.toDigits 16 n).leftpad 4 '0'

def escapeByte (c : Byte) : Text :=
  if c = 0x22 ∨ c = 0x5C then ['\\', Char.ofNat c.toNat]
  else if c = 0x0A then ['\\', 'n']
  else if c = 0x0D then ['\\', 'r']
  else if c.toNat < 0x20 ∨ 0x7E < c.toNat then '\\' :: 'u' :: hex04 c.toNat
  else [Char.ofNat c.toNat]

def uartdJsonEscape (s : List Byte) : Text := s.flatMap escapeByte

/-- The line in the file; `%llu` has 64 bits. -/
def UartReport.jsonLine (r : UartReport) : Text :=
  '{' :: ("\"seq\":".toList ++ intText (r.seq % 2 ^ 64 : ℕ) ++ ",\"status\":".toList ++
    intText r.status.toInt ++ ",\"tx_total\":".toList ++ intText r.txTotal.toNat ++
    ",\"rx_total\":".toList ++ intText r.rxTotal.toNat ++ ",\"rx_dropped\":".toList ++
    intText r.rxDropped.toNat ++ ",\"rx_text\":\"".toList ++ uartdJsonEscape r.rxText ++ ['"', '}']) ++ ['\n']

def UartReport.jsonFile (r : UartReport) : List Byte := r.jsonLine.map fun c => .ofNat 8 c.toNat

/-- `read_text` of a file in ASCII. -/
def readText (b : List Byte) : Text := b.map fun c => Char.ofNat c.toNat

/-! ## Escapes -/

theorem hex04_spells : ∀ n < 256, ∃ a b c d, hex04 n = [a, b, c, d] ∧ Json.hex4 a b c d = some n := by
  have h : ∀ n < 256, (hex04 n).length = 4 ∧ Json.hex4 ((hex04 n).getD 0 '0') ((hex04 n).getD 1 '0')
      ((hex04 n).getD 2 '0') ((hex04 n).getD 3 '0') = some n := by decide +kernel
  intro n hn
  obtain ⟨hlen, hx⟩ := h n hn
  match hex04 n, hlen, hx with
  | [a, b, c, d], _, hx => exact ⟨a, b, c, d, rfl, hx⟩

theorem toNat_ofNat_byte (c : Byte) : (Char.ofNat c.toNat).toNat = c.toNat := by
  have hc := c.isLt
  have hvalid : c.toNat.isValidChar := .inl (by omega)
  rw [Char.ofNat, dif_pos hvalid]
  rfl

/-- **The escape of a byte stands for the byte.** -/
theorem spells_escapeByte (c : Byte) : Spells (escapeByte c) c.toNat := by
  unfold escapeByte
  split_ifs with hquote hn hr hhex
  · rcases hquote with rfl | rfl
    · exact .short rfl
    · exact .short rfl
  · subst hn
    exact .short rfl
  · subst hr
    exact .short rfl
  · obtain ⟨a, b, x, d, hs, hx⟩ := hex04_spells c.toNat c.isLt
    rw [hs]
    exact .hex hx
  · have hto := toNat_ofNat_byte c
    have hraw : Spells [Char.ofNat c.toNat] (Char.ofNat c.toNat).toNat := by
      refine .raw (by omega) ?_ ?_
      · intro h
        rw [h] at hto
        exact hquote (.inl (BitVec.eq_of_toNat_eq hto.symm))
      · intro h
        rw [h] at hto
        exact hquote (.inr (BitVec.eq_of_toNat_eq hto.symm))
    rwa [hto] at hraw

theorem spellsAll_escape (s : List Byte) : SpellsAll (uartdJsonEscape s) (s.map BitVec.toNat) :=
  SpellsAll.flatMap spells_escapeByte s

/-! ## The line -/

/-- The code points of a key. -/
def name (s : String) : List ℕ := s.toList.map Char.toNat

/-- The object with the fields of a report. -/
def UartReport.object (r : UartReport) : List (List ℕ × Value) :=
  [(name "seq", .int (r.seq % 2 ^ 64 : ℕ)), (name "status", .int r.status.toInt),
    (name "tx_total", .int r.txTotal.toNat), (name "rx_total", .int r.rxTotal.toNat),
    (name "rx_dropped", .int r.rxDropped.toNat), (name "rx_text", .str (r.rxText.map BitVec.toNat))]

section Line

variable {r : UartReport}

/-- The text of one member and of those behind it. -/
def member (key : String) (t rest : Text) : Text := '"' :: (key.toList ++ '"' :: ':' :: (t ++ rest))

theorem jsonLine_eq (r : UartReport) : r.jsonLine =
    '{' :: member "seq" (intText (r.seq % 2 ^ 64 : ℕ)) (',' :: member "status" (intText r.status.toInt)
      (',' :: member "tx_total" (intText r.txTotal.toNat) (',' :: member "rx_total" (intText r.rxTotal.toNat)
        (',' :: member "rx_dropped" (intText r.rxDropped.toNat)
          (',' :: member "rx_text" ('"' :: (uartdJsonEscape r.rxText ++ ['"'])) ['}']))))) ++ ['\n'] := by
  simp [UartReport.jsonLine, member]

theorem spellsAll_key (key : String) (h : key.toList.all Json.plain = true) :
    SpellsAll key.toList (name key) := Json.spellsAll_plain h

/-- **The line is an object** with the fields of the report. -/
theorem loads_jsonLine (r : UartReport) : Json.loads r.jsonLine = some (.obj r.object) := by
  have htext : Reads ('"' :: (uartdJsonEscape r.rxText ++ ['"'])) (.str (r.rxText.map BitVec.toNat)) 1 := by
    refine Json.reads_str (spellsAll_escape _) fun u hu => ?_
    obtain ⟨c, -, rfl⟩ := List.mem_map.mp hu
    have := c.isLt
    omega
  have h6 := Json.readsMembers_one (spellsAll_key "rx_text" (by decide)) (by decide) htext
  have h5 := h6.cons (spellsAll_key "rx_dropped" (by decide)) (by decide)
    (Json.reads_int r.rxDropped.toNat) (by omega)
  have h4 := h5.cons (spellsAll_key "rx_total" (by decide)) (by decide)
    (Json.reads_int r.rxTotal.toNat) (by omega)
  have h3 := h4.cons (spellsAll_key "tx_total" (by decide)) (by decide)
    (Json.reads_int r.txTotal.toNat) (by omega)
  have h2 := h3.cons (spellsAll_key "status" (by decide)) (by decide)
    (Json.reads_int r.status.toInt) (by omega)
  have h1 := h2.cons (spellsAll_key "seq" (by decide)) (by decide)
    (Json.reads_int (r.seq % 2 ^ 64 : ℕ)) (by omega)
  rw [jsonLine_eq]
  refine Json.loads_of_reads (Json.reads_obj h1) ?_
  simp [member]
  omega

/-- All characters are in ASCII. -/
def ascii (t : Text) : Bool := t.all fun c => c.toNat < 128

theorem ascii_append (t t' : Text) : ascii (t ++ t') = (ascii t && ascii t') := List.all_append

theorem ascii_intText (z : ℤ) : ascii (intText z) = true := by
  have hdigit : ∀ n, ascii (Nat.toDigits 10 n) = true := by
    intro n
    refine List.all_eq_true.mpr fun c hc => decide_eq_true ?_
    have := (Proto.isDigit_toNat (Json.isDigit_toDigits hc)).2
    omega
  unfold intText
  split_ifs
  · exact hdigit z.natAbs
  · exact hdigit z.natAbs

theorem ascii_escape (s : List Byte) : ascii (uartdJsonEscape s) = true := by
  have hbyte : ∀ n < 256, ascii (escapeByte (.ofNat 8 n)) = true := by decide +kernel
  refine List.all_eq_true.mpr fun c hc => ?_
  obtain ⟨b, -, hb⟩ := List.mem_flatMap.mp hc
  have hall := hbyte b.toNat b.isLt
  rw [BitVec.ofNat_toNat, BitVec.setWidth_eq] at hall
  exact List.all_eq_true.mp hall c hb

/-- **The file is in ASCII.** -/
theorem jsonLine_ascii (r : UartReport) : ∀ c ∈ r.jsonLine, c.toNat < 128 := by
  have hall : ascii r.jsonLine = true := by
    unfold UartReport.jsonLine
    rw [← List.singleton_append]
    simp only [ascii_append, ascii_intText, ascii_escape]
    rfl
  exact fun c hc => of_decide_eq_true (List.all_eq_true.mp hall c hc)

theorem readText_jsonFile (r : UartReport) : readText r.jsonFile = r.jsonLine := by
  unfold readText UartReport.jsonFile
  rw [List.map_map]
  refine (List.map_congr_left fun c hc => ?_).trans (List.map_id _)
  have hc' := jsonLine_ascii r c hc
  have hnat : (BitVec.ofNat 8 c.toNat).toNat = c.toNat := by
    rw [BitVec.toNat_ofNat]
    omega
  show Char.ofNat (BitVec.ofNat 8 c.toNat).toNat = c
  rw [hnat, Char.ofNat_toNat]

end Line

/-! ## Any number of replies -/

/-- An exchange whose reply carries at most `UART_DATA_MAX` bytes, and the round it is part of. -/
structure Chunk where
  round : Round
  rsp : UartRsp
  length : rsp.data.length = uartDataMax
  fits : rsp.rxLen.toNat ≤ uartDataMax

/-- The bytes of the reply. -/
def Chunk.bytes (c : Chunk) : List Byte := c.rsp.received

/-- uartd after the replies, one after the other. -/
def appendAll (l : List Chunk) : Uartd := l.foldl (fun s c => s.report c.round c.rsp) init

section Chunks

variable {s s' : Uartd} {r : Round} {l : List Chunk} {c : Chunk}

theorem appendAll_append (l : List Chunk) (c : Chunk) :
    appendAll (l ++ [c]) = (appendAll l).report c.round c.rsp := by
  simp [appendAll]

/-- **The text is the last 4096 bytes of all replies.** -/
theorem text_appendAll (l : List Chunk) :
    text (fun _ => (appendAll l).rxAcc) (appendAll l).rxLen = (l.flatMap Chunk.bytes).rtake rxAccSize ∧
      0 ≤ (appendAll l).rxLen ∧ (appendAll l).rxLen ≤ rxAccSize := by
  induction l using List.reverseRecOn with
  | nil => exact ⟨rfl, Int.le_refl 0, by decide⟩
  | append_singleton l c ih =>
    obtain ⟨htext, h0, h1⟩ := ih
    obtain ⟨-, -, hnew, h0', h1'⟩ := report_spec (r := c.round) h0 h1 c.length c.fits
    rw [appendAll_append]
    refine ⟨?_, h0', h1'⟩
    rw [hnew, htext, rtake_append_rtake, List.flatMap_append, List.flatMap_singleton]
    rfl

/-- A report that is written holds the accumulated text. -/
theorem json_report (s : Uartd) (r : Round) (rsp : UartRsp) (ho : r.opened = true) :
    ∃ rep, (s.report r rsp).json = some rep ∧ rep.status = rsp.status ∧ rep.txTotal = rsp.txTotal ∧
      rep.rxTotal = rsp.rxTotal ∧ rep.rxDropped = rsp.rxDropped ∧
      rep.rxText = text (fun _ => (s.report r rsp).rxAcc) (s.report r rsp).rxLen := by
  unfold Uartd.report
  rw [ho]
  exact ⟨_, rfl, rfl, rfl, rfl, rfl, rfl⟩

/-- **The file after each exchange**, whatever the replies before carried: it is in ASCII, and read
as JSON it is an object whose `rx_text` has one code point for each of the last 4096 bytes. -/
theorem loads_jsonFile (l : List Chunk) (c : Chunk) (ho : c.round.opened = true) :
    ∃ rep, (appendAll (l ++ [c])).json = some rep ∧ (∀ b ∈ rep.jsonFile, b.toNat < 128) ∧
      Json.loads (readText rep.jsonFile) = some (.obj [(name "seq", .int (rep.seq % 2 ^ 64 : ℕ)),
        (name "status", .int c.rsp.status.toInt), (name "tx_total", .int c.rsp.txTotal.toNat),
        (name "rx_total", .int c.rsp.rxTotal.toNat), (name "rx_dropped", .int c.rsp.rxDropped.toNat),
        (name "rx_text", .str ((((l ++ [c]).flatMap Chunk.bytes).rtake rxAccSize).map BitVec.toNat))]) := by
  have htext := (text_appendAll (l ++ [c])).1
  rw [appendAll_append] at htext ⊢
  obtain ⟨rep, hjson, hstatus, htx, hrx, hdropped, hrep⟩ := json_report (appendAll l) c.round c.rsp ho
  refine ⟨rep, hjson, fun b hb => ?_, ?_⟩
  · obtain ⟨x, hx, rfl⟩ := List.mem_map.mp hb
    have := jsonLine_ascii rep x hx
    rw [BitVec.toNat_ofNat]
    omega
  · rw [readText_jsonFile, loads_jsonLine, UartReport.object, hstatus, htx, hrx, hdropped, hrep, htext]

/-! ### Runs of uartd -/

/-- What the accumulation and the file depend on is the same. -/
structure SameText (s s' : Uartd) : Prop where
  rxAcc : s'.rxAcc = s.rxAcc
  rxLen : s'.rxLen = s.rxLen
  seq : s'.seq = s.seq
  json : s'.json = s.json
  appended : s'.appended = s.appended

/-- The step leaves the text alone, or appends the bytes of one reply. -/
def Appends (s s' : Uartd) : Prop := SameText s s' ∨ ∃ c : Chunk, SameText (s.report c.round c.rsp) s'

theorem SameText.trans {s'' : Uartd} (h : SameText s s') (h' : SameText s' s'') : SameText s s'' :=
  ⟨h'.rxAcc.trans h.rxAcc, h'.rxLen.trans h.rxLen, h'.seq.trans h.seq, h'.json.trans h.json,
    h'.appended.trans h.appended⟩

theorem SameText.report (h : SameText s s') (r : Round) (rsp : UartRsp) :
    SameText (s.report r rsp) (s'.report r rsp) := by
  obtain ⟨hacc, hlen, hseq, hjson, happ⟩ := h
  unfold Uartd.report
  rw [hacc, hlen, hseq, happ]
  split_ifs
  · exact ⟨rfl, rfl, rfl, rfl, rfl⟩
  · exact ⟨rfl, rfl, rfl, hjson, rfl⟩

theorem appends_report {s₀ : Uartd} {rsp : UartRsp} (h : SameText s₀ s)
    (hd : rsp.data.length = uartDataMax) (hw : rsp.rxLen.toNat ≤ uartDataMax) :
    Appends s₀ (s.report r rsp) := .inr ⟨⟨r, rsp, hd, hw⟩, h.report r rsp⟩

theorem appends_exchange {s₀ : Uartd} (h : SameText s₀ s) (hf : Fits r) (cmd : UartCmd) (haveSend : Bool) :
    Appends s₀ (s.exchange r cmd haveSend) := by
  obtain ⟨h₁, h₂, h₃, h₄, h₅⟩ := h
  unfold Uartd.exchange
  cases hx : uartdXfer r.first with
  | none => exact .inl ⟨h₁, h₂, h₃, h₄, h₅⟩
  | some rsp =>
    by_cases hbusy : haveSend = true ∧ rsp.status = uartErrTxBusy
    · simp only [if_pos hbusy]
      cases hx' : uartdXfer r.second with
      | none => exact .inl ⟨h₁, h₂, h₃, h₄, h₅⟩
      | some rsp' =>
        exact appends_report ⟨h₁, h₂, h₃, h₄, h₅⟩ (uartdXfer_length hx') (fits_second hf hx')
    · simp only [if_neg hbusy]
      exact appends_report ⟨h₁, h₂, h₃, h₄, h₅⟩ (uartdXfer_length hx) (fits_first hf hx)

theorem appends_line {s₀ : Uartd} (h : SameText s₀ s) (hf : Fits r) (l : Line) :
    Appends s₀ (s.line r l) := by
  have h' : SameText s₀ { s with idle := 0 } := ⟨h.rxAcc, h.rxLen, h.seq, h.json, h.appended⟩
  cases l with
  | send text => exact appends_exchange h' hf _ _
  | empty => exact appends_exchange h' hf _ _
  | unknown => exact .inl h

/-- **One step** of uartd appends one reply at most. -/
theorem appends_step {e : Event} (hf : EventFits s e) (hs : next s e = some s') : Appends s s' := by
  have hsame : SameText s s := ⟨rfl, rfl, rfl, rfl, rfl⟩
  cases e with
  | write b =>
    simp only [next] at hs
    split_ifs at hs
    cases hs
    exact .inl ⟨rfl, rfl, rfl, rfl, rfl⟩
  | close => cases hs; exact .inl ⟨rfl, rfl, rfl, rfl, rfl⟩
  | stop => cases hs; exact .inl ⟨rfl, rfl, rfl, rfl, rfl⟩
  | round r =>
    simp only [next] at hs
    split_ifs at hs
    simp only [Uartd.round] at hs
    split at hs
    · cases hs
      exact .inl hsame
    · cases hs
      exact .inl ⟨rfl, rfl, rfl, rfl, rfl⟩
    · split_ifs at hs
      · cases hs
        exact .inl ⟨rfl, rfl, rfl, rfl, rfl⟩
      · cases hs
        have h' : SameText s { s with idle := 0 } := ⟨rfl, rfl, rfl, rfl, rfl⟩
        exact appends_exchange h' hf _ _
    · split_ifs at hs
      · cases hs
        exact .inl ⟨rfl, rfl, rfl, rfl, rfl⟩
      · cases hs
        have h' : SameText s { s with stdin := (fgets lineMax s.stdin).2 } := ⟨rfl, rfl, rfl, rfl, rfl⟩
        exact appends_line h' hf _

/-- **In every run** the text and the file are those after some sequence of replies. -/
theorem chunks_of_run {es : List Event} (h : Run (guarded (ofNext next) EventFits) init es s) :
    ∃ l, SameText (appendAll l) s := by
  induction h with
  | nil => exact ⟨[], rfl, rfl, rfl, rfl, rfl⟩
  | snoc _ hstep ih =>
    obtain ⟨l, hl⟩ := ih
    rcases appends_step hstep.1 hstep.2 with hsame | ⟨c, hc⟩
    · exact ⟨l, hl.trans hsame⟩
    · refine ⟨l ++ [c], ?_⟩
      rw [appendAll_append]
      exact (hl.report c.round c.rsp).trans hc

/-! ### Two replies -/

/-- An exchange that carries `bytes`. -/
def carrying (bytes : List Byte) (h : bytes.length ≤ uartDataMax) : Chunk where
  round := busyRound [] []
  rsp := ⟨uartRspMagic, uartAbiVer, 0, 0, 0, 0, .ofNat 32 bytes.length,
    bytes ++ List.replicate (uartDataMax - bytes.length) 0⟩
  length := by
    rw [List.length_append, List.length_replicate]
    omega
  fits := by
    have hmax : uartDataMax = 384 := rfl
    show (BitVec.ofNat 32 bytes.length).toNat ≤ uartDataMax
    rw [BitVec.toNat_ofNat]
    omega

/-- A quotation mark, a backslash and a byte that is not ASCII. -/
def awkward : Chunk := carrying [0x22, 0x5C, 0xFF] (by decide)

theorem loads_jsonFile_awkward : ∃ rep, (appendAll ([awkward] ++ [awkward])).json = some rep ∧
    (∀ b ∈ rep.jsonFile, b.toNat < 128) ∧
    Json.loads (readText rep.jsonFile) = some (.obj [(name "seq", .int (rep.seq % 2 ^ 64 : ℕ)),
      (name "status", .int awkward.rsp.status.toInt), (name "tx_total", .int awkward.rsp.txTotal.toNat),
      (name "rx_total", .int awkward.rsp.rxTotal.toNat),
      (name "rx_dropped", .int awkward.rsp.rxDropped.toNat), (name "rx_text",
        .str (((([awkward] ++ [awkward]).flatMap Chunk.bytes).rtake rxAccSize).map BitVec.toNat))]) :=
  loads_jsonFile [awkward] awkward rfl

end Chunks

end CR8Devkit.Uart
