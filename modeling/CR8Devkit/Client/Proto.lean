import CR8Devkit.Client.WaitReply
import Mathlib.Algebra.Group.Nat.Defs

/-!
# The PWM protocol and pwmd's reports

* `PwmCmd`, `PwmRsp`: the two messages; `PwmRsp.encode`, `PwmRsp.decode`: the reply as it lies in
  shared memory, with `decode_encode` for a buffer that may hold older bytes behind it.
* `Report`, `pwmdWriteJson`: the JSON line of one command, without the frequency and duty cycle that
  the reader could compute from the counts.
* `scanLine`, `printLine`: the command line, with the round trip `scanLine_printLine`.
-/

namespace CR8Devkit.Proto

open WaitReply (Byte)

abbrev Word := BitVec 32

/-- `PWM_RSP_MAGIC`. -/
def pwmRspMagic : Word := 0x525D5750
/-- Both sides are compiled with it, and each checks that of the other. -/
def pwmAbiVer : Word := 4

/-- `pwm_cmd_t` behind its magic and version, which pwmd writes as constants. -/
structure PwmCmd where
  gpt : Word
  useB : Bool
  freqHz : Word
  dutyPermille : Word
  deriving DecidableEq

/-- `pwm_rsp_t`. -/
structure PwmRsp where
  magic : Word
  abiVer : Word
  status : Word
  periodCounts : Word
  dutyCounts : Word
  pclkHz : Word
  deriving DecidableEq

/-! ## The reply in memory -/

/-- The four bytes of a word, little-endian. -/
def le32 (w : Word) : List Byte :=
  [.ofNat 8 w.toNat, .ofNat 8 (w.toNat / 256), .ofNat 8 (w.toNat / 65536),
    .ofNat 8 (w.toNat / 16777216)]

/-- The word at byte offset `i`. -/
def word32 (b : List Byte) (i : ℕ) : Word :=
  .ofNat 32 ((b.getD i 0).toNat + 256 * (b.getD (i + 1) 0).toNat +
    65536 * (b.getD (i + 2) 0).toNat + 16777216 * (b.getD (i + 3) 0).toNat)

theorem length_le32 (w : Word) : (le32 w).length = 4 := rfl

theorem word32_le32 (w : Word) (l : List Byte) : word32 (le32 w ++ l) 0 = w := by
  apply BitVec.eq_of_toNat_eq
  have hw := w.isLt
  simp [word32, le32]
  omega

theorem word32_append (l₁ l₂ : List Byte) (i : ℕ) :
    word32 (l₁ ++ l₂) (l₁.length + i) = word32 l₂ i := by
  simp only [word32, Nat.add_assoc]
  simp [List.getElem?_append_right]

/-- `sizeof(pwm_rsp_t)`. -/
def pwmRspSize : ℕ := 24

/-- The reply as the R8 sends it. -/
def PwmRsp.encode (r : PwmRsp) : List Byte :=
  le32 r.magic ++ (le32 r.abiVer ++ (le32 r.status ++ (le32 r.periodCounts ++
    (le32 r.dutyCounts ++ le32 r.pclkHz))))

/-- `memcpy(&rsp, g_reply_buf, sizeof(rsp))`. -/
def PwmRsp.decode (b : List Byte) : PwmRsp :=
  ⟨word32 b 0, word32 b 4, word32 b 8, word32 b 12, word32 b 16, word32 b 20⟩

/-- **Reading a reply back**, whatever lies behind it in the buffer. -/
theorem PwmRsp.decode_encode (r : PwmRsp) (l : List Byte) : decode (r.encode ++ l) = r := by
  have h : ∀ w i (l : List Byte), word32 (le32 w ++ l) (4 + i) = word32 l i := fun w i l =>
    word32_append (le32 w) l i
  simp only [decode, encode, List.append_assoc, word32_le32, h _ 0, h _ 4, h _ 8, h _ 12, h _ 16]

/-! ## Reports -/

def pwmErrBadGpt : Word := -1
def pwmErrZeroFreq : Word := -2
def pwmErrBadDuty : Word := -3
def pwmErrNoSuchPin : Word := -4
def pwmErrRange : Word := -5
def pwmErrStop : Word := -6
def pwmErrPeriod : Word := -7
def pwmErrDuty : Word := -8
def pwmErrStart : Word := -9
def pwmErrAbi : Word := -10

/-- `pwm_err_str`. -/
def pwmErrStr (st : Word) : String :=
  if st = pwmErrBadGpt then "GPT 編號不在 0/4/5/6/7/8/9 之列"
  else if st = pwmErrZeroFreq then "頻率不能是 0"
  else if st = pwmErrBadDuty then "佔空比 > 100%"
  else if st = pwmErrNoSuchPin then "該 GPT 沒有配置這個 A/B 輸出"
  else if st = pwmErrRange then "週期算出來超出 GTPR 可表示範圍(頻率太高或太低)"
  else if st = pwmErrStop then "R_GPT_Stop 失敗"
  else if st = pwmErrPeriod then "R_GPT_PeriodSet 失敗"
  else if st = pwmErrDuty then "R_GPT_DutyCycleSet 失敗"
  else if st = pwmErrStart then "R_GPT_Start 失敗"
  else if st = pwmErrAbi then "abi_ver 不合 —— 有一邊改了協定卻沒重編"
  else "(未知)"

/-- One JSON line: with `ok` 1 and the counts, or with `ok` 0 and the reason. -/
inductive Report
  | ok (seq : ℕ) (req : PwmCmd) (periodCounts dutyCounts pclkHz : Word)
  | error (seq : ℕ) (req : PwmCmd) (err : String) (status : Word)
  deriving DecidableEq

namespace Report

/-- The field by which the reader tells a new report from an old one. -/
def seq : Report → ℕ
  | ok seq _ _ _ _ | error seq _ _ _ => seq

/-- The fields `gpt`, `ch`, `req_freq_hz` and `req_duty_permille`. -/
def req : Report → PwmCmd
  | ok _ req _ _ _ | error _ req _ _ => req

def isOk : Report → Bool
  | ok .. => true
  | error .. => false

end Report

/-- `pwmd_write_json`, whose temporary file can always be opened: otherwise it returns and leaves
the old file. `seq` is a counter of 64 bits and taken not to wrap. -/
def pwmdWriteJson (seq : ℕ) (c : PwmCmd) (r : Option PwmRsp) (err : Option String) : Report :=
  match r with
  | some r =>
    if r.status = 0 then .ok seq c r.periodCounts r.dutyCounts r.pclkHz
    else .error seq c (err.getD (pwmErrStr r.status)) r.status
  | none => .error seq c (err.getD "?") 0

@[simp] theorem pwmdWriteJson_seq (seq : ℕ) (c : PwmCmd) (r : Option PwmRsp) (err : Option String) :
    (pwmdWriteJson seq c r err).seq = seq := by
  unfold pwmdWriteJson
  split
  · split_ifs <;> rfl
  · rfl

@[simp] theorem pwmdWriteJson_req (seq : ℕ) (c : PwmCmd) (r : Option PwmRsp) (err : Option String) :
    (pwmdWriteJson seq c r err).req = c := by
  unfold pwmdWriteJson
  split
  · split_ifs <;> rfl
  · rfl

/-! ## The command line -/

/-- `isspace`. -/
def isSpace (c : Char) : Bool := c == ' ' || (9 ≤ c.toNat && c.toNat ≤ 13)

/-- A blank in the format, and what `%u` does first. -/
def skipSpace (s : List Char) : List Char := s.dropWhile isSpace

/-- The sign in front of a number. -/
def scanSign : List Char → Bool × List Char
  | '-' :: s => (true, s)
  | '+' :: s => (false, s)
  | s => (false, s)

/-- The conversion of `%u`: through a 64-bit number, saturating there, to 32 bits. -/
def toU32 (neg : Bool) (n : ℕ) : Word :=
  if 2 ^ 64 ≤ n then .ofNat 32 (2 ^ 64 - 1)
  else if neg then .ofNat 32 (2 ^ 64 - n)
  else .ofNat 32 n

/-- `%u`. -/
def scanU (s : List Char) : Option (Word × List Char) :=
  let (neg, s) := scanSign (skipSpace s)
  let digits := s.takeWhile Char.isDigit
  if digits = [] then none
  else some (toU32 neg (Nat.ofDigitChars 10 digits 0), s.dropWhile Char.isDigit)

/-- `sscanf(line, "%u %c %u %u", …)`, unless it finds fewer than four. -/
def scanLine (s : List Char) : Option PwmCmd := do
  let (gpt, s) ← scanU s
  match skipSpace s with
  | [] => none
  | ch :: s =>
    let (freq, s) ← scanU s
    let (permille, _) ← scanU s
    some ⟨gpt, ch == 'b' || ch == 'B', freq, permille⟩

/-- The line the server writes for one command. -/
def printLine (gpt : ℕ) (ch : Char) (freq duty : ℕ) : List Char :=
  Nat.toDigits 10 gpt ++ ' ' :: ch :: ' ' :: (Nat.toDigits 10 freq ++
    ' ' :: (Nat.toDigits 10 duty ++ ['\n']))

theorem isDigit_toNat {c : Char} (h : c.isDigit = true) : 48 ≤ c.toNat ∧ c.toNat ≤ 57 := by
  simpa [Char.isDigit, UInt32.le_iff_toNat_le] using h

theorem not_isSpace_of_isDigit {c : Char} (h : c.isDigit = true) : isSpace c = false := by
  obtain ⟨h₁, h₂⟩ := isDigit_toNat h
  have hc : c ≠ ' ' := by
    rintro rfl
    exact absurd h₁ (by decide)
  simp only [isSpace, beq_eq_false_iff_ne.mpr hc, Bool.false_or, Bool.and_eq_false_iff,
    decide_eq_false_iff_not]
  omega

/-- What stands in front of a number: neither a blank nor a sign. -/
theorem scanSign_of_isDigit {c : Char} (h : c.isDigit = true) (l : List Char) :
    scanSign (skipSpace (c :: l)) = (false, c :: l) := by
  obtain ⟨h₁, h₂⟩ := isDigit_toNat h
  rw [skipSpace, List.dropWhile_cons_of_neg (by simp [not_isSpace_of_isDigit h])]
  have hminus : c ≠ '-' := by
    rintro rfl
    exact absurd h₁ (by decide)
  have hplus : c ≠ '+' := by
    rintro rfl
    exact absurd h₁ (by decide)
  simp [scanSign, hminus, hplus]

theorem scanU_toDigits {n : ℕ} (hn : n < 2 ^ 64) {c : Char} (hc : c.isDigit = false)
    (l : List Char) : scanU (Nat.toDigits 10 n ++ c :: l) = some (.ofNat 32 n, c :: l) := by
  have hdig : ∀ x ∈ Nat.toDigits 10 n, x.isDigit = true := fun x hx =>
    Nat.isDigit_of_mem_toDigits (by decide) (by decide) hx
  have hsign : scanSign (skipSpace (Nat.toDigits 10 n ++ c :: l)) =
      (false, Nat.toDigits 10 n ++ c :: l) := by
    obtain ⟨d, ds, hd⟩ := List.exists_cons_of_ne_nil (Nat.toDigits_ne_nil (n := n) (b := 10))
    rw [hd] at hdig ⊢
    exact scanSign_of_isDigit (hdig d List.mem_cons_self) _
  have htake : (Nat.toDigits 10 n ++ c :: l).takeWhile Char.isDigit = Nat.toDigits 10 n := by
    rw [List.takeWhile_append_of_pos hdig, List.takeWhile_cons_of_neg (by simp [hc]),
      List.append_nil]
  have hdrop : (Nat.toDigits 10 n ++ c :: l).dropWhile Char.isDigit = c :: l := by
    rw [List.dropWhile_append_of_pos hdig, List.dropWhile_cons_of_neg (by simp [hc])]
  simp only [scanU, hsign, htake, hdrop, Nat.toDigits_ne_nil, if_false,
    Nat.ofDigitChars_toDigits (b := 10) (by decide) (by decide), toU32,
    if_neg (Nat.not_le.mpr hn), Bool.false_eq_true]

theorem scanU_space (l : List Char) : scanU (' ' :: l) = scanU l := rfl

/-- **Round trip** of a line whose numbers fit into 32 bits. -/
theorem scanLine_printLine {gpt freq duty : ℕ} {ch : Char} (hg : gpt < 2 ^ 32) (hf : freq < 2 ^ 32)
    (hd : duty < 2 ^ 32) (hch : isSpace ch = false) : scanLine (printLine gpt ch freq duty) =
      some ⟨.ofNat 32 gpt, ch == 'b' || ch == 'B', .ofNat 32 freq, .ofNat 32 duty⟩ := by
  have hskip : ∀ l, skipSpace (' ' :: ch :: l) = ch :: l := fun l => by
    rw [skipSpace, List.dropWhile_cons_of_pos (by decide),
      List.dropWhile_cons_of_neg (by simp [hch])]
  have hblank : ∀ {n : ℕ}, n < 2 ^ 32 → ∀ l, scanU (Nat.toDigits 10 n ++ ' ' :: l) =
      some (.ofNat 32 n, ' ' :: l) := fun h l => scanU_toDigits (by omega) (by decide) l
  have hend : scanU (Nat.toDigits 10 duty ++ ['\n']) = some (.ofNat 32 duty, ['\n']) :=
    scanU_toDigits (by omega) (by decide) []
  simp only [scanLine, printLine, hblank hg, hblank hf, hend, hskip, scanU_space,
    Option.bind_eq_bind, Option.bind_some]

end CR8Devkit.Proto
