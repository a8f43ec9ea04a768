import CR8Devkit.Client.UartProto
import CR8Devkit.Lib.Buffer
import Mathlib.Algebra.Group.Int.Defs

/-!
# The accumulation of received bytes in uartd

* `accumulation`: the block copies that uartd makes for one reply, with the sizes as the C code
  computes them, and the new fill level; `accumulate`: what they leave in memory.
* `safe_iff`: every copy stays inside its buffers exactly when the reply carries at most
  `UART_DATA_MAX` bytes.
* `text_accumulate`: then the text is the last 4096 bytes of the old text and the reply's bytes.
-/

namespace CR8Devkit.Uart

open WaitReply (Byte)
open Proto (Word)
open Buffer

/-- `sizeof(rx_acc)`. -/
def rxAccSize : ℕ := 4096

/-- The two buffers: `rx_acc`, and `rsp.data` with the stack behind it. -/
inductive Buf
  | rxAcc | rspData
  deriving DecidableEq

def Buf.size : Buf → ℕ
  | rxAcc => rxAccSize
  | rspData => uartDataMax

/-- A call of `memcpy` or `memmove`; `size` is the `int` that is converted to `size_t`. -/
structure Copy where
  dst : Buf
  dstOff : ℤ
  src : Buf
  srcOff : ℤ
  size : ℤ
  deriving DecidableEq

/-- The conversion to `size_t`. -/
def toSize (n : ℤ) : ℕ := (n % 2 ^ 64).toNat

/-- Both ranges lie inside their buffers, and the size is not negative. -/
def Copy.Inside (c : Copy) : Prop := 0 ≤ c.size ∧
  (0 ≤ c.dstOff ∧ c.dstOff + c.size ≤ c.dst.size) ∧ (0 ≤ c.srcOff ∧ c.srcOff + c.size ≤ c.src.size)

def Copy.run (m : Buf → ℤ → Byte) (c : Copy) : Buf → ℤ → Byte :=
  Function.update m c.dst
    (copy (m c.dst) c.dstOff (fun i => m c.src (c.srcOff + i)) (toSize c.size))

/-- The number of bytes taken from a reply: `(int) rsp.rx_len`, clamped to `sizeof(rx_acc)`. -/
def taken (w : Word) : ℤ := if (rxAccSize : ℤ) < w.toInt then rxAccSize else w.toInt

/-- The copies made for a reply with `rx_len` `w` at fill level `rxLen`, and the new fill level. -/
def accumulation (rxLen : ℤ) (w : Word) : List Copy × ℤ :=
  if w = 0 then ([], rxLen)
  else
    let n := taken w
    if (rxAccSize : ℤ) < rxLen + n then
      let drop := rxLen + n - rxAccSize
      ([⟨.rxAcc, 0, .rxAcc, drop, rxLen - drop⟩, ⟨.rxAcc, rxLen - drop, .rspData, 0, n⟩],
        rxLen - drop + n)
    else ([⟨.rxAcc, rxLen, .rspData, 0, n⟩], rxLen + n)

/-! ## Memory safety -/

/-- All copies stay inside their buffers, and the fill level stays in range. -/
def Safe (p : List Copy × ℤ) : Prop := (∀ c ∈ p.1, c.Inside) ∧ 0 ≤ p.2 ∧ p.2 ≤ rxAccSize

theorem toInt_cases (w : Word) : w.toInt = w.toNat ∧ w.toNat < 2 ^ 31 ∨ w.toInt < 0 ∧
    2 ^ 31 ≤ w.toNat := by
  have hw := w.isLt
  rw [BitVec.toInt_eq_toNat_cond]
  split_ifs <;> omega

theorem taken_of_le {w : Word} (h : w.toNat ≤ uartDataMax) : taken w = w.toNat := by
  have hsize : (rxAccSize : ℤ) = 4096 := rfl
  have hmax : uartDataMax = 384 := rfl
  obtain ⟨hi, -⟩ := (toInt_cases w).resolve_right (by omega)
  unfold taken
  rw [if_neg (by omega), hi]

/-- The last copy of a reply that carries bytes. -/
theorem last_copy (rxLen : ℤ) {w : Word} (h : w ≠ 0) :
    ∃ off, ⟨.rxAcc, off, .rspData, 0, taken w⟩ ∈ (accumulation rxLen w).1 := by
  simp only [accumulation, if_neg h]
  split_ifs
  · exact ⟨_, List.mem_cons_of_mem _ List.mem_cons_self⟩
  · exact ⟨_, List.mem_cons_self⟩

theorem accumulation_of_le {rxLen : ℤ} {w : Word} (h : w.toNat ≤ uartDataMax) (hw : w ≠ 0) :
    accumulation rxLen w =
      if 4096 < rxLen + w.toNat then
        ([⟨.rxAcc, 0, .rxAcc, rxLen + w.toNat - 4096, 4096 - w.toNat⟩,
          ⟨.rxAcc, 4096 - w.toNat, .rspData, 0, w.toNat⟩], 4096)
      else ([⟨.rxAcc, rxLen, .rspData, 0, w.toNat⟩], rxLen + w.toNat) := by
  have hsize : (rxAccSize : ℤ) = 4096 := rfl
  have hoff : rxLen - (rxLen + w.toNat - 4096) = 4096 - w.toNat := by omega
  have hend : 4096 - (w.toNat : ℤ) + w.toNat = 4096 := by omega
  simp only [accumulation, if_neg hw, taken_of_le h, hsize, hoff, hend]

/-- **The accumulation is safe exactly when the reply carries at most `UART_DATA_MAX` bytes.** -/
theorem safe_iff {rxLen : ℤ} (h0 : 0 ≤ rxLen) (h1 : rxLen ≤ rxAccSize) (w : Word) :
    Safe (accumulation rxLen w) ↔ w.toNat ≤ uartDataMax := by
  have hsize : (rxAccSize : ℤ) = 4096 := rfl
  have hmax : (uartDataMax : ℤ) = 384 := rfl
  by_cases hw : w = 0
  · subst hw
    exact iff_of_true ⟨nofun, h0, h1⟩ (by decide)
  constructor
  · intro h
    obtain ⟨off, hmem⟩ := last_copy rxLen hw
    obtain ⟨hpos, -, -, hle⟩ := h.1 _ hmem
    simp only [Buf.size, taken] at hpos hle
    rcases toInt_cases w with ⟨hi, -⟩ | ⟨hi, -⟩
    · split_ifs at hle <;> omega
    · split_ifs at hpos <;> omega
  · intro h
    have hle : (w.toNat : ℤ) ≤ 384 := by omega
    rw [accumulation_of_le h hw]
    by_cases hfull : 4096 < rxLen + w.toNat
    · rw [if_pos hfull]
      simp only [Safe, List.forall_mem_cons, Copy.Inside, Buf.size]
      exact ⟨⟨by omega, by omega, nofun⟩, by omega, by omega⟩
    · rw [if_neg hfull]
      simp only [Safe, List.forall_mem_cons, Copy.Inside, Buf.size]
      exact ⟨⟨by omega, nofun⟩, by omega, by omega⟩

/-! ### One byte too many -/

/-- Six bytes below the end the old text is moved, and a full reply still fits. -/
theorem safe_iff_nearlyFull : (accumulation 4090 384).1 =
      [⟨.rxAcc, 0, .rxAcc, 378, 3712⟩, ⟨.rxAcc, 3712, .rspData, 0, 384⟩] ∧
    Safe (accumulation 4090 384) ∧ ¬ Safe (accumulation 4090 385) :=
  ⟨by decide, (safe_iff (by decide) (by decide) 384).mpr (by decide),
    fun h => absurd ((safe_iff (by decide) (by decide) 385).mp h) (by decide)⟩

/-- An exchange whose reply claims to carry 385 bytes. -/
def overlong : Exchange where
  trysend _ := 400
  stopped _ := false
  late := false
  waited := 0
  reply := ⟨Proto.le32 uartRspMagic ++ Proto.le32 uartAbiVer ++ List.replicate 16 0 ++
    Proto.le32 385 ++ List.replicate uartDataMax 0, uartRspSize, true⟩

theorem not_safe : ¬ ∀ (x : Exchange) (rsp : UartRsp) (rxLen : ℤ), uartdXfer x = some rsp →
    0 ≤ rxLen → rxLen ≤ rxAccSize → Safe (accumulation rxLen rsp.rxLen) := by
  intro h
  have hx : (uartdXfer overlong).map UartRsp.rxLen = some 385 := by decide +kernel
  obtain ⟨rsp, hrsp, hlen⟩ := Option.map_eq_some_iff.mp hx
  have hcopy := (h overlong rsp 0 hrsp (by decide) (by decide)).1 ⟨.rxAcc, 0, .rspData, 0, 385⟩
    (by rw [hlen]; decide)
  exact absurd hcopy.2.2.2 (by decide)

/-! ## The accumulated text -/

/-- Memory after the copies for one reply. -/
def accumulate (m : Buf → ℤ → Byte) (rxLen : ℤ) (w : Word) : Buf → ℤ → Byte :=
  (accumulation rxLen w).1.foldl Copy.run m

/-- `rx_acc[0..rx_len)`. -/
def text (m : Buf → ℤ → Byte) (rxLen : ℤ) : List Byte := slice (m .rxAcc) 0 rxLen.toNat

theorem toSize_of_nonneg {n : ℤ} (h0 : 0 ≤ n) (h1 : n < 2 ^ 64) : toSize n = n.toNat := by
  unfold toSize
  rw [Int.emod_eq_of_lt h0 h1]

variable {m : Buf → ℤ → Byte} {rxLen : ℤ} {w : Word}

/-- While there is room, the bytes are appended. -/
theorem text_append (h0 : 0 ≤ rxLen) (hw : w.toNat ≤ uartDataMax) :
    slice (Copy.run m ⟨.rxAcc, rxLen, .rspData, 0, w.toNat⟩ .rxAcc) 0 (rxLen + w.toNat).toNat =
      text m rxLen ++ slice (m .rspData) 0 w.toNat := by
  have hmax : uartDataMax = 384 := rfl
  have hlen : (rxLen + w.toNat).toNat = rxLen.toNat + w.toNat := by omega
  have hnat : (rxLen.toNat : ℤ) = rxLen := Int.toNat_of_nonneg h0
  have hsize : toSize w.toNat = w.toNat := by rw [toSize_of_nonneg] <;> omega
  simp only [Copy.run, Function.update_self, hsize, hlen, slice_add, text, Int.zero_add, hnat]
  rw [slice_copy_left (by omega), slice_copy_self]

/-- **The text is the last 4096 bytes of what was there and what the reply carries.** -/
theorem text_accumulate (h0 : 0 ≤ rxLen) (h1 : rxLen ≤ rxAccSize) (hw : w.toNat ≤ uartDataMax) :
    text (accumulate m rxLen w) (accumulation rxLen w).2 =
      (text m rxLen ++ slice (m .rspData) 0 w.toNat).rtake rxAccSize := by
  have hsize : (rxAccSize : ℤ) = 4096 := rfl
  have hmax : uartDataMax = 384 := rfl
  have hlen : (text m rxLen).length = rxLen.toNat := length_slice
  by_cases hw0 : w = 0
  · subst hw0
    have hdrop : rxLen.toNat - rxAccSize = 0 := by omega
    simp [accumulate, accumulation, slice, List.rtake, hlen, hdrop]
  unfold accumulate
  rw [accumulation_of_le hw hw0]
  by_cases hfull : 4096 < rxLen + w.toNat
  · rw [if_pos hfull]
    obtain ⟨k, hk⟩ : ∃ k : ℕ, (k : ℤ) = rxLen + w.toNat - 4096 := ⟨_, Int.toNat_of_nonneg (by omega)⟩
    obtain ⟨n, hn⟩ : ∃ n : ℕ, (n : ℤ) = 4096 - w.toNat := ⟨_, Int.toNat_of_nonneg (by omega)⟩
    -- `k` bytes are dropped, `n` old ones stay
    have hkn : k + n = rxLen.toNat := by omega
    have hend : (4096 : ℤ) = (n : ℤ) + w.toNat := by omega
    rw [← hk, ← hn, List.foldl_cons, List.foldl_cons, List.foldl_nil, hend, text,
      text_append (by omega) hw]
    have htext : text (Copy.run m ⟨.rxAcc, 0, .rxAcc, k, n⟩) n = (text m rxLen).drop k := by
      have hs : toSize n = n := by rw [toSize_of_nonneg] <;> omega
      simp only [text, Copy.run, Function.update_self, hs, Int.toNat_natCast, ← hkn]
      simpa only [Int.add_comm] using slice_copy_shift (b := m .rxAcc) (k := k) (n := n)
    have hsrc : Copy.run m ⟨.rxAcc, 0, .rxAcc, k, n⟩ .rspData = m .rspData := by
      have hne : Buf.rspData ≠ .rxAcc := by decide
      simp only [Copy.run, Function.update_of_ne hne]
    have hcut : (text m rxLen ++ slice (m .rspData) 0 w.toNat).length - rxAccSize = k := by
      rw [List.length_append, hlen, length_slice]
      omega
    rw [htext, hsrc, List.rtake, hcut, List.drop_append_of_le_length (by omega)]
  · rw [if_neg hfull]
    have hcut : (text m rxLen ++ slice (m .rspData) 0 w.toNat).length - rxAccSize = 0 := by
      rw [List.length_append, hlen, length_slice]
      omega
    rw [List.foldl_cons, List.foldl_nil, text, text_append h0 hw, List.rtake, hcut, List.drop_zero]

end CR8Devkit.Uart
