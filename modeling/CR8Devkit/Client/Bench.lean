import Mathlib.Algebra.BigOperators.Fin
import Mathlib.Algebra.Order.BigOperators.Group.Finset
import Mathlib.Tactic.FinCases

/-!
# Time stamps of the round-trip benchmark

GPT6 counts from `0` to `GTPR` and starts over. A message carries seven readings of it, `T0` to
`T6`, and the benchmark takes the differences of neighbours and of the two ends.

* `ipctsUs`: the difference in counts, before it is scaled to microseconds.
* `ipctsUs_running`: the difference of two readings is the number of counts between them.
* `sample_exact`: the six segments of a round trip are measured exactly and add up to it.
-/

namespace CR8Devkit.Bench

/-- A reading of `GTCNT`, an `unsigned int`. -/
abbrev Stamp := BitVec 32

/-- `unsigned long`. -/
abbrev Count := BitVec 64

/-- The mapped registers of GPT6; there are none before `ipcts_init` has succeeded. -/
structure Gpt where
  gtcnt : Stamp

/-- `ipcts_now`. -/
def ipctsNow : Option Gpt → Stamp
  | some g => g.gtcnt
  | none => 0

/-- `g_gpt_wrap`, as `ipcts_init` computes it. -/
def gptWrap (gtpr : Stamp) : Count := gtpr.setWidth 64 + 1

/-- `d` in `ipcts_us`, with the subtraction of two `unsigned int`s in 32 bits. -/
def ipctsUs (wrap : Count) (a b : Stamp) : Count :=
  if a ≤ b then (b - a).setWidth 64 else wrap - a.setWidth 64 + b.setWidth 64

/-- The stamps of one round: `ts_t0`, the four in the reply, `g_ts_a55_cb` and `ts_t6`. -/
structure Round where
  tsT0 : Stamp
  rt : Fin 4 → Stamp
  a55Cb : Stamp
  tsT6 : Stamp

/-- What the benchmark keeps of one round. -/
structure Sample where
  a2r : Count
  isr2tk : Count
  tk2cb : Count
  cb2tx : Count
  r2a : Count
  cb2app : Count
  rt : Count

/-- The decomposition in the benchmark loop. -/
def Round.sample (wrap : Count) (r : Round) : Sample where
  a2r := ipctsUs wrap r.tsT0 (r.rt 0)
  isr2tk := ipctsUs wrap (r.rt 0) (r.rt 1)
  tk2cb := ipctsUs wrap (r.rt 1) (r.rt 2)
  cb2tx := ipctsUs wrap (r.rt 2) (r.rt 3)
  r2a := ipctsUs wrap (r.rt 3) r.a55Cb
  cb2app := ipctsUs wrap r.a55Cb r.tsT6
  rt := ipctsUs wrap r.tsT0 r.tsT6

/-- The six segments, in order. -/
def Sample.segments (s : Sample) : Fin 6 → Count :=
  ![s.a2r, s.isr2tk, s.tk2cb, s.cb2tx, s.r2a, s.cb2app]

/-! ## The counter -/

/-- The reading after `n` counts. -/
def reading (gtpr : Stamp) (n : ℕ) : Stamp := ipctsNow (some ⟨BitVec.ofNat 32 (n % (gtpr.toNat + 1))⟩)

/-- The counts up to stamp `k`, when `e i` counts elapse in segment `i`. -/
def running (start : ℕ) (e : Fin 6 → ℕ) (k : ℕ) : ℕ := start + ∑ i : Fin 6, if i.val < k then e i else 0

/-- The stamps of a round whose segments take `e` counts. -/
def Round.of (gtpr : Stamp) (start : ℕ) (e : Fin 6 → ℕ) : Round where
  tsT0 := reading gtpr (running start e 0)
  rt := fun k => reading gtpr (running start e (k + 1))
  a55Cb := reading gtpr (running start e 5)
  tsT6 := reading gtpr (running start e 6)

variable {gtpr : Stamp}

theorem toNat_gptWrap (gtpr : Stamp) : (gptWrap gtpr).toNat = gtpr.toNat + 1 := by
  have h := gtpr.isLt
  have h1 : (1 : Count).toNat = 1 := rfl
  simp only [gptWrap, BitVec.toNat_add, BitVec.toNat_setWidth, h1]
  omega

theorem toNat_reading (gtpr : Stamp) (n : ℕ) : (reading gtpr n).toNat = n % (gtpr.toNat + 1) := by
  have h := gtpr.isLt
  have hlt : n % (gtpr.toNat + 1) < gtpr.toNat + 1 := Nat.mod_lt n (Nat.succ_pos _)
  exact (BitVec.toNat_ofNat _ _).trans (Nat.mod_eq_of_lt (by omega))

/-- The difference as a number: with a borrow from the modulus when the counter has wrapped. -/
theorem toNat_ipctsUs {a b : Stamp} (ha : a.toNat ≤ gtpr.toNat) : (ipctsUs (gptWrap gtpr) a b).toNat =
    if a.toNat ≤ b.toNat then b.toNat - a.toNat else gtpr.toNat + 1 - a.toNat + b.toNat := by
  have hg := gtpr.isLt
  have hb := b.isLt
  have hw := toNat_gptWrap gtpr
  unfold ipctsUs
  simp only [BitVec.le_def]
  split_ifs with h
  · rw [BitVec.toNat_setWidth, BitVec.toNat_sub_of_le (BitVec.le_def.mpr h)]
    exact Nat.mod_eq_of_lt (by omega)
  · simp only [BitVec.toNat_add, BitVec.toNat_sub, BitVec.toNat_setWidth, hw]
    omega

/-- **Wherever the counter wraps**, two readings less than a period apart differ by the counts
between them. -/
theorem ipctsUs_running (x : ℕ) {n : ℕ} (h : n < gtpr.toNat + 1) :
    (ipctsUs (gptWrap gtpr) (reading gtpr x) (reading gtpr (x + n))).toNat = n := by
  have hx : x % (gtpr.toNat + 1) < gtpr.toNat + 1 := Nat.mod_lt x (Nat.succ_pos _)
  have hsum : (x + n) % (gtpr.toNat + 1) = (x % (gtpr.toNat + 1) + n) % (gtpr.toNat + 1) := by
    rw [Nat.mod_add_mod]
  rw [toNat_ipctsUs (by rw [toNat_reading]; omega), toNat_reading, toNat_reading, hsum]
  rcases Nat.lt_or_ge (x % (gtpr.toNat + 1) + n) (gtpr.toNat + 1) with hlt | hge
  · rw [Nat.mod_eq_of_lt hlt, if_pos (Nat.le_add_right _ _)]
    omega
  · have hwrap : (x % (gtpr.toNat + 1) + n) % (gtpr.toNat + 1) =
        x % (gtpr.toNat + 1) + n - (gtpr.toNat + 1) := by
      rw [Nat.mod_eq_sub_mod hge]
      exact Nat.mod_eq_of_lt (by omega)
    rw [hwrap, if_neg (by omega)]
    omega

/-! ## The decomposition -/

variable {start : ℕ} {e : Fin 6 → ℕ}

theorem running_succ (k : Fin 6) : running start e (k + 1) = running start e k + e k := by
  have hterm : ∀ i : Fin 6, (if i.val < k.val + 1 then e i else 0) =
      (if i.val < k.val then e i else 0) + if i = k then e i else 0 := by
    intro i
    have hik : i = k ↔ i.val = k.val := Fin.ext_iff
    split_ifs <;> omega
  unfold running
  rw [Finset.sum_congr rfl fun i _ => hterm i, Finset.sum_add_distrib, Finset.sum_ite_eq']
  simp [Nat.add_assoc]

theorem running_six : running start e 6 = running start e 0 + ∑ i, e i := by
  simp [running, Fin.is_lt]

/-- Segment `k` lies between the stamps `k` and `k + 1`. -/
theorem segments_of (wrap : Count) (k : Fin 6) : ((Round.of gtpr start e).sample wrap).segments k =
    ipctsUs wrap (reading gtpr (running start e k)) (reading gtpr (running start e (k + 1))) := by
  fin_cases k <;> rfl

/-- A segment is a part of the round. -/
theorem segment_lt (h : ∑ i, e i < gtpr.toNat + 1) (k : Fin 6) : e k < gtpr.toNat + 1 :=
  (Finset.single_le_sum (fun i _ => Nat.zero_le (e i)) (Finset.mem_univ k)).trans_lt h

/-- **The six segments are measured exactly and add up to the round trip**, when the whole round
takes less than one period of the counter. -/
theorem sample_exact (gtpr : Stamp) (start : ℕ) (e : Fin 6 → ℕ) (h : ∑ i, e i < gtpr.toNat + 1) :
    (∀ k, (((Round.of gtpr start e).sample (gptWrap gtpr)).segments k).toNat = e k) ∧
      ∑ k, (((Round.of gtpr start e).sample (gptWrap gtpr)).segments k).toNat =
        ((Round.of gtpr start e).sample (gptWrap gtpr)).rt.toNat := by
  have hall : ∀ k, (((Round.of gtpr start e).sample (gptWrap gtpr)).segments k).toNat = e k := by
    intro k
    rw [segments_of, running_succ]
    exact ipctsUs_running _ (segment_lt h k)
  have hrt : ((Round.of gtpr start e).sample (gptWrap gtpr)).rt.toNat = ∑ i, e i := by
    show (ipctsUs _ (reading gtpr (running start e 0)) (reading gtpr (running start e 6))).toNat = _
    rw [running_six]
    exact ipctsUs_running _ h
  exact ⟨hall, by rw [hrt, Finset.sum_congr rfl fun k _ => hall k]⟩

/-- A round in which the counter of 4,000,000 counts wraps inside the fourth segment. -/
theorem sample_exact_wrap : let e : Fin 6 → ℕ := ![900, 400, 0, 700, 1200, 300]
    (∀ k, (((Round.of 3999999 3998000 e).sample (gptWrap 3999999)).segments k).toNat = e k) ∧
      ∑ k, (((Round.of 3999999 3998000 e).sample (gptWrap 3999999)).segments k).toNat =
        ((Round.of 3999999 3998000 e).sample (gptWrap 3999999)).rt.toNat :=
  sample_exact 3999999 3998000 _ (by decide)

end CR8Devkit.Bench
