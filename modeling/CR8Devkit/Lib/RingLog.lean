import Mathlib.Algebra.GroupWithZero.Nat
import Mathlib.Data.List.Basic
import Mathlib.Logic.Function.Basic

/-!
# The last entries of a log, in a ring of cells

* `slot n p`: the cell of position `p`; `RingLog.Holds z c l`: the `n` cells `c`, which were all `z`
  at first, hold the newest entries of the log `l`.
* `Holds.push`: the next cell is overwritten; `Holds.read`: reading from that cell on gives the log
  from its oldest entry kept to its newest.
-/

namespace RingLog

variable {α : Type*} {n : ℕ} [NeZero n]

def slot (n : ℕ) [NeZero n] (p : ℕ) : Fin n := Fin.ofNat n p

/-- The log behind `n` entries `z`. -/
def padded (n : ℕ) (z : α) (l : List α) : List α := List.replicate n z ++ l

/-- The last `n` positions are in their cells. -/
def Holds (z : α) (c : Fin n → α) (l : List α) : Prop :=
  ∀ p, l.length ≤ p → p < l.length + n → (padded n z l)[p]? = some (c (slot n p))

variable {z : α} {c c' : Fin n → α} {l : List α}

theorem length_padded (n : ℕ) (z : α) (l : List α) : (padded n z l).length = n + l.length := by
  simp [padded]

theorem slot_add (p : ℕ) : slot n (p + n) = slot n p := Fin.ext (Nat.add_mod_right p n)

theorem slot_mod (p : ℕ) : slot n (p % n) = slot n p := Fin.ext (Nat.mod_mod p n)

/-- Different positions of the last `n` have different cells. -/
theorem slot_ne {p q : ℕ} (hlt : p < q) (hle : q < p + n) : slot n q ≠ slot n p := by
  intro h
  have hmod : q % n = p % n := congrArg Fin.val h
  have hdiv : n ∣ q - p := Nat.dvd_of_mod_eq_zero (Nat.sub_mod_eq_zero_of_mod_eq hmod)
  have := Nat.le_of_dvd (by omega) hdiv
  omega

theorem holds_nil (z : α) : Holds z (fun _ : Fin n => z) [] := by
  intro p _ hp
  simp only [List.length_nil, Nat.zero_add] at hp
  simp [padded, hp]

/-- **The next entry** overwrites the oldest. -/
theorem Holds.push (h : Holds z c l) {x : α} (hx : c' (slot n l.length) = x)
    (hc : ∀ i, i ≠ slot n l.length → c' i = c i) : Holds z c' (l ++ [x]) := by
  have happend : padded n z (l ++ [x]) = padded n z l ++ [x] := by simp [padded]
  intro p hle hlt
  rw [List.length_append, List.length_singleton] at hle hlt
  rw [happend]
  rcases Nat.lt_or_ge p (l.length + n) with hp | hp
  · rw [List.getElem?_append_left (by rw [length_padded]; omega), h p (by omega) hp,
      hc _ (slot_ne hle hp)]
  · obtain rfl : p = l.length + n := by omega
    have hlen : l.length + n = (padded n z l).length := by rw [length_padded, Nat.add_comm]
    rw [slot_add, hx, hlen, List.getElem?_concat_length]

/-- The padded log without its oldest entries. -/
theorem drop_padded (n : ℕ) (z : α) (l : List α) : (padded n z l).drop l.length =
    List.replicate (n - l.length) z ++ l.drop (l.length - n) := by
  rw [padded, List.drop_append, List.drop_replicate, List.length_replicate]

/-- **Reading all cells** from the next one on. -/
theorem Holds.read (h : Holds z c l) : ((List.range n).map fun j => c (slot n (l.length + j))) =
    List.replicate (n - l.length) z ++ l.drop (l.length - n) := by
  rw [← drop_padded]
  apply List.ext_getElem?
  intro j
  rw [List.getElem?_drop]
  rcases Nat.lt_or_ge j n with hj | hj
  · rw [h (l.length + j) (by omega) (by omega)]
    simp [hj]
  · rw [List.getElem?_eq_none (by simpa using hj),
      List.getElem?_eq_none (by rw [length_padded]; omega)]

end RingLog
