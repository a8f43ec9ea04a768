import Mathlib.Data.List.DropRight
import Mathlib.Data.Int.Notation
import Mathlib.Tactic.Common

/-!
# Buffers, block copies and rolling logs

A buffer is a function of the offset, so that an access out of bounds can be expressed too.

* `copy`: what `memcpy` and `memmove` leave in the destination; `slice`: the elements of a range.
* `slice_copy_self`, `slice_copy_left`, `slice_copy_shift`: a range after a copy.
* `rtake_append_rtake`: a log that keeps its last `n` elements forgets nothing it still needs.
-/

namespace Buffer

variable {α : Type*}

/-- Copy `n` elements of `src` to offset `d`. -/
def copy (b : ℤ → α) (d : ℤ) (src : ℤ → α) (n : ℕ) : ℤ → α :=
  fun i => if d ≤ i ∧ i < d + n then src (i - d) else b i

/-- The `n` elements from offset `a` on. -/
def slice (b : ℤ → α) (a : ℤ) (n : ℕ) : List α := (List.range n).map fun i : ℕ => b (a + i)

variable {b src : ℤ → α} {a d : ℤ} {k n : ℕ}

@[simp] theorem length_slice : (slice b a n).length = n := by simp [slice]

theorem slice_congr {c : ℤ → α} {e : ℤ} (h : ∀ i : ℕ, i < n → b (a + i) = c (e + i)) :
    slice b a n = slice c e n :=
  List.map_congr_left fun i hi => h i (List.mem_range.mp hi)

theorem slice_add : slice b a (k + n) = slice b a k ++ slice b (a + k) n := by
  unfold slice
  rw [List.range_add, List.map_append, List.map_map]
  congr 1
  refine List.map_congr_left fun i _ => ?_
  simp [Int.add_assoc]

/-- The range copied to. -/
theorem slice_copy_self : slice (copy b d src n) d n = slice src 0 n := by
  refine slice_congr fun i hi => ?_
  have h : d ≤ d + i ∧ d + (i : ℤ) < d + n := by omega
  simp only [copy, if_pos h]
  congr 1
  omega

/-- A range in front of the one copied to. -/
theorem slice_copy_left (h : a + k ≤ d) : slice (copy b d src n) a k = slice b a k := by
  refine slice_congr fun i hi => ?_
  have hi' : ¬ (d ≤ a + i ∧ a + (i : ℤ) < d + n) := by omega
  simp only [copy, if_neg hi']

/-- Moving a buffer down by `k` drops the first `k` elements. -/
theorem slice_copy_shift : slice (copy b 0 (fun i => b (i + k)) n) 0 n = (slice b 0 (k + n)).drop k := by
  rw [slice_copy_self, slice_add, List.drop_left' length_slice]
  refine slice_congr fun i _ => ?_
  simp only [Int.zero_add]
  congr 1
  omega

/-- Keeping the last `n` elements after each addition is keeping the last `n` in the end. -/
theorem rtake_append_rtake (l c : List α) (n : ℕ) : (l.rtake n ++ c).rtake n = (l ++ c).rtake n := by
  unfold List.rtake
  rcases Nat.le_total l.length n with hl | hl
  · rw [Nat.sub_eq_zero_of_le hl, List.drop_zero]
  · have hdrop : l.drop (l.length - n) ++ c = (l ++ c).drop (l.length - n) :=
      (List.drop_append_of_le_length (Nat.sub_le _ _)).symm
    rw [hdrop, List.drop_drop, List.length_drop, List.length_append]
    congr 1
    omega

end Buffer
