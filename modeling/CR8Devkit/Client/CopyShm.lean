import CR8Devkit.Lib.Wide

/-!
# Copying out of the shared memory

The vring is mapped as Device memory, where an access that is not naturally aligned kills the
process.

* `copyData`, `copyFromShm`: the plain byte loop, and the copy in 64-bit units with its tail and its
  fallback.
* `copyFromShm_refines`: both leave the same memory; `copy_from_shm` reads every byte of the source
  once, writes the destination only and makes aligned accesses only.
-/

namespace CR8Devkit.CopyShm

open Access Access.Prog

abbrev Byte := BitVec 8

/-- Code as the accesses it makes. -/
abbrev Code := Prog Span (List Byte) Unit

/-- `dest[i] = src[i]` for `n` units of `w` bytes. -/
def copyUnits (w d s : ℕ) : ℕ → Code
  | 0 => pure ()
  | n + 1 => do
    let v ← get ⟨s, w⟩
    set ⟨d, w⟩ v
    copyUnits w (d + w) (s + w) n

/-- `copy_data`. -/
def copyData (dest src len : ℕ) : Code := copyUnits 1 dest src len

/-- `copy_from_shm`. -/
def copyFromShm (bytecopy : Bool) (dst src len : ℕ) : Code :=
  if bytecopy = true ∨ (src ||| dst) &&& 7 ≠ 0 then copyData dst src len
  else do
    let n8 := len >>> 3
    copyUnits 8 dst src n8
    let done := n8 <<< 3
    if done < len then copyData (dst + done) (src + done) (len - done) else pure ()

variable {w d s n len : ℕ} {m : ℕ → Byte}

theorem copies_units (hd : w ∣ d) (hs : w ∣ s) (h : Apart d s (w * n)) :
    Copies (copyUnits w d s n) d s (w * n) m := by
  induction n generalizing d s m with
  | zero => exact copies_nothing
  | succ n ih =>
    have hlen : w * (n + 1) = w + w * n := by rw [Nat.mul_succ, Nat.add_comm]
    have hrest : Apart (d + w) (s + w) (w * n) := by
      unfold Apart at h ⊢
      omega
    rw [hlen] at h ⊢
    exact (copies_access hs hd).append h (ih (Nat.dvd_add hd (Nat.dvd_refl w))
      (Nat.dvd_add hs (Nat.dvd_refl w)) hrest)

/-- The byte loop, from and to any address. -/
theorem copies_copyData (h : Apart d s n) : Copies (copyData d s n) d s n m := by
  have hbytes := copies_units (m := m) (Nat.one_dvd d) (Nat.one_dvd s) (n := n) (by rwa [Nat.one_mul])
  rwa [Nat.one_mul] at hbytes

/-- The test for alignment. -/
theorem or_and_seven : (s ||| d) &&& 7 = 0 ↔ 8 ∣ s ∧ 8 ∣ d := by
  have h7 : (s ||| d) &&& 7 = (s ||| d) % 2 ^ 3 := Nat.and_two_pow_sub_one_eq_mod _ 3
  rw [h7, Nat.or_mod_two_pow, Nat.or_eq_zero_iff]
  simp only [Nat.dvd_iff_mod_eq_zero]

/-- Whole words, then what is left of `len`. -/
theorem copies_wide (hd : 8 ∣ d) (hs : 8 ∣ s) (h : Apart d s len) :
    Copies (do
      copyUnits 8 d s (len >>> 3)
      if len >>> 3 <<< 3 < len then
        copyData (d + len >>> 3 <<< 3) (s + len >>> 3 <<< 3) (len - len >>> 3 <<< 3)
      else pure ()) d s len m := by
  have hdone : len >>> 3 <<< 3 = 8 * (len >>> 3) := by
    rw [Nat.shiftLeft_eq, Nat.mul_comm]
  have hle : 8 * (len >>> 3) ≤ len := by
    rw [Nat.shiftRight_eq_div_pow]
    exact Nat.mul_div_le len 8
  have hwords : Copies (copyUnits 8 d s (len >>> 3)) d s (8 * (len >>> 3)) m :=
    copies_units hd hs (by unfold Apart at h ⊢; omega)
  rw [hdone]
  generalize 8 * (len >>> 3) = done at hle hwords ⊢
  obtain ⟨rest, rfl⟩ := Nat.exists_eq_add_of_le hle
  refine hwords.append h ?_
  rw [Nat.add_sub_cancel_left]
  split_ifs with hlt
  · exact copies_copyData (by unfold Apart at h ⊢; omega)
  · obtain rfl : rest = 0 := by omega
    exact copies_nothing

/-- **`copy_from_shm` refines the byte loop** and makes aligned accesses only. -/
theorem copyFromShm_refines (bytecopy : Bool) (dst src len : ℕ) (m : ℕ → Byte)
    (h : Apart dst src len) : let p := copyFromShm bytecopy dst src len
    (p.wide m).2 = ((copyData dst src len).wide m).2 ∧
      (∀ x, ¬ (dst ≤ x ∧ x < dst + len) → (p.wide m).2 x = m x) ∧
      (p.stores m).flatMap Span.bytes = List.range' dst len ∧
      (p.loads m).flatMap Span.bytes = List.range' src len ∧
      ∀ a ∈ p.loads m ++ p.stores m, a.Aligned := by
  intro p
  have hp : Copies p dst src len m := by
    unfold p copyFromShm
    split_ifs with hb
    · exact copies_copyData h
    · have h8 : 8 ∣ src ∧ 8 ∣ dst := by
        rw [← or_and_seven]
        by_contra hne
        exact hb (.inr hne)
      exact copies_wide h8.2 h8.1 h
  refine ⟨hp.memory.trans (copies_copyData h).memory.symm, ?_, hp.writes, hp.reads, hp.aligned⟩
  intro x hx
  rw [hp.memory]
  exact if_neg hx

/-- A reply of 483 bytes: sixty words and a tail of three. -/
theorem copyFromShm_refines_reply : let p := copyFromShm false 0x2000 0x1010 483
    let m : ℕ → Byte := fun x => BitVec.ofNat 8 x
    (p.wide m).2 = ((copyData 0x2000 0x1010 483).wide m).2 ∧
      (∀ x, ¬ (0x2000 ≤ x ∧ x < 0x2000 + 483) → (p.wide m).2 x = m x) ∧
      (p.stores m).flatMap Span.bytes = List.range' 0x2000 483 ∧
      (p.loads m).flatMap Span.bytes = List.range' 0x1010 483 ∧
      ∀ a ∈ p.loads m ++ p.stores m, a.Aligned :=
  copyFromShm_refines false 0x2000 0x1010 483 _ (.inr (by decide))

end CR8Devkit.CopyShm
