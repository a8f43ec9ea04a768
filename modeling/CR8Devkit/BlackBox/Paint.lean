import CR8Devkit.BlackBox.Probe

/-!
# Painting a stack and reading its high-water mark

* `Region`: a stack in the 32-bit address space, by ascending words; `Region.paint`, `Region.used`:
  `r8_paint_one` and `r8_used_one` on it.
* `lowest`: the first word that does not hold the paint; `used_eq`: what the scan returns.
* `le_used_iff`: the mark reaches a word exactly when that word or one below it has been written.
* `watermarks_iff`: when painting spares the words in use, and what the marks are worth from then
  on.
-/

namespace CR8Devkit.BlackBox

open Access Access.Prog

/-- A stack: word-aligned, not empty, and clear of the first 64 bytes and of the end of memory. -/
structure Region where
  base : ℕ
  words : ℕ
  aligned : 4 ∣ base
  clear : 64 ≤ base
  nonempty : 0 < words
  fits : base + 4 * words < 2 ^ 32

namespace Region

variable (r : Region)

def limit : ℕ := r.base + 4 * r.words

/-- Word `i` from the bottom. -/
def cell (i : ℕ) : Loc := .word (r.base + 4 * i)

/-- The memory after `r8_paint_one`, called with the stack pointer at `sp`. -/
def paint (sp : Word) (m : Mem) : Mem := ((r8PaintOne r.base r.words sp).exec m).2

/-- `r8_used_one`. -/
def used (m : Mem) : Word := ((r8UsedOne r.words r.base).exec m).1

/-- The memory after some stores of words into the region. -/
def after (m : Mem) (ws : List (Fin r.words × Word)) : Mem :=
  ws.foldl (fun m x => Function.update m (r.cell x.1) x.2) m

end Region

/-- The first of `n` words from address `p` on that does not hold the paint. -/
def lowest (n p : ℕ) (m : Mem) : Option ℕ :=
  (List.range n).find? fun i => m (.word (p + 4 * i)) != r8Paint

/-- What the paint is good for, when it is applied to memory `m` with the stack pointer at `sp`. -/
structure Region.Watermarks (r : Region) (sp : Word) (m : Mem) : Prop where
  inside : (r8PaintOne r.base r.words sp).StoresIn fun a => ∃ i < r.words, a = r.cell i
  spared : ∀ a, sp.toNat ≤ a → r.paint sp m (.word a) = m (.word a)
  exact : ∀ ws, (r.used (r.after (r.paint sp m) ws)).toNat =
    (lowest r.words r.base (r.after (r.paint sp m) ws)).elim 0 fun i => r.limit - (r.base + 4 * i)
  grows : ∀ ws x, x.2 ≠ r8Paint →
    r.used (r.after (r.paint sp m) ws) ≤ r.used (r.after (r.paint sp m) (ws ++ [x]))
  deepest : ∀ ws, (∀ x ∈ ws, x.2 ≠ r8Paint) → ∀ x ∈ ws,
    r.limit - (r.base + 4 * x.1) ≤ (r.used (r.after (r.paint sp m) ws)).toNat

/-! ## The scan -/

section Scan

variable {m m' : Mem} {n p i : ℕ}

theorem lowest_succ : lowest (n + 1) p m =
    if m (.word p) = r8Paint then (lowest n (p + 4) m).map (· + 1) else some 0 := by
  have hp : (fun i => m (.word (p + 4 * i)) != r8Paint) ∘ Nat.succ =
      fun i => m (.word (p + 4 + 4 * i)) != r8Paint := by
    funext i
    have hi : p + 4 * i.succ = p + 4 + 4 * i := by omega
    rw [Function.comp_apply, hi]
  unfold lowest
  rw [List.range_succ_eq_map, List.find?_cons]
  split_ifs with h
  · have hhead : (m (.word (p + 4 * 0)) != r8Paint) = false := bne_eq_false_iff_eq.mpr h
    rw [hhead]
    refine (List.find?_map ..).trans ?_
    rw [hp]
  · simp [bne_iff_ne.mpr h]

/-- **The scan returns the distance from the first word without paint to the limit.** -/
theorem used_eq (n p : ℕ) (m : Mem) : ((r8UsedOne n p).exec m).1 =
    (lowest n p m).elim 0 fun i => BitVec.ofNat 32 (4 * (n - i)) := by
  induction n generalizing p with
  | zero => rfl
  | succ n ih =>
    rw [lowest_succ]
    show ((if m (.word p) = r8Paint then r8UsedOne n (p + 4)
      else pure (BitVec.ofNat 32 (4 * (n + 1)))).exec m).1 = _
    split_ifs with h
    · rw [ih (p + 4)]
      cases lowest n (p + 4) m with
      | none => rfl
      | some i => simp
    · rfl

theorem lowest_some (h : lowest n p m = some i) :
    i < n ∧ m (.word (p + 4 * i)) ≠ r8Paint ∧ ∀ j < i, m (.word (p + 4 * j)) = r8Paint := by
  obtain ⟨hi, hmem, hbelow⟩ := List.find?_range_eq_some.mp h
  exact ⟨List.mem_range.mp hmem, by simpa using hi, fun j hj => by simpa using hbelow j hj⟩

theorem lowest_none (h : lowest n p m = none) : ∀ j < n, m (.word (p + 4 * j)) = r8Paint := by
  intro j hj
  simpa using List.find?_eq_none.mp h j (List.mem_range.mpr hj)

variable {r : Region}

/-- The mark, from the address of the first word without paint. -/
theorem toNat_used (r : Region) (m : Mem) : (r.used m).toNat =
    (lowest r.words r.base m).elim 0 fun i => r.limit - (r.base + 4 * i) := by
  have hfits := r.fits
  unfold Region.used
  rw [used_eq]
  cases h : lowest r.words r.base m with
  | none => rfl
  | some i =>
    simp only [Option.elim_some, Region.limit, BitVec.toNat_ofNat]
    omega

/-- **The mark reaches word `i` exactly when a word up to `i` does not hold the paint.** -/
theorem le_used_iff (hi : i < r.words) :
    4 * (r.words - i) ≤ (r.used m).toNat ↔ ∃ j ≤ i, m (r.cell j) ≠ r8Paint := by
  rw [toNat_used]
  cases h : lowest r.words r.base m with
  | none =>
    have hall := lowest_none h
    refine ⟨fun hle => ?_, fun ⟨j, hj, hne⟩ => absurd (hall j (by omega)) hne⟩
    have h0 : 4 * (r.words - i) ≤ 0 := hle
    omega
  | some k =>
    obtain ⟨hk, hne, hbelow⟩ := lowest_some h
    simp only [Option.elim_some, Region.limit]
    refine ⟨fun hle => ⟨k, by omega, hne⟩, fun ⟨j, hj, hj'⟩ => ?_⟩
    have hkj : k ≤ j := by
      by_contra hlt
      exact hj' (hbelow j (by omega))
    omega

/-- The mark is 0, or stands at a word without paint. -/
theorem used_cases (r : Region) (m : Mem) : (r.used m).toNat = 0 ∨
    ∃ i < r.words, m (r.cell i) ≠ r8Paint ∧ (r.used m).toNat = 4 * (r.words - i) := by
  rw [toNat_used]
  cases h : lowest r.words r.base m with
  | none => exact .inl rfl
  | some i =>
    obtain ⟨hi, hne, -⟩ := lowest_some h
    refine .inr ⟨i, hi, hne, ?_⟩
    simp only [Option.elim_some, Region.limit]
    omega

end Scan

/-! ## Stores into the region -/

section Stores

variable {r : Region} {m : Mem}

theorem after_cons (x : Fin r.words × Word) (ws : List (Fin r.words × Word)) :
    r.after m (x :: ws) = r.after (Function.update m (r.cell x.1) x.2) ws := rfl

/-- A word that does not hold the paint does not get it back. -/
theorem after_ne {ws : List (Fin r.words × Word)} (hws : ∀ x ∈ ws, x.2 ≠ r8Paint) {i : ℕ}
    (h : m (r.cell i) ≠ r8Paint) : r.after m ws (r.cell i) ≠ r8Paint := by
  induction ws generalizing m with
  | nil => exact h
  | cons x ws ih =>
    obtain ⟨hx, hws⟩ := List.forall_mem_cons.mp hws
    rw [after_cons]
    refine ih hws ?_
    by_cases hi : r.cell i = r.cell x.1
    · rw [hi, Function.update_self]
      exact hx
    · rwa [Function.update_of_ne hi]

theorem after_written {ws : List (Fin r.words × Word)} (hws : ∀ x ∈ ws, x.2 ≠ r8Paint)
    {x : Fin r.words × Word} (hx : x ∈ ws) : r.after m ws (r.cell x.1) ≠ r8Paint := by
  induction ws generalizing m with
  | nil => cases hx
  | cons y ws ih =>
    obtain ⟨hy, hrest⟩ := List.forall_mem_cons.mp hws
    rw [after_cons]
    rcases List.mem_cons.mp hx with rfl | hx
    · refine after_ne hrest ?_
      rwa [Function.update_self]
    · exact ih hrest hx

/-- A store of anything but the paint does not lower the mark. -/
theorem used_le_after {x : Fin r.words × Word} (hx : x.2 ≠ r8Paint) :
    r.used m ≤ r.used (r.after m [x]) := by
  rw [BitVec.le_def]
  rcases used_cases r m with h0 | ⟨i, hi, hne, hused⟩
  · rw [h0]
    exact Nat.zero_le _
  · rw [hused]
    exact (le_used_iff hi).mpr ⟨i, le_rfl, after_ne (by simpa using hx) hne⟩

end Stores

/-! ## The paint -/

section Paint

variable {m : Mem} {n p : ℕ} {sp : Word}

theorem storesIn_paint_range (n p : ℕ) :
    (paint n p).StoresIn fun a => ∃ i < n, a = .word (p + 4 * i) := by
  induction n generalizing p with
  | zero => exact trivial
  | succ n ih =>
    refine storesIn_set_bind ⟨0, Nat.succ_pos n, rfl⟩ ((ih (p + 4)).mono ?_)
    rintro a ⟨i, hi, rfl⟩
    exact ⟨i + 1, by omega, congrArg Loc.word (by omega)⟩

theorem exec_paint {i : ℕ} (hi : i < n) : ((paint n p).exec m).2 (.word (p + 4 * i)) = r8Paint := by
  induction n generalizing p i m with
  | zero => omega
  | succ n ih =>
    show ((paint n (p + 4)).exec (Function.update m (.word p) r8Paint)).2 _ = _
    cases i with
    | zero =>
      refine (exec_frame (storesIn_paint_range n (p + 4)) ?_).trans (Function.update_self _ _ _)
      rintro ⟨j, -, hj⟩
      have := Loc.word.inj hj
      omega
    | succ i =>
      have hp : p + 4 * (i + 1) = p + 4 + 4 * i := by omega
      rw [hp]
      exact ih (by omega)

namespace Region

/-- How many words `r8_paint_one` paints. -/
def painted (r : Region) (sp : Word) : ℕ :=
  if r.base < sp.toNat ∧ sp.toNat ≤ r.limit then (((sp - 64) &&& ~~~3).toNat - r.base + 3) / 4
  else r.words

variable (r : Region)

/-- With its pointer in the stack, the stack is painted below the pointer only. -/
theorem painted_below (h : r.base < sp.toNat) (hl : sp.toNat ≤ r.limit) :
    r.base + 4 * r.painted sp ≤ sp.toNat := by
  have hclear := r.clear
  have hsub : (sp - 64).toNat = sp.toNat - 64 :=
    BitVec.toNat_sub_of_le (BitVec.le_def.mpr (by simp; omega))
  have htop : ((sp - 64) &&& ~~~3).toNat ≤ sp.toNat - 64 := by
    rw [BitVec.toNat_and, hsub]
    exact Nat.and_le_left
  unfold painted
  rw [if_pos ⟨h, hl⟩]
  omega

/-- At the very bottom, and outside, the whole stack is painted. -/
theorem painted_base (h : ¬ r.base < sp.toNat) : r.painted sp = r.words := if_neg fun hc => h hc.1

theorem painted_le (sp : Word) : r.painted sp ≤ r.words := by
  by_cases h : r.base < sp.toNat ∧ sp.toNat ≤ r.limit
  · have hbelow := r.painted_below h.1 h.2
    have hl : sp.toNat ≤ r.base + 4 * r.words := h.2
    omega
  · exact (if_neg h).le

/-- `r8_paint_one` is the loop over those words. -/
theorem exec_r8PaintOne (sp : Word) (m : Mem) :
    (r8PaintOne r.base r.words sp).StoresIn (fun a => ∃ i < r.painted sp, a = r.cell i) ∧
      r.paint sp m = ((BlackBox.paint (r.painted sp) r.base).exec m).2 := by
  unfold paint painted r8PaintOne limit
  split_ifs with hsp
  · show (if ((sp - 64) &&& ~~~3).toNat ≤ r.base then pure 0 else
      do BlackBox.paint ((((sp - 64) &&& ~~~3).toNat - r.base + 3) / 4) r.base; pure 1 :
        Code Word).StoresIn _ ∧ ((if ((sp - 64) &&& ~~~3).toNat ≤ r.base then pure 0 else
      do BlackBox.paint ((((sp - 64) &&& ~~~3).toNat - r.base + 3) / 4) r.base; pure 1 :
        Code Word).exec m).2 = _
    generalize ((sp - 64) &&& ~~~3).toNat = top
    split_ifs with htop
    · refine ⟨trivial, ?_⟩
      have h0 : (top - r.base + 3) / 4 = 0 := by omega
      rw [h0]
      rfl
    · refine ⟨(storesIn_paint_range _ _).bind fun _ => trivial, ?_⟩
      rw [exec_bind]
      rfl
  · refine ⟨(storesIn_paint_range _ _).bind fun _ => trivial, ?_⟩
    rw [exec_bind]
    rfl

theorem paint_cell {i : ℕ} (hi : i < r.painted sp) : r.paint sp m (r.cell i) = r8Paint := by
  rw [(r.exec_r8PaintOne sp m).2]
  exact exec_paint hi

theorem paint_frame {a : Loc} (ha : ∀ i < r.painted sp, a ≠ r.cell i) : r.paint sp m a = m a :=
  exec_frame (r.exec_r8PaintOne sp m).1 fun ⟨i, hi, hai⟩ => ha i hi hai

end Region

end Paint

/-! ## The watermarks -/

section Watermarks

variable {r : Region} {sp : Word} {m : Mem}

/-- **Which words painting spares.** -/
theorem spared_iff (hb : r.base ≤ sp.toNat) (hl : sp.toNat ≤ r.limit) :
    (∀ a, sp.toNat ≤ a → r.paint sp m (.word a) = m (.word a)) ↔
      r.base < sp.toNat ∨ ∀ i < r.words, m (r.cell i) = r8Paint := by
  constructor
  · intro h
    by_cases hlt : r.base < sp.toNat
    · exact .inl hlt
    · refine .inr fun i hi => ?_
      have hsp : sp.toNat ≤ r.base + 4 * i := by omega
      rw [← r.painted_base hlt] at hi
      exact (h _ hsp).symm.trans (r.paint_cell hi)
  · rintro (hlt | hall) a ha
    · have hbelow := r.painted_below hlt hl
      refine r.paint_frame fun i hi hai => ?_
      have := Loc.word.inj hai
      omega
    · by_cases hex : ∃ i < r.painted sp, Loc.word a = r.cell i
      · obtain ⟨i, hi, hai⟩ := hex
        rw [hai, r.paint_cell hi, hall i (hi.trans_le (r.painted_le sp))]
      · exact r.paint_frame fun i hi hai => hex ⟨i, hi, hai⟩

/-- **Painting spares the words in use and the marks are right ever after**, if and only if the
pointer is above the bottom of the stack, or there was nothing but paint to be lost. -/
theorem watermarks_iff (r : Region) (sp : Word) (hb : r.base ≤ sp.toNat) (hl : sp.toNat ≤ r.limit)
    (m : Mem) : r.Watermarks sp m ↔ r.base < sp.toNat ∨ ∀ i < r.words, m (r.cell i) = r8Paint := by
  rw [← spared_iff hb hl]
  refine ⟨Region.Watermarks.spared, fun hspared => ?_⟩
  refine ⟨(r.exec_r8PaintOne sp m).1.mono ?_, hspared, fun ws => toNat_used r _, ?_, ?_⟩
  · rintro a ⟨i, hi, rfl⟩
    exact ⟨i, hi.trans_le (r.painted_le sp), rfl⟩
  · intro ws x hx
    have happ : r.after (r.paint sp m) (ws ++ [x]) = r.after (r.after (r.paint sp m) ws) [x] :=
      List.foldl_append
    rw [happ]
    exact used_le_after hx
  · intro ws hws x hx
    have hdepth : r.limit - (r.base + 4 * x.1) = 4 * (r.words - x.1) := by
      unfold Region.limit
      omega
    rw [hdepth]
    exact (le_used_iff x.1.isLt).mpr ⟨x.1, le_rfl, after_written hws hx⟩

/-- Four words at `0x10000`, the pointer at the third. -/
def fourWords : Region where
  base := 0x10000
  words := 4
  aligned := by decide
  clear := by decide
  nonempty := by decide
  fits := by decide

theorem watermarks_iff_inside : fourWords.Watermarks 0x10008 (fun _ => 0) ↔
    fourWords.base < (0x10008 : Word).toNat ∨ ∀ i < fourWords.words, (0 : Word) = r8Paint :=
  watermarks_iff fourWords 0x10008 (by decide) (by decide) fun _ => 0

/-- With the stack full, the word at its pointer is overwritten. -/
theorem not_watermarks : ¬ ∀ (r : Region) (sp : Word) (m : Mem), r.base ≤ sp.toNat →
    sp.toNat ≤ r.limit → r.Watermarks sp m := by
  intro h
  have hlost : fourWords.paint 0x10000 (fun _ => 0) (.word 0x10000) ≠ 0 := by decide +kernel
  exact hlost ((h fourWords 0x10000 (fun _ => 0) (by decide) (by decide)).spared 0x10000 le_rfl)

end Watermarks

end CR8Devkit.BlackBox
