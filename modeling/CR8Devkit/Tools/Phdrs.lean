import CR8Devkit.Client.Proto
import CR8Devkit.Lib.Joining
import Mathlib.Data.List.Basic
import Mathlib.Tactic.Tauto

/-!
# Program headers of an ELF32 file

* `phdr`, `setWord`: a program header read from the bytes of a file, and a word of the file
  replaced.
* `Table`: where the program headers are; `Table.Inside`, `Table.Wide`: they can be read, and do not
  overlap.
* `Selection`: what a tool looks for, in order of how much it selects.
* `cleared`: the file with `PT_NULL` for the types of the `PT_LOAD` entries that a tool selects;
  **`cleared_cleared`**: two selections, one behind the other, are both at once.
* `clearEntry`: the loop that the tools have in common; `foldlM_clearEntry`: what it computes.
* `Elf32`: a well-formed file; `Elf32.clear`, `joins_clear`: clearing as an action of the
  selections.
-/

namespace CR8Devkit.PatchElf

open Proto
open WaitReply (Byte)
open Joining

def ptNull : Word := 0
def ptLoad : Word := 1

/-- `<6I` of a program header. -/
structure Phdr where
  type : Word
  offset : Word
  vaddr : Word
  paddr : Word
  filesz : Word
  memsz : Word
  deriving DecidableEq

/-- The half-word at byte offset `i`. -/
def half16 (b : List Byte) (i : ℕ) : ℕ := (b.getD i 0).toNat + 256 * (b.getD (i + 1) 0).toNat

def phdr (b : List Byte) (o : ℕ) : Phdr :=
  ⟨word32 b o, word32 b (o + 4), word32 b (o + 8), word32 b (o + 12), word32 b (o + 16), word32 b (o + 20)⟩

/-- The word at byte offset `o` replaced. -/
def setWord (b : List Byte) (o : ℕ) (v : Word) : List Byte := b.take o ++ le32 v ++ b.drop (o + 4)

/-! ## Words of a file -/

section Words

variable {b b' : List Byte} {o : ℕ}

theorem word32_congr (h : ∀ j < 4, b'[o + j]? = b[o + j]?) : word32 b' o = word32 b o := by
  have h0 : b'[o]? = b[o]? := h 0 (by omega)
  have h1 : b'[o + 1]? = b[o + 1]? := h 1 (by omega)
  have h2 : b'[o + 2]? = b[o + 2]? := h 2 (by omega)
  have h3 : b'[o + 3]? = b[o + 3]? := h 3 (by omega)
  simp only [word32, List.getD_eq_getElem?_getD, h0, h1, h2, h3]

theorem half16_congr (h : ∀ j < 2, b'[o + j]? = b[o + j]?) : half16 b' o = half16 b o := by
  have h0 : b'[o]? = b[o]? := h 0 (by omega)
  have h1 : b'[o + 1]? = b[o + 1]? := h 1 (by omega)
  simp only [half16, List.getD_eq_getElem?_getD, h0, h1]

theorem word32_zero (h : ∀ j < 4, b[o + j]? = some 0) : word32 b o = 0 := by
  have h0 : b[o]? = some 0 := h 0 (by omega)
  have h1 : b[o + 1]? = some 0 := h 1 (by omega)
  have h2 : b[o + 2]? = some 0 := h 2 (by omega)
  have h3 : b[o + 3]? = some 0 := h 3 (by omega)
  simp only [word32, List.getD_eq_getElem?_getD, h0, h1, h2, h3]
  rfl

/-- Entries that agree behind their type words. -/
theorem phdr_congr (h : ∀ j < 24, 4 ≤ j → b'[o + j]? = b[o + j]?) :
    phdr b' o = { phdr b o with type := word32 b' o } := by
  have hword : ∀ k, 4 ≤ k → k + 4 ≤ 24 → word32 b' (o + k) = word32 b (o + k) := by
    intro k hk hk'
    apply word32_congr
    intro j hj
    rw [Nat.add_assoc]
    exact h (k + j) (by omega) (by omega)
  simp only [phdr, hword 4 (by omega) (by omega), hword 8 (by omega) (by omega),
    hword 12 (by omega) (by omega), hword 16 (by omega) (by omega), hword 20 (by omega) (by omega)]

theorem getElem?_setWord (h : o + 4 ≤ b.length) (p : ℕ) :
    (setWord b o ptNull)[p]? = if o ≤ p ∧ p < o + 4 then some 0 else b[p]? := by
  have htake : (b.take o).length = o := by simp; omega
  unfold setWord
  rcases Nat.lt_or_ge p o with hp | hp
  · rw [List.append_assoc, List.getElem?_append_left (by omega), List.getElem?_take_of_lt hp,
      if_neg (by omega)]
  · rw [List.append_assoc, List.getElem?_append_right (by omega), htake]
    rcases Nat.lt_or_ge p (o + 4) with hp' | hp'
    · have hcase : p - o = 0 ∨ p - o = 1 ∨ p - o = 2 ∨ p - o = 3 := by omega
      rw [if_pos ⟨hp, hp'⟩, List.getElem?_append_left (by rw [length_le32]; omega)]
      rcases hcase with h | h | h | h <;> rw [h] <;> rfl
    · rw [List.getElem?_append_right (by rw [length_le32]; omega), length_le32, List.getElem?_drop,
        if_neg (by omega)]
      congr 1
      omega

end Words

/-! ## Tables -/

/-- Where the program headers are, how long one is, and how many there are. -/
structure Table where
  phoff : ℕ
  phentsize : ℕ
  phnum : ℕ

/-- The offset of entry `i`. -/
def Table.entry (t : Table) (i : ℕ) : ℕ := t.phoff + i * t.phentsize

/-- Entry `i`. -/
def Table.phdr (t : Table) (b : List Byte) (i : ℕ) : Phdr := PatchElf.phdr b (t.entry i)

/-- What a tool looks for in a program header. -/
def Selection : Type := Phdr → Bool

instance : SemilatticeSup Selection where
  le sel sel' := ∀ p, sel p = true → sel' p = true
  le_refl _ _ := id
  le_trans _ _ _ h h' p := h' p ∘ h p
  le_antisymm sel sel' h h' := by
    funext p
    exact Bool.eq_iff_iff.mpr ⟨h p, h' p⟩
  sup sel sel' p := sel p || sel' p
  le_sup_left _ _ _ h := Bool.or_eq_true_iff.mpr (.inl h)
  le_sup_right _ _ _ h := Bool.or_eq_true_iff.mpr (.inr h)
  sup_le _ _ _ h h' p hp := (Bool.or_eq_true_iff.mp hp).elim (h p) (h' p)

instance : OrderBot Selection where
  bot _ := false
  bot_le _ _ h := absurd h Bool.false_ne_true

/-- A `PT_LOAD` entry that is selected. -/
def Phdr.Picked (sel : Selection) (p : Phdr) : Prop := p.type = ptLoad ∧ sel p = true

instance (sel : Selection) (p : Phdr) : Decidable (p.Picked sel) := inferInstanceAs (Decidable (_ ∧ _))

/-- `p` is in the type word of such an entry among the first `k`. -/
def Table.Clears (t : Table) (sel : Selection) (b : List Byte) (k p : ℕ) : Prop :=
  ∃ i < k, (t.phdr b i).Picked sel ∧ t.entry i ≤ p ∧ p < t.entry i + 4

instance (t : Table) (sel : Selection) (b : List Byte) (k p : ℕ) : Decidable (t.Clears sel b k p) := by
  unfold Table.Clears; infer_instance

/-- The file with zeros there. -/
def cleared (t : Table) (sel : Selection) (b : List Byte) (k : ℕ) : List Byte :=
  b.mapIdx fun p c => if t.Clears sel b k p then 0 else c

/-- The first `k` entries can be read. -/
def Table.Inside (t : Table) (b : List Byte) (k : ℕ) : Prop := ∀ i < k, t.entry i + 24 ≤ b.length

/-- No two entries share a byte that is read. -/
def Table.Wide (t : Table) : Prop := 24 ≤ t.phentsize

section Cleared

variable {t : Table} {sel sel' : Selection} {b : List Byte} {i j k p : ℕ}

@[simp] theorem length_cleared : (cleared t sel b k).length = b.length := List.length_mapIdx

theorem getElem?_cleared (p : ℕ) :
    (cleared t sel b k)[p]? = b[p]?.map fun c => if t.Clears sel b k p then 0 else c :=
  List.getElem?_mapIdx

theorem getElem?_cleared_of_not (hp : ¬ t.Clears sel b k p) : (cleared t sel b k)[p]? = b[p]? := by
  simp [getElem?_cleared, hp]

theorem clears_succ : t.Clears sel b (k + 1) p ↔
    t.Clears sel b k p ∨ (t.phdr b k).Picked sel ∧ t.entry k ≤ p ∧ p < t.entry k + 4 := by
  constructor
  · rintro ⟨i, hi, hs⟩
    rcases Nat.lt_succ_iff_lt_or_eq.mp hi with hi | rfl
    · exact .inl ⟨i, hi, hs⟩
    · exact .inr hs
  · rintro (⟨i, hi, hs⟩ | hs)
    · exact ⟨i, by omega, hs⟩
    · exact ⟨k, by omega, hs⟩

/-- Bytes of two entries: they are of one entry. -/
theorem Table.Wide.entry_inj (ht : t.Wide) {i' : ℕ} (hj : j < t.phentsize) (hle : t.entry i' ≤ t.entry i + j)
    (hlt : t.entry i + j < t.entry i' + 4) : i' = i := by
  unfold Table.Wide at ht
  unfold Table.entry at hle hlt
  have hle' : i' * t.phentsize < (i + 1) * t.phentsize := by
    rw [Nat.succ_mul]
    omega
  have hge' : i * t.phentsize < (i' + 1) * t.phentsize := by
    rw [Nat.succ_mul]
    omega
  have := Nat.lt_of_mul_lt_mul_right hle'
  have := Nat.lt_of_mul_lt_mul_right hge'
  omega

/-- Only the type word of an entry itself is ever cleared in its place. -/
theorem Table.Clears.entry (ht : t.Wide) (hc : t.Clears sel b k (t.entry i + j)) (hj : j < t.phentsize) :
    i < k ∧ (t.phdr b i).Picked sel ∧ j < 4 := by
  obtain ⟨i', hi', hs, hle, hlt⟩ := hc
  obtain rfl := ht.entry_inj hj hle hlt
  exact ⟨hi', hs, by omega⟩

theorem clears_entry (ht : t.Wide) (hj : j < 4) :
    t.Clears sel b k (t.entry i + j) ↔ i < k ∧ (t.phdr b i).Picked sel := by
  constructor
  · intro hc
    have h := hc.entry ht (hj.trans_le ((by omega : 4 ≤ 24).trans ht))
    exact ⟨h.1, h.2.1⟩
  · rintro ⟨hi, hs⟩
    exact ⟨i, hi, hs, by omega, by omega⟩

theorem cleared_zero : cleared t sel b 0 = b := by
  apply List.ext_getElem?
  intro p
  apply getElem?_cleared_of_not
  rintro ⟨i, hi, -⟩
  omega

/-- **An entry of the cleared file.** -/
theorem phdr_cleared (ht : t.Wide) (hin : t.entry i + 24 ≤ b.length) : t.phdr (cleared t sel b k) i =
    if i < k ∧ (t.phdr b i).Picked sel then { t.phdr b i with type := ptNull } else t.phdr b i := by
  have hrest : ∀ j < 24, 4 ≤ j → (cleared t sel b k)[t.entry i + j]? = b[t.entry i + j]? := by
    intro j hj hj'
    apply getElem?_cleared_of_not
    intro hc
    have := (hc.entry ht (hj.trans_le ht)).2.2
    omega
  unfold Table.phdr
  rw [phdr_congr hrest]
  split_ifs with hs
  · have hzero : word32 (cleared t sel b k) (t.entry i) = ptNull := by
      apply word32_zero
      intro j hj
      have hc : t.Clears sel b k (t.entry i + j) := (clears_entry ht hj).mpr hs
      rw [getElem?_cleared, List.getElem?_eq_getElem (by omega)]
      simp [hc]
    rw [hzero]
  · have hsame : word32 (cleared t sel b k) (t.entry i) = word32 b (t.entry i) := by
      apply word32_congr
      intro j hj
      apply getElem?_cleared_of_not
      intro hc
      exact hs ((clears_entry ht hj).mp hc)
    rw [hsame]
    rfl

theorem cleared_succ (hin : t.entry k + 24 ≤ b.length) : cleared t sel b (k + 1) =
    if (t.phdr b k).Picked sel then setWord (cleared t sel b k) (t.entry k) ptNull
      else cleared t sel b k := by
  apply List.ext_getElem?
  intro p
  split_ifs with hs
  · rw [getElem?_setWord (by rw [length_cleared]; omega), getElem?_cleared, getElem?_cleared]
    simp only [clears_succ, hs, true_and]
    by_cases hp : t.entry k ≤ p ∧ p < t.entry k + 4
    · rw [if_pos hp, List.getElem?_eq_getElem (by omega)]
      simp [hp]
    · rw [if_neg hp]
      simp only [hp, or_false]
  · simp [getElem?_cleared, clears_succ, hs]

theorem picked_sup {p : Phdr} : p.Picked (sel ⊔ sel') ↔ p.Picked sel ∨ p.Picked sel' := by
  have hor : (sel ⊔ sel') p = true ↔ sel p = true ∨ sel' p = true := Bool.or_eq_true_iff
  simp only [Phdr.Picked, hor]
  tauto

/-- An entry that has been cleared is not selected again. -/
theorem picked_cleared (ht : t.Wide) (hin : t.entry i + 24 ≤ b.length) :
    (t.phdr (cleared t sel' b k) i).Picked sel ↔
      (t.phdr b i).Picked sel ∧ ¬ (i < k ∧ (t.phdr b i).Picked sel') := by
  rw [phdr_cleared ht hin]
  split_ifs with hs
  · have hnull : ¬ ({ t.phdr b i with type := ptNull } : Phdr).Picked sel := by
      rintro ⟨htype, -⟩
      have hne : ptNull ≠ ptLoad := by decide
      exact hne htype
    tauto
  · tauto

theorem cleared_bot : cleared t (⊥ : Selection) b k = b := by
  apply List.ext_getElem?
  intro p
  apply getElem?_cleared_of_not
  rintro ⟨i, -, ⟨-, hbot⟩, -⟩
  exact Bool.false_ne_true hbot

/-- **One selection behind the other** is both at once. -/
theorem cleared_cleared (ht : t.Wide) (hin : t.Inside b k) :
    cleared t sel (cleared t sel' b k) k = cleared t (sel ⊔ sel') b k := by
  have hclears : ∀ p, t.Clears (sel ⊔ sel') b k p ↔
      t.Clears sel (cleared t sel' b k) k p ∨ t.Clears sel' b k p := by
    intro p
    constructor
    · rintro ⟨i, hi, hs, hwin⟩
      by_cases hs' : (t.phdr b i).Picked sel'
      · exact .inr ⟨i, hi, hs', hwin⟩
      · have hsel := (picked_sup.mp hs).resolve_right hs'
        exact .inl ⟨i, hi, (picked_cleared ht (hin i hi)).mpr ⟨hsel, fun h => hs' h.2⟩, hwin⟩
    · rintro (⟨i, hi, hs, hwin⟩ | ⟨i, hi, hs, hwin⟩)
      · exact ⟨i, hi, picked_sup.mpr (.inl ((picked_cleared ht (hin i hi)).mp hs).1), hwin⟩
      · exact ⟨i, hi, picked_sup.mpr (.inr hs), hwin⟩
  apply List.ext_getElem?
  intro p
  rw [getElem?_cleared, getElem?_cleared, getElem?_cleared, Option.map_map]
  congr 1
  funext c
  simp only [Function.comp_apply, hclears]
  split_ifs <;> tauto

end Cleared

/-! ## Loops -/

section Loop

variable {ε ρ : Type} {e e' : ε} {t : Table} {sel : Selection} {report : ℕ → Phdr → ρ} {b c : List Byte}
  {i k : ℕ}

/-- The body of a tool's loop: an entry that cannot be read raises `e`, and one that is selected
becomes `PT_NULL` and is reported. -/
def clearEntry (e : ε) (t : Table) (sel : Selection) (report : ℕ → Phdr → ρ) (s : List Byte × List ρ)
    (i : ℕ) : Except ε (List Byte × List ρ) :=
  if t.entry i + 24 ≤ s.1.length then
    .ok (if (t.phdr s.1 i).Picked sel then
      (setWord s.1 (t.entry i) ptNull, s.2 ++ [report i (t.phdr s.1 i)]) else s)
  else .error e

/-- The reports of the selected entries among the first `k`. -/
def reports (t : Table) (sel : Selection) (report : ℕ → Phdr → ρ) (b : List Byte) (k : ℕ) : List ρ :=
  ((List.range k).filter fun i => (t.phdr b i).Picked sel).map fun i => report i (t.phdr b i)

theorem reports_succ : reports t sel report b (k + 1) = reports t sel report b k ++
    if (t.phdr b k).Picked sel then [report k (t.phdr b k)] else [] := by
  unfold reports
  rw [List.range_succ, List.filter_append, List.map_append]
  split_ifs with hs <;> simp [hs]

theorem clearEntry_cleared (ht : t.Wide) (hin : t.entry k + 24 ≤ b.length) :
    clearEntry e t sel report (cleared t sel b k, reports t sel report b k) k =
      .ok (cleared t sel b (k + 1), reports t sel report b (k + 1)) := by
  have hp : t.phdr (cleared t sel b k) k = t.phdr b k := by simp [phdr_cleared ht hin]
  unfold clearEntry
  rw [if_pos (by rw [length_cleared]; exact hin), hp, cleared_succ hin, reports_succ]
  split_ifs
  · rfl
  · rw [List.append_nil]

/-- **What a loop computes** from entries that can all be read and do not overlap. -/
theorem foldlM_clearEntry (ht : t.Wide) (hin : t.Inside b k) :
    (List.range k).foldlM (clearEntry e t sel report) (b, []) =
      .ok (cleared t sel b k, reports t sel report b k) := by
  induction k with
  | zero =>
    rw [cleared_zero]
    rfl
  | succ k ih =>
    rw [List.range_succ, List.foldlM_append, ih fun i hi => hin i (by omega)]
    show ([k].foldlM (clearEntry e t sel report) (cleared t sel b k, reports t sel report b k)) = _
    rw [List.foldlM_cons, clearEntry_cleared ht (hin k (Nat.lt_succ_self k))]
    rfl

/-- A loop that comes to its end has read all entries. -/
theorem inside_of_foldlM (ht : t.Wide) {s : List Byte × List ρ}
    (hs : (List.range k).foldlM (clearEntry e t sel report) (b, []) = .ok s) : t.Inside b k := by
  induction k generalizing s with
  | zero =>
    intro i hi
    omega
  | succ k ih =>
    rw [List.range_succ, List.foldlM_append] at hs
    cases hfirst : (List.range k).foldlM (clearEntry e t sel report) (b, []) with
    | error out =>
      rw [hfirst] at hs
      cases hs
    | ok s' =>
      have hin : t.Inside b k := ih hfirst
      intro i hi
      rcases Nat.lt_succ_iff_lt_or_eq.mp hi with hi | rfl
      · exact hin i hi
      · by_contra hlen
        rw [foldlM_clearEntry ht hin] at hs
        have hs' : [i].foldlM (clearEntry e t sel report) (cleared t sel b i, reports t sel report b i) =
            .ok s := hs
        rw [List.foldlM_cons, clearEntry, if_neg (by rw [length_cleared]; exact hlen)] at hs'
        cases hs'

/-- An exception is all that ends a loop early. -/
theorem eq_of_foldlM_error {s : List Byte × List ρ} {l : List ℕ}
    (hs : l.foldlM (clearEntry e t sel report) s = .error e') : e' = e := by
  induction l generalizing s with
  | nil => cases hs
  | cons i l ih =>
    rw [List.foldlM_cons] at hs
    by_cases hlen : t.entry i + 24 ≤ s.1.length
    · rw [clearEntry, if_pos hlen] at hs
      exact ih hs
    · rw [clearEntry, if_neg hlen] at hs
      cases hs
      rfl

end Loop

/-! ## Files -/

/-- The header's words about the table. -/
def table (b : List Byte) : Table := ⟨(word32 b 28).toNat, half16 b 42, half16 b 44⟩

/-- An ELF32 little-endian file whose program headers are behind its header and inside the file. -/
structure WellFormed (b : List Byte) : Prop where
  magic : b.take 4 = [0x7F, 0x45, 0x4C, 0x46]
  elf32 : b.getD 4 0 = 1
  littleEndian : b.getD 5 0 = 1
  behind : 52 ≤ (table b).phoff
  size : 32 ≤ (table b).phentsize
  inside : (table b).phoff + (table b).phnum * (table b).phentsize ≤ b.length

def Elf32 : Type := { b : List Byte // WellFormed b }

section Files

variable {b b' : List Byte} {sel : Selection} {p : ℕ}

theorem table_congr (h : ∀ p < 52, b'[p]? = b[p]?) : table b' = table b := by
  unfold table
  rw [word32_congr fun j hj => h (28 + j) (by omega), half16_congr fun j hj => h (42 + j) (by omega),
    half16_congr fun j hj => h (44 + j) (by omega)]

theorem WellFormed.wide (h : WellFormed b) : (table b).Wide := by
  have := h.size
  unfold Table.Wide
  omega

theorem WellFormed.table_inside (h : WellFormed b) : (table b).Inside b (table b).phnum := by
  intro i hi
  have hsize := h.size
  have hinside := h.inside
  have hmul : (i + 1) * (table b).phentsize ≤ (table b).phnum * (table b).phentsize :=
    Nat.mul_le_mul_right _ hi
  rw [Nat.succ_mul] at hmul
  unfold Table.entry
  omega

theorem WellFormed.length (h : WellFormed b) : 52 ≤ b.length := by
  have := h.behind
  have := h.inside
  omega

/-- **The ELF header** is never touched. -/
theorem getElem?_cleared_header (h : WellFormed b) (hp : p < 52) :
    (cleared (table b) sel b (table b).phnum)[p]? = b[p]? := by
  apply getElem?_cleared_of_not
  rintro ⟨i, -, -, hle, -⟩
  have := h.behind
  unfold Table.entry at hle
  omega

theorem table_cleared (h : WellFormed b) : table (cleared (table b) sel b (table b).phnum) = table b :=
  table_congr fun _ hp => getElem?_cleared_header h hp

theorem WellFormed.cleared (h : WellFormed b) :
    WellFormed (cleared (table b) sel b (table b).phnum) := by
  have hget : ∀ p < 52, (PatchElf.cleared (table b) sel b (table b).phnum).getD p 0 = b.getD p 0 := by
    intro p hp
    rw [List.getD_eq_getElem?_getD, List.getD_eq_getElem?_getD, getElem?_cleared_header h hp]
  constructor
  · rw [← h.magic]
    apply List.ext_getElem?
    intro p
    rw [List.getElem?_take, List.getElem?_take]
    split_ifs with hp
    · exact getElem?_cleared_header h (by omega)
    · rfl
  · rw [hget 4 (by omega), h.elf32]
  · rw [hget 5 (by omega), h.littleEndian]
  · rw [table_cleared h]
    exact h.behind
  · rw [table_cleared h]
    exact h.size
  · rw [table_cleared h, length_cleared]
    exact h.inside

/-- The selected `PT_LOAD` entries of a file become `PT_NULL`. -/
def Elf32.clear (sel : Selection) (f : Elf32) : Elf32 :=
  ⟨PatchElf.cleared (table f.1) sel f.1 (table f.1).phnum, f.2.cleared⟩

theorem Elf32.table_clear (sel : Selection) (f : Elf32) : table (f.clear sel).1 = table f.1 :=
  table_cleared f.2

theorem joins_clear : Joins Elf32.clear := by
  constructor
  · intro f
    exact Subtype.ext cleared_bot
  · intro sel sel' f
    apply Subtype.ext
    show PatchElf.cleared (table (f.clear sel').1) _ _ (table (f.clear sel').1).phnum = _
    rw [f.table_clear]
    exact cleared_cleared f.2.wide f.2.table_inside

end Files

end CR8Devkit.PatchElf
