import CR8Devkit.BlackBox.Reentry
import CR8Devkit.Client.Proto

/-!
# The black box as `bb.py` reads it

* `image`: the box as bytes; `rd`: the 32-bit word that `bb.py` reads at an offset, and `rdStr`: a
  string from several of them.
* `Field.offset`: where the C structure has a field; `rd_offset`: that is where `bb.py` finds it.
* `faultReport`: the cause of death in the report.
* `faultReport_fault`: what the fault helper has stored is what is read, and nothing is read before
  all of it is stored.
-/

namespace CR8Devkit.BlackBox

open Access Access.Prog Proto
open WaitReply (Byte)

/-! ## Words at offsets -/

/-- The bytes of a field. -/
def Field.bytes (m : Mem) : Field → List Byte
  | .faultTask i => [(m (.bb (.faultTask i))).setWidth 8]
  | f => le32 (m (.bb f))

/-- The box in memory. -/
def image (m : Mem) : List Byte := Field.all.flatMap (Field.bytes m)

/-- `rd`. -/
def rd (m : Mem) (off : ℕ) : Word := word32 (image m) off

/-- Up to the first NUL, decoded as ASCII. -/
def asciiText (b : List Byte) : List Char :=
  (b.takeWhile (· ≠ 0)).map fun c => if c.toNat < 128 then Char.ofNat c.toNat else Char.ofNat 0xFFFD

/-- `rd_str`: `n / 4` words, put together again. -/
def rdStr (m : Mem) (off n : ℕ) : List Char :=
  asciiText ((List.range (n / 4)).flatMap fun i => le32 (rd m (off + i * 4)))

/-- `sizeof` the field. -/
def Field.size : Field → ℕ
  | .faultTask _ => 1
  | _ => 4

/-- The offset of the field in the structure. -/
def Field.offset (f : Field) : ℕ := ((Field.all.takeWhile (· ≠ f)).map Field.size).sum

/-- What `bb.py` prints of a latched fault. -/
structure FaultReport where
  type : Word
  arg0 : Word
  arg1 : Word
  lr : Word
  task : List Char
  deriving DecidableEq

/-- The cause of death, if the box is initialised and there is one. -/
def faultReport (m : Mem) : Option FaultReport :=
  if rd m 0x00 = r8BbMagic then
    if rd m 0x44 ≠ 0 then
      some ⟨rd m 0x44, rd m 0x48, rd m 0x4C, rd m 0x50, rdStr m 0x54 16⟩
    else none
  else none

section Words

variable {m : Mem} {f : Field}

theorem length_bytes (m : Mem) (f : Field) : (f.bytes m).length = f.size := by
  cases f <;> rfl

theorem length_flatMap_bytes (m : Mem) (l : List Field) :
    (l.flatMap (Field.bytes m)).length = (l.map Field.size).sum := by
  simp [List.length_flatMap, length_bytes]

theorem bytes_of_size (h : f.size = 4) : f.bytes m = le32 (m (.bb f)) := by
  cases f with
  | faultTask i => cases h
  | _ => rfl

theorem dropWhile_ne {l : List Field} (h : f ∈ l) : ∃ rest, l.dropWhile (· ≠ f) = f :: rest := by
  induction l with
  | nil => cases h
  | cons g l ih =>
    by_cases hg : g = f
    · exact ⟨l, by simp [hg]⟩
    · simpa [hg] using ih ((List.mem_cons.mp h).resolve_left (Ne.symm hg))

/-- **Each word of the box is read at its offset.** -/
theorem rd_offset (h : f.size = 4) : rd m f.offset = m (.bb f) := by
  obtain ⟨rest, hrest⟩ := dropWhile_ne (Field.mem_all f)
  have hall : Field.all = Field.all.takeWhile (· ≠ f) ++ f :: rest := by
    rw [← hrest, List.takeWhile_append_dropWhile]
  have himage : image m = (Field.all.takeWhile (· ≠ f)).flatMap (Field.bytes m) ++
      (le32 (m (.bb f)) ++ rest.flatMap (Field.bytes m)) := by
    conv_lhs => rw [image, hall]
    rw [List.flatMap_append, List.flatMap_cons, bytes_of_size h]
  have hoff : f.offset = ((Field.all.takeWhile (· ≠ f)).flatMap (Field.bytes m)).length + 0 := by
    rw [length_flatMap_bytes]
    rfl
  rw [rd, himage, hoff, word32_append, word32_le32]

theorem rd_faultFields (m : Mem) : rd m 0x00 = m (.bb .magic) ∧ rd m 0x44 = m (.bb .faultType) ∧
    rd m 0x48 = m (.bb .faultArg0) ∧ rd m 0x4C = m (.bb .faultArg1) ∧ rd m 0x50 = m (.bb .faultLr) :=
  ⟨rd_offset (f := .magic) rfl, rd_offset (f := .faultType) rfl, rd_offset (f := .faultArg0) rfl,
    rd_offset (f := .faultArg1) rfl, rd_offset (f := .faultLr) rfl⟩

theorem le32_word32 {b : List Byte} {i : ℕ} (h : i + 4 ≤ b.length) :
    le32 (word32 b i) = (b.drop i).take 4 := by
  have hget : ∀ j, b.getD (i + j) 0 = (b.drop i).getD j 0 := by
    intro j
    simp [List.getD_eq_getElem?_getD]
  have hlen : 4 ≤ (b.drop i).length := by
    rw [List.length_drop]
    omega
  have h0 : b.getD i 0 = (b.drop i).getD 0 0 := hget 0
  unfold word32
  rw [h0, hget 1, hget 2, hget 3]
  match b.drop i, hlen with
  | a₀ :: a₁ :: a₂ :: a₃ :: l, _ =>
    have h0 := a₀.isLt
    have h1 := a₁.isLt
    have h2 := a₂.isLt
    have h3 := a₃.isLt
    simp only [List.getD_cons_zero, List.getD_cons_succ, le32, List.take_succ_cons, List.take_zero,
      List.cons.injEq, and_true, BitVec.toNat_ofNat]
    refine ⟨?_, ?_, ?_, ?_⟩ <;> apply BitVec.eq_of_toNat_eq <;> rw [BitVec.toNat_ofNat] <;> omega

/-- Words read one after the other are the bytes in memory. -/
theorem flatMap_rd {off k : ℕ} (h : off + 4 * k ≤ (image m).length) :
    ((List.range k).flatMap fun i => le32 (rd m (off + i * 4))) = ((image m).drop off).take (4 * k) := by
  induction k with
  | zero => rfl
  | succ k ih =>
    rw [List.range_succ, List.flatMap_append, ih (by omega), List.flatMap_singleton, rd,
      le32_word32 (by omega)]
    have hk : 4 * (k + 1) = 4 * k + 4 := by omega
    rw [hk, List.take_add, List.drop_drop]
    congr 3
    omega

/-- The characters of the task. -/
def taskBytes (m : Mem) : List Byte := (List.finRange 16).map fun i => (m (.bb (.faultTask i))).setWidth 8

theorem all_split : Field.all =
    Field.all.take 21 ++ ((List.finRange 16).map Field.faultTask ++ Field.all.drop 37) := rfl

/-- **The four words at `fault_task` are its characters.** -/
theorem rdStr_task (m : Mem) : rdStr m 0x54 16 = asciiText (taskBytes m) := by
  have hbytes : ((List.finRange 16).map Field.faultTask).flatMap (Field.bytes m) = taskBytes m := by
    rw [List.flatMap_map]
    exact List.map_eq_flatMap.symm
  have himage : image m = (Field.all.take 21).flatMap (Field.bytes m) ++
      (taskBytes m ++ (Field.all.drop 37).flatMap (Field.bytes m)) := by
    conv_lhs => rw [image, all_split]
    rw [List.flatMap_append, List.flatMap_append, hbytes]
  have hfront : ((Field.all.take 21).flatMap (Field.bytes m)).length = 0x54 := by
    rw [length_flatMap_bytes]
    rfl
  have htask : (taskBytes m).length = 16 := by simp [taskBytes]
  have hlen : 0x54 + 4 * 4 ≤ (image m).length := by
    rw [himage, List.length_append, List.length_append, hfront, htask]
    omega
  show asciiText ((List.range 4).flatMap fun i => le32 (rd m (0x54 + i * 4))) = _
  rw [flatMap_rd hlen, himage, List.drop_left' hfront, List.take_left' htask]

end Words

/-! ## The task's name -/

/-- The string `s` is the NUL-terminated `name`, all in ASCII. -/
structure NameAt (m : Mem) (s : Str) (name : List Byte) : Prop where
  ascii : ∀ c ∈ name, c ≠ 0 ∧ c.toNat < 128
  chars : ∀ i (h : i < name.length), m (.char s i) = (name[i]).setWidth 32
  nul : m (.char s name.length) = 0

/-- What the task of a fault is called: nothing at all for a null pointer. -/
def Named (m : Mem) : Option Str → List Byte → Prop
  | none, name => name = []
  | some s, name => NameAt m s name

/-- The record as the report shows it. -/
def reportOf (type a0 a1 lr : Word) (name : List Byte) : FaultReport :=
  ⟨type, a0, a1, lr, (name.take 15).map fun c => Char.ofNat c.toNat⟩

section Name

variable {m m' : Mem} {s : Str} {name : List Byte}

theorem Named.congr {task : Option Str} (h : Named m task name)
    (hm : ∀ s i, m' (.char s i) = m (.char s i)) : Named m' task name := by
  cases task with
  | none => exact h
  | some s => exact ⟨h.ascii, fun i hi => (hm s i).trans (h.chars i hi), (hm s _).trans h.nul⟩

theorem toNat_faultTaskAt {i : ℕ} (h : i < 16) : faultTaskAt i = .bb (.faultTask ⟨i, h⟩) := by
  unfold faultTaskAt
  congr 2
  exact Fin.ext (Nat.mod_eq_of_lt h)

theorem storesIn_copyTask_from (s : Str) (n i : ℕ) : (copyTask s n i).StoresIn fun a =>
    ∃ j, i ≤ j ∧ j ≤ i + n ∧ a = faultTaskAt j := by
  induction n generalizing i with
  | zero => exact storesIn_set ⟨i, le_rfl, le_rfl, rfl⟩
  | succ n ih =>
    refine storesIn_get_bind fun c => storesIn_ite (fun _ => storesIn_set ⟨i, le_rfl, by omega, rfl⟩)
      fun _ => storesIn_set_bind ⟨i, le_rfl, by omega, rfl⟩ ((ih (i + 1)).mono ?_)
    rintro a ⟨j, hij, hj, rfl⟩
    exact ⟨j, by omega, by omega, rfl⟩

theorem faultTaskAt_inj {i j : ℕ} (hi : i < 16) (hj : j < 16) (h : faultTaskAt i = faultTaskAt j) :
    i = j := by
  rw [toNat_faultTaskAt hi, toNat_faultTaskAt hj] at h
  simpa using h

theorem NameAt.update (h : NameAt m s name) (f : Field) (v : Word) :
    NameAt (Function.update m (.bb f) v) s name :=
  ⟨h.ascii, fun i hi => by simpa using h.chars i hi, by simpa using h.nul⟩

/-- **The copy loop**, from character `i` on: the characters up to the terminator or the end of the
array, and a NUL behind them. -/
theorem exec_copyTask (h : NameAt m s name) {n i : ℕ} (hi : i ≤ name.length) (hn : i + n = 15) :
    (∀ j (hj : j < name.length), i ≤ j → j < 15 →
      ((copyTask s n i).exec m).2 (faultTaskAt j) = (name[j]).setWidth 32) ∧
    ((copyTask s n i).exec m).2 (faultTaskAt (min name.length 15)) = 0 := by
  induction n generalizing i m with
  | zero =>
    have hmin : min name.length 15 = i := by omega
    refine ⟨fun j hj hij hj15 => by omega, ?_⟩
    rw [hmin]
    exact Function.update_self _ _ _
  | succ n ih =>
    rcases Nat.lt_or_ge i name.length with hlt | hge
    · have hc : m (.char s i) = (name[i]).setWidth 32 := h.chars i hlt
      have hne : m (.char s i) ≠ 0 := by
        intro h0
        rw [hc] at h0
        refine (h.ascii _ (List.getElem_mem hlt)).1 (BitVec.eq_of_toNat_eq ?_)
        have h1 : (name[i]).toNat % 2 ^ 32 = 0 :=
          (BitVec.toNat_setWidth 32 _).symm.trans (congrArg BitVec.toNat h0)
        have h2 := (name[i]).isLt
        show (name[i]).toNat = 0
        omega
      have hexec : ((copyTask s (n + 1) i).exec m).2 =
          ((copyTask s n (i + 1)).exec (Function.update m (faultTaskAt i) (m (.char s i)))).2 :=
        congrArg (fun p : Code Unit => (p.exec m).2) (if_neg hne)
      have hname : NameAt (Function.update m (faultTaskAt i) (m (.char s i))) s name := h.update _ _
      obtain ⟨hchars, hnul⟩ := ih hname hlt (by omega)
      rw [hexec]
      refine ⟨fun j hj hij hj15 => ?_, hnul⟩
      rcases Nat.eq_or_lt_of_le hij with rfl | hij
      · -- the loop goes on behind this character
        refine (exec_frame (storesIn_copyTask_from s n (i + 1)) ?_).trans ?_
        · rintro ⟨k, hk, hk', he⟩
          have := faultTaskAt_inj (by omega) (by omega) he
          omega
        · rw [Function.update_self, hc]
      · exact hchars j hj hij hj15
    · have hlen : name.length = i := by omega
      have hmin : min name.length 15 = i := by omega
      have h0 : m (.char s i) = 0 := by rw [← hlen, h.nul]
      have hexec : ((copyTask s (n + 1) i).exec m).2 = Function.update m (faultTaskAt i) 0 :=
        congrArg (fun p : Code Unit => (p.exec m).2) (if_pos h0)
      rw [hexec, hmin]
      exact ⟨fun j hj hij _ => by omega, Function.update_self _ _ _⟩

theorem takeWhile_eq_take {l : List Byte} {k : ℕ} (hk : k < l.length) (h : ∀ c ∈ l.take k, c ≠ 0)
    (h0 : l[k] = 0) : l.takeWhile (· ≠ 0) = l.take k := by
  conv_lhs => rw [← List.take_append_drop k l]
  rw [List.takeWhile_append_of_pos (by simpa using h), List.drop_eq_getElem_cons hk]
  simp [h0]

/-- **The name that is read back.** -/
theorem rdStr_copyTask (h : NameAt m s name) : rdStr ((copyTask s 15 0).exec m).2 0x54 16 =
    (name.take 15).map fun c => Char.ofNat c.toNat := by
  obtain ⟨hchars, hnul⟩ := exec_copyTask h (Nat.zero_le _) (Nat.zero_add 15)
  generalize ((copyTask s 15 0).exec m).2 = m' at hchars hnul
  have htake : (taskBytes m').take (min name.length 15) = name.take 15 := by
    refine List.ext_getElem (by simp [taskBytes, Nat.min_comm]) fun i hi hi' => ?_
    have hlen : i < name.length ∧ i < 15 := by
      rw [List.length_take] at hi'
      omega
    have hcell := hchars i hlen.1 (Nat.zero_le i) hlen.2
    rw [toNat_faultTaskAt (by omega)] at hcell
    simp [taskBytes, hcell]
  have hlt : min name.length 15 < (taskBytes m').length := by simp [taskBytes]
  have hend : (taskBytes m')[min name.length 15] = 0 := by
    rw [toNat_faultTaskAt (by omega)] at hnul
    simp [taskBytes, hnul]
  have hascii : ∀ c ∈ name.take 15, c ≠ 0 ∧ c.toNat < 128 := fun c hc =>
    h.ascii c (List.mem_of_mem_take hc)
  rw [rdStr_task, asciiText, takeWhile_eq_take _ (by rw [htake]; exact fun c hc => (hascii c hc).1) hend,
    htake]
  refine List.map_congr_left fun c hc => if_pos (hascii c hc).2

end Name

/-! ## The record -/

section Record

variable {m m' : Mem} {type a0 a1 lr : Word} {task : Option Str} {name : List Byte}

/-- The helper's way through the latch, on a box that is free. -/
theorem exec_latch (h : m (.bb .faultType) = r8FaultNone) : ((latch type a0 a1 lr task).exec m).2 =
    Function.update ((latchArgs a0 a1 lr task).exec m).2 (.bb .faultType) type := by
  refine (congrArg (fun p : Code Unit => (p.exec m).2) (if_pos h)).trans ?_
  rw [exec_bind]
  rfl

theorem exec_latchArgs (a0 a1 lr : Word) (task : Option Str) (m : Mem) :
    ((latchArgs a0 a1 lr task).exec m).2 = ((copyName task).exec (Function.update (Function.update
      (Function.update m (.bb .faultArg0) a0) (.bb .faultArg1) a1) (.bb .faultLr) lr)).2 := rfl

theorem storesIn_copyName (task : Option Str) :
    (copyName task).StoresIn fun a => ∃ j, a = .bb (.faultTask j) := by
  cases task with
  | none => exact trivial
  | some s => exact storesIn_copyTask s 15 0 fun j => ⟨j, rfl⟩

/-- The characters that `copyName` leaves for the reader. -/
theorem rdStr_copyName (hname : Named m task name)
    (hnull : task = none → ∀ i, m (.bb (.faultTask i)) = 0) :
    rdStr ((copyName task).exec m).2 0x54 16 = (name.take 15).map fun c => Char.ofNat c.toNat := by
  cases task with
  | some s => exact rdStr_copyTask hname
  | none =>
    have hzero : taskBytes m = List.replicate 16 0 := by
      refine List.eq_replicate_iff.mpr ⟨by simp [taskBytes], fun b hb => ?_⟩
      obtain ⟨i, -, rfl⟩ := List.mem_map.mp hb
      rw [hnull rfl i]
      rfl
    have hname' : name = [] := hname
    show rdStr m 0x54 16 = _
    rw [rdStr_task, hzero, hname']
    rfl

/-- **The report of a free box** after the latch; for a null pointer the task's cells are clear. -/
theorem faultReport_latch (hr : Ready m) (hfree : m (.bb .faultType) = r8FaultNone) (ht : type ≠ 0)
    (hname : Named m task name) (hnull : task = none → ∀ i, m (.bb (.faultTask i)) = 0) :
    faultReport ((latch type a0 a1 lr task).exec m).2 = some (reportOf type a0 a1 lr name) := by
  have hstr := rdStr_copyName (m := Function.update (Function.update
    (Function.update m (.bb .faultArg0) a0) (.bb .faultArg1) a1) (.bb .faultLr) lr)
    (hname.congr fun s i => by simp) fun hn i => by simpa using hnull hn i
  rw [exec_latch hfree, exec_latchArgs]
  have hframe : ∀ {f : Field}, (∀ j, f ≠ .faultTask j) → ∀ m : Mem,
      ((copyName task).exec m).2 (.bb f) = m (.bb f) := fun hf m =>
    exec_frame (storesIn_copyName task) fun ⟨j, hj⟩ => hf j (Loc.bb.inj hj)
  have htask : ∀ (m : Mem) v, rdStr (Function.update m (.bb .faultType) v) 0x54 16 = rdStr m 0x54 16 := by
    intro m v
    have hsame : taskBytes (Function.update m (.bb .faultType) v) = taskBytes m := by simp [taskBytes]
    rw [rdStr_task, rdStr_task, hsame]
  have hmagic : m (.bb .magic) = r8BbMagic := hr
  obtain ⟨h0, h1, h2, h3, h4⟩ := rd_faultFields (Function.update ((copyName task).exec (Function.update
    (Function.update (Function.update m (.bb .faultArg0) a0) (.bb .faultArg1) a1) (.bb .faultLr) lr)).2
    (.bb .faultType) type)
  unfold faultReport
  rw [h0, h1, h2, h3, h4, htask, hstr]
  simp [hframe, hmagic, reportOf]
  exact ht

/-- Up to the latch the box has no magic, or no fault. -/
theorem ensureMagic_moments (hf : First m) (hm : m' ∈ ensureMagic.moments m) :
    ¬ Ready m' ∨ m' (.bb .faultType) = r8FaultNone := by
  by_cases hr : Ready m
  · rw [moments_ensureMagic_of_ready hr] at hm
    rw [List.mem_singleton.mp hm]
    exact hf
  · have hmoments : ensureMagic.moments m = m :: (memset.moments m ++ [(memset.exec m).2,
        Function.update (memset.exec m).2 (.bb .magic) r8BbMagic]) := by
      refine (congrArg (fun p : Code Unit => m :: p.moments m) (if_neg hr)).trans ?_
      rw [moments_bind]
      rfl
    have hzero : ∀ f, (memset.exec m).2 (.bb f) = 0 := fun f =>
      (exec_wipe Field.all f).trans (if_pos (Field.mem_all f))
    rw [hmoments] at hm
    simp only [List.mem_cons, List.mem_append, List.not_mem_nil, or_false] at hm
    rcases hm with rfl | hm | rfl | rfl
    · exact .inl hr
    · left
      rcases wipe_moments Field.all .magic hm with hmagic | hmagic
      · rwa [Ready, hmagic]
      · rw [Ready, hmagic]
        decide
    · left
      rw [Ready, hzero]
      decide
    · right
      rw [Function.update_of_ne (by simp), hzero]
      rfl

/-- **What the fault helper stores is what `bb.py` reads**: at its end, and at every moment at which
the box carries its magic and a fault. -/
theorem faultReport_fault (hf : Ready m → m (.bb .faultType) = r8FaultNone) (ht : type ≠ 0)
    (a0 a1 lr : Word) (hname : Named m task name) (hnull : task = none → ¬ Ready m) :
    faultReport ((r8BlackboxFault type a0 a1 lr task).exec m).2 = some (reportOf type a0 a1 lr name) ∧
      ∀ m' ∈ (r8BlackboxFault type a0 a1 lr task).states m, Ready m' → m' (.bb .faultType) ≠ r8FaultNone →
        faultReport m' = some (reportOf type a0 a1 lr name) := by
  have hfirst : First m := by
    unfold First
    tauto
  have hfree : (ensureMagic.exec m).2 (.bb .faultType) = r8FaultNone :=
    (first_ensureMagic.mpr hfirst).resolve_left (not_not_intro ready_ensureMagic)
  have hname' : Named (ensureMagic.exec m).2 task name := hname.congr fun s i =>
    outside_of_states storesIn_ensureMagic (exec_mem_states _ _) _ fun f => by simp
  have hclear : task = none → ∀ i, (ensureMagic.exec m).2 (.bb (.faultTask i)) = 0 := by
    intro hn i
    rw [exec_ensureMagic_of_not_ready (hnull hn), Function.update_of_ne (by simp),
      Function.update_of_ne (by simp)]
    exact (exec_wipe Field.all _).trans (if_pos (Field.mem_all _))
  have hend : faultReport ((latch type a0 a1 lr task).exec (ensureMagic.exec m).2).2 =
      some (reportOf type a0 a1 lr name) :=
    faultReport_latch ready_ensureMagic hfree ht hname' hclear
  unfold r8BlackboxFault
  rw [exec_bind]
  refine ⟨hend, fun m' hm hr hfault => ?_⟩
  rcases mem_states_bind.mp hm with hm | hm
  · rcases ensureMagic_moments hfirst hm with hn | hnone
    · exact absurd hr hn
    · exact absurd hnone hfault
  · rcases List.mem_append.mp hm with hm | hm
    · -- before its last store the latch has not touched the fault type
      exact absurd ((latch_moments hm).faultType.trans hfree) hfault
    · rw [List.mem_singleton.mp hm]
      exact hend

/-- Garbage everywhere but in the strings. -/
def garbage : Mem := Mem.withStrings fun _ => 0xDEADBEEF

theorem faultReport_fault_garbage :
    faultReport ((r8BlackboxFault 2 1 2 3 (some .pcTaskName)).exec garbage).2 =
        some (reportOf 2 1 2 3 [114, 112, 109, 115, 103]) ∧
      ∀ m' ∈ (r8BlackboxFault 2 1 2 3 (some .pcTaskName)).states garbage,
        Ready m' → m' (.bb .faultType) ≠ r8FaultNone →
          faultReport m' = some (reportOf 2 1 2 3 [114, 112, 109, 115, 103]) :=
  faultReport_fault (fun h => absurd h (by decide)) (by decide) 1 2 3
    (show NameAt garbage .pcTaskName [114, 112, 109, 115, 103] from
      ⟨by simp, by decide, by decide⟩) (by simp)

end Record

end CR8Devkit.BlackBox
