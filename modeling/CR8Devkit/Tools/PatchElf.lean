import CR8Devkit.Tools.Phdrs

/-!
# `patch-elf-phdr.py`

* `main`: the tool on the file and its `.prepatch` copy; a run ends in an exception, or with an exit
  code and a report.
* `nulled`: the file with `PT_NULL` for the types of the stale entries among the first `k`;
  `foldlM_patchEntry`: what the patch loop computes.
* `main_cases`: the two ways through the tool.
* `Patched`: the file before and after, byte by byte; **`main_patches`**.
* `main_of_wellFormed`: the run on a well-formed file, as a clearing of the selected entries.
-/

namespace CR8Devkit.PatchElf

open Proto
open WaitReply (Byte)

def ddrMin : Word := 0x40000000

/-! ## The tool -/

/-- What an input can raise. -/
inductive Err
  | indexError
  | structError
  deriving DecidableEq

/-- A segment that was `PT_LOAD`. -/
structure Change where
  i : ℕ
  paddr : Word
  memsz : Word
  deriving DecidableEq

/-- What the tool prints. -/
inductive Report
  | notElf
  | onlyElf32LittleEndian
  | phentsize (n : ℕ)
  | alreadyPatched
  | stillLoad (bad : List ℕ)
  | done (changed : List Change) (nload phnum : ℕ)
  deriving DecidableEq

inductive Outcome
  | raised (e : Err)
  | returned (code : ℕ) (r : Report)
  deriving DecidableEq

/-- The file that is given, and the copy beside it. -/
structure Disk where
  file : List Byte
  prepatch : Option (List Byte)
  deriving DecidableEq

/-- The loop's condition: nothing in the file, and a load address in the DDR. -/
def Phdr.Stale (p : Phdr) : Prop := p.type = ptLoad ∧ p.filesz = 0 ∧ ddrMin ≤ p.paddr

instance (p : Phdr) : Decidable p.Stale := inferInstanceAs (Decidable (_ ∧ _))

def index (b : List Byte) (i : ℕ) : Except Outcome Byte :=
  if i < b.length then .ok (b.getD i 0) else .error (.raised .indexError)

/-- `struct.unpack_from` and `struct.pack_into`: `n` bytes from offset `o` on have to be there. -/
def within {α : Type} (b : List Byte) (o n : ℕ) (a : α) : Except Outcome α :=
  if o + n ≤ b.length then .ok a else .error (.raised .structError)

/-- Where the program headers are, and how many. -/
structure Header where
  phoff : ℕ
  phnum : ℕ

def readHeader (b : List Byte) : Except Outcome Header :=
  if b.take 4 ≠ [0x7F, 0x45, 0x4C, 0x46] then .error (.returned 1 .notElf) else do
    let cls ← index b 4
    if cls ≠ 1 then .error (.returned 1 .onlyElf32LittleEndian) else do
      let data ← index b 5
      if data ≠ 1 then .error (.returned 1 .onlyElf32LittleEndian) else do
        let phoff ← within b 0x1C 4 (word32 b 0x1C)
        let phentsize ← within b 0x2A 2 (half16 b 0x2A)
        let phnum ← within b 0x2C 2 (half16 b 0x2C)
        if phentsize ≠ 32 then .error (.returned 1 (.phentsize phentsize))
        else .ok ⟨phoff.toNat, phnum⟩

/-- `o` for entry `i`. -/
def Header.entry (h : Header) (i : ℕ) : ℕ := h.phoff + i * 32

/-- The body of the patch loop. -/
def patchEntry (h : Header) (s : List Byte × List Change) (i : ℕ) :
    Except Outcome (List Byte × List Change) := do
  let p ← within s.1 (h.entry i) 24 (phdr s.1 (h.entry i))
  if p.Stale then do
    let b ← within s.1 (h.entry i) 4 (setWord s.1 (h.entry i) ptNull)
    .ok (b, s.2 ++ [⟨i, p.paddr, p.memsz⟩])
  else .ok s

def patchTable (h : Header) (b : List Byte) : Except Outcome (List Byte × List Change) :=
  (List.range h.phnum).foldlM (patchEntry h) (b, [])

/-- The body of the verification loop. -/
def checkEntry (h : Header) (c : List Byte) (bad : List ℕ) (i : ℕ) : Except Outcome (List ℕ) := do
  let p ← within c (h.entry i) 24 (phdr c (h.entry i))
  .ok (if p.Stale then bad ++ [i] else bad)

def selfCheck (h : Header) (c : List Byte) : Except Outcome (List ℕ) :=
  (List.range h.phnum).foldlM (checkEntry h c) []

/-- `nload`. -/
def countLoad (h : Header) (c : List Byte) : Except Outcome ℕ :=
  (List.range h.phnum).foldlM (fun n i => do
    let type ← within c (h.entry i) 4 (word32 c (h.entry i))
    .ok (if type = ptLoad then n + 1 else n)) 0

/-- From the verification on, with the file as it is read again. -/
def verify (h : Header) (c : List Byte) (changed : List Change) : Except Outcome Outcome := do
  let bad ← selfCheck h c
  if bad ≠ [] then .ok (.returned 1 (.stillLoad bad)) else do
    let nload ← countLoad h c
    .ok (.returned 0 (.done changed nload h.phnum))

/-- An exception ends the run where it is raised. -/
def ended : Except Outcome Outcome → Outcome
  | .error out => out
  | .ok out => out

/-- The header and the patched table. -/
def patch (b : List Byte) : Except Outcome (Header × List Byte × List Change) := do
  let h ← readHeader b
  let s ← patchTable h b
  .ok (h, s)

def main (d : Disk) : Disk × Outcome :=
  match patch d.file with
  | .error out => (d, out)
  | .ok (h, b, changed) =>
    if changed = [] then (d, .returned 0 .alreadyPatched)
    else (⟨b, some d.file⟩, ended (verify h b changed))

/-! ## The patch loop -/

section Loop

variable {h : Header} {b b' : List Byte} {i k p : ℕ}

/-- Entry `i` of the table. -/
def Header.phdr (h : Header) (b : List Byte) (i : ℕ) : Phdr := PatchElf.phdr b (h.entry i)

/-- `p` is in the type word of a stale entry among the first `k`. -/
def Header.Nulls (h : Header) (b : List Byte) (k p : ℕ) : Prop :=
  ∃ i < k, (h.phdr b i).Stale ∧ h.entry i ≤ p ∧ p < h.entry i + 4

instance (h : Header) (b : List Byte) (k p : ℕ) : Decidable (h.Nulls b k p) := by
  unfold Header.Nulls; infer_instance

/-- The file with zeros there. -/
def nulled (h : Header) (b : List Byte) (k : ℕ) : List Byte :=
  b.mapIdx fun p c => if h.Nulls b k p then 0 else c

/-- `changed`. -/
def changes (h : Header) (b : List Byte) (k : ℕ) : List Change :=
  ((List.range k).filter fun i => (h.phdr b i).Stale).map fun i => ⟨i, (h.phdr b i).paddr, (h.phdr b i).memsz⟩

/-- The first `k` entries can be read. -/
def Header.Inside (h : Header) (b : List Byte) (k : ℕ) : Prop := ∀ i < k, h.entry i + 24 ≤ b.length

/-- The table that the loops go through. -/
def Header.table (h : Header) : Table := ⟨h.phoff, 32, h.phnum⟩

def stale : Selection := fun p => decide p.Stale

theorem picked_stale {q : Phdr} : q.Picked stale ↔ q.Stale := by
  simp only [Phdr.Picked, stale, decide_eq_true_eq, and_iff_right_iff_imp]
  exact fun hs => hs.1

theorem nulls_iff : h.Nulls b k p ↔ h.table.Clears stale b k p := by
  unfold Header.Nulls Table.Clears
  simp only [picked_stale]
  rfl

theorem nulled_eq : nulled h b k = cleared h.table stale b k := by
  simp only [nulled, cleared, nulls_iff]

theorem Header.wide (h : Header) : h.table.Wide := by
  show 24 ≤ 32
  omega

@[simp] theorem length_nulled : (nulled h b k).length = b.length := by
  rw [nulled_eq, length_cleared]

theorem getElem?_nulled (p : ℕ) : (nulled h b k)[p]? = b[p]?.map fun c => if h.Nulls b k p then 0 else c :=
  List.getElem?_mapIdx

theorem getElem?_nulled_of_not (hp : ¬ h.Nulls b k p) : (nulled h b k)[p]? = b[p]? := by
  simp [getElem?_nulled, hp]

/-- Entries lie 32 bytes apart, so only the type word of an entry itself is ever in its place. -/
theorem Header.Nulls.entry {j : ℕ} (hn : h.Nulls b k (h.entry i + j)) (hj : j < 32) :
    i < k ∧ (h.phdr b i).Stale ∧ j < 4 := by
  have hc := (nulls_iff.mp hn).entry h.wide hj
  exact ⟨hc.1, picked_stale.mp hc.2.1, hc.2.2⟩

/-- **An entry of the nulled file.** -/
theorem phdr_nulled (hin : h.entry i + 24 ≤ b.length) : h.phdr (nulled h b k) i =
    if i < k ∧ (h.phdr b i).Stale then { h.phdr b i with type := ptNull } else h.phdr b i := by
  rw [nulled_eq]
  refine (phdr_cleared h.wide hin).trans ?_
  simp only [picked_stale]
  rfl

/-- What is kept of an entry. -/
def change (i : ℕ) (q : Phdr) : Change := ⟨i, q.paddr, q.memsz⟩

theorem changes_eq : changes h b k = reports h.table stale change b k := by
  simp only [changes, reports, picked_stale]
  rfl

theorem patchEntry_eq : patchEntry h = clearEntry (.raised .structError) h.table stale change := by
  funext s i
  unfold patchEntry clearEntry within
  by_cases hin : h.entry i + 24 ≤ s.1.length
  · rw [if_pos hin, if_pos (by omega : h.entry i + 4 ≤ s.1.length)]
    refine Eq.trans ?_ (if_pos hin).symm
    simp only [picked_stale]
    show (if (h.phdr s.1 i).Stale then Except.ok _ else _) =
      Except.ok (if (h.phdr s.1 i).Stale then _ else _)
    split_ifs <;> rfl
  · rw [if_neg hin]
    exact (if_neg hin).symm

/-- **What the patch loop computes** from entries that can all be read. -/
theorem foldlM_patchEntry (hin : h.Inside b k) :
    (List.range k).foldlM (patchEntry h) (b, []) = .ok (nulled h b k, changes h b k) := by
  rw [patchEntry_eq, nulled_eq, changes_eq]
  exact foldlM_clearEntry h.wide hin

theorem inside_of_ok {s : List Byte × List Change}
    (hs : (List.range k).foldlM (patchEntry h) (b, []) = .ok s) : h.Inside b k := by
  rw [patchEntry_eq] at hs
  exact inside_of_foldlM h.wide hs

/-- An exception is all that ends the patch loop early. -/
theorem raised_of_error {out : Outcome} {s : List Byte × List Change} {l : List ℕ}
    (hs : l.foldlM (patchEntry h) s = .error out) : out = .raised .structError := by
  rw [patchEntry_eq] at hs
  exact eq_of_foldlM_error hs

/-! ## The verification -/

theorem selfCheck_eq {c : List Byte} (hin : h.Inside c h.phnum) :
    selfCheck h c = .ok ((List.range h.phnum).filter fun i => (h.phdr c i).Stale) := by
  have hloop : ∀ (l : List ℕ) (bad : List ℕ), (∀ i ∈ l, h.entry i + 24 ≤ c.length) →
      l.foldlM (checkEntry h c) bad = .ok (bad ++ l.filter fun i => (h.phdr c i).Stale) := by
    intro l
    induction l with
    | nil => simp [pure, Except.pure]
    | cons i l ih =>
      intro bad hl
      have hstep : checkEntry h c bad i = .ok (if (h.phdr c i).Stale then bad ++ [i] else bad) := by
        unfold checkEntry within
        rw [if_pos (hl i List.mem_cons_self)]
        rfl
      rw [List.foldlM_cons, hstep]
      refine (ih _ fun j hj => hl j (List.mem_cons_of_mem i hj)).trans ?_
      by_cases hs : (h.phdr c i).Stale <;> simp [hs]
  exact hloop _ [] fun i hi => hin i (List.mem_range.mp hi)

theorem countLoad_isOk {c : List Byte} (hin : h.Inside c h.phnum) : ∃ n, countLoad h c = .ok n := by
  have hloop : ∀ (l : List ℕ) (n : ℕ), (∀ i ∈ l, h.entry i + 24 ≤ c.length) →
      ∃ n', l.foldlM (fun n i => do
        let type ← within c (h.entry i) 4 (word32 c (h.entry i))
        .ok (if type = ptLoad then n + 1 else n)) n = (.ok n' : Except Outcome ℕ) := by
    intro l
    induction l with
    | nil => exact fun n _ => ⟨n, rfl⟩
    | cons i l ih =>
      intro n hl
      have hle : h.entry i + 4 ≤ c.length := by
        have := hl i List.mem_cons_self
        omega
      rw [List.foldlM_cons, within, if_pos hle]
      exact ih _ fun j hj => hl j (List.mem_cons_of_mem i hj)
  exact hloop _ 0 fun i hi => hin i (List.mem_range.mp hi)

/-- **Nothing is left to patch** in the nulled file. -/
theorem filter_nulled (hin : h.Inside b k) :
    ((List.range k).filter fun i => (h.phdr (nulled h b k) i).Stale) = [] := by
  rw [List.filter_eq_nil_iff]
  intro i hi
  have hk : i < k := List.mem_range.mp hi
  rw [phdr_nulled (hin i hk), decide_eq_true_eq]
  split_ifs with hs
  · rintro ⟨htype, -⟩
    have hne : ptNull ≠ ptLoad := by decide
    exact hne htype
  · exact fun hstale => hs ⟨hk, hstale⟩

theorem selfCheck_nulled (hin : h.Inside b h.phnum) : selfCheck h (nulled h b h.phnum) = .ok [] := by
  rw [selfCheck_eq fun i hi => by rw [length_nulled]; exact hin i hi, filter_nulled hin]

theorem verify_nulled (hin : h.Inside b h.phnum) (changed : List Change) :
    ∃ n, verify h (nulled h b h.phnum) changed = .ok (.returned 0 (.done changed n h.phnum)) := by
  obtain ⟨n, hn⟩ := countLoad_isOk (c := nulled h b h.phnum) fun i hi => by
    rw [length_nulled]
    exact hin i hi
  refine ⟨n, ?_⟩
  unfold verify
  rw [selfCheck_nulled hin, hn]
  rfl

theorem nulled_of_changes (hc : changes h b k = []) : nulled h b k = b := by
  apply List.ext_getElem?
  intro p
  refine getElem?_nulled_of_not ?_
  rintro ⟨i, hi, hs, -⟩
  have hmem := List.filter_eq_nil_iff.mp (List.map_eq_nil_iff.mp hc) i (List.mem_range.mpr hi)
  exact hmem (decide_eq_true hs)

end Loop

/-! ## The run -/

/-- The run raises an exception or reports an unsupported file. -/
def Outcome.Refused : Outcome → Prop
  | .raised _ | .returned _ .notElf | .returned _ .onlyElf32LittleEndian | .returned _ (.phentsize _) => True
  | .returned _ _ => False

instance : (out : Outcome) → Decidable out.Refused
  | .raised _ | .returned _ .notElf | .returned _ .onlyElf32LittleEndian | .returned _ (.phentsize _) =>
    isTrue trivial
  | .returned _ .alreadyPatched | .returned _ (.stillLoad _) | .returned _ (.done _ _ _) => isFalse id

section Run

variable {b b' : List Byte}

/-- The header's words about the table. -/
def header (b : List Byte) : Header := ⟨(word32 b 0x1C).toNat, half16 b 0x2C⟩

/-- The computation gives `v`, or a refusal. -/
def Gives {α : Type} (x : Except Outcome α) (v : α) : Prop :=
  (∃ out, x = .error out ∧ out.Refused) ∨ x = .ok v

theorem Gives.bind {α β : Type} {x : Except Outcome α} {f : α → Except Outcome β} {v : α} {w : β}
    (hx : Gives x v) (hf : Gives (f v) w) : Gives (x >>= f) w := by
  rcases hx with ⟨out, rfl, hout⟩ | rfl
  · exact .inl ⟨out, rfl, hout⟩
  · exact hf

theorem gives_unless {α : Type} {c : Prop} [Decidable c] {out : Outcome} {x : Except Outcome α} {v : α}
    (hout : out.Refused) (hx : Gives x v) : Gives (if c then .error out else x) v := by
  split_ifs
  · exact .inl ⟨out, rfl, hout⟩
  · exact hx

theorem gives_within {α : Type} (b : List Byte) (o n : ℕ) (a : α) : Gives (within b o n a) a := by
  unfold within
  split_ifs
  · exact .inr rfl
  · exact .inl ⟨_, rfl, trivial⟩

theorem gives_index (b : List Byte) (i : ℕ) : Gives (index b i) (b.getD i 0) := by
  unfold index
  split_ifs
  · exact .inr rfl
  · exact .inl ⟨_, rfl, trivial⟩

/-- **The header is read, or the file refused.** -/
theorem gives_readHeader (b : List Byte) : Gives (readHeader b) (header b) := by
  unfold readHeader
  refine gives_unless trivial ?_
  refine (gives_index b 4).bind (gives_unless trivial ?_)
  refine (gives_index b 5).bind (gives_unless trivial ?_)
  refine (gives_within b 0x1C 4 _).bind ?_
  refine (gives_within b 0x2A 2 _).bind ?_
  exact (gives_within b 0x2C 2 _).bind (gives_unless trivial (.inr rfl))

/-- **The two ways through the tool.** -/
theorem main_cases (d : Disk) : ((main d).1 = d ∧ (main d).2.Refused) ∨
    (readHeader d.file = .ok (header d.file) ∧ (header d.file).Inside d.file (header d.file).phnum ∧
      ∃ r, main d = (if changes (header d.file) d.file (header d.file).phnum = [] then d else
        ⟨nulled (header d.file) d.file (header d.file).phnum, some d.file⟩, .returned 0 r) ∧
        ¬ (Outcome.returned 0 r).Refused) := by
  rcases gives_readHeader d.file with ⟨out, hread, hout⟩ | hread
  · left
    have hpatch : patch d.file = .error out := by
      unfold patch
      rw [hread]
      rfl
    unfold main
    rw [hpatch]
    exact ⟨rfl, hout⟩
  · cases htable : patchTable (header d.file) d.file with
    | error out =>
      left
      have hpatch : patch d.file = .error out := by
        unfold patch
        rw [hread]
        show (patchTable (header d.file) d.file >>= _) = _
        rw [htable]
        rfl
      unfold main
      rw [hpatch, raised_of_error htable]
      exact ⟨rfl, trivial⟩
    | ok s =>
      right
      have hin := inside_of_ok htable
      have hs : s = (nulled (header d.file) d.file (header d.file).phnum,
          changes (header d.file) d.file (header d.file).phnum) :=
        Except.ok.inj (htable.symm.trans (foldlM_patchEntry hin))
      have hpatch : patch d.file = .ok (header d.file, s) := by
        unfold patch
        rw [hread]
        show (patchTable (header d.file) d.file >>= _) = _
        rw [htable]
        rfl
      refine ⟨hread, hin, ?_⟩
      unfold main
      rw [hpatch, hs]
      dsimp only
      split_ifs with hc
      · exact ⟨_, rfl, id⟩
      · obtain ⟨n, hn⟩ := verify_nulled hin (changes (header d.file) d.file (header d.file).phnum)
        rw [hn]
        exact ⟨_, rfl, id⟩

end Run

/-! ## The file before and after -/

section Exact

variable {b b' : List Byte} {d : Disk}

/-- Entry `i` of the table is one that the tool nulls. -/
def StaleAt (b : List Byte) (i : ℕ) : Prop := ((header b).phdr b i).Stale

instance (b : List Byte) (i : ℕ) : Decidable (StaleAt b i) := by unfold StaleAt; infer_instance

/-- The 32 bytes of entry `i`. -/
def entry (b : List Byte) (i : ℕ) : List Byte := (b.drop ((header b).entry i)).take 32

/-- The section table: `e_shnum` entries of `e_shentsize` bytes at `e_shoff`. -/
def sections (b : List Byte) : List Byte :=
  (b.drop (word32 b 0x20).toNat).take (half16 b 0x30 * half16 b 0x2E)

/-- Byte `p` is in the section table. -/
def InSections (b : List Byte) (p : ℕ) : Prop :=
  (word32 b 0x20).toNat ≤ p ∧ p < (word32 b 0x20).toNat + half16 b 0x30 * half16 b 0x2E

/-- Byte `p` is in the type word of a stale entry. -/
def Nulls (b : List Byte) (p : ℕ) : Prop := (header b).Nulls b (header b).phnum p

/-- The table is behind the header and inside the file. -/
def TableInside (b : List Byte) : Prop :=
  52 ≤ (header b).phoff ∧ (header b).phoff + (header b).phnum * 32 ≤ b.length

/-- From `b` to `b'` the stale entries have become `PT_NULL`, and nothing else is different. -/
structure Patched (b b' : List Byte) : Prop where
  length : b'.length = b.length
  elfHeader : b'.take 52 = b.take 52
  differs : ∀ p, b'[p]? ≠ b[p]? → Nulls b p
  stale : ∀ i < (header b).phnum, StaleAt b i → entry b' i = le32 ptNull ++ (entry b i).drop 4
  others : ∀ i < (header b).phnum, ¬ StaleAt b i → entry b' i = entry b i
  sectionTable : (∀ p, InSections b p → ¬ Nulls b p) → sections b' = sections b

theorem not_nulls_of_lt (ht : TableInside b) {p : ℕ} (hp : p < 52) : ¬ Nulls b p := by
  rintro ⟨i, -, -, hle, -⟩
  have hoff := ht.1
  unfold Header.entry at hle
  omega

theorem header_congr (h : ∀ p < 52, b'[p]? = b[p]?) : header b' = header b := by
  unfold header
  rw [word32_congr fun j hj => h (0x1C + j) (by omega), half16_congr fun j hj => h (0x2C + j) (by omega)]

theorem nulled_frame {p : ℕ} (hp : ¬ Nulls b p) :
    (nulled (header b) b (header b).phnum)[p]? = b[p]? := getElem?_nulled_of_not hp

theorem nulled_front (ht : TableInside b) {p : ℕ} (hp : p < 52) :
    (nulled (header b) b (header b).phnum)[p]? = b[p]? := nulled_frame (not_nulls_of_lt ht hp)

theorem header_nulled (ht : TableInside b) :
    header (nulled (header b) b (header b).phnum) = header b :=
  header_congr fun _ => nulled_front ht

/-- A stretch of the file that is the same byte by byte. -/
theorem take_drop_congr {a n : ℕ} (h : ∀ j < n, b'[a + j]? = b[a + j]?) :
    (b'.drop a).take n = (b.drop a).take n := by
  apply List.ext_getElem?
  intro j
  rw [List.getElem?_take, List.getElem?_take, List.getElem?_drop, List.getElem?_drop]
  split_ifs with hj
  · exact h j hj
  · rfl

/-- **A stale entry** keeps all of its bytes but for its type word. -/
theorem entry_nulled (ht : TableInside b) {i : ℕ} (hi : i < (header b).phnum) (hs : StaleAt b i) :
    entry (nulled (header b) b (header b).phnum) i = le32 ptNull ++ (entry b i).drop 4 := by
  have hlen : (header b).entry i + 32 ≤ b.length := by
    have := ht.2
    unfold Header.entry
    omega
  unfold entry
  rw [header_nulled ht]
  apply List.ext_getElem?
  intro j
  rcases Nat.lt_or_ge j 4 with hj | hj
  · have hn : Nulls b ((header b).entry i + j) := ⟨i, hi, hs, by omega, by omega⟩
    rw [List.getElem?_take_of_lt (by omega), List.getElem?_drop, getElem?_nulled,
      List.getElem?_eq_getElem (by omega), List.getElem?_append_left (by rw [length_le32]; omega)]
    have hzero : (le32 ptNull)[j]? = some 0 := by
      have hcase : j = 0 ∨ j = 1 ∨ j = 2 ∨ j = 3 := by omega
      rcases hcase with rfl | rfl | rfl | rfl <;> rfl
    rw [hzero, Option.map_some]
    exact congrArg some (if_pos hn)
  · have hj' : 4 + (j - 4) = j := by omega
    rw [List.getElem?_append_right (by rw [length_le32]; omega), length_le32, List.getElem?_drop,
      hj', List.getElem?_take, List.getElem?_take, List.getElem?_drop, List.getElem?_drop]
    split_ifs with hlt
    · apply nulled_frame
      intro hn
      have := (hn.entry hlt).2.2
      omega
    · rfl

/-- **The nulled file** differs from the file in the type words of its stale entries only. -/
theorem patched_nulled (ht : TableInside b) : Patched b (nulled (header b) b (header b).phnum) where
  length := length_nulled
  elfHeader := by
    apply List.ext_getElem?
    intro p
    rw [List.getElem?_take, List.getElem?_take]
    split_ifs with hp
    · exact nulled_front ht hp
    · rfl
  differs p hp := by
    by_contra hn
    exact hp (nulled_frame hn)
  stale _ := entry_nulled ht
  others i hi hs := by
    unfold entry
    rw [header_nulled ht]
    exact take_drop_congr fun j hj => nulled_frame fun hn => hs (hn.entry hj).2.1
  sectionTable hapart := by
    unfold sections
    rw [word32_congr fun j hj => nulled_front ht (show 0x20 + j < 52 by omega),
      half16_congr fun j hj => nulled_front ht (show 0x30 + j < 52 by omega),
      half16_congr fun j hj => nulled_front ht (show 0x2E + j < 52 by omega)]
    exact take_drop_congr fun j hj => nulled_frame (hapart _ ⟨by omega, by omega⟩)

/-- The file after a run that is not refused. -/
theorem main_file (h : ¬ (main d).2.Refused) :
    (header d.file).Inside d.file (header d.file).phnum ∧ readHeader d.file = .ok (header d.file) ∧
    (main d).1.file = nulled (header d.file) d.file (header d.file).phnum ∧
    ((main d).1.file ≠ d.file → (main d).1.prepatch = some d.file) ∧ ∃ r, (main d).2 = .returned 0 r := by
  rcases main_cases d with ⟨-, hrefused⟩ | ⟨hread, hin, r, hrun, -⟩
  · exact absurd hrefused h
  · rw [hrun]
    refine ⟨hin, hread, ?_⟩
    split_ifs with hc
    · exact ⟨(nulled_of_changes hc).symm, fun hne => absurd rfl hne, r, rfl⟩
    · exact ⟨rfl, fun _ => rfl, r, rfl⟩

/-- **A second run** finds nothing to do. -/
theorem main_main (ht : TableInside d.file) (h : ¬ (main d).2.Refused) :
    (main (main d).1).1 = (main d).1 := by
  obtain ⟨hin, hread, hfile, -⟩ := main_file h
  generalize (main d).1 = d₁ at hfile
  have hfront : ∀ p < 52, d₁.file[p]? = d.file[p]? := by
    intro p hp
    rw [hfile]
    exact getElem?_nulled_of_not (not_nulls_of_lt ht hp)
  have hnone : changes (header d₁.file) d₁.file (header d₁.file).phnum = [] := by
    rw [header_congr hfront, hfile]
    unfold changes
    rw [filter_nulled hin]
    rfl
  rcases main_cases d₁ with ⟨hsame, -⟩ | ⟨-, -, r, hrun, -⟩
  · exact hsame
  · rw [hrun, if_pos hnone]

/-- **What the tool does to a file.** A refused file is left as it is. Otherwise its stale entries
become `PT_NULL` and nothing else changes, the verification finds nothing left, the copy has the
bytes from before, and a second run changes nothing. -/
theorem main_patches (d : Disk) : ((main d).2.Refused → (main d).1 = d) ∧
    (¬ (main d).2.Refused → TableInside d.file →
      Patched d.file (main d).1.file ∧ (∃ r, (main d).2 = .returned 0 r) ∧
      selfCheck (header d.file) (main d).1.file = .ok [] ∧
      ((main d).1.file ≠ d.file → (main d).1.prepatch = some d.file) ∧ (main (main d).1).1 = (main d).1) := by
  refine ⟨fun h => ?_, fun h ht => ?_⟩
  · rcases main_cases d with ⟨hsame, -⟩ | ⟨-, -, r, hrun, hr⟩
    · exact hsame
    · rw [hrun] at h
      exact absurd h hr
  · obtain ⟨hin, -, hfile, hcopy, hcode⟩ := main_file h
    refine ⟨?_, hcode, ?_, hcopy, main_main ht h⟩
    · rw [hfile]
      exact patched_nulled ht
    · rw [hfile]
      exact selfCheck_nulled hin

/-- A program header of 32 bytes, loaded at `paddr`, with nothing in the file. -/
def noload (paddr : Word) : List Byte :=
  le32 ptLoad ++ le32 0 ++ le32 paddr ++ le32 paddr ++ le32 0 ++ le32 0x190 ++ le32 6 ++ le32 4

/-- A firmware with one segment in the DDR and one in the DTCM, and `shnum` sections at `shoff`. -/
def firmware (shoff : Word) (shnum : Byte) : List Byte :=
  [0x7F, 0x45, 0x4C, 0x46, 1, 1, 1, 0] ++ List.replicate 20 0 ++ le32 52 ++ le32 shoff ++ le32 0 ++
    [52, 0, 32, 0, 2, 0, 40, 0, shnum, 0, 0, 0] ++ noload 0x42F00000 ++ noload 0x20000

theorem main_patches_firmware :
    Patched (firmware 0 0) (main ⟨firmware 0 0, none⟩).1.file ∧
      (∃ r, (main ⟨firmware 0 0, none⟩).2 = .returned 0 r) ∧
      selfCheck (header (firmware 0 0)) (main ⟨firmware 0 0, none⟩).1.file = .ok [] ∧
      ((main ⟨firmware 0 0, none⟩).1.file ≠ firmware 0 0 →
        (main ⟨firmware 0 0, none⟩).1.prepatch = some (firmware 0 0)) ∧
      (main (main ⟨firmware 0 0, none⟩).1).1 = (main ⟨firmware 0 0, none⟩).1 :=
  (main_patches ⟨firmware 0 0, none⟩).2 (by decide +kernel) (by unfold TableInside; decide +kernel)

/-- The sections of this file start where its first program header does, and the word that becomes
`PT_NULL` is a word of the section table as well. -/
theorem sections_overlap : ¬ (main ⟨firmware 52 1, none⟩).2.Refused ∧ TableInside (firmware 52 1) ∧
    sections (main ⟨firmware 52 1, none⟩).1.file ≠ sections (firmware 52 1) := by
  unfold TableInside
  decide +kernel

/-! ## Well-formed files -/

theorem table_header (hsize : (table b).phentsize = 32) : (header b).table = table b := by
  unfold Header.table
  rw [← hsize]
  rfl

theorem readHeader_of_wellFormed (h : WellFormed b) : readHeader b =
    if (table b).phentsize ≠ 32 then .error (.returned 1 (.phentsize (table b).phentsize))
    else .ok (header b) := by
  have := h.length
  unfold readHeader index within
  rw [if_neg (not_not.mpr h.magic), if_pos (by omega), if_pos (by omega), if_pos (by omega),
    if_pos (by omega), if_pos (by omega)]
  show (if b.getD 4 0 ≠ 1 then _ else if b.getD 5 0 ≠ 1 then _ else _) = _
  rw [if_neg (not_not.mpr h.elf32), if_neg (not_not.mpr h.littleEndian)]
  rfl

/-- The entries that the tool nulls in a file with this table: none, if they are not of 32 bytes. -/
def selected (t : Table) : Selection := if t.phentsize = 32 then stale else ⊥

/-- **A run on a well-formed file**, whose copy is only written with the file. -/
theorem main_of_wellFormed (h : WellFormed d.file) :
    (main d).1.file = cleared (table d.file) (selected (table d.file)) d.file (table d.file).phnum ∧
      ((main d).1.file = d.file → (main d).1 = d) := by
  have hread := readHeader_of_wellFormed h
  unfold selected
  by_cases hsize : (table d.file).phentsize = 32
  · rw [if_neg (not_not.mpr hsize)] at hread
    have hin : (header d.file).Inside d.file (header d.file).phnum := by
      have hin := h.table_inside
      rw [← table_header hsize] at hin
      exact hin
    have hpatch : patch d.file = .ok (header d.file, nulled (header d.file) d.file (header d.file).phnum,
        changes (header d.file) d.file (header d.file).phnum) := by
      unfold patch
      rw [hread]
      show (patchTable (header d.file) d.file >>= _) = _
      rw [patchTable, foldlM_patchEntry hin]
      rfl
    have hfile : nulled (header d.file) d.file (header d.file).phnum =
        cleared (table d.file) stale d.file (table d.file).phnum := by
      rw [nulled_eq, table_header hsize]
      rfl
    unfold main
    rw [hpatch, if_pos hsize, ← hfile]
    dsimp only
    split_ifs with hc
    · exact ⟨(nulled_of_changes hc).symm, fun _ => rfl⟩
    · refine ⟨rfl, fun hsame => absurd ?_ hc⟩
      have hnone := filter_nulled hin
      have hsame' : nulled (header d.file) d.file (header d.file).phnum = d.file := hsame
      rw [hsame'] at hnone
      unfold changes
      rw [hnone]
      rfl
  · rw [if_pos hsize] at hread
    have hpatch : patch d.file = .error (.returned 1 (.phentsize (table d.file).phentsize)) := by
      unfold patch
      rw [hread]
      rfl
    unfold main
    rw [hpatch, if_neg hsize, cleared_bot]
    exact ⟨rfl, fun _ => rfl⟩

end Exact

end CR8Devkit.PatchElf
