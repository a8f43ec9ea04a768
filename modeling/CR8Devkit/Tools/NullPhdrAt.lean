import CR8Devkit.Tools.PatchElf
import Mathlib.Data.Finset.Insert

/-!
# `null_phdr_at.py`, and both tools on one file

* `main`: the tool on the file, with the virtual addresses it is given; an exception ends it before
  the file is written.
* `nullEntry_eq`: its loop clears the targets; `main_of_wellFormed`: the run on a well-formed file.
* `Tool`, `runs`: the two tools, one behind the other; `selects_act`: none changes what another
  selects.
* **`runs_commute`**: the order does not matter, and both have to be run only once.
-/

namespace CR8Devkit.NullPhdrAt

open Proto PatchElf Joining
open WaitReply (Byte)

/-! ## The tool -/

inductive Err
  | assertionError
  | indexError
  | structError
  deriving DecidableEq

/-- A segment that was `PT_LOAD`. -/
structure Hit where
  i : ℕ
  vaddr : Word
  filesz : Word
  deriving DecidableEq

/-- A run raises, or prints its hits and exits with a code. -/
inductive Outcome
  | raised (e : Err)
  | exited (code : ℕ) (hits : List Hit)
  deriving DecidableEq

def index (b : List Byte) (i : ℕ) : Except Err Byte :=
  if i < b.length then .ok (b.getD i 0) else .error .indexError

/-- `struct.unpack_from` and `struct.pack_into`. -/
def within {α : Type} (b : List Byte) (o n : ℕ) (a : α) : Except Err α :=
  if o + n ≤ b.length then .ok a else .error .structError

def readTable (b : List Byte) : Except Err Table :=
  if b.take 4 ≠ [0x7F, 0x45, 0x4C, 0x46] then .error .assertionError else do
    let cls ← index b 4
    if cls ≠ 1 then .error .assertionError else do
      let data ← index b 5
      if data ≠ 1 then .error .assertionError else do
        let phoff ← within b 28 4 (word32 b 28)
        let phentsize ← within b 42 2 (half16 b 42)
        let phnum ← within b 44 2 (half16 b 44)
        .ok ⟨phoff.toNat, phentsize, phnum⟩

/-- `vaddr in targets`. -/
def atTarget (targets : Finset ℤ) : Selection := fun p => decide ((p.vaddr.toNat : ℤ) ∈ targets)

/-- The body of the loop. -/
def nullEntry (targets : Finset ℤ) (t : Table) (s : List Byte × List Hit) (i : ℕ) :
    Except Err (List Byte × List Hit) := do
  let p ← within s.1 (t.entry i) 24 (phdr s.1 (t.entry i))
  if p.type = ptLoad ∧ atTarget targets p = true then do
    let b ← within s.1 (t.entry i) 4 (setWord s.1 (t.entry i) ptNull)
    .ok (b, s.2 ++ [⟨i, p.vaddr, p.filesz⟩])
  else .ok s

def nullTable (targets : Finset ℤ) (b : List Byte) : Except Err (List Byte × List Hit) := do
  let t ← readTable b
  (List.range t.phnum).foldlM (nullEntry targets t) (b, [])

def main (targets : Finset ℤ) (d : Disk) : Disk × Outcome :=
  match nullTable targets d.file with
  | .error e => (d, .raised e)
  | .ok (b, hits) => ({ d with file := b }, .exited (if hits = [] then 1 else 0) hits)

/-! ## The run -/

section Run

variable {targets : Finset ℤ} {t : Table} {b : List Byte} {d : Disk}

/-- What is printed for an entry. -/
def hit (i : ℕ) (p : Phdr) : Hit := ⟨i, p.vaddr, p.filesz⟩

theorem nullEntry_eq : nullEntry targets t = clearEntry .structError t (atTarget targets) hit := by
  funext s i
  unfold nullEntry clearEntry within
  by_cases hin : t.entry i + 24 ≤ s.1.length
  · rw [if_pos hin, if_pos hin, if_pos (by omega : t.entry i + 4 ≤ s.1.length)]
    show (if (t.phdr s.1 i).Picked (atTarget targets) then Except.ok _ else _) = _
    split_ifs <;> rfl
  · rw [if_neg hin, if_neg hin]
    rfl

theorem readTable_of_wellFormed (h : WellFormed b) : readTable b = .ok (table b) := by
  have := h.length
  unfold readTable index within
  rw [if_neg (not_not.mpr h.magic), if_pos (by omega), if_pos (by omega), if_pos (by omega),
    if_pos (by omega), if_pos (by omega)]
  show (if b.getD 4 0 ≠ 1 then _ else if b.getD 5 0 ≠ 1 then _ else _) = _
  rw [if_neg (not_not.mpr h.elf32), if_neg (not_not.mpr h.littleEndian)]
  rfl

/-- **A run on a well-formed file** clears the targets in it. -/
theorem main_of_wellFormed (h : WellFormed d.file) : (main targets d).1 =
    { d with file := cleared (table d.file) (atTarget targets) d.file (table d.file).phnum } := by
  have htable : nullTable targets d.file = .ok (cleared (table d.file) (atTarget targets) d.file
      (table d.file).phnum, reports (table d.file) (atTarget targets) hit d.file (table d.file).phnum) := by
    unfold nullTable
    rw [readTable_of_wellFormed h]
    show (List.range _).foldlM (nullEntry targets (table d.file)) _ = _
    rw [nullEntry_eq]
    exact foldlM_clearEntry h.wide h.table_inside
  unfold main
  rw [htable]

end Run

/-! ## Both tools -/

inductive Tool
  | nullPhdrAt (targets : Finset ℤ)
  | patchElfPhdr
  deriving DecidableEq

def Tool.run : Tool → Disk → Disk
  | .nullPhdrAt targets, d => (main targets d).1
  | .patchElfPhdr, d => (PatchElf.main d).1

/-- The tools of a list, the first one first. -/
def runs (l : List Tool) (d : Disk) : Disk := runSteps Tool.run l d

/-- What a tool nulls in a well-formed file. -/
def Tool.sel : Tool → Elf32 → Selection
  | .nullPhdrAt targets, _ => atTarget targets
  | .patchElfPhdr, f => selected (table f.1)

/-- What a tool makes of a well-formed file. -/
def Tool.act (τ : Tool) (f : Elf32) : Elf32 := f.clear (τ.sel f)

section Both

variable {d : Disk} {f : Elf32} {l : List Tool} {τ : Tool}

/-- **No tool changes what another one selects.** -/
theorem selects_act : Selects Elf32.clear Tool.act Tool.sel := by
  refine ⟨fun _ _ => rfl, fun τ sel f => ?_⟩
  cases τ with
  | nullPhdrAt targets => rfl
  | patchElfPhdr => exact congrArg selected (f.table_clear sel)

/-- **A run of a tool** on the disk is its action on the file. -/
theorem Tool.file_run (τ : Tool) (hf : d.file = f.1) : (τ.run d).file = (τ.act f).1 := by
  have hd : WellFormed d.file := by
    rw [hf]
    exact f.2
  cases τ with
  | nullPhdrAt targets =>
    show (main targets d).1.file = _
    rw [main_of_wellFormed hd, hf]
    rfl
  | patchElfPhdr =>
    refine (PatchElf.main_of_wellFormed hd).1.trans ?_
    rw [hf]
    rfl

/-- A tool that leaves the file as it is leaves the copy as it is. -/
theorem Tool.run_eq (hf : d.file = f.1) (hact : τ.act f = f) : τ.run d = d := by
  have hfile : (τ.run d).file = d.file := by rw [τ.file_run hf, hact, hf]
  have hd : WellFormed d.file := by
    rw [hf]
    exact f.2
  cases τ with
  | nullPhdrAt targets =>
    have hrun : (Tool.nullPhdrAt targets).run d = { d with file := _ } := main_of_wellFormed hd
    rw [hrun] at hfile ⊢
    exact congrArg (fun b => { d with file := b }) hfile
  | patchElfPhdr => exact (PatchElf.main_of_wellFormed hd).2 hfile

theorem file_runs (hf : d.file = f.1) : (runs l d).file = (runSteps Tool.act l f).1 := by
  induction l generalizing d f with
  | nil => exact hf
  | cons τ l ih => exact ih (τ.file_run hf)

theorem runs_eq (hf : d.file = f.1) (hact : ∀ τ ∈ l, τ.act f = f) : runs l d = d := by
  induction l with
  | nil => rfl
  | cons τ l ih =>
    show runs l (τ.run d) = d
    rw [Tool.run_eq hf (hact τ List.mem_cons_self)]
    exact ih fun υ hυ => hact υ (List.mem_cons_of_mem τ hυ)

/-- **Tools that have been run** change nothing any more. -/
theorem runs_runs {l' : List Tool} (hd : WellFormed d.file) (hl : l' ⊆ l) :
    runs l' (runs l d) = runs l d := by
  have hf : d.file = (⟨d.file, hd⟩ : Elf32).1 := rfl
  apply runs_eq (file_runs hf)
  intro τ hτ
  have hl' : [τ] ⊆ l := List.cons_subset.mpr ⟨hl hτ, List.nil_subset l⟩
  exact runSteps_absorb joins_clear selects_act hl' _

/-- **Both tools on one file.** The order does not matter, and whatever of the two is run
afterwards, and how often, changes nothing. -/
theorem runs_commute (targets : Finset ℤ) (hd : WellFormed d.file) :
    (runs [.nullPhdrAt targets, .patchElfPhdr] d).file = (runs [.patchElfPhdr, .nullPhdrAt targets] d).file ∧
      ∀ l : List Tool, (∀ τ ∈ l, τ = .nullPhdrAt targets ∨ τ = .patchElfPhdr) →
        runs l (runs [.nullPhdrAt targets, .patchElfPhdr] d) =
            runs [.nullPhdrAt targets, .patchElfPhdr] d ∧
          runs l (runs [.patchElfPhdr, .nullPhdrAt targets] d) =
            runs [.patchElfPhdr, .nullPhdrAt targets] d := by
  have hf : d.file = (⟨d.file, hd⟩ : Elf32).1 := rfl
  constructor
  · rw [file_runs hf, file_runs hf]
    congr 1
    apply runSteps_congr joins_clear selects_act <;> simp
  · intro l hl
    have hsub : l ⊆ [.nullPhdrAt targets, .patchElfPhdr] := by
      intro τ hτ
      simpa using hl τ hτ
    have hsub' : l ⊆ [.patchElfPhdr, .nullPhdrAt targets] := by
      intro τ hτ
      simpa [or_comm] using hl τ hτ
    exact ⟨runs_runs hd hsub, runs_runs hd hsub'⟩

theorem wellFormed_firmware : WellFormed (firmware 0 0) := by
  constructor <;> decide +kernel

/-- The segment in the DTCM is nulled by one tool and the one in the DDR by the other. -/
theorem runs_commute_firmware :
    (runs [.nullPhdrAt {0x20000}, .patchElfPhdr] ⟨firmware 0 0, none⟩).file =
        (runs [.patchElfPhdr, .nullPhdrAt {0x20000}] ⟨firmware 0 0, none⟩).file ∧
      ∀ l : List Tool, (∀ τ ∈ l, τ = .nullPhdrAt {0x20000} ∨ τ = .patchElfPhdr) →
        runs l (runs [.nullPhdrAt {0x20000}, .patchElfPhdr] ⟨firmware 0 0, none⟩) =
            runs [.nullPhdrAt {0x20000}, .patchElfPhdr] ⟨firmware 0 0, none⟩ ∧
          runs l (runs [.patchElfPhdr, .nullPhdrAt {0x20000}] ⟨firmware 0 0, none⟩) =
            runs [.patchElfPhdr, .nullPhdrAt {0x20000}] ⟨firmware 0 0, none⟩ :=
  runs_commute {0x20000} wellFormed_firmware

end Both

end CR8Devkit.NullPhdrAt
