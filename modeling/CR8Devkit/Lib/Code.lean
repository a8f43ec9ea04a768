import Mathlib.Init

/-!
# Handler code and its safety

Loop-free machine code that branches, calls foreign routines and leaves through one of several
exits, over any instructions and states.

* `Code`: the code as a tree; `Code.block`: a straight line in front of it; `Code.exits`,
  `Code.calls`.
* `Machine`: the effect of an instruction, the outcome of a test, the entry to a routine, and which
  states a routine may return in.
* `Safe`: the invariant holds at every instruction, whatever the routines do, and the postcondition
  at every exit. `safe_block`, `safe_of_calls`, `safe_of_kept`: the rules; `Safe.and`, `Safe.fewer`,
  `safe_of_behind`: more about code that is safe already.
-/

namespace Handler

variable {I B F E S : Type*}

inductive Code (I B F E : Type*)
  | op (i : I) (k : Code I B F E)
  | branch (b : B) (yes no : Code I B F E)
  | call (f : F) (k : Code I B F E)
  | exit (e : E)

/-- Straight-line code followed by `k`. -/
def Code.block (is : List I) (k : Code I B F E) : Code I B F E := is.foldr .op k

/-- The exits the code may take. -/
def Code.exits : Code I B F E → List E
  | op _ k | call _ k => k.exits
  | branch _ yes no => yes.exits ++ no.exits
  | exit e => [e]

@[simp] theorem Code.exits_block (is : List I) (k : Code I B F E) : (block is k).exits = k.exits := by
  induction is with
  | nil => rfl
  | cons i is ih => exact ih

/-- The routines the code may call. -/
def Code.calls : Code I B F E → List F
  | op _ k => k.calls
  | branch _ yes no => yes.calls ++ no.calls
  | call f k => f :: k.calls
  | exit _ => []

@[simp] theorem Code.calls_block (is : List I) (k : Code I B F E) : (block is k).calls = k.calls := by
  induction is with
  | nil => rfl
  | cons i is ih => exact ih

/-- Run a straight line. -/
def runs (run : I → S → S) : List I → S → S
  | [], s => s
  | i :: is, s => runs run is (run i s)

structure Machine (I B F S : Type*) where
  run : I → S → S
  test : B → S → Bool
  enter : F → S → S
  returns : F → S → S → Prop

namespace Machine

variable (M : Machine I B F S)

/-- From state `s` the code keeps `inv` at each of its points and reaches its exits in `post` only. -/
def Safe (inv : Code I B F E → S → Prop) (post : E → S → Prop) : Code I B F E → S → Prop
  | .op i k, s => inv (.op i k) s ∧ Safe inv post k (M.run i s)
  | .branch b yes no, s => inv (.branch b yes no) s ∧ (M.test b s = true → Safe inv post yes s) ∧
      (M.test b s = false → Safe inv post no s)
  | .call f k, s => inv (.call f k) s ∧ ∀ s', M.returns f (M.enter f s) s' → Safe inv post k s'
  | .exit e, s => inv (.exit e) s ∧ post e s

variable {M} {inv : Code I B F E → S → Prop} {post : E → S → Prop} {k : Code I B F E} {s : S}

theorem Safe.here (h : M.Safe inv post k s) : inv k s := by
  cases k <;> exact h.1

/-- A weaker invariant. -/
theorem Safe.imp {inv' : Code I B F E → S → Prop} (h : M.Safe inv post k s)
    (himp : ∀ k s, inv k s → inv' k s) : M.Safe inv' post k s := by
  induction k generalizing s with
  | op i k ih => exact ⟨himp _ _ h.1, ih h.2⟩
  | branch b yes no ihy ihn => exact ⟨himp _ _ h.1, fun hb => ihy (h.2.1 hb), fun hb => ihn (h.2.2 hb)⟩
  | call f k ih => exact ⟨himp _ _ h.1, fun s' hs => ih (h.2 s' hs)⟩
  | exit e => exact ⟨himp _ _ h.1, h.2⟩

/-- **Straight lines.** Each instruction keeps a condition that implies the invariant. -/
theorem safe_block {C : S → Prop} {is : List I} (hC : C s) (hi : ∀ i k s, C s → inv (.op i k) s)
    (hkeep : ∀ i ∈ is, ∀ s, C s → C (M.run i s))
    (hk : C (runs M.run is s) → M.Safe inv post k (runs M.run is s)) :
    M.Safe inv post (.block is k) s := by
  induction is generalizing s with
  | nil => exact hk hC
  | cons i is ih =>
    exact ⟨hi _ _ _ hC, ih (hkeep i List.mem_cons_self s hC) (fun j hj => hkeep j
      (List.mem_cons_of_mem _ hj)) hk⟩

/-- **Kept everywhere.** A condition that every instruction keeps, and every routine of those
called; it implies the invariant where no others are called. -/
theorem safe_of_calls {C : S → Prop} {Q : F → Prop} (hC : C s) (hcalls : ∀ f ∈ k.calls, Q f)
    (hinv : ∀ k s, (∀ f ∈ k.calls, Q f) → C s → inv k s) (hrun : ∀ i s, C s → C (M.run i s))
    (hret : ∀ f s s', Q f → C s → M.returns f (M.enter f s) s' → C s')
    (hpost : ∀ e ∈ k.exits, ∀ s, C s → post e s) : M.Safe inv post k s := by
  induction k generalizing s with
  | op i k ih => exact ⟨hinv _ s hcalls hC, ih (hrun i s hC) hcalls hpost⟩
  | branch b yes no ihy ihn =>
    obtain ⟨hy, hn⟩ := List.forall_mem_append.mp hcalls
    exact ⟨hinv _ s hcalls hC, fun _ => ihy hC hy fun e he => hpost e (List.mem_append_left _ he),
      fun _ => ihn hC hn fun e he => hpost e (List.mem_append_right _ he)⟩
  | call f k ih =>
    obtain ⟨hf, hk⟩ := List.forall_mem_cons.mp hcalls
    exact ⟨hinv _ s hcalls hC, fun s' hs => ih (hret f s s' hf hC hs) hk hpost⟩
  | exit e => exact ⟨hinv _ s hcalls hC, hpost e (List.mem_singleton_self e) s hC⟩

/-- Both invariants, and both postconditions. -/
theorem Safe.and {inv' : Code I B F E → S → Prop} {post' : E → S → Prop} (h : M.Safe inv post k s)
    (h' : M.Safe inv' post' k s) :
    M.Safe (fun k s => inv k s ∧ inv' k s) (fun e s => post e s ∧ post' e s) k s := by
  induction k generalizing s with
  | op i k ih => exact ⟨⟨h.1, h'.1⟩, ih h.2 h'.2⟩
  | branch b yes no ihy ihn =>
    exact ⟨⟨h.1, h'.1⟩, fun hb => ihy (h.2.1 hb) (h'.2.1 hb), fun hb => ihn (h.2.2 hb) (h'.2.2 hb)⟩
  | call f k ih => exact ⟨⟨h.1, h'.1⟩, fun s' hs => ih (h.2 s' hs) (h'.2 s' hs)⟩
  | exit e => exact ⟨⟨h.1, h'.1⟩, ⟨h.2, h'.2⟩⟩

/-- Routines of which more is known. -/
theorem Safe.fewer {R : F → S → S → Prop} (h : M.Safe inv post k s)
    (hR : ∀ f s s', R f s s' → M.returns f s s') :
    Machine.Safe { M with returns := R } inv post k s := by
  induction k generalizing s with
  | op i k ih => exact ⟨h.1, ih h.2⟩
  | branch b yes no ihy ihn => exact ⟨h.1, fun hb => ihy (h.2.1 hb), fun hb => ihn (h.2.2 hb)⟩
  | call f k ih => exact ⟨h.1, fun s' hs => ih (h.2 s' (hR _ _ _ hs))⟩
  | exit e => exact h

/-- Behind a straight line. -/
theorem Safe.behind {is : List I} (h : M.Safe inv post (.block is k) s) :
    M.Safe inv post k (runs M.run is s) := by
  induction is generalizing s with
  | nil => exact h
  | cons i is ih => exact ih h.2

/-- An invariant of the other points says nothing about straight lines. -/
theorem safe_of_behind {is : List I} (hi : ∀ i k s, inv (.op i k) s)
    (h : M.Safe inv post k (runs M.run is s)) : M.Safe inv post (.block is k) s := by
  induction is generalizing s with
  | nil => exact h
  | cons i is ih => exact ⟨hi _ _ _, ih h⟩

theorem safe_of_kept {C : S → Prop} (hC : C s) (hrun : ∀ i s, C s → C (M.run i s))
    (hret : ∀ f s s', C s → M.returns f (M.enter f s) s' → C s')
    (hpost : ∀ e ∈ k.exits, ∀ s, C s → post e s) : M.Safe (fun _ => C) post k s :=
  safe_of_calls (Q := fun _ => True) hC (fun _ _ => trivial) (fun _ _ _ => id) hrun
    (fun f s s' _ => hret f s s') hpost

end Machine

end Handler
