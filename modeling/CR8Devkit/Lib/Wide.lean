import CR8Devkit.Lib.Access
import Mathlib.Data.List.Range

/-!
# Accesses of several bytes

A program of accesses (`Access.Prog`) over byte-addressed memory: a cell is a `Span`, an address
with the width of the access, and a value is the list of its bytes by ascending address.

* `wide`: the run of a program; `loads`, `stores`: the spans it reads and writes, in order.
* `Copies p d s n m`: from memory `m`, program `p` copies `n` bytes from `s` to `d`, reading each of
  them once and in order, with aligned accesses only. `Copies.append`: copying in two parts.
-/

namespace Access

/-- `width` bytes from address `addr` on. -/
structure Span where
  addr : ℕ
  width : ℕ

namespace Span

/-- The bytes of the span. -/
def bytes (a : Span) : List ℕ := List.range' a.addr a.width

/-- Naturally aligned. -/
def Aligned (a : Span) : Prop := a.width ∣ a.addr

end Span

/-- Two ranges of `n` bytes have no byte in common. -/
def Apart (d s n : ℕ) : Prop := d + n ≤ s ∨ s + n ≤ d

namespace Prog

variable {B R R' : Type}

def peek (m : ℕ → B) (a : Span) : List B := a.bytes.map m

def poke (m : ℕ → B) (a : Span) (v : List B) : ℕ → B := fun x =>
  if a.addr ≤ x ∧ x < a.addr + a.width then v.getD (x - a.addr) (m x) else m x

/-- Run a program. -/
def wide : Prog Span (List B) R → (ℕ → B) → R × (ℕ → B)
  | ret r, m => (r, m)
  | load a k, m => (k (peek m a)).wide m
  | store a v k, m => k.wide (poke m a v)

/-- The spans read. -/
def loads : Prog Span (List B) R → (ℕ → B) → List Span
  | ret _, _ => []
  | load a k, m => a :: (k (peek m a)).loads m
  | store a v k, m => k.loads (poke m a v)

/-- The spans written. -/
def stores : Prog Span (List B) R → (ℕ → B) → List Span
  | ret _, _ => []
  | load a k, m => (k (peek m a)).stores m
  | store a v k, m => a :: k.stores (poke m a v)

variable {m : ℕ → B} {p : Prog Span (List B) R} {f : R → Prog Span (List B) R'}

theorem wide_bind : (p >>= f).wide m = (f (p.wide m).1).wide (p.wide m).2 := by
  induction p generalizing m with
  | ret r => rfl
  | load a k ih => exact ih _
  | store a v k ih => exact ih

theorem loads_bind : (p >>= f).loads m = p.loads m ++ (f (p.wide m).1).loads (p.wide m).2 := by
  induction p generalizing m with
  | ret r => rfl
  | load a k ih => exact congrArg (a :: ·) (ih _)
  | store a v k ih => exact ih

theorem stores_bind : (p >>= f).stores m = p.stores m ++ (f (p.wide m).1).stores (p.wide m).2 := by
  induction p generalizing m with
  | ret r => rfl
  | load a k ih => exact ih _
  | store a v k ih => exact congrArg (a :: ·) ih

/-! ### Copies -/

/-- The memory after `n` bytes have gone from `s` to `d`. -/
def copied (m : ℕ → B) (d s n : ℕ) : ℕ → B := fun x =>
  if d ≤ x ∧ x < d + n then m (s + (x - d)) else m x

@[simp] theorem copied_zero (d s : ℕ) : copied m d s 0 = m := by
  funext x
  exact if_neg (by omega)

/-- Two copies in a row, when the first leaves the source of the second alone. -/
theorem copied_append {d s j k : ℕ} (h : Apart d s (j + k)) :
    copied (copied m d s j) (d + j) (s + j) k = copied m d s (j + k) := by
  funext x
  unfold copied
  rcases h with h | h
  all_goals split_ifs
  any_goals first | rfl | omega
  all_goals congr 1; omega

/-- One access of `w` bytes. -/
theorem poke_peek {d s w : ℕ} : poke m ⟨d, w⟩ (peek m ⟨s, w⟩) = copied m d s w := by
  funext x
  show (if d ≤ x ∧ x < d + w then _ else _) = if d ≤ x ∧ x < d + w then _ else _
  split_ifs with h
  · have hx : x - d < w := by omega
    simp [peek, Span.bytes, List.getD_eq_getElem?_getD, hx]
  · rfl

/-- The program copies `n` bytes from `s` to `d`. -/
structure Copies (p : Prog Span (List B) Unit) (d s n : ℕ) (m : ℕ → B) : Prop where
  memory : (p.wide m).2 = copied m d s n
  reads : (p.loads m).flatMap Span.bytes = List.range' s n
  writes : (p.stores m).flatMap Span.bytes = List.range' d n
  aligned : ∀ a ∈ p.loads m ++ p.stores m, a.Aligned

variable {p q : Prog Span (List B) Unit} {d s n j k : ℕ}

theorem copies_nothing : Copies (pure ()) d s 0 m where
  memory := (copied_zero d s).symm
  reads := rfl
  writes := rfl
  aligned := fun _ h => by cases h

/-- A load and a store of the same width. -/
theorem copies_access {w : ℕ} (hs : w ∣ s) (hd : w ∣ d) :
    Copies (do let v ← get ⟨s, w⟩; set ⟨d, w⟩ v) d s w m where
  memory := poke_peek
  reads := List.append_nil _
  writes := List.append_nil _
  aligned := by
    intro a ha
    rcases List.mem_cons.mp ha with rfl | ha
    · exact hs
    · obtain rfl := List.mem_singleton.mp ha
      exact hd

/-- **Copying in two parts.** -/
theorem Copies.append (hp : Copies p d s j m) (h : Apart d s (j + k))
    (hq : Copies q (d + j) (s + j) k (copied m d s j)) :
    Copies (do p; q) d s (j + k) m where
  memory := by rw [wide_bind, hp.memory, hq.memory, copied_append h]
  reads := by
    rw [loads_bind, hp.memory, List.flatMap_append, hp.reads, hq.reads]
    exact List.range'_append_1
  writes := by
    rw [stores_bind, hp.memory, List.flatMap_append, hp.writes, hq.writes]
    exact List.range'_append_1
  aligned := by
    intro a ha
    rw [loads_bind, stores_bind, hp.memory] at ha
    simp only [List.mem_append] at ha
    rcases ha with (ha | ha) | ha | ha
    · exact hp.aligned a (List.mem_append_left _ ha)
    · exact hq.aligned a (List.mem_append_left _ ha)
    · exact hp.aligned a (List.mem_append_right _ ha)
    · exact hq.aligned a (List.mem_append_right _ ha)

end Prog

end Access
