import Mathlib.Tactic.Common
import Mathlib.Algebra.Group.Int.Defs

/-!
# JSON texts and how they are read

* `Value`: a JSON value; a string is a list of code points, which may be lone surrogates.
* `scanString`, `scanNumber`, `value`, `loads`: a parser, strict about the grammar.
* `Spells`: what may stand for the characters of a string; `scanUnits_append`: it is read as them.
* `Reads`, `ReadsMembers`: a text is read as a value, or as the members of an object, whatever
  follows; the rules `reads_int`, `reads_str`, `ReadsMembers.cons`, `reads_obj`, and
  `loads_of_reads` for a whole file.
-/

namespace Json

abbrev Text := List Char

/-- A number with a fraction or an exponent is kept as it is written. -/
inductive Value
  | null
  | bool (b : Bool)
  | int (n : ℤ)
  | float (lexeme : Text)
  | str (s : List ℕ)
  | arr (xs : List Value)
  | obj (ms : List (List ℕ × Value))

/-! ## The parser -/

def isWs (c : Char) : Bool := c == ' ' || c == '\t' || c == '\n' || c == '\r'

def skipWs (t : Text) : Text := t.dropWhile isWs

def hexDigit (c : Char) : Option ℕ :=
  if 48 ≤ c.toNat ∧ c.toNat ≤ 57 then some (c.toNat - 48)
  else if 97 ≤ c.toNat ∧ c.toNat ≤ 102 then some (c.toNat - 87)
  else if 65 ≤ c.toNat ∧ c.toNat ≤ 70 then some (c.toNat - 55)
  else none

def hex4 (a b c d : Char) : Option ℕ := do
  let a ← hexDigit a
  let b ← hexDigit b
  let c ← hexDigit c
  let d ← hexDigit d
  some (4096 * a + 256 * b + 16 * c + d)

/-- The short escapes. -/
def escaped : Char → Option ℕ
  | '"' => some 0x22
  | '\\' => some 0x5C
  | '/' => some 0x2F
  | 'b' => some 0x08
  | 'f' => some 0x0C
  | 'n' => some 0x0A
  | 'r' => some 0x0D
  | 't' => some 0x09
  | _ => none

/-- The code units up to the closing quote, and the text behind it. -/
def scanUnits : Text → Option (List ℕ × Text)
  | [] => none
  | '"' :: t => some ([], t)
  | '\\' :: 'u' :: a :: b :: c :: d :: t => do
    let u ← hex4 a b c d
    let (us, t) ← scanUnits t
    some (u :: us, t)
  | '\\' :: e :: t => do
    let u ← escaped e
    let (us, t) ← scanUnits t
    some (u :: us, t)
  | c :: t =>
    if c = '\\' ∨ c.toNat < 0x20 then none
    else do
      let (us, t) ← scanUnits t
      some (c.toNat :: us, t)

/-- A high and a low surrogate are one code point. -/
def joinSurrogates : List ℕ → List ℕ
  | hi :: lo :: us =>
    if (0xD800 ≤ hi ∧ hi < 0xDC00) ∧ 0xDC00 ≤ lo ∧ lo < 0xE000 then
      (0x10000 + 1024 * (hi - 0xD800) + (lo - 0xDC00)) :: joinSurrogates us
    else hi :: joinSurrogates (lo :: us)
  | us => us

def scanString (t : Text) : Option (List ℕ × Text) := do
  let (us, t) ← scanUnits t
  some (joinSurrogates us, t)

/-- Digits, at least one. -/
def scanDigits (t : Text) : Option (Text × Text) :=
  if t.takeWhile Char.isDigit = [] then none
  else some (t.takeWhile Char.isDigit, t.dropWhile Char.isDigit)

/-- Digits without a leading zero. -/
def scanInt (t : Text) : Option (Text × Text) :=
  if (t.takeWhile Char.isDigit).head? = some '0' ∧ t.takeWhile Char.isDigit ≠ ['0'] then none
  else scanDigits t

def scanFrac : Text → Option (Text × Text)
  | '.' :: t => (scanDigits t).map fun p => ('.' :: p.1, p.2)
  | t => some ([], t)

def scanExp : Text → Option (Text × Text)
  | c :: t =>
    if c = 'e' ∨ c = 'E' then
      match t with
      | '+' :: t => (scanDigits t).map fun p => (c :: '+' :: p.1, p.2)
      | '-' :: t => (scanDigits t).map fun p => (c :: '-' :: p.1, p.2)
      | t => (scanDigits t).map fun p => (c :: p.1, p.2)
    else some ([], c :: t)
  | [] => some ([], [])

/-- What follows the sign. -/
def scanMagnitude (neg : Bool) (t : Text) : Option (Value × Text) := do
  let (ds, t) ← scanInt t
  let (frac, t) ← scanFrac t
  let (exp, t) ← scanExp t
  let n : ℤ := Nat.ofDigitChars 10 ds 0
  some (if frac ++ exp = [] then .int (if neg then -n else n)
    else .float ((if neg then ['-'] else []) ++ ds ++ frac ++ exp), t)

def scanNumber : Text → Option (Value × Text)
  | '-' :: t => scanMagnitude true t
  | t => scanMagnitude false t

mutual

/-- The value at the start of the text, with nesting up to the first argument. -/
def value : ℕ → Text → Option (Value × Text)
  | 0, _ => none
  | n + 1, t =>
    match t with
    | '"' :: t => (scanString t).map fun p => (.str p.1, p.2)
    | '{' :: t =>
      match skipWs t with
      | '}' :: t => some (.obj [], t)
      | t => (members n t).map fun p => (.obj p.1, p.2)
    | '[' :: t =>
      match skipWs t with
      | ']' :: t => some (.arr [], t)
      | t => (elements n t).map fun p => (.arr p.1, p.2)
    | 'n' :: 'u' :: 'l' :: 'l' :: t => some (.null, t)
    | 't' :: 'r' :: 'u' :: 'e' :: t => some (.bool true, t)
    | 'f' :: 'a' :: 'l' :: 's' :: 'e' :: t => some (.bool false, t)
    | t => scanNumber t

/-- Members up to the closing brace. -/
def members : ℕ → Text → Option (List (List ℕ × Value) × Text)
  | 0, _ => none
  | n + 1, t =>
    match t with
    | '"' :: t => do
      let (k, t) ← scanString t
      match skipWs t with
      | ':' :: t => do
        let (v, t) ← value n (skipWs t)
        match skipWs t with
        | '}' :: t => some ([(k, v)], t)
        | ',' :: t => do
          let (ms, t) ← members n (skipWs t)
          some ((k, v) :: ms, t)
        | _ => none
      | _ => none
    | _ => none

/-- Elements up to the closing bracket. -/
def elements : ℕ → Text → Option (List Value × Text)
  | 0, _ => none
  | n + 1, t => do
    let (v, t) ← value n t
    match skipWs t with
    | ']' :: t => some ([v], t)
    | ',' :: t => do
      let (vs, t) ← elements n (skipWs t)
      some (v :: vs, t)
    | _ => none

end

/-- The value that a whole text holds. -/
def loads (t : Text) : Option Value := do
  let (v, t) ← value (t.length + 1) (skipWs t)
  if skipWs t = [] then some v else none

/-! ## Strings -/

/-- The text `t` may stand for the code unit `u` in a string. -/
inductive Spells : Text → ℕ → Prop
  | raw {c : Char} (h : 0x20 ≤ c.toNat) (hq : c ≠ '"') (hb : c ≠ '\\') : Spells [c] c.toNat
  | short {e : Char} {u : ℕ} (h : escaped e = some u) : Spells ['\\', e] u
  | hex {a b c d : Char} {u : ℕ} (h : hex4 a b c d = some u) : Spells ['\\', 'u', a, b, c, d] u

/-- The text of a string, without its quotes. -/
inductive SpellsAll : Text → List ℕ → Prop
  | nil : SpellsAll [] []
  | cons {t t' : Text} {u : ℕ} {us : List ℕ} (h : Spells t u) (h' : SpellsAll t' us) :
      SpellsAll (t ++ t') (u :: us)

section Strings

variable {t rest : Text} {u : ℕ} {us : List ℕ}

/-- **A spelling is read as what it stands for.** -/
theorem scanUnits_append (h : Spells t u) :
    scanUnits (t ++ rest) = (scanUnits rest).map fun p => (u :: p.1, p.2) := by
  cases h with
  | @raw c hc hq hb =>
    have hc' : ¬ (c = '\\' ∨ c.toNat < 0x20) := by
      rintro (h | h)
      · exact hb h
      · omega
    rw [List.singleton_append, scanUnits.eq_5 c rest hq (fun _ _ _ _ _ h => absurd h hb)
      (fun _ _ h => absurd h hb), if_neg hc']
    cases scanUnits rest <;> rfl
  | @short e u he =>
    have hu : e ≠ 'u' := by
      rintro rfl
      cases he
    have hstep : scanUnits ('\\' :: e :: rest) = (do
        let u ← escaped e
        let (us, t) ← scanUnits rest
        some (u :: us, t)) := by
      rw [scanUnits.eq_4]
      rintro a b c d t' he' -
      exact hu he'
    show scanUnits ('\\' :: e :: rest) = _
    rw [hstep, he]
    cases scanUnits rest <;> rfl
  | hex hx =>
    show (do
      let u ← hex4 _ _ _ _
      let (us, t) ← scanUnits rest
      some (u :: us, t)) = _
    rw [hx]
    cases scanUnits rest <;> rfl

theorem scanUnits_spelled (h : SpellsAll t us) : scanUnits (t ++ '"' :: rest) = some (us, rest) := by
  induction h with
  | nil => rfl
  | cons h _ ih =>
    rw [List.append_assoc, scanUnits_append h, ih]
    rfl

theorem joinSurrogates_of_lt (h : ∀ u ∈ us, u < 0xD800) : joinSurrogates us = us := by
  induction us with
  | nil => rfl
  | cons hi us ih =>
    cases us with
    | nil => rfl
    | cons lo us =>
      have hhi := h hi List.mem_cons_self
      rw [joinSurrogates, if_neg (by omega), ih fun u hu => h u (List.mem_cons_of_mem hi hu)]

/-- **A string is read as what it spells**, if that has no surrogates. -/
theorem scanString_spelled (h : SpellsAll t us) (hus : ∀ u ∈ us, u < 0xD800) :
    scanString (t ++ '"' :: rest) = some (us, rest) := by
  unfold scanString
  rw [scanUnits_spelled h]
  show some (joinSurrogates us, rest) = _
  rw [joinSurrogates_of_lt hus]

theorem SpellsAll.flatMap {α : Type*} {f : α → Text} {g : α → ℕ} (h : ∀ a, Spells (f a) (g a)) (l : List α) :
    SpellsAll (l.flatMap f) (l.map g) := by
  induction l with
  | nil => exact .nil
  | cons a l ih => exact .cons (h a) ih

/-- The character needs no escape. -/
def plain (c : Char) : Bool := 0x20 ≤ c.toNat && c != '"' && c != '\\'

/-- Plain characters stand for themselves. -/
theorem spellsAll_plain (h : t.all plain = true) : SpellsAll t (t.map Char.toNat) := by
  induction t with
  | nil => exact .nil
  | cons c t ih =>
    simp only [List.all_cons, Bool.and_eq_true, plain, decide_eq_true_eq, bne_iff_ne] at h
    exact .cons (.raw h.1.1.1 h.1.1.2 h.1.2) (ih h.2)

end Strings

/-! ## Numbers -/

/-- The text of an integer. -/
def intText (z : ℤ) : Text := if z < 0 then '-' :: Nat.toDigits 10 z.natAbs else Nat.toDigits 10 z.natAbs

/-- `t` starts with what may stand behind a value. -/
def Ends (t : Text) : Prop := ∀ c, t.head? = some c → c = ',' ∨ c = '}' ∨ c = ']' ∨ isWs c = true

section Numbers

variable {t rest : Text} {n : ℕ}

theorem ends_cons {c : Char} (h : c = ',' ∨ c = '}' ∨ c = ']' ∨ isWs c = true) : Ends (c :: t) := by
  intro c' hc'
  cases hc'
  exact h

/-- No digit, fraction or exponent starts where a value ends. -/
theorem Ends.cases (h : Ends rest) :
    rest = [] ∨ ∃ c t, rest = c :: t ∧ c.isDigit = false ∧ c ≠ '.' ∧ c ≠ 'e' ∧ c ≠ 'E' := by
  cases rest with
  | nil => exact .inl rfl
  | cons c t =>
    have hc := h c rfl
    simp only [isWs, Bool.or_eq_true, beq_iff_eq] at hc
    refine .inr ⟨c, t, rfl, ?_⟩
    rcases hc with rfl | rfl | rfl | ((rfl | rfl) | rfl) | rfl <;> decide

theorem isDigit_toDigits {c : Char} (hc : c ∈ Nat.toDigits 10 n) : c.isDigit = true :=
  Nat.isDigit_of_mem_toDigits (by decide) (by decide) hc

theorem head_toDigits (n : ℕ) : (Nat.toDigits 10 n).head? = some '0' → n = 0 := by
  induction n using Nat.strongRecOn with
  | _ n ih =>
    intro h
    rcases Nat.lt_or_ge n 10 with hn | hn
    · rw [Nat.toDigits_of_lt_base hn] at h
      have hdigit : ∀ k < 10, k.digitChar = '0' → k = 0 := by decide
      exact hdigit n hn (Option.some.inj h)
    · obtain ⟨d, ds, hd⟩ := List.exists_cons_of_ne_nil (Nat.toDigits_ne_nil (n := n / 10) (b := 10))
      rw [Nat.toDigits_of_base_le (by decide) hn, hd] at h
      have := ih (n / 10) (by omega) (by rw [hd]; exact h)
      omega

theorem takeWhile_toDigits (h : Ends rest) :
    (Nat.toDigits 10 n ++ rest).takeWhile Char.isDigit = Nat.toDigits 10 n ∧
      (Nat.toDigits 10 n ++ rest).dropWhile Char.isDigit = rest := by
  rw [List.takeWhile_append_of_pos fun c hc => isDigit_toDigits hc,
    List.dropWhile_append_of_pos fun c hc => isDigit_toDigits hc]
  rcases h.cases with rfl | ⟨c, t, rfl, hc, -⟩
  · simp
  · simp [hc]

theorem scanInt_toDigits (h : Ends rest) :
    scanInt (Nat.toDigits 10 n ++ rest) = some (Nat.toDigits 10 n, rest) := by
  obtain ⟨htake, hdrop⟩ := takeWhile_toDigits (n := n) h
  unfold scanInt scanDigits
  rw [htake, hdrop, if_neg, if_neg Nat.toDigits_ne_nil]
  rintro ⟨hhead, hne⟩
  rw [head_toDigits n hhead] at hne
  exact hne rfl

theorem scanFrac_of_ends (h : Ends rest) : scanFrac rest = some ([], rest) := by
  rcases h.cases with rfl | ⟨c, t, rfl, -, hc, -⟩
  · rfl
  · simp [scanFrac, hc]

theorem scanExp_of_ends (h : Ends rest) : scanExp rest = some ([], rest) := by
  rcases h.cases with rfl | ⟨c, t, rfl, -, -, he, hE⟩
  · rfl
  · simp [scanExp, he, hE]

theorem scanMagnitude_toDigits (neg : Bool) (h : Ends rest) :
    scanMagnitude neg (Nat.toDigits 10 n ++ rest) = some (.int (if neg then -n else n), rest) := by
  simp [scanMagnitude, scanInt_toDigits h, scanFrac_of_ends h, scanExp_of_ends h,
    Nat.ofDigitChars_ten_toDigits]

theorem scanNumber_intText (z : ℤ) (h : Ends rest) :
    scanNumber (intText z ++ rest) = some (.int z, rest) := by
  unfold intText
  split_ifs with hz
  · show scanMagnitude true (Nat.toDigits 10 z.natAbs ++ rest) = _
    have habs : -((z.natAbs : ℕ) : ℤ) = z := by omega
    rw [scanMagnitude_toDigits true h, if_pos rfl, habs]
  · have habs : ((z.natAbs : ℕ) : ℤ) = z := by omega
    have hnum : scanNumber (Nat.toDigits 10 z.natAbs ++ rest) =
        scanMagnitude false (Nat.toDigits 10 z.natAbs ++ rest) := by
      obtain ⟨d, ds, hd⟩ := List.exists_cons_of_ne_nil (Nat.toDigits_ne_nil (n := z.natAbs) (b := 10))
      have hdig : d.isDigit = true := isDigit_toDigits (n := z.natAbs) (by rw [hd]; exact List.mem_cons_self)
      have hminus : d ≠ '-' := by
        rintro rfl
        exact absurd hdig (by decide)
      rw [hd]
      simp [scanNumber, hminus]
    rw [hnum, scanMagnitude_toDigits false h, if_neg Bool.false_ne_true, habs]

end Numbers

/-! ## Values -/

/-- With nesting up to `k` allowed, `t` is read as `v`, whatever follows. -/
structure Reads (t : Text) (v : Value) (k : ℕ) : Prop where
  skip : ∀ rest, skipWs (t ++ rest) = t ++ rest
  value : ∀ n, k ≤ n → ∀ rest, Ends rest → value n (t ++ rest) = some (v, rest)

/-- `t` is read as the members `ms` and the closing brace of an object. -/
structure ReadsMembers (t : Text) (ms : List (List ℕ × Value)) (k : ℕ) : Prop where
  quote : t.head? = some '"'
  members : ∀ n, k ≤ n → ∀ rest, members n (t ++ rest) = some (ms, rest)

section Values

variable {t t' key : Text} {us ks : List ℕ} {v : Value} {ms : List (List ℕ × Value)} {k k' : ℕ}

theorem skipWs_cons {c : Char} (h : isWs c = false) (t : Text) : skipWs (c :: t) = c :: t :=
  List.dropWhile_cons_of_neg (by simp [h])

/-- An integer starts with its sign or a digit. -/
theorem intText_eq_cons (z : ℤ) : ∃ d ds, intText z = d :: ds ∧ (d = '-' ∨ d.isDigit = true) := by
  unfold intText
  split_ifs
  · exact ⟨_, _, rfl, .inl rfl⟩
  · obtain ⟨d, ds, hd⟩ := List.exists_cons_of_ne_nil (Nat.toDigits_ne_nil (n := z.natAbs) (b := 10))
    exact ⟨d, ds, hd, .inr (isDigit_toDigits (n := z.natAbs) (by rw [hd]; exact List.mem_cons_self))⟩

theorem reads_int (z : ℤ) : Reads (intText z) (.int z) 1 := by
  obtain ⟨d, ds, hd, hcase⟩ := intText_eq_cons z
  have hne : ∀ c, c ≠ '-' → c.isDigit = false → d ≠ c := by
    rintro c hminus hdig rfl
    rcases hcase with h | h
    · exact hminus h
    · rw [h] at hdig
      cases hdig
  have hws : isWs d = false := by
    simp [isWs, hne ' ' (by decide) (by decide), hne '\t' (by decide) (by decide),
      hne '\n' (by decide) (by decide), hne '\r' (by decide) (by decide)]
  refine ⟨fun rest => ?_, fun n hn rest hrest => ?_⟩
  · rw [hd]
    exact skipWs_cons hws _
  · obtain ⟨n, rfl⟩ := Nat.exists_eq_succ_of_ne_zero (by omega : n ≠ 0)
    have hnum : value (n + 1) (intText z ++ rest) = scanNumber (intText z ++ rest) := by
      rw [hd]
      simp [Json.value, hne '"' (by decide) (by decide), hne '{' (by decide) (by decide),
        hne '[' (by decide) (by decide), hne 'n' (by decide) (by decide),
        hne 't' (by decide) (by decide), hne 'f' (by decide) (by decide)]
    rw [hnum, scanNumber_intText z hrest]

theorem reads_str (h : SpellsAll t us) (hus : ∀ u ∈ us, u < 0xD800) :
    Reads ('"' :: (t ++ ['"'])) (.str us) 1 := by
  refine ⟨fun rest => skipWs_cons (by decide) _, fun n hn rest _ => ?_⟩
  obtain ⟨n, rfl⟩ := Nat.exists_eq_succ_of_ne_zero (by omega : n ≠ 0)
  have hstr : scanString (t ++ ['"'] ++ rest) = some (us, rest) := by
    rw [List.append_assoc]
    exact scanString_spelled h hus
  show (scanString (t ++ ['"'] ++ rest)).map (fun p => (Value.str p.1, p.2)) = _
  rw [hstr]
  rfl

/-- What is read behind a key and its colon. -/
theorem members_key (hkey : SpellsAll key ks) (hks : ∀ u ∈ ks, u < 0xD800) (hv : Reads t v k) {n : ℕ}
    (hn : k ≤ n) (rest : Text) (hrest : Ends rest) :
    members (n + 1) ('"' :: (key ++ '"' :: ':' :: (t ++ rest))) =
      match skipWs rest with
      | '}' :: t => some ([(ks, v)], t)
      | ',' :: t => do
        let (ms, t) ← members n (skipWs t)
        some ((ks, v) :: ms, t)
      | _ => none := by
  have hcolon : skipWs (':' :: (t ++ rest)) = ':' :: (t ++ rest) := skipWs_cons (by decide) _
  simp only [Json.members, scanString_spelled hkey hks, Option.bind_eq_bind, Option.bind_some, hcolon,
    hv.skip, hv.value n hn rest hrest]

/-- **The last member.** -/
theorem readsMembers_one (hkey : SpellsAll key ks) (hks : ∀ u ∈ ks, u < 0xD800) (hv : Reads t v k) :
    ReadsMembers ('"' :: (key ++ '"' :: ':' :: (t ++ ['}']))) [(ks, v)] (k + 1) := by
  refine ⟨rfl, fun n hn rest => ?_⟩
  obtain ⟨n, rfl⟩ := Nat.exists_eq_succ_of_ne_zero (by omega : n ≠ 0)
  have hmem := members_key hkey hks hv (n := n) (by omega) ('}' :: rest) (ends_cons (by decide))
  rw [skipWs_cons (by decide)] at hmem
  simpa using hmem

/-- **One member more.** -/
theorem ReadsMembers.cons (hms : ReadsMembers t' ms k') (hkey : SpellsAll key ks)
    (hks : ∀ u ∈ ks, u < 0xD800) (hv : Reads t v k) (hk : k ≤ k') :
    ReadsMembers ('"' :: (key ++ '"' :: ':' :: (t ++ ',' :: t'))) ((ks, v) :: ms) (k' + 1) := by
  refine ⟨rfl, fun n hn rest => ?_⟩
  obtain ⟨n, rfl⟩ := Nat.exists_eq_succ_of_ne_zero (by omega : n ≠ 0)
  have hmem := members_key hkey hks hv (n := n) (by omega) (',' :: (t' ++ rest))
    (ends_cons (by decide))
  have hskip : skipWs (t' ++ rest) = t' ++ rest := by
    obtain ⟨c, t'', rfl⟩ : ∃ c t'', t' = c :: t'' := List.exists_cons_of_ne_nil (by
      rintro rfl
      cases hms.quote)
    cases hms.quote
    exact skipWs_cons (by decide) _
  rw [skipWs_cons (by decide)] at hmem
  simp only [hskip, hms.members n (by omega) rest] at hmem
  simpa using hmem

/-- **An object.** -/
theorem reads_obj (hms : ReadsMembers t ms k) : Reads ('{' :: t) (.obj ms) (k + 1) := by
  refine ⟨fun rest => skipWs_cons (by decide) _, fun n hn rest _ => ?_⟩
  obtain ⟨n, rfl⟩ := Nat.exists_eq_succ_of_ne_zero (by omega : n ≠ 0)
  obtain ⟨c, t', rfl⟩ : ∃ c t', t = c :: t' := List.exists_cons_of_ne_nil (by
    rintro rfl
    cases hms.quote)
  cases hms.quote
  have hskip : skipWs ('"' :: t' ++ rest) = '"' :: t' ++ rest := skipWs_cons (by decide) _
  show (match skipWs ('"' :: t' ++ rest) with
    | '}' :: t => some (Value.obj [], t)
    | t => (members n t).map fun p : List (List ℕ × Value) × Text => (Value.obj p.1, p.2)) = _
  rw [hskip]
  show (members n ('"' :: t' ++ rest)).map (fun p => (Value.obj p.1, p.2)) = _
  rw [hms.members n (by omega) rest]
  rfl

/-- **A file** that holds a value and ends in a line feed. -/
theorem loads_of_reads (h : Reads t v k) (hk : k ≤ t.length) : loads (t ++ ['\n']) = some v := by
  have hlen : k ≤ (t ++ ['\n']).length + 1 := by
    rw [List.length_append]
    omega
  unfold loads
  rw [h.skip, h.value _ hlen ['\n'] (ends_cons (by decide))]
  rfl

end Values

end Json
