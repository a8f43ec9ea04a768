import CR8Devkit.Lib.Transition
import Mathlib.Logic.Function.Basic
import Mathlib.Data.Nat.Notation
import Mathlib.Tactic.Common

/-!
# Who holds the rpmsg channel

The rpmsg channel of core0 belongs to one pwmd at a time. Here are all that start one or wait for
one to end: `serve_pwm.py`, with its main thread (`Daemon.start`, `Daemon.stop`) beside the HTTP
threads (the restart in `Daemon.send`), and `restart-pwm-web.sh`, in any interleaving, and with
processes that die at any moment.

* `next`: one step of one of them.
* **`single_holder`**: there is one server at most, and one pwmd at most as long as no request comes
  when `Daemon.stop` has let go of its process.
-/

namespace CR8Devkit.Lifecycle

open Transition Function

/-! ## A server -/

/-- The main thread, by what it does next. -/
inductive Main
  /-- `DAEMON.start()`, with the port bound. -/
  | starting
  /-- The two `wait_ready`. -/
  | waiting
  | serving
  /-- `DAEMON.stop()`: the test of `self.proc`. -/
  | stopping
  | closing
  /-- `self.proc.wait(timeout=8)`. -/
  | firstWait (p : ℕ)
  | interrupting
  | secondWait (p : ℕ)
  /-- `self.proc = None`. -/
  | forgetting
  /-- `UARTD.stop()`, and the end. -/
  | ending
  deriving DecidableEq

/-- The thread in `Daemon.send` that has the lock. -/
inductive Http
  | free
  | checking
  /-- `self.start()`, up to the new process. -/
  | spawning
  | assigning (p : ℕ)
  | holding
  deriving DecidableEq

structure Server where
  main : Main
  http : Http
  /-- `DAEMON.proc`. -/
  proc : Option ℕ

/-! ## The script -/

/-- `restart-pwm-web.sh`, by what it does next. -/
inductive Script
  | idle
  /-- `ps -p $PID`, behind `kill -INT` or, in the end, `kill -TERM`. -/
  | waiting (pid : ℕ → Bool) (term : Bool)
  /-- `ps -eo args | grep "[p]wmd"`, and once more five seconds later. -/
  | checking (again : Bool)
  | launching

structure State where
  /-- The servers, by pid. -/
  servers : ℕ → Option Server
  /-- Which pwmd is alive. -/
  alive : ℕ → Bool
  script : Script
  /-- The next pid of a server, and of a pwmd. -/
  nextServer : ℕ
  nextProc : ℕ

def start : State := ⟨fun _ => none, fun _ => false, .idle, 0, 0⟩

def isAlive (s : State) (proc : Option ℕ) : Bool := proc.elim false s.alive

/-- Whether one below the next pid meets `P`. -/
def someBelow (n : ℕ) (P : ℕ → Bool) : Bool := (List.range n).any P

/-- `Popen`. -/
def popen (s : State) : State :=
  { s with alive := update s.alive s.nextProc true, nextProc := s.nextProc + 1 }

def setServer (s : State) (k : ℕ) (v : Option Server) : State := { s with servers := update s.servers k v }

/-- The main thread goes on; `KeyboardInterrupt` takes it out of `serve_forever`. -/
def mainStep (s : State) (k : ℕ) (v : Server) : State :=
  match v.main with
  | .starting => setServer (popen s) k (some { v with main := .waiting, proc := some s.nextProc })
  | .waiting => setServer s k (some { v with main := .serving })
  | .serving => setServer s k (some { v with main := .stopping })
  | .stopping => setServer s k (some { v with main := if v.proc = none then .ending else .closing })
  | .closing => setServer s k (some { v with main := v.proc.elim .ending .firstWait })
  | .firstWait p => setServer s k (some { v with main := if s.alive p then .interrupting else .forgetting })
  | .interrupting => setServer s k (some { v with main := v.proc.elim .ending .secondWait })
  | .secondWait _ => setServer s k (some { v with main := .forgetting })
  | .forgetting => setServer s k (some { v with main := .ending, proc := none })
  | .ending => setServer s k none

inductive Act
  | main (k : ℕ)
  /-- A server is killed, or leaves by an exception. -/
  | die (k : ℕ)
  | lock (k : ℕ)
  /-- `if not self.alive()`; `recent`: there has been a restart in the last 30 seconds. -/
  | check (k : ℕ) (recent : Bool)
  | spawn (k : ℕ)
  | assign (k : ℕ)
  | release (k : ℕ)
  /-- A pwmd ends. -/
  | exit (p : ℕ)
  /-- The script goes on; `bound`: the new server gets its port. -/
  | script (bound : Bool)

def scriptStep (s : State) (bound : Bool) : State :=
  match s.script with
  | .idle =>
    { s with script :=
        if someBelow s.nextServer fun k => (s.servers k).isSome
          then .waiting (fun k => (s.servers k).isSome) false
        else .checking false }
  | .waiting pid term =>
    { s with script :=
        if someBelow s.nextServer fun k => pid k && (s.servers k).isSome then
          if term then .idle else .waiting pid true
        else .checking false }
  | .checking again =>
    { s with script :=
        if someBelow s.nextProc s.alive then
          if again then .idle else .checking true
        else .launching }
  | .launching =>
    { s with
      script := .idle
      servers := if bound then update s.servers s.nextServer (some ⟨.starting, .free, none⟩) else s.servers
      nextServer := s.nextServer + 1 }

/-- Requests come in from `serve_forever` on. -/
def Main.accepts : Main → Bool
  | .starting | .waiting => false
  | _ => true

def httpStep (s : State) (k : ℕ) (v : Server) : Act → Option State
  | .lock _ => if v.http = .free ∧ v.main.accepts
      then some (setServer s k (some { v with http := .checking })) else none
  | .check _ recent =>
    if v.http = .checking then
      some (setServer s k (some { v with
        http := if isAlive s v.proc then .holding else if recent then .free else .spawning }))
    else none
  | .spawn _ =>
    if v.http = .spawning
      then some (setServer (popen s) k (some { v with http := .assigning s.nextProc })) else none
  | .assign _ =>
    match v.http with
    | .assigning p => some (setServer s k (some { v with http := .holding, proc := some p }))
    | _ => none
  | .release _ =>
    match v.http with
    | .checking | .spawning | .holding => some (setServer s k (some { v with http := .free }))
    | _ => none
  | _ => none

def next (s : State) (a : Act) : Option State :=
  match a with
  | .main k => (s.servers k).map (mainStep s k)
  | .die k => (s.servers k).map fun _ => setServer s k none
  | .lock k | .check k _ | .spawn k | .assign k | .release k => (s.servers k).bind fun v => httpStep s k v a
  | .exit p => some { s with alive := update s.alive p false }
  | .script bound => some (scriptStep s bound)

/-! ## One server -/

variable {s s' : State} {a : Act} {k : ℕ} {v : Server}

theorem someBelow_eq_false {n : ℕ} {P : ℕ → Bool} :
    someBelow n P = false ↔ ∀ k < n, P k = false := by
  simp [someBelow]

/-- A step of one server changes no other. -/
theorem next_servers (h : next s a = some s') :
    (∃ b, a = .script b) ∨ s'.script = s.script ∧ s'.nextServer = s.nextServer ∧
      ∀ k, s'.servers k ≠ none → s.servers k ≠ none := by
  have hset : ∀ (t : State) (k : ℕ) (v w : Option Server), t.servers = s.servers →
      s.servers k = v → v ≠ none →
      ∀ l, (setServer t k w).servers l ≠ none → s.servers l ≠ none := by
    intro t k v w ht hk hv l hl
    rcases eq_or_ne l k with rfl | hne
    · rwa [hk]
    · rwa [← ht, ← show (setServer t k w).servers l = t.servers l from update_of_ne hne ..]
  cases a with
  | main k =>
    obtain ⟨v, hk, rfl⟩ := Option.map_eq_some_iff.mp h
    refine .inr ?_
    unfold mainStep
    split <;> exact ⟨rfl, rfl, hset _ k _ _ rfl hk (Option.some_ne_none v)⟩
  | die k =>
    obtain ⟨v, hk, rfl⟩ := Option.map_eq_some_iff.mp h
    exact .inr ⟨rfl, rfl, hset _ k _ _ rfl hk (Option.some_ne_none v)⟩
  | lock k | check k | spawn k | assign k | release k =>
    obtain ⟨v, hk, hs⟩ := Option.bind_eq_some_iff.mp h
    refine .inr ?_
    unfold httpStep at hs
    dsimp only at hs
    split at hs
    all_goals cases hs
    all_goals exact ⟨rfl, rfl, hset _ k _ _ rfl hk (Option.some_ne_none v)⟩
  | exit p =>
    cases h
    exact .inr ⟨rfl, rfl, fun _ => id⟩
  | script b => exact .inl ⟨b, rfl⟩

/-- What the script knows of the servers. -/
def Script.Knows (servers : ℕ → Option Server) : Script → Prop
  | .idle => True
  | .waiting pid _ => ∀ k, servers k ≠ none → pid k = true
  | .checking _ | .launching => ∀ k, servers k = none

theorem Script.Knows.mono {servers servers' : ℕ → Option Server} {c : Script} (hc : c.Knows servers)
    (h : ∀ k, servers' k ≠ none → servers k ≠ none) : c.Knows servers' := by
  cases c with
  | idle => trivial
  | waiting pid term => exact fun k hk => hc k (h k hk)
  | checking | launching => exact fun k => not_not.mp fun hk => h k hk (hc k)

structure Single (s : State) : Prop where
  one : ∀ k l, s.servers k ≠ none → s.servers l ≠ none → k = l
  below : ∀ k, s.servers k ≠ none → k < s.nextServer
  known : s.script.Knows s.servers

theorem single_start : Single start where
  one _ _ h := absurd rfl h
  below _ h := absurd rfl h
  known := trivial

/-- A new server comes when there is none. -/
theorem single_launch (hn : ∀ k, s.servers k = none) (bound : Bool) :
    Single { s with
      script := .idle
      servers := if bound then update s.servers s.nextServer (some ⟨.starting, .free, none⟩) else s.servers
      nextServer := s.nextServer + 1 } := by
  have hone : ∀ k, (if bound then update s.servers s.nextServer (some ⟨.starting, .free, none⟩) else
    s.servers) k ≠
      none → k = s.nextServer := by
    intro k hk
    by_contra hne
    refine hk ?_
    split_ifs
    · rw [update_of_ne hne, hn]
    · exact hn k
  exact ⟨fun k l hk hl => (hone k hk).trans (hone l hl).symm,
    fun k hk => (hone k hk).symm ▸ Nat.lt_succ_self _, trivial⟩

theorem Single.script (hs : Single s) (bound : Bool) : Single (scriptStep s bound) := by
  have hnone : ∀ P : ℕ → Bool, (∀ k, s.servers k ≠ none → P k = true) →
      (someBelow s.nextServer fun k => P k && (s.servers k).isSome) = false → ∀ k, s.servers k = none := by
    intro P hP h k
    by_contra hk
    have h₁ := someBelow_eq_false.mp h k (hs.below k hk)
    rw [hP k hk, Bool.true_and] at h₁
    exact hk (Option.isSome_eq_false_iff.mp h₁ |> Option.isNone_iff_eq_none.mp)
  have hk := hs.known
  unfold scriptStep
  cases hc : s.script with
  | idle =>
    refine ⟨hs.one, hs.below, ?_⟩
    dsimp only
    split_ifs with h
    · exact fun k hk => Option.isSome_iff_ne_none.mpr hk
    · refine hnone (fun _ => true) (fun _ _ => rfl) ?_
      simpa using h
  | waiting pid term =>
    rw [hc] at hk
    refine ⟨hs.one, hs.below, ?_⟩
    dsimp only
    split_ifs with h
    · trivial
    · exact hk
    · exact hnone pid hk (Bool.eq_false_iff.mpr h)
  | checking again =>
    rw [hc] at hk
    refine ⟨hs.one, hs.below, ?_⟩
    dsimp only
    split_ifs
    · trivial
    · exact hk
    · exact hk
  | launching =>
    rw [hc] at hk
    exact single_launch hk bound

theorem Single.next (hs : Single s) (h : next s a = some s') : Single s' := by
  rcases next_servers h with ⟨b, rfl⟩ | ⟨h₁, h₂, h₃⟩
  · cases h
    exact hs.script b
  · refine ⟨fun k l hk hl => hs.one k l (h₃ k hk) (h₃ l hl), fun k hk => h₂ ▸ hs.below k (h₃ k hk), ?_⟩
    rw [h₁]
    exact hs.known.mono h₃

/-! ## One pwmd -/

/-- What is alive, beside the one server. -/
def Serves (alive : ℕ → Bool) (v : Server) : Prop :=
  match v.http with
  | .spawning => ∀ p, alive p = false
  | .assigning q => ∀ p, alive p = true → p = q
  | _ => (v.main = .starting → ∀ p, alive p = false) ∧ ∀ p, alive p = true → v.proc = some p ∨ v.proc = none

structure Inv (s : State) : Prop where
  single : Single s
  one : ∀ p q, s.alive p = true → s.alive q = true → p = q
  below : ∀ p, s.alive p = true → p < s.nextProc
  launching : s.script = .launching → ∀ p, s.alive p = false
  serves : ∀ k v, s.servers k = some v → Serves s.alive v ∧ (v.main.accepts = false → v.http = .free)

theorem inv_start : Inv start where
  single := single_start
  one _ _ h := absurd h Bool.false_ne_true
  below _ h := absurd h Bool.false_ne_true
  launching _ _ := rfl
  serves _ _ h := nomatch h

/-- A request finds that `DAEMON.stop()` has let go of its process. -/
def AfterStop (s : State) (a : Act) : Prop :=
  ∃ k recent v, a = .check k recent ∧ s.servers k = some v ∧ v.proc = none

theorem Serves.mono {alive alive' : ℕ → Bool} (hv : Serves alive v)
    (h : ∀ p, alive' p = true → alive p = true) :
    Serves alive' v := by
  have hf : ∀ p, alive p = false → alive' p = false := fun p hp =>
    Bool.eq_false_iff.mpr fun hp' => Bool.eq_false_iff.mp hp (h p hp')
  unfold Serves at hv ⊢
  split
  · rename_i hh
    rw [hh] at hv
    exact fun p => hf p (hv p)
  · rename_i q hh
    rw [hh] at hv
    exact fun p hp => hv p (h p hp)
  · rename_i h₁ h₂
    split at hv
    · exact absurd ‹_› h₁
    · exact absurd ‹_› (h₂ _)
    · exact ⟨fun hm p => hf p (hv.1 hm p), fun p hp => hv.2 p (h p hp)⟩

/-- The main thread goes on, and may have let go of its process. -/
theorem Serves.goesOn {alive : ℕ → Bool} (hv : Serves alive v) {m : Main}
    (hm : m ≠ .starting) {proc : Option ℕ}
    (hp : proc = v.proc ∨ proc = none) : Serves alive ⟨m, v.http, proc⟩ := by
  unfold Serves at hv ⊢
  dsimp only
  split
  · rename_i hh
    rw [hh] at hv
    exact hv
  · rename_i q hh
    rw [hh] at hv
    exact hv
  · rename_i h₁ h₂
    split at hv
    · exact absurd ‹_› h₁
    · exact absurd ‹_› (h₂ _)
    · refine ⟨fun h => absurd h hm, fun p hal => ?_⟩
      rcases hp with rfl | rfl
      · exact hv.2 p hal
      · exact .inr rfl

theorem Inv.update (hi : Inv s) (hk : s.servers k = some v) {al : ℕ → Bool} {n : ℕ} {w : Option Server}
    (hs : Single (setServer { s with alive := al, nextProc := n } k w))
    (h₁ : ∀ p q, al p = true → al q = true → p = q) (h₂ : ∀ p, al p = true → p < n)
    (hw : ∀ u, w = some u → Serves al u ∧ (u.main.accepts = false → u.http = .free)) :
    Inv (setServer { s with alive := al, nextProc := n } k w) where
  single := hs
  one := h₁
  below := h₂
  launching h := by
    have hn := hi.single.known
    rw [show s.script = .launching from h] at hn
    exact absurd (hk.symm.trans (hn k)) nofun
  serves l u hl := by
    change Function.update s.servers k w l = some u at hl
    rcases eq_or_ne l k with rfl | hne
    · rw [update_self] at hl
      exact hw u hl
    · rw [update_of_ne hne] at hl
      exact absurd (hi.single.one l k (fun h => nomatch hl.symm.trans h) fun h => nomatch hk.symm.trans h) hne

/-- Where none is alive, `Popen` makes one. -/
theorem popen_one {n : ℕ} {alive : ℕ → Bool} (h : ∀ p, alive p = false) {p : ℕ}
    (hp : Function.update alive n true p = true) : p = n := by
  by_contra hne
  rw [update_of_ne hne, h] at hp
  exact Bool.false_ne_true hp

theorem Inv.mainStep (hi : Inv s) (hk : s.servers k = some v) (hs : Single (mainStep s k v)) :
    Inv (mainStep s k v) := by
  obtain ⟨hv, hf⟩ := hi.serves k v hk
  obtain ⟨m, http, proc⟩ := v
  have hgo : ∀ {m' : Main} {proc' : Option ℕ}, (m'.accepts = false → http = .free) → m' ≠ .starting →
      proc' = proc ∨ proc' = none → Single (setServer s k (some ⟨m', http, proc'⟩)) →
      Inv (setServer s k (some ⟨m', http, proc'⟩)) := by
    intro m' proc' hm hne hp hs
    refine hi.update hk hs hi.one hi.below fun u hu => ?_
    cases hu
    exact ⟨hv.goesOn hne hp, hm⟩
  cases m with
  | starting =>
    obtain rfl : http = .free := hf rfl
    have hone : ∀ p, Function.update s.alive s.nextProc true p = true → p = s.nextProc := fun p =>
      popen_one (hv.1 rfl)
    refine hi.update hk hs (fun p q hp hq => (hone p hp).trans (hone q hq).symm)
      (fun p hp => (hone p hp).symm ▸ Nat.lt_succ_self _) fun u hu => ?_
    cases hu
    exact ⟨⟨nofun, fun p hp => .inl (congrArg some (hone p hp).symm)⟩, fun _ => rfl⟩
  | waiting => exact hgo (fun _ => hf rfl) nofun (.inl rfl) hs
  | serving => exact hgo nofun nofun (.inl rfl) hs
  | stopping =>
    refine hgo ?_ ?_ (.inl rfl) hs
    all_goals split_ifs <;> exact nofun
  | closing =>
    refine hgo ?_ ?_ (.inl rfl) hs
    all_goals cases proc <;> exact nofun
  | firstWait p =>
    refine hgo ?_ ?_ (.inl rfl) hs
    all_goals split_ifs <;> exact nofun
  | interrupting =>
    refine hgo ?_ ?_ (.inl rfl) hs
    all_goals cases proc <;> exact nofun
  | secondWait p => exact hgo nofun nofun (.inl rfl) hs
  | forgetting => exact hgo nofun nofun (.inr rfl) hs
  | ending => exact hi.update hk hs hi.one hi.below fun u hu => nomatch hu

theorem Inv.httpStep (hi : Inv s) (hk : s.servers k = some v)
    (ha : ∀ l recent, a = .check l recent → v.proc ≠ none) (h : httpStep s k v a = some s') (hs : Single s') :
    Inv s' := by
  obtain ⟨hv, hf⟩ := hi.serves k v hk
  obtain ⟨m, http, proc⟩ := v
  have hset : ∀ {http' : Http} {proc' : Option ℕ}, Serves s.alive ⟨m, http', proc'⟩ →
      (m.accepts = false → http' = .free) → Single (setServer s k (some ⟨m, http', proc'⟩)) →
      Inv (setServer s k (some ⟨m, http', proc'⟩)) := by
    intro http' proc' hv hf hs
    refine hi.update hk hs hi.one hi.below fun u hu => ?_
    cases hu
    exact ⟨hv, hf⟩
  cases a with
  | lock l =>
    obtain ⟨⟨h₁, h₂⟩, h⟩ := Option.ite_none_right_eq_some.mp h
    obtain rfl : http = .free := h₁
    cases h
    exact hset hv (fun h => absurd (h₂.symm.trans h) nofun) hs
  | check l recent =>
    obtain ⟨h₁, h⟩ := Option.ite_none_right_eq_some.mp h
    obtain rfl : http = .checking := h₁
    cases h
    have hacc : ¬m.accepts = false := fun h => nomatch hf h
    refine hset ?_ (fun h => absurd h hacc) hs
    split_ifs with hal
    · exact hv
    · exact hv
    · intro p
      refine Bool.eq_false_iff.mpr fun hp => hal ?_
      rcases hv.2 p hp with hproc | hproc
      · obtain rfl : proc = some p := hproc
        exact hp
      · exact absurd hproc (ha l recent rfl)
  | spawn l =>
    obtain ⟨h₁, h⟩ := Option.ite_none_right_eq_some.mp h
    obtain rfl : http = .spawning := h₁
    cases h
    have hone : ∀ p, Function.update s.alive s.nextProc true p = true → p = s.nextProc := fun p =>
      popen_one hv
    refine hi.update hk hs (fun p q hp hq => (hone p hp).trans (hone q hq).symm)
      (fun p hp => (hone p hp).symm ▸ Nat.lt_succ_self _) fun u hu => ?_
    cases hu
    exact ⟨hone, fun h => nomatch hf h⟩
  | assign l =>
    cases http with
    | assigning p =>
      cases h
      refine hset ⟨?_, fun q hq => .inl (congrArg some (hv q hq).symm)⟩ (fun h => nomatch hf h) hs
      rintro rfl
      exact nomatch hf rfl
    | free | checking | spawning | holding => exact nomatch h
  | release l =>
    cases http with
    | checking | holding =>
      cases h
      exact hset hv (fun _ => rfl) hs
    | spawning =>
      cases h
      exact hset ⟨fun _ => hv, fun p hp => absurd ((hv p).symm.trans hp) nofun⟩ (fun _ => rfl) hs
    | free | assigning => exact nomatch h
  | main | die | exit | script => exact nomatch h

theorem Inv.script (hi : Inv s) (bound : Bool) : Inv (scriptStep s bound) := by
  have hs : Single (scriptStep s bound) := hi.single.script bound
  have hkeep : ∀ c : Script, Single { s with script := c } → (c = .launching → ∀ p, s.alive p = false) →
      Inv { s with script := c } := fun c hs hl => ⟨hs, hi.one, hi.below, hl, hi.serves⟩
  unfold scriptStep at hs ⊢
  cases hc : s.script with
  | idle =>
    rw [hc] at hs
    refine hkeep _ hs ?_
    split_ifs <;> exact nofun
  | waiting pid term =>
    rw [hc] at hs
    refine hkeep _ hs ?_
    split_ifs <;> exact nofun
  | checking again =>
    rw [hc] at hs
    refine hkeep _ hs ?_
    split_ifs with h
    · exact nofun
    · exact nofun
    · intro _ p
      exact Bool.eq_false_iff.mpr fun hp =>
        absurd (someBelow_eq_false.mp (Bool.eq_false_iff.mpr h) p (hi.below p hp))
          (Bool.eq_false_iff.not.mpr (not_not.mpr hp))
  | launching =>
    rw [hc] at hs
    have hn : ∀ k, s.servers k = none := by
      have h := hi.single.known
      rw [hc] at h
      exact h
    refine ⟨hs, hi.one, hi.below, nofun, fun k v hk => ?_⟩
    dsimp only at hk
    split_ifs at hk
    · rcases eq_or_ne k s.nextServer with rfl | hne
      · rw [update_self] at hk
        cases hk
        have hd := hi.launching hc
        exact ⟨⟨fun _ => hd, fun p hp => absurd ((hd p).symm.trans hp) nofun⟩, fun _ => rfl⟩
      · rw [update_of_ne hne, hn] at hk
        exact nomatch hk
    · exact absurd ((hn k).symm.trans hk) nofun

theorem Inv.next (hi : Inv s) (ha : ¬AfterStop s a) (h : next s a = some s') : Inv s' := by
  have hs := hi.single.next h
  cases a with
  | main k =>
    obtain ⟨v, hk, rfl⟩ := Option.map_eq_some_iff.mp h
    exact hi.mainStep hk hs
  | die k =>
    obtain ⟨v, hk, rfl⟩ := Option.map_eq_some_iff.mp h
    exact hi.update hk hs hi.one hi.below fun u hu => nomatch hu
  | lock k | spawn k | assign k | release k =>
    obtain ⟨v, hk, h⟩ := Option.bind_eq_some_iff.mp h
    exact hi.httpStep hk (fun _ _ h => Act.noConfusion h) h hs
  | check k recent =>
    obtain ⟨v, hk, h⟩ := Option.bind_eq_some_iff.mp h
    exact hi.httpStep hk (fun _ _ _ hp => ha ⟨k, recent, v, rfl, hk, hp⟩) h hs
  | exit p =>
    cases h
    have hle : ∀ q, Function.update s.alive p false q = true → s.alive q = true := by
      intro q hq
      rcases eq_or_ne q p with rfl | hne
      · exact absurd ((update_self q false s.alive).symm.trans hq) nofun
      · rwa [update_of_ne hne] at hq
    exact ⟨hs, fun q r hq hr => hi.one q r (hle q hq) (hle r hr), fun q hq => hi.below q (hle q hq),
      fun h q => Bool.eq_false_iff.mpr fun hq => absurd ((hi.launching h q).symm.trans (hle q hq)) nofun,
      fun k v hk => ⟨(hi.serves k v hk).1.mono hle, (hi.serves k v hk).2⟩⟩
  | script b =>
    cases h
    exact hi.script b

/-- There is one server at most, and one pwmd at most as long as no request comes when `Daemon.stop`
has let go of its process. -/
theorem single_holder {as : List Act} (h : Run (ofNext next) start as s) :
    (∀ k l, s.servers k ≠ none → s.servers l ≠ none → k = l) ∧
      (Run (guarded (ofNext next) fun s a => ¬AfterStop s a) start as s →
        ∀ p q, s.alive p = true → s.alive q = true → p = q) := by
  have hs : Single s := h.inv single_start fun hs h => hs.next h
  refine ⟨hs.one, fun h => ?_⟩
  have hi : Inv s := h.inv inv_start fun hi h => hi.next h.1 h.2
  exact hi.one

theorem single_holder_restarted : ∃ s, exec next start
      [.script true, .script true, .script true, .main 0, .main 0, .main 0, .die 0, .exit 0,
        .script true, .script true,
        .script true, .main 1] = some s ∧ ∀ p q, s.alive p = true → s.alive q = true → p = q := by
  obtain ⟨s, h⟩ : ∃ s, exec next start
      [.script true, .script true, .script true, .main 0, .main 0, .main 0, .die 0, .exit 0,
        .script true, .script true,
        .script true, .main 1] = some s := Option.isSome_iff_exists.mp (by decide +kernel)
  refine ⟨s, h, (single_holder (run_of_exec h)).2 ((run_of_exec h).guard fun a ha s => ?_)⟩
  rintro ⟨k, recent, v, rfl, -⟩
  simp at ha

/-- A stop that gives up, and a request before the server is gone. -/
theorem two_alive : ∃ as s, Run (ofNext next) start as s ∧ s.alive 0 = true ∧ s.alive 1 = true := by
  have h : (exec next start ([.script true, .script true, .script true] ++ List.replicate 9 (.main 0) ++
      [.lock 0, .check 0 false, .spawn 0])).elim false (fun s =>
        s.alive 0 && s.alive 1) = true := by decide +kernel
  cases hs : exec next start ([.script true, .script true, .script true] ++ List.replicate 9 (.main 0) ++
      [.lock 0, .check 0 false, .spawn 0]) with
  | none =>
    rw [hs] at h
    exact nomatch h
  | some s =>
    rw [hs] at h
    exact ⟨_, s, run_of_exec hs, Bool.and_eq_true_iff.mp h⟩

end CR8Devkit.Lifecycle
