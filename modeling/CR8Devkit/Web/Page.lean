import CR8Devkit.Lib.Transition
import Mathlib.Logic.Function.Basic
import Mathlib.Tactic.Common
import Mathlib.Data.Nat.Notation

/-!
# The controls of the PWM page

* `queue`, `flush`: the throttle between the controls and the POST requests; `next`: one event of
  the user, of a timer or of the network, in any order.
* `Inv`: no request is forgotten while something is pending, and one `flush` sends at a time.
* `Served`: a channel waits to be sent, or its last request carries what the panel shows; a GPT that
  is left keeps its last request (`Kept`).
* **`posts_of_run`**: the requests after a run, whose values are those the panel showed for each
  GPT.
-/

namespace CR8Devkit.PwmPage

open Transition

inductive Ch
  | a | b
  deriving DecidableEq

/-- The settings in `st`. -/
structure Panel where
  freq : ℕ
  dutyA : ℕ
  dutyB : ℕ
  deriving DecidableEq

def Panel.duty (p : Panel) : Ch → ℕ
  | .a => p.dutyA
  | .b => p.dutyB

def Panel.setDuty (p : Panel) (v : ℕ) : Ch → Panel
  | .a => { p with dutyA := v }
  | .b => { p with dutyB := v }

/-- The body of a POST request. -/
structure Post where
  gpt : ℕ
  ch : Ch
  freq : ℕ
  duty : ℕ
  deriving DecidableEq

/-- The page: `st`, the variables of the throttle, the timers that will fire, and for each `flush`
that waits for a response the channels it has yet to send. For the record: the requests, the latest
first; what the user set on each GPT; and what the panel showed while it was last selected. -/
structure Page where
  gpt : ℕ
  panel : Panel
  timer : Option ℕ
  armed : List ℕ
  nextId : ℕ
  pending : Option (List Ch)
  busy : Bool
  flushes : List (List Ch)
  posts : List Post
  setFreq : ℕ → Option ℕ
  setDuty : ℕ → Ch → Option ℕ
  shown : ℕ → Panel

/-- A set of channels, each once and in order. -/
def sorted (chs : List Ch) : List Ch := [Ch.a, Ch.b].filter (· ∈ chs)

namespace Page

variable (s : Page)

/-- `timer = setTimeout(flush, …)`. -/
def arm : Page :=
  { s with timer := some s.nextId, armed := s.nextId :: s.armed, nextId := s.nextId + 1 }

/-- `clearTimeout(timer); timer = null`. -/
def clear : Page := { s with armed := s.armed.filter fun t => some t ≠ s.timer, timer := none }

/-- `fetch` reads the settings when it is called. -/
def post (ch : Ch) : Page := { s with posts := ⟨s.gpt, ch, s.panel.freq, s.panel.duty ch⟩ :: s.posts }

/-- `flush`, up to its first response. -/
def flush : Page :=
  let s := s.clear
  match s.pending with
  | none => s
  | some chs =>
    if s.busy = true then s.arm
    else
      match sorted chs with
      | [] => { s with pending := none }
      | ch :: rest => { s with pending := none, busy := true, flushes := s.flushes ++ [rest] }.post ch

def queue (channels : List Ch) (now : Bool) : Page :=
  let s := { s with pending := some (s.pending.getD [] ++ channels) }
  if now = true then s.flush
  else if s.timer = none then s.arm
  else s

/-- A response to flush `i`, which has `rest` to send. -/
def resume (i : ℕ) (rest : List Ch) : Page :=
  match rest with
  | ch :: rest => { s with flushes := s.flushes.set i rest }.post ch
  | [] =>
    let s := { s with flushes := s.flushes.eraseIdx i, busy := false }
    if s.pending = none then s else s.arm

/-- The panel shows `p` from now on. -/
def display (p : Panel) : Page := { s with panel := p, shown := Function.update s.shown s.gpt p }

def changeFreq (v : ℕ) : Page :=
  { s.display { s.panel with freq := v } with setFreq := Function.update s.setFreq s.gpt (some v) }

def changeDuty (ch : Ch) (v : ℕ) : Page :=
  { s.display (s.panel.setDuty v ch) with
    setDuty := Function.update s.setDuty s.gpt (Function.update (s.setDuty s.gpt) ch (some v)) }

def changeGpt (g : ℕ) : Page := { s with gpt := g, shown := Function.update s.shown g s.panel }

end Page

/-- A knob moves (`now` is false), is released, or is turned by the wheel, or its number is edited;
a GPT is selected; a timer fires; the response to a request of flush `i` arrives, or is given up. -/
inductive Event
  | freq (v : ℕ) (now : Bool)
  | duty (ch : Ch) (v : ℕ) (now : Bool)
  | select (g : ℕ)
  | fire (t : ℕ)
  | complete (i : ℕ)
  deriving DecidableEq

def next (s : Page) : Event → Option Page
  | .freq v now => some ((s.changeFreq v).queue [.a, .b] now)
  | .duty ch v now => some ((s.changeDuty ch v).queue [ch] now)
  | .select g => some ((s.changeGpt g).queue [.a, .b] true)
  | .fire t => if t ∈ s.armed then some { s with armed := s.armed.erase t }.flush else none
  | .complete i => (s.flushes[i]?).map (s.resume i)

/-- The page when the state of GPT `g` has been restored. -/
def start (g : ℕ) (p : Panel) : Page :=
  ⟨g, p, none, [], 0, none, false, [], [], fun _ => none, fun _ _ => none, fun _ => p⟩

/-! ## What is wanted of the requests -/

/-- The last request for a pair. -/
def lastPost (posts : List Post) (g : ℕ) (ch : Ch) : Option Post :=
  posts.find? fun p => p.gpt = g ∧ p.ch = ch

section Wanted

variable (s : Page)

/-- The user set the frequency of GPT `g`, or the duty cycle of the channel. -/
def Touched (g : ℕ) (ch : Ch) : Prop := s.setFreq g ≠ none ∨ s.setDuty g ch ≠ none

/-- No timer, not busy, nothing pending. -/
def Quiescent : Prop := s.timer = none ∧ s.busy = false ∧ s.pending = none

/-- The last request for the pair carries the values last set while the GPT was selected. -/
def Faithful : Prop := ∀ g ch, Touched s g ch → ∃ p, lastPost s.posts g ch = some p ∧
  (∀ v, s.setFreq g = some v → p.freq = v) ∧ ∀ v, s.setDuty g ch = some v → p.duty = v

/-- The request for channel `ch` of GPT `g` with the values of `p`. -/
def postOf (g : ℕ) (p : Panel) (ch : Ch) : Post := ⟨g, ch, p.freq, p.duty ch⟩

/-- The channel is pending, or left to a flush that waits for a response. -/
def Waiting (ch : Ch) : Prop := ch ∈ s.pending.getD [] ∨ ∃ rest ∈ s.flushes, ch ∈ rest

end Wanted

/-- When a GPT is left, no channel that the user set on it is waiting. -/
def Settled (s : Page) : Event → Prop
  | .select g => g = s.gpt ∨ ∀ ch, Touched s s.gpt ch → ¬ Waiting s ch
  | _ => True

/-- When a GPT is selected, the panel shows what was last set on it. -/
def Agrees (s : Page) : Event → Prop
  | .select g => (∀ v, s.setFreq g = some v → s.panel.freq = v) ∧
      ∀ ch v, s.setDuty g ch = some v → s.panel.duty ch = v
  | _ => True

/-! ### Deciding the conditions -/

section Deciding

instance decidableAll {p : Ch → Prop} [DecidablePred p] : Decidable (∀ ch, p ch) :=
  decidable_of_iff (p .a ∧ p .b) ⟨fun h ch => Ch.rec h.1 h.2 ch, fun h => ⟨h .a, h .b⟩⟩

/-- Nothing was set, or this value. -/
instance decidableSet {o : Option ℕ} {n : ℕ} : Decidable (∀ v, o = some v → n = v) :=
  decidable_of_iff (o = none ∨ o = some n) <| by
    cases o with
    | none => simp
    | some v => simp [eq_comm]

variable (s : Page)

instance (g : ℕ) (ch : Ch) : Decidable (Touched s g ch) := inferInstanceAs (Decidable (_ ∨ _))

instance (ch : Ch) : Decidable (Waiting s ch) := inferInstanceAs (Decidable (_ ∨ _))

instance (e : Event) : Decidable (Settled s e) := by
  unfold Settled
  cases e <;> infer_instance

instance (e : Event) : Decidable (Agrees s e) := by
  unfold Agrees
  cases e <;> infer_instance

end Deciding

/-! ## The throttle -/

/-- `timer` is a timer that will fire, at most one flush waits for a response, exactly while `busy`
is set, and what is pending has a timer or a flush. -/
structure Inv (s : Page) : Prop where
  timer : ∀ t, s.timer = some t → t ∈ s.armed
  one : s.flushes.length ≤ 1
  busy : s.busy = true ↔ s.flushes ≠ []
  pending : s.pending ≠ none → s.timer ≠ none ∨ s.busy = true

section Throttle

variable {s s' : Page} {ch : Ch} {chs : List Ch}

theorem mem_sorted : ch ∈ sorted chs ↔ ch ∈ chs := by
  cases ch <;> simp [sorted]

@[simp] theorem clear_pending : s.clear.pending = s.pending := rfl
@[simp] theorem clear_busy : s.clear.busy = s.busy := rfl
@[simp] theorem clear_flushes : s.clear.flushes = s.flushes := rfl

/-- **The ways through `flush`.** -/
theorem flush_cases (s : Page) :
    (s.pending = none ∧ s.flush = s.clear) ∨ (s.pending ≠ none ∧ s.busy = true ∧ s.flush = s.clear.arm) ∨
    ∃ chs, s.pending = some chs ∧ s.busy = false ∧
      ((sorted chs = [] ∧ s.flush = { s.clear with pending := none }) ∨
      ∃ ch rest, sorted chs = ch :: rest ∧ s.flush = Page.post { s.clear with
        pending := none, busy := true, flushes := s.flushes ++ [rest] } ch) := by
  unfold Page.flush
  cases hp : s.pending with
  | none =>
    left
    simp [hp]
  | some chs =>
    right
    cases hb : s.busy with
    | true =>
      left
      simp [hp, hb]
    | false =>
      refine .inr ⟨chs, rfl, rfl, ?_⟩
      cases hs : sorted chs with
      | nil => simp [hp, hb, hs]
      | cons ch rest => exact .inr ⟨ch, rest, rfl, by simp [hp, hb, hs]⟩

theorem timer_of_none (h : s.timer = none) : ∀ t, s.timer = some t → t ∈ s.armed := by
  intro t ht
  rw [h] at ht
  cases ht

theorem Inv.arm (one : s.flushes.length ≤ 1) (busy : s.busy = true ↔ s.flushes ≠ []) : Inv s.arm := by
  refine ⟨fun t ht => ?_, one, busy, fun _ => .inl (Option.some_ne_none _)⟩
  rw [← Option.some.inj ht]
  exact List.mem_cons_self

/-- `flush` needs no timer. -/
theorem inv_flush (one : s.flushes.length ≤ 1) (busy : s.busy = true ↔ s.flushes ≠ []) : Inv s.flush := by
  rcases flush_cases s with ⟨hp, he⟩ | ⟨-, -, he⟩ | ⟨chs, hp, hb, ⟨-, he⟩ | ⟨ch, rest, -, he⟩⟩
  · rw [he]
    exact ⟨timer_of_none rfl, one, busy, fun h => absurd hp h⟩
  · rw [he]
    exact .arm one busy
  · rw [he]
    exact ⟨timer_of_none rfl, one, busy, fun h => absurd rfl h⟩
  · have hnil : s.flushes = [] := by
      by_contra h
      rw [busy.mpr h] at hb
      cases hb
    rw [he]
    refine ⟨timer_of_none rfl, ?_, ?_, fun h => absurd rfl h⟩
    · show (s.flushes ++ [rest]).length ≤ 1
      simp [hnil]
    · show true = true ↔ s.flushes ++ [rest] ≠ []
      simp

theorem Inv.queue (h : Inv s) (chs : List Ch) (now : Bool) : Inv (s.queue chs now) := by
  unfold Page.queue
  dsimp only
  split_ifs with hnow ht
  · exact inv_flush h.one h.busy
  · exact .arm h.one h.busy
  · exact ⟨h.timer, h.one, h.busy, fun _ => .inl ht⟩

theorem Inv.resume (h : Inv s) {i : ℕ} {rest : List Ch} (hi : s.flushes[i]? = some rest) :
    Inv (s.resume i rest) := by
  have hlt : i < s.flushes.length := (List.getElem?_eq_some_iff.mp hi).1
  cases rest with
  | cons ch rest =>
    refine ⟨h.timer, ?_, ?_, h.pending⟩
    · show (s.flushes.set i rest).length ≤ 1
      rw [List.length_set]
      exact h.one
    · refine h.busy.trans (not_congr ?_)
      show s.flushes = [] ↔ s.flushes.set i rest = []
      rw [List.set_eq_nil_iff]
  | nil =>
    have hone := h.one
    have hlen : (s.flushes.eraseIdx i).length = 0 := by
      rw [List.length_eraseIdx_of_lt hlt]
      omega
    have hbusy : false = true ↔ s.flushes.eraseIdx i ≠ [] := by
      rw [List.length_eq_zero_iff.mp hlen]
      simp
    have hle : (s.flushes.eraseIdx i).length ≤ 1 := by omega
    unfold Page.resume
    dsimp only
    split_ifs with hp
    · exact ⟨h.timer, hle, hbusy, fun hne => absurd hp hne⟩
    · exact .arm hle hbusy

/-- **One event.** -/
theorem Inv.step {e : Event} (h : Inv s) (hs : next s e = some s') : Inv s' := by
  cases e with
  | freq v now =>
    cases hs
    exact Inv.queue (s := s.changeFreq v) ⟨h.timer, h.one, h.busy, h.pending⟩ _ _
  | duty ch v now =>
    cases hs
    exact Inv.queue (s := s.changeDuty ch v) ⟨h.timer, h.one, h.busy, h.pending⟩ _ _
  | select g =>
    cases hs
    exact Inv.queue (s := s.changeGpt g) ⟨h.timer, h.one, h.busy, h.pending⟩ _ _
  | fire t =>
    simp only [next] at hs
    split_ifs at hs
    cases hs
    exact inv_flush h.one h.busy
  | complete i =>
    obtain ⟨rest, hi, rfl⟩ := Option.map_eq_some_iff.mp hs
    exact h.resume hi

theorem inv_start (g : ℕ) (p : Panel) : Inv (start g p) :=
  ⟨timer_of_none rfl, Nat.zero_le 1, by simp [start], fun h => absurd rfl h⟩

end Throttle

/-! ## The requests -/

/-- The channel is waiting, or its last request to the selected GPT carries what the panel shows. -/
def Served (s : Page) (ch : Ch) : Prop :=
  Waiting s ch ∨ lastPost s.posts s.gpt ch = some (postOf s.gpt s.panel ch)

/-- The rest of the page is the same: what is selected and shown, and the record of the user. -/
structure SameView (s s' : Page) : Prop where
  gpt : s'.gpt = s.gpt
  panel : s'.panel = s.panel
  setFreq : s'.setFreq = s.setFreq
  setDuty : s'.setDuty = s.setDuty
  shown : s'.shown = s.shown

/-- Nothing but the throttle moves, and it sends to the selected GPT only, and there what is shown. -/
structure Sends (s s' : Page) : Prop extends SameView s s' where
  others : ∀ g, g ≠ s.gpt → ∀ ch, lastPost s'.posts g ch = lastPost s.posts g ch
  served : ∀ ch, Served s ch → Served s' ch

section Requests

variable {s s' s'' : Page} {ch : Ch} {chs : List Ch}

theorem Sends.trans (h : Sends s s') (h' : Sends s' s'') : Sends s s'' :=
  ⟨⟨h'.gpt.trans h.gpt, h'.panel.trans h.panel, h'.setFreq.trans h.setFreq, h'.setDuty.trans h.setDuty,
    h'.shown.trans h.shown⟩, fun g hg ch => (h'.others g (by rw [h.gpt]; exact hg) ch).trans (h.others g hg ch),
    fun ch hc => h'.served ch (h.served ch hc)⟩

/-- A step that changes neither the requests nor what is waiting. -/
theorem sends_of_same (hv : SameView s s') (hposts : s'.posts = s.posts)
    (hw : ∀ ch, Waiting s ch → Waiting s' ch) : Sends s s' := by
  refine ⟨hv, fun g _ ch => by rw [hposts], fun ch hc => ?_⟩
  rcases hc with hc | hc
  · exact .inl (hw ch hc)
  · right
    rw [hposts, hv.gpt, hv.panel]
    exact hc

theorem lastPost_post (s : Page) (ch : Ch) (g : ℕ) (ch' : Ch) : lastPost (s.post ch).posts g ch' =
    if s.gpt = g ∧ ch = ch' then some (postOf s.gpt s.panel ch) else lastPost s.posts g ch' := by
  show List.find? _ (_ :: _) = _
  rw [List.find?_cons]
  by_cases h : s.gpt = g ∧ ch = ch'
  · simp [h, postOf]
  · simp only [h, decide_false, if_false]
    rfl

/-- **One request.** The channel need not wait any longer. -/
theorem sends_post (hv : SameView s s') (hposts : s'.posts = s.posts)
    (hw : ∀ ch', ch' ≠ ch → Waiting s ch' → Waiting s' ch') : Sends s (s'.post ch) := by
  refine ⟨⟨hv.gpt, hv.panel, hv.setFreq, hv.setDuty, hv.shown⟩, fun g hg ch' => ?_, fun ch' hc => ?_⟩
  · rw [lastPost_post, if_neg, hposts]
    rintro ⟨hg', -⟩
    exact hg (hg'.symm.trans hv.gpt)
  · by_cases hch : ch = ch'
    · right
      rw [lastPost_post, if_pos ⟨rfl, hch⟩, hch]
      rfl
    · rcases hc with hc | hc
      · exact .inl (hw ch' (Ne.symm hch) hc)
      · right
        rw [lastPost_post, if_neg (fun h => hch h.2), hposts]
        show lastPost s.posts s'.gpt ch' = some (postOf s'.gpt s'.panel ch')
        rw [hv.gpt, hv.panel]
        exact hc

/-- **`flush` sends what is pending, and loses nothing.** -/
theorem sends_flush (s : Page) : Sends s s.flush := by
  rcases flush_cases s with ⟨-, he⟩ | ⟨-, -, he⟩ | ⟨chs, hp, hb, ⟨hs, he⟩ | ⟨ch, rest, hs, he⟩⟩
  · rw [he]
    exact sends_of_same ⟨rfl, rfl, rfl, rfl, rfl⟩ rfl fun _ hw => hw
  · rw [he]
    exact sends_of_same ⟨rfl, rfl, rfl, rfl, rfl⟩ rfl fun _ hw => hw
  · rw [he]
    refine sends_of_same ⟨rfl, rfl, rfl, rfl, rfl⟩ rfl ?_
    rintro ch (hw | hw)
    · rw [hp] at hw
      have hmem : ch ∈ sorted chs := mem_sorted.mpr hw
      rw [hs] at hmem
      exact absurd hmem List.not_mem_nil
    · exact .inr hw
  · rw [he]
    refine sends_post ⟨rfl, rfl, rfl, rfl, rfl⟩ rfl ?_
    rintro ch' hne (hw | ⟨r, hr, hw⟩)
    · rw [hp] at hw
      have hmem : ch' ∈ ch :: rest := by
        rw [← hs]
        exact mem_sorted.mpr hw
      exact .inr ⟨rest, List.mem_append_right _ List.mem_cons_self, (List.mem_cons.mp hmem).resolve_left hne⟩
    · exact .inr ⟨r, List.mem_append_left _ hr, hw⟩

/-- **A queued channel is served**, and those that were stay so. -/
theorem sends_queue (s : Page) (chs : List Ch) (now : Bool) :
    Sends s (s.queue chs now) ∧ ∀ ch ∈ chs, Served (s.queue chs now) ch := by
  have hq : Sends s { s with pending := some (s.pending.getD [] ++ chs) } := by
    refine sends_of_same ⟨rfl, rfl, rfl, rfl, rfl⟩ rfl ?_
    rintro ch (hw | hw)
    · exact .inl (List.mem_append_left _ hw)
    · exact .inr hw
  have hnew : ∀ ch ∈ chs, Served { s with pending := some (s.pending.getD [] ++ chs) } ch := fun ch hc =>
    .inl (.inl (List.mem_append_right _ hc))
  have hrest : Sends { s with pending := some (s.pending.getD [] ++ chs) } (s.queue chs now) := by
    unfold Page.queue
    dsimp only
    split_ifs
    · exact sends_flush _
    · exact sends_of_same ⟨rfl, rfl, rfl, rfl, rfl⟩ rfl fun _ hw => hw
    · exact sends_of_same ⟨rfl, rfl, rfl, rfl, rfl⟩ rfl fun _ hw => hw
  exact ⟨hq.trans hrest, fun ch hc => hrest.served ch (hnew ch hc)⟩

/-- **A response** makes its flush send the next channel. -/
theorem sends_resume {i : ℕ} {rest : List Ch} (hi : s.flushes[i]? = some rest) :
    Sends s (s.resume i rest) := by
  obtain ⟨hlt, hget⟩ := List.getElem?_eq_some_iff.mp hi
  cases rest with
  | cons ch rest =>
    refine sends_post ⟨rfl, rfl, rfl, rfl, rfl⟩ rfl ?_
    rintro ch' hne (hw | ⟨r, hr, hw⟩)
    · exact .inl hw
    · right
      obtain ⟨j, hj, rfl⟩ := List.mem_iff_getElem.mp hr
      by_cases hji : i = j
      · subst hji
        rw [hget] at hw
        refine ⟨rest, List.mem_iff_getElem.mpr ⟨i, by rwa [List.length_set], ?_⟩,
          (List.mem_cons.mp hw).resolve_left hne⟩
        exact List.getElem_set_self _
      · refine ⟨s.flushes[j], List.mem_iff_getElem.mpr ⟨j, by rwa [List.length_set], ?_⟩, hw⟩
        exact List.getElem_set_ne hji _
  | nil =>
    have hw : ∀ ch, Waiting s ch → Waiting { s with flushes := s.flushes.eraseIdx i, busy := false } ch := by
      rintro ch (hw | ⟨r, hr, hw⟩)
      · exact .inl hw
      · refine .inr ⟨r, ?_, hw⟩
        obtain ⟨j, hj, rfl⟩ := List.mem_iff_getElem.mp hr
        refine List.mem_eraseIdx_iff_getElem.mpr ⟨j, hj, ?_, rfl⟩
        rintro rfl
        rw [hget] at hw
        exact absurd hw List.not_mem_nil
    unfold Page.resume
    dsimp only
    split_ifs
    · exact sends_of_same ⟨rfl, rfl, rfl, rfl, rfl⟩ rfl hw
    · exact sends_of_same ⟨rfl, rfl, rfl, rfl, rfl⟩ rfl hw

end Requests

/-! ## One event -/

/-- What an event changes before the throttle acts. -/
def Page.change (s : Page) : Event → Page
  | .freq v _ => s.changeFreq v
  | .duty ch v _ => s.changeDuty ch v
  | .select g => s.changeGpt g
  | .fire t => { s with armed := s.armed.erase t }
  | .complete _ => s

/-- The channels that an event queues. -/
def queued : Event → List Ch
  | .freq _ _ | .select _ => [.a, .b]
  | .duty ch _ _ => [ch]
  | .fire _ | .complete _ => []

/-- What was touched on the selected GPT is served. -/
def AllServed (s : Page) : Prop := ∀ ch, Touched s s.gpt ch → Served s ch

/-- For a GPT that was left the last request carries what the panel showed then. -/
structure Kept (s : Page) : Prop where
  shown : s.shown s.gpt = s.panel
  left : ∀ g, g ≠ s.gpt → ∀ ch, Touched s g ch → lastPost s.posts g ch = some (postOf g (s.shown g) ch)

/-- What the panel showed on each GPT is what was last set on it. -/
def Matches (s : Page) : Prop := ∀ g, (∀ v, s.setFreq g = some v → (s.shown g).freq = v) ∧
  ∀ ch v, s.setDuty g ch = some v → (s.shown g).duty ch = v

section Step

variable {s s' s₁ : Page} {e : Event} {g : ℕ} {ch ch' : Ch} {v : ℕ}

theorem duty_setDuty (p : Panel) (v : ℕ) (ch : Ch) : (p.setDuty v ch).duty ch = v := by
  cases ch <;> rfl

theorem duty_setDuty_of_ne (p : Panel) (v : ℕ) (h : ch' ≠ ch) : (p.setDuty v ch).duty ch' = p.duty ch' := by
  cases ch <;> cases ch' <;> first | rfl | exact absurd rfl h

theorem freq_setDuty (p : Panel) (v : ℕ) (ch : Ch) : (p.setDuty v ch).freq = p.freq := by
  cases ch <;> rfl

/-- **An event is a change, and then the throttle.** -/
theorem sends_next (hs : next s e = some s') :
    Sends (s.change e) s' ∧ ∀ ch ∈ queued e, Served s' ch := by
  cases e with
  | freq v now =>
    cases hs
    exact sends_queue (s.changeFreq v) _ _
  | duty ch v now =>
    cases hs
    exact sends_queue (s.changeDuty ch v) _ _
  | select g =>
    cases hs
    exact sends_queue (s.changeGpt g) _ _
  | fire t =>
    simp only [next] at hs
    split_ifs at hs
    cases hs
    exact ⟨sends_flush _, fun ch hc => absurd hc List.not_mem_nil⟩
  | complete i =>
    obtain ⟨rest, hi, rfl⟩ := Option.map_eq_some_iff.mp hs
    exact ⟨sends_resume hi, fun ch hc => absurd hc List.not_mem_nil⟩

theorem mem_both (ch : Ch) : ch ∈ [Ch.a, Ch.b] := by
  cases ch <;> simp

theorem SameView.touched (h : SameView s s') : Touched s' g ch ↔ Touched s g ch := by
  unfold Touched
  rw [h.setFreq, h.setDuty]

theorem touched_changeDuty_of_ne (h : ch' ≠ ch) :
    Touched (s.changeDuty ch v) s.gpt ch' ↔ Touched s s.gpt ch' := by
  simp [Touched, Page.changeDuty, Page.display, Function.update_of_ne h]

/-- Setting the duty cycle of one channel leaves the other one served. -/
theorem served_changeDuty_of_ne (h : ch' ≠ ch) (hs : Served s ch') : Served (s.changeDuty ch v) ch' := by
  refine hs.imp id fun hlast => hlast.trans ?_
  show some (postOf s.gpt s.panel ch') = some (postOf s.gpt (s.panel.setDuty v ch) ch')
  rw [postOf, postOf, duty_setDuty_of_ne _ _ h, freq_setDuty]

theorem AllServed.step (h : AllServed s) (hs : next s e = some s') : AllServed s' := by
  obtain ⟨hsends, hqueued⟩ := sends_next hs
  intro ch ht
  have ht' : Touched (s.change e) (s.change e).gpt ch := by
    rw [← hsends.gpt]
    exact hsends.toSameView.touched.mp ht
  cases e with
  | freq v now => exact hqueued ch (mem_both ch)
  | select g => exact hqueued ch (mem_both ch)
  | duty ch₀ v now =>
    by_cases hch : ch = ch₀
    · exact hqueued ch (List.mem_singleton.mpr hch)
    · exact hsends.served ch (served_changeDuty_of_ne hch (h ch ((touched_changeDuty_of_ne hch).mp ht')))
  | fire t => exact hsends.served ch (h ch ht')
  | complete i => exact hsends.served ch (h ch ht')

/-- A setting on the selected GPT does not concern those that were left. -/
theorem Kept.own (h : Kept s) (hgpt : s₁.gpt = s.gpt) (hposts : s₁.posts = s.posts)
    (hshown : s₁.shown = Function.update s.shown s.gpt s₁.panel)
    (ht : ∀ g, g ≠ s.gpt → ∀ ch, Touched s₁ g ch → Touched s g ch) : Kept s₁ := by
  refine ⟨?_, fun g hg ch htouched => ?_⟩
  · rw [hshown, hgpt, Function.update_self]
  · rw [hgpt] at hg
    rw [hposts, hshown, Function.update_of_ne hg]
    exact h.left g hg ch (ht g hg ch htouched)

/-- **What a change keeps**: the GPT that is left has nothing waiting. -/
theorem Kept.change (h : Kept s) (hserved : AllServed s) (hset : Settled s e) : Kept (s.change e) := by
  cases e with
  | freq v now =>
    refine h.own rfl rfl rfl fun g hg ch ht => ?_
    simpa only [Touched, Page.change, Page.changeFreq, Page.display, Function.update_of_ne hg] using ht
  | duty ch₀ v now =>
    refine h.own rfl rfl rfl fun g hg ch ht => ?_
    simpa only [Touched, Page.change, Page.changeDuty, Page.display, Function.update_of_ne hg] using ht
  | select g₀ =>
    refine ⟨Function.update_self _ _ _, fun g hg ch ht => ?_⟩
    have hg₀ : g ≠ g₀ := hg
    have hshown : (s.change (.select g₀)).shown g = s.shown g := Function.update_of_ne hg₀ _ _
    show lastPost s.posts g ch = some (postOf g ((s.change (.select g₀)).shown g) ch)
    rw [hshown]
    by_cases hgpt : g = s.gpt
    · -- this is the GPT that is left
      subst hgpt
      have hnot := hset.resolve_left (Ne.symm hg₀) ch ht
      rw [h.shown]
      exact (hserved ch ht).resolve_left hnot
    · exact h.left g hgpt ch ht
  | fire t => exact ⟨h.shown, h.left⟩
  | complete i => exact h

theorem Kept.sends (h : Kept s₁) (hs : Sends s₁ s') : Kept s' := by
  refine ⟨?_, fun g hg ch ht => ?_⟩
  · rw [hs.shown, hs.gpt, hs.panel]
    exact h.shown
  · rw [hs.gpt] at hg
    rw [hs.others g hg, hs.shown]
    exact h.left g hg ch (hs.toSameView.touched.mp ht)

theorem Matches.change (h : Matches s) (hshown : s.shown s.gpt = s.panel) (ha : Agrees s e) :
    Matches (s.change e) := by
  intro g
  cases e with
  | freq v now =>
    by_cases hg : g = s.gpt
    · subst hg
      refine ⟨fun w hw => ?_, fun ch w hw => ?_⟩
      · simp only [Page.change, Page.changeFreq, Page.display, Function.update_self] at hw ⊢
        exact Option.some.inj hw
      · have hold := (h s.gpt).2 ch w hw
        rw [hshown] at hold
        simp only [Page.change, Page.changeFreq, Page.display, Function.update_self]
        cases ch <;> exact hold
    · simp only [Page.change, Page.changeFreq, Page.display, Function.update_of_ne hg]
      exact h g
  | duty ch₀ v now =>
    by_cases hg : g = s.gpt
    · subst hg
      simp only [Page.change, Page.changeDuty, Page.display, Function.update_self]
      refine ⟨fun w hw => ?_, fun ch w hw => ?_⟩
      · rw [freq_setDuty, ← hshown]
        exact (h s.gpt).1 w hw
      · by_cases hch : ch = ch₀
        · subst hch
          rw [Function.update_self] at hw
          rw [duty_setDuty]
          exact Option.some.inj hw
        · rw [Function.update_of_ne hch] at hw
          rw [duty_setDuty_of_ne _ _ hch, ← hshown]
          exact (h s.gpt).2 ch w hw
    · simp only [Page.change, Page.changeDuty, Page.display, Function.update_of_ne hg]
      exact h g
  | select g₀ =>
    by_cases hg : g = g₀
    · subst hg
      simp only [Page.change, Page.changeGpt, Function.update_self]
      exact ha
    · simp only [Page.change, Page.changeGpt, Function.update_of_ne hg]
      exact h g
  | fire t => exact h g
  | complete i => exact h g

theorem Matches.sends (h : Matches s₁) (hs : Sends s₁ s') : Matches s' := by
  intro g
  rw [hs.setFreq, hs.setDuty, hs.shown]
  exact h g

end Step

/-! ## Runs -/

section Runs

variable {g₀ : ℕ} {p₀ : Panel} {es : List Event} {s : Page}

theorem inv_of_run (h : Run (ofNext next) (start g₀ p₀) es s) : Inv s :=
  h.inv (inv_start g₀ p₀) fun hi hs => hi.step hs

theorem not_touched_start (g : ℕ) (ch : Ch) : ¬ Touched (start g₀ p₀) g ch := by
  simp [Touched, start]

theorem allServed_start : AllServed (start g₀ p₀) := fun _ ht => absurd ht (not_touched_start _ _)

theorem kept_start : Kept (start g₀ p₀) := ⟨rfl, fun _ _ _ ht => absurd ht (not_touched_start _ _)⟩

theorem matches_start : Matches (start g₀ p₀) := by
  simp [Matches, start]

theorem allServed_of_run (h : Run (ofNext next) (start g₀ p₀) es s) : AllServed s :=
  h.inv allServed_start fun hi hs => hi.step hs

theorem Kept.step (h : Kept s) (hserved : AllServed s) {e : Event} {s' : Page} (he : Settled s e)
    (hs : next s e = some s') : Kept s' := (h.change hserved he).sends (sends_next hs).1

theorem kept_of_run (h : Run (guarded (ofNext next) Settled) (start g₀ p₀) es s) : Kept s := by
  have hboth : Kept s ∧ AllServed s :=
    h.inv (I := fun s => Kept s ∧ AllServed s) ⟨kept_start, allServed_start⟩
    fun hi hs => ⟨hi.1.step hi.2 hs.1 hs.2, hi.2.step hs.2⟩
  exact hboth.1

theorem matches_of_run
    (h : Run (guarded (ofNext next) fun s e => Settled s e ∧ Agrees s e) (start g₀ p₀) es s) :
    Matches s ∧ Kept s := by
  have hall : (Matches s ∧ Kept s) ∧ AllServed s := h.inv (I := fun s => (Matches s ∧ Kept s) ∧ AllServed s)
    ⟨⟨matches_start, kept_start⟩, allServed_start⟩ fun hi hs =>
      ⟨⟨(hi.1.1.change hi.1.2.shown hs.1.2).sends (sends_next hs.2).1, hi.1.2.step hi.2 hs.1.1 hs.2⟩,
        hi.2.step hs.2⟩
  exact hall.1

/-- In a quiescent state no channel is waiting. -/
theorem Quiescent.not_waiting (h : Quiescent s) (hi : Inv s) (ch : Ch) : ¬ Waiting s ch := by
  obtain ⟨-, hb, hp⟩ := h
  have hnil : s.flushes = [] := by
    by_contra hne
    rw [hi.busy.mpr hne] at hb
    cases hb
  simp [Waiting, hp, hnil]

theorem Kept.lastPost (h : Kept s) (hserved : AllServed s) (hw : ∀ ch, ¬ Waiting s ch) {g : ℕ} {ch : Ch}
    (ht : Touched s g ch) : lastPost s.posts g ch = some (postOf g (s.shown g) ch) := by
  by_cases hg : g = s.gpt
  · subst hg
    rw [h.shown]
    exact (hserved ch ht).resolve_left (hw ch)
  · exact h.left g hg ch ht

/-- **The requests after a run.** What is pending has a timer or a flush, and one flush sends at a
time. When all is quiet, the last requests to the selected GPT carry what the panel shows. If no GPT
was left while a channel set on it was waiting, those to each other GPT carry what the panel showed
then; and if each GPT was selected with its own values, that is what was last set on it. -/
theorem posts_of_run (h : Run (ofNext next) (start g₀ p₀) es s) :
    (s.pending ≠ none → (∃ t, s.timer = some t ∧ t ∈ s.armed) ∨ s.flushes ≠ []) ∧
    s.flushes.length ≤ 1 ∧
    (Quiescent s → ∀ ch, Touched s s.gpt ch → lastPost s.posts s.gpt ch = some (postOf s.gpt s.panel ch)) ∧
    (Run (guarded (ofNext next) Settled) (start g₀ p₀) es s → Quiescent s → ∀ g ch, Touched s g ch →
      lastPost s.posts g ch = some (postOf g (s.shown g) ch)) ∧
    (Run (guarded (ofNext next) fun s e => Settled s e ∧ Agrees s e) (start g₀ p₀) es s →
      Quiescent s → Faithful s) := by
  have hi := inv_of_run h
  have hserved := allServed_of_run h
  refine ⟨fun hp => ?_, hi.one, fun hq ch ht => ?_, fun hg hq g ch ht => ?_, fun hg hq g ch ht => ?_⟩
  · rcases hi.pending hp with ht | hb
    · obtain ⟨t, ht⟩ := Option.ne_none_iff_exists'.mp ht
      exact .inl ⟨t, ht, hi.timer t ht⟩
    · exact .inr (hi.busy.mp hb)
  · exact (hserved ch ht).resolve_left (hq.not_waiting hi ch)
  · exact (kept_of_run hg).lastPost hserved (hq.not_waiting hi) ht
  · obtain ⟨hm, hk⟩ := matches_of_run hg
    refine ⟨_, hk.lastPost hserved (hq.not_waiting hi) ht, fun v hv => (hm g).1 v hv, fun v hv => ?_⟩
    exact (hm g).2 ch v hv

def sixth : Page := start 6 ⟨1000, 0, 0⟩

/-- The frequency of GPT 6 is set, that of GPT 7 too but then back to that of GPT 6, before this one
is selected again. -/
def andBack : List Event :=
  [.freq 1500 false, .freq 2000 false, .fire 0, .complete 0, .duty .b 100 true, .complete 0,
    .fire 1, .complete 0,
    .select 7, .complete 0, .complete 0, .freq 3000 true, .freq 2000 true, .complete 0, .complete 0, .fire 3,
    .complete 0, .complete 0, .select 6, .complete 0, .complete 0]

theorem posts_of_run_andBack :
    ∃ s, Run (ofNext next) sixth andBack s ∧ s.setFreq 6 = some 2000 ∧ Quiescent s ∧
    (∀ g ch, Touched s g ch → lastPost s.posts g ch = some (postOf g (s.shown g) ch)) ∧ Faithful s := by
  have hguard : (exec (fun s e => if Settled s e ∧ Agrees s e then next s e else none) sixth andBack).map
      (fun s => ((s.timer, s.busy, s.pending), s.setFreq 6)) = some ((none, false, none), some 2000) := by
    decide +kernel
  obtain ⟨s, hs, hlast⟩ := Option.map_eq_some_iff.mp hguard
  simp only [Prod.mk.injEq] at hlast
  have hboth := run_of_exec_guarded hs
  have hsettled : Run (guarded (ofNext next) Settled) sixth (andBack.map id) s :=
    hboth.map id fun hs => ⟨hs.1.1, hs.2⟩
  rw [List.map_id] at hsettled
  obtain ⟨-, -, -, hshown, hfaithful⟩ := posts_of_run hboth.unguard
  have hquiet : Quiescent s := hlast.1
  exact ⟨s, hboth.unguard, hlast.2, hquiet, hshown hsettled hquiet, hfaithful hboth hquiet⟩

/-- A frequency is set on GPT 6 and, while GPT 7 is selected, another one; then GPT 6 is selected
again. -/
def backToSix : List Event :=
  [.freq 2000 true, .complete 0, .complete 0, .select 7, .complete 0, .complete 0,
    .freq 3000 true, .complete 0, .complete 0, .select 6, .complete 0, .complete 0]

/-- Selecting GPT 6 again sends it the frequency that was set on GPT 7. -/
theorem not_faithful_backToSix : ¬ ∀ (es : List Event) (s : Page),
    Run (ofNext next) sixth es s → Quiescent s → Faithful s := by
  intro h
  have hrun : (exec next sixth backToSix).map (fun s => ((s.timer, s.busy, s.pending),
      s.setFreq 6, lastPost s.posts 6 .a)) =
        some ((none, false, none), some 2000, some ⟨6, .a, 3000, 0⟩) := by decide +kernel
  obtain ⟨s, hs, hlast⟩ := Option.map_eq_some_iff.mp hrun
  simp only [Prod.mk.injEq] at hlast
  obtain ⟨⟨ht, hb, hp⟩, hfreq, hpost⟩ := hlast
  obtain ⟨p, hp', hv, -⟩ := h backToSix s (run_of_exec hs) ⟨ht, hb, hp⟩ 6 .a
    (.inl (by rw [hfreq]; exact Option.some_ne_none _))
  rw [hpost] at hp'
  have h2000 := hv 2000 hfreq
  rw [← Option.some.inj hp'] at h2000
  exact absurd h2000 (by decide)

/-- A knob that is released during a request: its value goes to the GPT that is selected before the
next one. -/
example : (exec next sixth [.freq 2000 true, .duty .a 500 true, .select 7, .complete 0, .complete 0, .fire 1,
      .complete 0, .complete 0]).map (fun s => (s.pending, s.setDuty 6 .a, lastPost s.posts 6 .a)) =
    some (none, some 500, some ⟨6, .a, 2000, 0⟩) := by decide +kernel

end Runs

end CR8Devkit.PwmPage
