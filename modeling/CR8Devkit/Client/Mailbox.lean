import CR8Devkit.Lib.Transition
import Mathlib.Data.List.Count
import Mathlib.Data.Int.Notation
import Mathlib.Tactic.Common

/-!
# The mailboxes between Linux and the other cores

The registers of the MHU, the words in the shared memory beside them, and both directions of
`rz_rproc.c`: `rz_proc_notify` rings the other core of a channel, `rz_proc_irq_handler` is rung by
it. The threads of the four channels, the interrupt thread and the other cores take their turns in
any order.

* `State`, `step`: the whole system; `View`, `View.Step`: one channel alone.
* **`run_view`**: every channel runs as if it were alone.
* **`doorbell`**: as long as the program is not stopped, no ring is lost, and none is counted twice.
* **`notify_outcome`**: when `rz_proc_notify` gives up, and what it has done otherwise.
* **`no_lost_wakeup`**: after a ring, the thread still has a notification before it, or has had it.
-/

namespace CR8Devkit.Mailbox

open Transition

abbrev Word := BitVec 32

/-! ## Channels -/

/-- `enum MHU_SEND_TYPE`: also the two kinds of interrupt lines, `MBX_MSG_INT` and `MBX_RSP_INT`. -/
inductive SendType
  | msg
  | rsp
  deriving DecidableEq

def SendType.other : SendType → SendType
  | msg => rsp
  | rsp => msg

/-- `enum UIO_DEV`: a channel for each core, and `mbx` without one. -/
inductive UioDev
  | mbx
  | receiver1
  | receiver2
  | receiver3
  deriving DecidableEq

structure MbxChannel where
  msg : ℕ
  rsp : ℕ
  irqInfo : ℕ

/-- `chn_info`. -/
def chnInfo : UioDev → MbxChannel
  | .mbx => ⟨0, 0, 0⟩
  | .receiver1 => ⟨5, 8, 385⟩
  | .receiver2 => ⟨3, 6, 383⟩
  | .receiver3 => ⟨4, 7, 384⟩

def mhuSendTypeMsg : List ℕ := [385, 391, 397, 403, 383, 389, 395, 401, 384, 390, 396, 402]

def mhuSendTypeRsp : List ℕ := [376, 377, 378, 379, 368, 369, 370, 371, 372, 373, 374, 375]

/-- The two loops at the beginning of `rz_proc_notify`. -/
def findSendType (irqInfo : ℕ) (sendType : SendType) : SendType :=
  let sendType := if irqInfo ∈ mhuSendTypeMsg then .msg else sendType
  if irqInfo ∈ mhuSendTypeRsp then .rsp else sendType

/-- From a `send_type_info` that is zero. -/
def MbxChannel.sendType (ch : MbxChannel) : SendType := findSendType ch.irqInfo .msg

/-- The number of the channel's line of a kind. -/
def MbxChannel.no (ch : MbxChannel) : SendType → ℕ
  | .msg => ch.msg
  | .rsp => ch.rsp

/-! ## Registers -/

def mbxRegEnd : ℕ := 0x7ff

/-- `MBX_MSG_INT_STS_REG` and `MBX_RSP_INT_STS_REG`. -/
def mbxIntStsReg : SendType → ℕ → ℕ
  | .msg, y => 0x20 * y
  | .rsp, y => 0x20 * y + 0x10

def mbxIntSetReg (t : SendType) (y : ℕ) : ℕ := mbxIntStsReg t y + 0x4

def mbxIntClrReg (t : SendType) (y : ℕ) : ℕ := mbxIntStsReg t y + 0x8

def mbxShmemChOffset (y : ℕ) : ℕ := 0x08 * y

/-- `MBX_SHMEM_RXD_OFFSET` goes with a line of kind `MSG`, `MBX_SHMEM_TXD_OFFSET` with one of kind
`RSP`. -/
def mbxShmemWordOffset : SendType → ℕ
  | .msg => 0x04
  | .rsp => 0x00

inductive Reg
  | sts
  | set
  | clr

/-- The register at an offset from those of channel `y`. -/
def regAt (y : ℕ) : ℕ → Option (SendType × ℕ × Reg)
  | 0x00 => some (.msg, y, .sts)
  | 0x04 => some (.msg, y, .set)
  | 0x08 => some (.msg, y, .clr)
  | 0x10 => some (.rsp, y, .sts)
  | 0x14 => some (.rsp, y, .set)
  | 0x18 => some (.rsp, y, .clr)
  | _ => none

/-- The register at an offset of the MHU. -/
def decode (offset : ℕ) : Option (SendType × ℕ × Reg) := regAt (offset / 0x20) (offset % 0x20)

abbrev Lines := SendType → ℕ → Bool

def setLine (l : Lines) (t : SendType) (y : ℕ) (v : Bool) : Lines :=
  fun t' y' => if t' = t ∧ y' = y then v else l t' y'

def sts (v : Bool) : Word := if v then 1 else 0

def mhuRead (l : Lines) (offset : ℕ) : Word :=
  match decode offset with
  | some (t, y, .sts) => sts (l t y)
  | _ => 0

/-- A line is set and cleared by a one. -/
def mhuWrite (l : Lines) (offset : ℕ) (val : Word) : Lines :=
  match decode offset with
  | some (t, y, .set) => if val.getLsbD 0 then setLine l t y true else l
  | some (t, y, .clr) => if val.getLsbD 0 then setLine l t y false else l
  | _ => l

/-- Outside of the registers, `*ret` stays. -/
def metalIoRead32WithCheck (io : ℕ → Word) (offset : ℕ) (ret : Word) : Word :=
  if offset < mbxRegEnd then io offset else ret

def metalIoWrite32WithCheck {D : Type} (io : D → ℕ → Word → D) (d : D) (offset : ℕ) (val : Word) : D :=
  if offset < mbxRegEnd then io d offset val else d

def shmWrite (m : ℕ → Word) (offset : ℕ) (val : Word) : ℕ → Word := Function.update m offset val

/-! ## The system -/

/-- Where a thread is in `rz_proc_notify`: with `put id` it has yet to write its `notify_id`, with
`check wait val` it is in the loop, with `ring` behind it. -/
inductive Sender
  | idle
  | put (id : Word)
  | check (wait : ℕ) (val : Word)
  | ring
  | done (ret : ℤ)
  deriving DecidableEq

/-- Where the interrupt thread is in `rz_proc_irq_handler`. -/
inductive Handler
  | idle
  | clear
  | get
  | deliver (val : Word)
  deriving DecidableEq

structure State where
  lines : Lines
  shm : ℕ → Word
  sendTypeInfo : UioDev → SendType
  isInit : UioDev → Bool
  validThread : UioDev → Bool
  forceStop : Bool
  sender : UioDev → Sender
  handler : UioDev → Handler
  notifyId : UioDev → Word
  sync : UioDev → Bool

def maxReadWait : ℕ := 60 * 1000

def rpvdevMaxNum : ℕ := 42

/-- What happens on a channel: the steps of `rz_proc_notify`, of the core at the other end, of
`rz_proc_irq_handler`, and the `atomic_flag_test_and_set` of `platform_poll` that finds the flag
clear. `stop` is the signal handler. -/
inductive Act
  | call (id : Word)
  | put
  | check
  | ring
  | stop
  | accept
  | remotePut (w : Word)
  | remoteRing
  | irq
  | clear
  | get
  | deliver
  | poll
  deriving DecidableEq

abbrev Event := UioDev × Act

section System

variable (chn : UioDev → MbxChannel)

/-- The lines of a channel, by kind. -/
def State.line (s : State) (t : SendType) (c : UioDev) : Bool := s.lines t ((chn c).no t)

def wordOffset (t : SendType) (c : UioDev) : ℕ := mbxShmemChOffset (chn c).msg + mbxShmemWordOffset t

/-- One turn of the loop of `rz_proc_notify`: `wait++` is compared before `val` is looked at. -/
def checked (forceStop : Bool) (wait : ℕ) (val : Word) : Sender :=
  if maxReadWait < wait then .done (-1)
  else if val ≠ 0 ∧ forceStop = false then .check (wait + 1) val
  else .ring

/-- A step of the thread of channel `c`. The core at the other end has its own access to the
registers. -/
def step (s : State) : Event → Option State
  | (c, .call id) =>
    match s.sender c with
    | .idle | .done _ => some { s with
        sendTypeInfo := if s.isInit c then s.sendTypeInfo
          else Function.update s.sendTypeInfo c (findSendType (chn c).irqInfo (s.sendTypeInfo c))
        isInit := Function.update s.isInit c true
        sender := Function.update s.sender c (.put id) }
    | _ => none
  | (c, .put) =>
    match s.sender c with
    | .put id => some { s with
        shm := metalIoWrite32WithCheck shmWrite s.shm (wordOffset chn (s.sendTypeInfo c) c) id
        sender := Function.update s.sender c (.check 0 0) }
    | _ => none
  | (c, .check) =>
    match s.sender c with
    | .check wait val =>
      let reg := mbxIntStsReg (s.sendTypeInfo c) ((chn c).no (s.sendTypeInfo c))
      let val := metalIoRead32WithCheck (mhuRead s.lines) reg val
      some { s with sender := Function.update s.sender c (checked s.forceStop wait val) }
    | _ => none
  | (c, .ring) =>
    match s.sender c with
    | .ring =>
      let reg := mbxIntSetReg (s.sendTypeInfo c) ((chn c).no (s.sendTypeInfo c))
      some { s with
        lines := metalIoWrite32WithCheck mhuWrite s.lines reg 1
        sender := Function.update s.sender c (.done 0) }
    | _ => none
  | (_, .stop) => some { s with forceStop := true }
  | (c, .accept) =>
    let t := (chn c).sendType
    if s.line chn t c then some { s with lines := setLine s.lines t ((chn c).no t) false } else none
  | (c, .remotePut w) =>
      some { s with shm := Function.update s.shm (wordOffset chn (chn c).sendType.other c) w }
  | (c, .remoteRing) =>
    let t := (chn c).sendType.other
    some { s with lines := setLine s.lines t ((chn c).no t) true }
  | (c, .irq) =>
    if c ≠ .mbx ∧ s.validThread c ∧ s.handler c = .idle ∧ s.line chn (chn c).sendType.other c then
      some { s with handler := Function.update s.handler c .clear }
    else none
  | (c, .clear) =>
    match s.handler c with
    | .clear =>
      let t := (s.sendTypeInfo c).other
      some { s with
        lines := metalIoWrite32WithCheck mhuWrite s.lines (mbxIntClrReg t ((chn c).no t)) 1
        handler := Function.update s.handler c .get }
    | _ => none
  | (c, .get) =>
    match s.handler c with
    | .get =>
      let val := metalIoRead32WithCheck s.shm (wordOffset chn (s.sendTypeInfo c).other c) 0
      some { s with handler := Function.update s.handler c (.deliver val) }
    | _ => none
  | (c, .deliver) =>
    match s.handler c with
    | .deliver val =>
      let s := { s with handler := Function.update s.handler c .idle }
      if rpvdevMaxNum ≤ val.toNat then some s
      else some { s with
        notifyId := Function.update s.notifyId c val
        sync := Function.update s.sync c false }
    | _ => none
  | (c, .poll) =>
    if s.forceStop = false ∧ s.sync c = false
      then some { s with sync := Function.update s.sync c true } else none

end System

/-! ## One channel -/

/-- What there is to a channel: its lines and words, those of the sending and of the receiving side
first and last, and its threads. -/
structure View where
  ringing : Bool
  sent : Word
  sender : Sender
  called : Bool
  got : Word
  handler : Handler
  sync : Bool
  stopped : Bool
  valid : Bool

section View

variable (chn : UioDev → MbxChannel)

def State.view (s : State) (c : UioDev) : View where
  ringing := s.line chn (chn c).sendType c
  sent := s.shm (wordOffset chn (chn c).sendType c)
  sender := s.sender c
  called := s.line chn (chn c).sendType.other c
  got := s.shm (wordOffset chn (chn c).sendType.other c)
  handler := s.handler c
  sync := s.sync c
  stopped := s.forceStop
  valid := decide (c ≠ .mbx) && s.validThread c

/-- The steps of the channel alone. -/
inductive View.Step (v : View) : Act → View → Prop
  | call (id : Word) (h : v.sender = .idle ∨ ∃ ret, v.sender = .done ret) :
      v.Step (.call id) { v with sender := .put id }
  | put {id : Word} (h : v.sender = .put id) : v.Step .put { v with sent := id, sender := .check 0 0 }
  | check {wait : ℕ} {val : Word} (h : v.sender = .check wait val) :
      v.Step .check { v with sender := checked v.stopped wait (sts v.ringing) }
  | ring (h : v.sender = .ring) : v.Step .ring { v with ringing := true, sender := .done 0 }
  | stop : v.Step .stop { v with stopped := true }
  | accept (h : v.ringing = true) : v.Step .accept { v with ringing := false }
  | remotePut (w : Word) : v.Step (.remotePut w) { v with got := w }
  | remoteRing : v.Step .remoteRing { v with called := true }
  | irq (hvalid : v.valid = true) (h : v.handler = .idle) (hcalled : v.called = true) :
      v.Step .irq { v with handler := .clear }
  | clear (h : v.handler = .clear) : v.Step .clear { v with called := false, handler := .get }
  | get (h : v.handler = .get) : v.Step .get { v with handler := .deliver v.got }
  | drop {val : Word} (h : v.handler = .deliver val) (hval : rpvdevMaxNum ≤ val.toNat) :
      v.Step .deliver { v with handler := .idle }
  | deliver {val : Word} (h : v.handler = .deliver val) (hval : val.toNat < rpvdevMaxNum) :
      v.Step .deliver { v with handler := .idle, sync := false }
  | poll (hstop : v.stopped = false) (h : v.sync = false) : v.Step .poll { v with sync := true }

/-- What an event is to channel `c`: a signal concerns all of them. -/
def act (c : UioDev) (e : Event) : Option Act := if e.1 = c ∨ e.2 = .stop then some e.2 else none

def acts (c : UioDev) (es : List Event) : List Act := es.filterMap (act c)

/-- The channels have lines and words of their own, and their registers are within the checked
range. -/
structure Apart : Prop where
  msg : ∀ c c', (chn c).msg = (chn c').msg → c = c'
  rsp : ∀ c c', (chn c).rsp = (chn c').rsp → c = c'
  lt : ∀ c t, (chn c).no t < 64

/-- `send_type_info` is right from the start, as that of `chnInfo` is when it is zero. -/
def Typed (s : State) : Prop := ∀ c, s.sendTypeInfo c = (chn c).sendType

theorem apart_chnInfo : Apart chnInfo := by
  refine ⟨fun c c' h => ?_, fun c c' h => ?_, fun c t => ?_⟩
  · cases c <;> cases c' <;> first | rfl | cases h
  · cases c <;> cases c' <;> first | rfl | cases h
  · cases c <;> cases t <;> decide

theorem sendType_chnInfo (c : UioDev) : (chnInfo c).sendType = .msg := by cases c <;> decide

end View

section Registers

variable {chn : UioDev → MbxChannel} {t t' : SendType} {c c' : UioDev} {y : ℕ}

theorem other_ne (t : SendType) : t.other ≠ t := by cases t <;> decide

theorem decode_add (y : ℕ) {r : ℕ} (hr : r < 0x20) : decode (0x20 * y + r) = regAt y r := by
  have hdiv : (0x20 * y + r) / 0x20 = y := by omega
  have hmod : (0x20 * y + r) % 0x20 = r := by omega
  rw [decode, hdiv, hmod]

theorem decode_sts (t : SendType) (y : ℕ) : decode (mbxIntStsReg t y) = some (t, y, .sts) := by
  cases t with
  | msg => exact decode_add y (r := 0) (by decide)
  | rsp => exact decode_add y (r := 0x10) (by decide)

theorem decode_set (t : SendType) (y : ℕ) : decode (mbxIntSetReg t y) = some (t, y, .set) := by
  cases t with
  | msg => exact decode_add y (r := 0x4) (by decide)
  | rsp => exact decode_add y (r := 0x14) (by decide)

theorem decode_clr (t : SendType) (y : ℕ) : decode (mbxIntClrReg t y) = some (t, y, .clr) := by
  cases t with
  | msg => exact decode_add y (r := 0x8) (by decide)
  | rsp => exact decode_add y (r := 0x18) (by decide)

/-- The registers of 64 channels are within the range that is checked. -/
theorem inRange (h : y < 64) (t : SendType) : mbxIntStsReg t y < mbxRegEnd ∧
    mbxIntSetReg t y < mbxRegEnd ∧ mbxIntClrReg t y < mbxRegEnd := by
  unfold mbxIntClrReg mbxIntSetReg mbxIntStsReg mbxRegEnd
  cases t <;> dsimp only <;> omega

theorem read_sts (h : y < 64) (l : Lines) (t : SendType) (val : Word) :
    metalIoRead32WithCheck (mhuRead l) (mbxIntStsReg t y) val = sts (l t y) := by
  rw [metalIoRead32WithCheck, if_pos (inRange h t).1, mhuRead, decode_sts]

theorem write_set (h : y < 64) (l : Lines) (t : SendType) :
    metalIoWrite32WithCheck mhuWrite l (mbxIntSetReg t y) 1 = setLine l t y true := by
  rw [metalIoWrite32WithCheck, if_pos (inRange h t).2.1, mhuWrite, decode_set]
  rfl

theorem write_clr (h : y < 64) (l : Lines) (t : SendType) :
    metalIoWrite32WithCheck mhuWrite l (mbxIntClrReg t y) 1 = setLine l t y false := by
  rw [metalIoWrite32WithCheck, if_pos (inRange h t).2.2, mhuWrite, decode_clr]
  rfl

/-- A line belongs to one channel. -/
theorem line_inj (hA : Apart chn) : (t' = t ∧ (chn c').no t' = (chn c).no t) ↔ t' = t ∧ c' = c := by
  refine and_congr_right fun ht => ⟨fun h => ?_, fun h => by rw [h, ht]⟩
  subst ht
  cases t' with
  | msg => exact hA.msg _ _ h
  | rsp => exact hA.rsp _ _ h

/-- So does a word. -/
theorem wordOffset_inj (hA : Apart chn) : wordOffset chn t' c' = wordOffset chn t c ↔ t' = t ∧ c' = c := by
  refine ⟨fun h => ?_, fun h => by rw [h.1, h.2]⟩
  unfold wordOffset mbxShmemChOffset mbxShmemWordOffset at h
  cases t <;> cases t' <;> simp only at h
  · exact ⟨rfl, hA.msg _ _ (by omega)⟩
  · omega
  · omega
  · exact ⟨rfl, hA.msg _ _ (by omega)⟩

theorem wordOffset_lt (hA : Apart chn) : wordOffset chn t c < mbxRegEnd := by
  have h := hA.lt c .msg
  unfold wordOffset mbxShmemChOffset mbxShmemWordOffset mbxRegEnd
  change (chn c).msg < 64 at h
  cases t <;> dsimp only <;> omega

theorem line_setLine (hA : Apart chn) (s : State) (v : Bool) :
    setLine s.lines t ((chn c).no t) v t' ((chn c').no t') = if t' = t ∧ c' = c then v
      else s.line chn t' c' := by
  unfold setLine
  simp only [line_inj hA]
  rfl

theorem shm_update (hA : Apart chn) (m : ℕ → Word) (w : Word) :
    Function.update m (wordOffset chn t c) w (wordOffset chn t' c') =
      if t' = t ∧ c' = c then w else m (wordOffset chn t' c') := by
  rw [Function.update_apply]
  simp only [wordOffset_inj hA]

end Registers

/-! ## Every channel as if it were alone -/

section Refinement

variable {chn : UioDev → MbxChannel} {s s' : State} {c c' : UioDev} {a : Act} {e : Event}

theorem findSendType_idem (irqInfo : ℕ) (t : SendType) :
    findSendType irqInfo (findSendType irqInfo t) = findSendType irqInfo t := by
  unfold findSendType
  split_ifs <;> rfl

/-- The first call finds the send type that is there already. -/
theorem Typed.call (hT : Typed chn s) : (if s.isInit c then s.sendTypeInfo
    else Function.update s.sendTypeInfo c (findSendType (chn c).irqInfo (s.sendTypeInfo c))) =
      s.sendTypeInfo := by
  split_ifs with hi
  · rfl
  · rw [hT c, MbxChannel.sendType, findSendType_idem, Function.update_eq_self_iff, hT c]
    rfl

/-- What a step can do, in terms of lines and words. -/
inductive Does (chn : UioDev → MbxChannel) (s : State) (c : UioDev) : Act → State → Prop
  | call (id : Word) (h : s.sender c = .idle ∨ ∃ ret, s.sender c = .done ret) : Does chn s c (.call id)
      { s with isInit := Function.update s.isInit c true, sender := Function.update s.sender c (.put id) }
  | put {id : Word} (h : s.sender c = .put id) : Does chn s c .put { s with
      shm := Function.update s.shm (wordOffset chn (chn c).sendType c) id
      sender := Function.update s.sender c (.check 0 0) }
  | check {wait : ℕ} {val : Word} (h : s.sender c = .check wait val) : Does chn s c .check { s with
      sender := Function.update s.sender c
        (checked s.forceStop wait (sts (s.line chn (chn c).sendType c))) }
  | ring (h : s.sender c = .ring) : Does chn s c .ring { s with
      lines := setLine s.lines (chn c).sendType ((chn c).no (chn c).sendType) true
      sender := Function.update s.sender c (.done 0) }
  | stop : Does chn s c .stop { s with forceStop := true }
  | accept (h : s.line chn (chn c).sendType c = true) : Does chn s c .accept
      { s with lines := setLine s.lines (chn c).sendType ((chn c).no (chn c).sendType) false }
  | remotePut (w : Word) : Does chn s c (.remotePut w)
      { s with shm := Function.update s.shm (wordOffset chn (chn c).sendType.other c) w }
  | remoteRing : Does chn s c .remoteRing
      { s with lines := setLine s.lines (chn c).sendType.other ((chn c).no (chn c).sendType.other) true }
  | irq (h : c ≠ .mbx ∧ s.validThread c = true ∧ s.handler c = .idle ∧
      s.line chn (chn c).sendType.other c = true) :
      Does chn s c .irq { s with handler := Function.update s.handler c .clear }
  | clear (h : s.handler c = .clear) : Does chn s c .clear { s with
      lines := setLine s.lines (chn c).sendType.other ((chn c).no (chn c).sendType.other) false
      handler := Function.update s.handler c .get }
  | get (h : s.handler c = .get) : Does chn s c .get { s with
      handler := Function.update s.handler c (.deliver (s.shm (wordOffset chn (chn c).sendType.other c))) }
  | drop {val : Word} (h : s.handler c = .deliver val) (hval : rpvdevMaxNum ≤ val.toNat) :
      Does chn s c .deliver
      { s with handler := Function.update s.handler c .idle }
  | deliver {val : Word} (h : s.handler c = .deliver val) (hval : val.toNat < rpvdevMaxNum) :
      Does chn s c .deliver { s with
        handler := Function.update s.handler c .idle
        notifyId := Function.update s.notifyId c val
        sync := Function.update s.sync c false }
  | poll (h : s.forceStop = false ∧ s.sync c = false) : Does chn s c .poll
      { s with sync := Function.update s.sync c true }

/-! ### The steps of `rz_proc_notify` -/

theorem does_call (hT : Typed chn s) {id : Word} (h : step chn s (c, .call id) = some s') :
    Does chn s c (.call id) s' := by
  have hinfo := hT.call (c := c)
  simp only [step] at h
  split at h
  · next hs =>
    rw [← Option.some.inj h, hinfo]
    exact .call id (.inl hs)
  · next ret hs =>
    rw [← Option.some.inj h, hinfo]
    exact .call id (.inr ⟨ret, hs⟩)
  · cases h

theorem does_put (hA : Apart chn) (hT : Typed chn s) (h : step chn s (c, .put) = some s') :
    Does chn s c .put s' := by
  simp only [step] at h
  split at h
  · next hs =>
    rw [← Option.some.inj h, hT c, metalIoWrite32WithCheck, if_pos (wordOffset_lt hA)]
    exact .put hs
  · cases h

theorem does_check (hA : Apart chn) (hT : Typed chn s) (h : step chn s (c, .check) = some s') :
    Does chn s c .check s' := by
  simp only [step] at h
  split at h
  · next hs =>
    rw [← Option.some.inj h, hT c, read_sts (hA.lt _ _)]
    exact .check hs
  · cases h

theorem does_ring (hA : Apart chn) (hT : Typed chn s) (h : step chn s (c, .ring) = some s') :
    Does chn s c .ring s' := by
  simp only [step] at h
  split at h
  · next hs =>
    rw [← Option.some.inj h, hT c, write_set (hA.lt _ _)]
    exact .ring hs
  · cases h

/-! ### The steps of `rz_proc_irq_handler` -/

theorem does_clear (hA : Apart chn) (hT : Typed chn s) (h : step chn s (c, .clear) = some s') :
    Does chn s c .clear s' := by
  simp only [step] at h
  split at h
  · next hs =>
    rw [← Option.some.inj h, hT c, write_clr (hA.lt _ _)]
    exact .clear hs
  · cases h

theorem does_get (hA : Apart chn) (hT : Typed chn s) (h : step chn s (c, .get) = some s') :
    Does chn s c .get s' := by
  simp only [step] at h
  split at h
  · next hs =>
    rw [← Option.some.inj h, hT c, metalIoRead32WithCheck, if_pos (wordOffset_lt hA)]
    exact .get hs
  · cases h

theorem does_deliver (h : step chn s (c, .deliver) = some s') : Does chn s c .deliver s' := by
  simp only [step] at h
  split at h
  · next val hs =>
    split_ifs at h with hval
    · cases h
      exact .drop hs hval
    · cases h
      exact .deliver hs (Nat.lt_of_not_le hval)
  · cases h

theorem does_of_step (hA : Apart chn) (hT : Typed chn s) (h : step chn s (c, a) = some s') :
    Does chn s c a s' := by
  cases a with
  | call id => exact does_call hT h
  | put => exact does_put hA hT h
  | check => exact does_check hA hT h
  | ring => exact does_ring hA hT h
  | clear => exact does_clear hA hT h
  | get => exact does_get hA hT h
  | deliver => exact does_deliver h
  | stop =>
    cases h
    exact .stop
  | remotePut w =>
    cases h
    exact .remotePut w
  | remoteRing =>
    cases h
    exact .remoteRing
  | accept =>
    obtain ⟨hs, h⟩ := Option.ite_none_right_eq_some.mp h
    cases h
    exact .accept hs
  | irq =>
    obtain ⟨hs, h⟩ := Option.ite_none_right_eq_some.mp h
    cases h
    exact .irq hs
  | poll =>
    obtain ⟨hs, h⟩ := Option.ite_none_right_eq_some.mp h
    cases h
    exact .poll hs

/-! ### A channel alone -/

theorem Does.typed (hT : Typed chn s) (h : Does chn s c a s') : Typed chn s' := by
  cases h <;> exact hT

/-- On the channel itself, a step is one of the channel alone. -/
theorem Does.own (hA : Apart chn) (h : Does chn s c a s') : (s.view chn c).Step a (s'.view chn c) := by
  have hother := other_ne (chn c).sendType
  have hsend : (chn c).sendType ≠ (chn c).sendType.other := hother.symm
  cases h with
  | call id h => simpa [State.view, State.line] using View.Step.call (v := s.view chn c) id h
  | put h => simpa [State.view, State.line, shm_update hA, hother] using View.Step.put (v := s.view chn c) h
  | check h => simpa [State.view, State.line] using View.Step.check (v := s.view chn c) h
  | ring h =>
    simpa [State.view, State.line, line_setLine hA, hother] using View.Step.ring (v := s.view chn c) h
  | stop => exact .stop
  | accept h =>
    simpa [State.view, State.line, line_setLine hA, hother] using View.Step.accept (v := s.view chn c) h
  | remotePut w =>
    simpa [State.view, State.line, shm_update hA, hsend] using View.Step.remotePut (v := s.view chn c) w
  | remoteRing =>
    simpa [State.view, State.line, line_setLine hA, hsend] using View.Step.remoteRing (v := s.view chn c)
  | irq h =>
    obtain ⟨h0, hvalid, hidle, hline⟩ := h
    have hv : (s.view chn c).valid = true := by simp [State.view, h0, hvalid]
    simpa [State.view, State.line] using View.Step.irq (v := s.view chn c) hv hidle hline
  | clear h =>
    simpa [State.view, State.line, line_setLine hA, hsend] using View.Step.clear (v := s.view chn c) h
  | get h => simpa [State.view, State.line] using View.Step.get (v := s.view chn c) h
  | drop h hval => simpa [State.view, State.line] using View.Step.drop (v := s.view chn c) h hval
  | deliver h hval => simpa [State.view, State.line] using View.Step.deliver (v := s.view chn c) h hval
  | poll h => simpa [State.view, State.line] using View.Step.poll (v := s.view chn c) h.1 h.2

/-- On another channel, only a signal is noticed. -/
theorem Does.frame (hA : Apart chn) (h : Does chn s c a s') (hc : c' ≠ c) (ha : a ≠ .stop) :
    s'.view chn c' = s.view chn c' := by
  cases h with
  | stop => exact absurd rfl ha
  | _ => simp [State.view, State.line, line_setLine hA, shm_update hA, hc]

theorem view_step (hA : Apart chn) (hT : Typed chn s) (h : step chn s e = some s') (c : UioDev) :
    (act c e).elim (s'.view chn c = s.view chn c) ((s.view chn c).Step · (s'.view chn c)) := by
  obtain ⟨c', a⟩ := e
  have hdoes := does_of_step hA hT h
  unfold act
  by_cases hc : c' = c
  · subst hc
    rw [if_pos (.inl rfl)]
    exact hdoes.own hA
  · by_cases ha : a = .stop
    · subst ha
      rw [if_pos (.inr rfl)]
      cases hdoes
      exact .stop
    · rw [if_neg (not_or.mpr ⟨hc, ha⟩)]
      exact hdoes.frame hA (Ne.symm hc) ha

/-- **Every channel by itself**: what a run of the whole system does to a channel is a run of that
channel alone, with the events on it. -/
theorem run_view (hA : Apart chn) (hT : Typed chn s) {es : List Event} (h : Run (ofNext (step chn)) s es s')
    (c : UioDev) : Run View.Step (s.view chn c) (acts c es) (s'.view chn c) := by
  have htyped : Run (guarded (ofNext (step chn)) fun s _ => Typed chn s) s es s' ∧ Typed chn s' := by
    induction h with
    | nil => exact ⟨.nil, hT⟩
    | snoc _ hs ih => exact ⟨ih.1.snoc ⟨ih.2, hs⟩, (does_of_step hA ih.2 hs).typed ih.2⟩
  exact htyped.1.project (State.view chn · c) (act c) fun hs => view_step hA hs.1 hs.2 c

end Refinement

/-! ## Ringing -/

section Ringing

variable {v v' : View} {as as' : List Act} {a : Act}

/-- A signal is not taken back. -/
theorem View.Step.stopped (h : v.Step a v') (hv : v'.stopped = false) : v.stopped = false := by
  cases h with
  | stop => cases hv
  | _ => exact hv

theorem checked_cases (stopped : Bool) (wait : ℕ) (val : Word) :
    maxReadWait < wait ∧ checked stopped wait val = .done (-1) ∨
    wait ≤ maxReadWait ∧ (val ≠ 0 ∧ stopped = false) ∧ checked stopped wait val = .check (wait + 1) val ∨
    wait ≤ maxReadWait ∧ ¬ (val ≠ 0 ∧ stopped = false) ∧ checked stopped wait val = .ring := by
  unfold checked
  split_ifs with hwait hval
  · exact .inl ⟨hwait, rfl⟩
  · exact .inr (.inl ⟨Nat.le_of_not_lt hwait, hval, rfl⟩)
  · exact .inr (.inr ⟨Nat.le_of_not_lt hwait, hval, rfl⟩)

theorem sts_ne_zero (b : Bool) : sts b ≠ 0 ↔ b = true := by cases b <;> decide

/-- The thread rings a line that it has seen clear, and nobody else sets it: so none of its rings is
lost. -/
theorem View.count_ring (h : Run View.Step v as v') (h₀ : v.sender = .idle) (hstop : v'.stopped = false) :
    as.count .ring + v.ringing.toNat = as.count .accept + v'.ringing.toNat := by
  let I : List Act → View → Prop := fun as u => u.stopped = false →
    (u.sender = .ring → u.ringing = false) ∧
      as.count .ring + v.ringing.toNat = as.count .accept + u.ringing.toNat
  have hI : I as v' := by
    refine h.inv_trace (I := I) (fun _ => ⟨fun hr => ?_, by simp⟩) fun {as u a u'} ih hs hu => ?_
    · rw [h₀] at hr
      cases hr
    obtain ⟨hclear, hcount⟩ := ih (hs.stopped hu)
    cases hs with
    | call id h | put h => exact ⟨nofun, by simpa [List.count_append] using hcount⟩
    | check h =>
      refine ⟨fun hring => ?_, by simpa [List.count_append] using hcount⟩
      rcases checked_cases u.stopped _ (sts u.ringing) with ⟨-, hc⟩ | ⟨-, -, hc⟩ | ⟨-, hval, -⟩
      · exact absurd (hc.symm.trans hring) nofun
      · exact absurd (hc.symm.trans hring) nofun
      · rw [sts_ne_zero] at hval
        exact Bool.eq_false_iff.mpr fun hr => hval ⟨hr, hu⟩
    | ring h =>
      have hfalse := hclear h
      refine ⟨nofun, ?_⟩
      have hother : [Act.ring].count .accept = 0 := rfl
      rw [hfalse, Bool.toNat_false] at hcount
      simp only [List.count_append, List.count_singleton_self, Bool.toNat_true]
      omega
    | accept h =>
      refine ⟨fun _ => rfl, ?_⟩
      have hother : [Act.accept].count .ring = 0 := rfl
      rw [h, Bool.toNat_true] at hcount
      simp only [List.count_append, List.count_singleton_self, Bool.toNat_false]
      omega
    | stop => cases hu
    | _ => exact ⟨hclear, by simpa [List.count_append] using hcount⟩
  exact (hI hstop).2

/-- Nobody else writes the word. -/
theorem View.sent_eq (h : Run View.Step v as v') (h₀ : v.sender = .idle) {id : Word}
    (hid : ∀ id', Act.call id' ∈ as → id' = id) (hput : Act.put ∈ as) : v'.sent = id := by
  let I : List Act → View → Prop := fun as u => (∀ id', Act.call id' ∈ as → id' = id) →
    (∀ id', u.sender = .put id' → id' = id) ∧ (Act.put ∈ as → u.sent = id)
  have hI : I as v' := by
    refine h.inv_trace (I := I) (fun _ => ⟨fun id' hp => ?_, fun hp => ?_⟩) fun {as u a u'} ih hs hu => ?_
    · rw [h₀] at hp
      cases hp
    · cases hp
    obtain ⟨hsend, hsent⟩ := ih fun id' hmem => hu id' (List.mem_append_left _ hmem)
    cases hs with
    | call id₁ h =>
      refine ⟨fun id' hp => ?_, fun hp => hsent (by simpa using hp)⟩
      cases hp
      exact hu id₁ (by simp)
    | put h => exact ⟨nofun, fun _ => hsend _ h⟩
    | check h =>
      refine ⟨fun id' hp => ?_, fun hp => hsent (by simpa using hp)⟩
      rcases checked_cases u.stopped _ (sts u.ringing) with ⟨-, hc⟩ | ⟨-, -, hc⟩ | ⟨-, -, hc⟩ <;>
        exact absurd (hc.symm.trans hp) nofun
    | ring h => exact ⟨nofun, fun hp => hsent (by simpa using hp)⟩
    | _ => exact ⟨hsend, fun hp => hsent (by simpa using hp)⟩
  exact (hI hid).2 hput

end Ringing

/-- At the start no thread is in one of the functions. -/
structure Start (chn : UioDev → MbxChannel) (s : State) : Prop where
  typed : Typed chn s
  sender : ∀ c, s.sender c = .idle
  handler : ∀ c, s.handler c = .idle

/-- **The doorbell**: unless the program is stopped, every ring of a channel has been accepted by
the other core or is still to be seen in its line, whatever happens on the other channels; and if
all rings on it are for one `notify_id`, that is what the other core finds in the word. -/
theorem doorbell {chn : UioDev → MbxChannel} {s₀ s : State} {es : List Event} (hA : Apart chn)
    (h₀ : Start chn s₀) (h : Run (ofNext (step chn)) s₀ es s) (c : UioDev) :
    (s.forceStop = false → (acts c es).count .ring + (s₀.line chn (chn c).sendType c).toNat =
      (acts c es).count .accept + (s.line chn (chn c).sendType c).toNat) ∧
    ∀ id, (∀ id', Act.call id' ∈ acts c es → id' = id) → Act.put ∈ acts c es →
      s.shm (wordOffset chn (chn c).sendType c) = id :=
  ⟨View.count_ring (run_view hA h₀.typed h c) (h₀.sender c),
    fun _ hid hput => View.sent_eq (run_view hA h₀.typed h c) (h₀.sender c) hid hput⟩

/-- After `rz_proc_init` for the threads of both cores of the R8. -/
def sample : State where
  lines _ _ := false
  shm _ := 0
  sendTypeInfo _ := .msg
  isInit _ := false
  validThread c := decide (c = .receiver2 ∨ c = .receiver3)
  forceStop := false
  sender _ := .idle
  handler _ := .idle
  notifyId _ := 0
  sync _ := true

theorem start_sample : Start chnInfo sample :=
  ⟨fun c => (sendType_chnInfo c).symm, fun _ => rfl, fun _ => rfl⟩

/-- Two calls on one channel, the other core between them, and a third call on another channel. -/
def sampleCalls : List Event :=
  [(.receiver2, .call 1), (.receiver2, .put), (.receiver3, .call 0), (.receiver2, .check), (.receiver3, .put),
    (.receiver2, .ring), (.receiver3, .check), (.receiver2, .accept), (.receiver2, .call 1),
    (.receiver3, .ring),
    (.receiver2, .put), (.receiver2, .check), (.receiver2, .ring)]

theorem doorbell_sampleCalls :
    ((exec (step chnInfo) sample sampleCalls).any fun s => s.line chnInfo .msg .receiver2) = true := by
  obtain ⟨s, hs⟩ := Option.isSome_iff_exists.mp
    (by decide : (exec (step chnInfo) sample sampleCalls).isSome = true)
  have hall : ((exec (step chnInfo) sample sampleCalls).all fun s => !s.forceStop) = true := by decide
  rw [hs] at hall ⊢
  have hcount := (doorbell apart_chnInfo start_sample (run_of_exec hs) .receiver2).1 (by simpa using hall)
  have hring : (acts .receiver2 sampleCalls).count .ring = 2 := by decide
  have haccept : (acts .receiver2 sampleCalls).count .accept = 1 := by decide
  have hline : (sample.line chnInfo (chnInfo .receiver2).sendType .receiver2).toNat = 0 := by decide
  rw [hring, haccept, hline, sendType_chnInfo] at hcount
  cases hb : s.line chnInfo .msg .receiver2 with
  | true => exact hb
  | false =>
    rw [hb] at hcount
    cases hcount

/-! ## The end of a call -/

section Outcome

/-- The line has been clear, or a signal has come in, by the end of `as`. -/
def Freed (v : View) (as : List Act) : Prop :=
  v.ringing = false ∨ v.stopped = true ∨ Act.accept ∈ as ∨ Act.stop ∈ as

/-- The loop has ended with its last read. -/
def LeftAt (v : View) (as : List Act) : Prop :=
  ∃ as₁ as₂, as = as₁ ++ .check :: as₂ ∧ Act.check ∉ as₂ ∧ as₁.count .check ≤ maxReadWait ∧ Freed v as₁

/-- `n + 1` reads in vain. -/
def InVain (v : View) (as : List Act) (n : ℕ) : Prop :=
  ∃ as₁ as₂, as = as₁ ++ .check :: as₂ ∧ as₁.count .check = n ∧ ¬ Freed v as₁

variable {v v' u : View} {as : List Act} {a : Act} {n : ℕ}

theorem InVain.append (h : InVain v as n) (bs : List Act) : InVain v (as ++ bs) n := by
  obtain ⟨as₁, as₂, rfl, hn, hf⟩ := h
  exact ⟨as₁, as₂ ++ bs, by rw [List.append_assoc, List.cons_append], hn, hf⟩

theorem LeftAt.append (h : LeftAt v as) (ha : a ≠ .check) : LeftAt v (as ++ [a]) := by
  obtain ⟨as₁, as₂, rfl, has, hn, hf⟩ := h
  refine ⟨as₁, as₂ ++ [a], by rw [List.append_assoc, List.cons_append], fun hmem => ?_, hn, hf⟩
  rcases List.mem_append.mp hmem with hmem | hmem
  · exact has hmem
  · exact ha (List.mem_singleton.mp hmem).symm

/-- How far a call has got. -/
def Progress (v : View) (as : List Act) (u : View) : Prop :=
  match u.sender with
  | .idle => False
  | .put _ => as.count .check = 0 ∧ as.count .ring = 0 ∧ (Freed v as ↔ u.ringing = false ∨ u.stopped = true)
  | .check wait _ => as.count .check = wait ∧ wait ≤ maxReadWait + 1 ∧ as.count .ring = 0 ∧
      (Freed v as ↔ u.ringing = false ∨ u.stopped = true) ∧ (0 < wait → InVain v as (wait - 1))
  | .ring => as.count .ring = 0 ∧ LeftAt v as
  | .done ret => ret = 0 ∧ as.count .ring = 1 ∧ LeftAt v as ∨
      ret = -1 ∧ as.count .ring = 0 ∧ as.count .check = maxReadWait + 2 ∧ InVain v as maxReadWait

theorem freed_snoc : Freed v (as ++ [a]) ↔ Freed v as ∨ a = .accept ∨ a = .stop := by
  unfold Freed
  simp only [List.mem_append, List.mem_singleton, eq_comm (a := a)]
  tauto

/-- What leaves the thread where it is. -/
theorem Progress.other {u' : View} (h : Progress v as u) (hs : u'.sender = u.sender) (hcheck : a ≠ .check)
    (hring : a ≠ .ring) (hfree : (u'.ringing = false ∨ u'.stopped = true) ↔
      (u.ringing = false ∨ u.stopped = true) ∨ a = .accept ∨ a = .stop) : Progress v (as ++ [a]) u' := by
  have hcheck' : (as ++ [a]).count .check = as.count .check := by simp [List.count_append, hcheck]
  have hring' : (as ++ [a]).count .ring = as.count .ring := by simp [List.count_append, hring]
  unfold Progress at *
  rw [hs, hcheck', hring', freed_snoc, hfree]
  cases hu : u.sender with
  | idle =>
    rw [hu] at h
    exact h
  | put id =>
    rw [hu] at h
    obtain ⟨hc, hr, hf⟩ := h
    exact ⟨hc, hr, or_congr_left hf⟩
  | check wait val =>
    rw [hu] at h
    obtain ⟨hc, hwait, hr, hf, hvain⟩ := h
    exact ⟨hc, hwait, hr, or_congr_left hf, fun hpos => (hvain hpos).append _⟩
  | ring =>
    rw [hu] at h
    exact ⟨h.1, h.2.append hcheck⟩
  | done ret =>
    rw [hu] at h
    rcases h with ⟨hret, hr, hleft⟩ | ⟨hret, hr, hc, hvain⟩
    · exact .inl ⟨hret, hr, hleft.append hcheck⟩
    · exact .inr ⟨hret, hr, hc, hvain.append _⟩

theorem Progress.step {u' : View} (h : Progress v as u) (hs : u.Step a u') (ha : ∀ id, a ≠ .call id) :
    Progress v (as ++ [a]) u' := by
  cases hs with
  | call id => exact absurd rfl (ha id)
  | put hu =>
    unfold Progress at h
    rw [hu] at h
    obtain ⟨hc, hr, hf⟩ := h
    refine ⟨by simp [List.count_append, hc], Nat.zero_le _, by simp [List.count_append, hr], ?_, nofun⟩
    rw [freed_snoc, hf]
    simp
  | @check wait val hu =>
    unfold Progress at h
    rw [hu] at h
    obtain ⟨hc, hwait, hr, hf, hvain⟩ := h
    have hc' : (as ++ [Act.check]).count .check = wait + 1 := by simp [List.count_append, hc]
    have hr' : (as ++ [Act.check]).count .ring = 0 := by simp [List.count_append, hr]
    unfold Progress
    rcases checked_cases u.stopped wait (sts u.ringing) with ⟨hlt, he⟩ | ⟨hle, hval, he⟩ | ⟨hle, hval, he⟩
    · -- the limit is passed, whatever the last read has been
      have hw : wait = maxReadWait + 1 := by omega
      dsimp only
      rw [he]
      subst hw
      exact .inr ⟨rfl, hr', hc', (hvain (Nat.succ_pos _)).append _⟩
    · dsimp only
      rw [he]
      rw [sts_ne_zero] at hval
      refine ⟨hc', Nat.succ_le_succ hle, hr', ?_, fun _ => ⟨as, [], rfl, hc, fun hfree => ?_⟩⟩
      · rw [freed_snoc, hf]
        simp
      · rcases hf.mp hfree with h | h
        · rw [hval.1] at h
          cases h
        · rw [hval.2] at h
          cases h
    · dsimp only
      rw [he]
      rw [sts_ne_zero, not_and_or, Bool.not_eq_true, Bool.not_eq_false] at hval
      exact ⟨hr', as, [], rfl, nofun, hc ▸ hle, hf.mpr hval⟩
  | ring hu =>
    unfold Progress at h
    rw [hu] at h
    exact .inl ⟨rfl, by simp [List.count_append, h.1], h.2.append nofun⟩
  | stop => exact h.other rfl nofun nofun (by simp)
  | accept hring => exact h.other rfl nofun nofun (by simp)
  | _ => exact h.other rfl nofun nofun (by simp)

/-- **The outcome of a call.** It rings once, after a read of the status behind which the line has
been clear or the program stopped; or it gives up, when the line was set and the program went on up
to its 60001st read, and then it has not rung. -/
theorem notify_outcome {chn : UioDev → MbxChannel} {s s' : State} {es : List Event} {c : UioDev} {id : Word}
    {ret : ℤ} (hA : Apart chn) (hT : Typed chn s) (h : Run (ofNext (step chn)) s es s')
    (hput : s.sender c = .put id)
    (hcall : ∀ id, Act.call id ∉ acts c es) (hdone : s'.sender c = .done ret) :
    ret = 0 ∧ (acts c es).count .ring = 1 ∧ LeftAt (s.view chn c) (acts c es) ∨
    ret = -1 ∧ (acts c es).count .ring = 0 ∧ (acts c es).count .check = maxReadWait + 2 ∧
      InVain (s.view chn c) (acts c es) maxReadWait := by
  let I : List Act → View → Prop := fun as u => (∀ id, Act.call id ∉ as) → Progress (s.view chn c) as u
  have hI : I (acts c es) (s'.view chn c) := by
    refine (run_view hA hT h c).inv_trace (I := I) (fun _ => ?_) fun {as u a u'} ih hs hno => ?_
    · have hsender : (s.view chn c).sender = .put id := hput
      unfold Progress
      rw [hsender]
      exact ⟨rfl, rfl, by simp [Freed]⟩
    · refine (ih fun id hmem => hno id (List.mem_append_left _ hmem)).step hs fun id ha => ?_
      exact hno id (by simp [ha])
  have hend := hI hcall
  have hsender : (s'.view chn c).sender = .done ret := hdone
  unfold Progress at hend
  rw [hsender] at hend
  exact hend

end Outcome

/-- A call behind its first step. -/
def sampleCalled : State := { sample with sender := fun c => if c = .receiver2 then .put 1 else .idle }

def sampleRing : List Event :=
  [(.receiver2, .put), (.receiver3, .call 0), (.receiver2, .check), (.receiver3, .put), (.receiver2, .ring)]

theorem notify_outcome_sampleRing :
    LeftAt (sampleCalled.view chnInfo .receiver2) (acts .receiver2 sampleRing) := by
  obtain ⟨s, hs⟩ := Option.isSome_iff_exists.mp
    (by decide : (exec (step chnInfo) sampleCalled sampleRing).isSome = true)
  have hall : ((exec (step chnInfo) sampleCalled sampleRing).all fun s =>
    s.sender .receiver2 == .done 0) = true := by
    decide
  rw [hs] at hall
  have hcall : ∀ id, Act.call id ∉ acts .receiver2 sampleRing := by
    intro id
    have hacts : acts .receiver2 sampleRing = [.put, .check, .ring] := rfl
    simp [hacts]
  have hout := notify_outcome (c := .receiver2) apart_chnInfo (fun c => (sendType_chnInfo c).symm)
    (run_of_exec hs) rfl
    hcall (eq_of_beq hall)
  rcases hout with ⟨-, -, hleft⟩ | ⟨hret, -⟩
  · exact hleft
  · exact absurd hret (by decide)

/-! ## Being rung -/

section BeingRung

/-- The other core has rung since `platform_poll` last found the flag clear. -/
def rung : Bool → Act → Bool
  | _, .remoteRing => true
  | _, .poll => false
  | b, _ => b

/-- What brings the thread a notification: the line, the handler on its way, or the flag. -/
def Pending (v : View) : Prop :=
  v.called = true ∨ v.handler = .get ∨ (∃ val, v.handler = .deliver val) ∨ v.sync = false

/-- The ids that are taken from the word are valid ones. -/
def ValidIds (v : View) : Prop :=
  v.got.toNat < rpvdevMaxNum ∧ ∀ val, v.handler = .deliver val → val.toNat < rpvdevMaxNum

/-- How many notifications there may be. -/
def due (v : View) : ℕ :=
  v.called.toNat + (match v.handler with | .get | .deliver _ => 1 | _ => 0) + (!v.sync).toNat

variable {v v' u u' : View} {as : List Act} {a : Act}

theorem ValidIds.step (hv : ValidIds v) (h : v.Step a v')
    (ha : ∀ w, a = .remotePut w → w.toNat < rpvdevMaxNum) :
    ValidIds v' := by
  cases h with
  | remotePut w => exact ⟨ha w rfl, hv.2⟩
  | irq _ _ _ | clear _ | drop _ _ | deliver _ _ => exact ⟨hv.1, nofun⟩
  | get _ =>
    refine ⟨hv.1, fun val h => ?_⟩
    cases h
    exact hv.1
  | _ => exact hv

/-- One step: a ring makes a notification pending, and only `platform_poll` takes it. -/
theorem Pending.step {b : Bool} (hp : b = true → Pending v) (hv : ValidIds v) (h : v.Step a v') :
    rung b a = true → Pending v' := by
  cases h with
  | remoteRing => exact fun _ => .inl rfl
  | poll _ _ => exact nofun
  | irq _ hidle hcalled => exact fun _ => .inl hcalled
  | clear _ => exact fun _ => .inr (.inl rfl)
  | get _ => exact fun _ => .inr (.inr (.inl ⟨_, rfl⟩))
  | drop hval hle => exact absurd (hv.2 _ hval) (Nat.not_lt.mpr hle)
  | deliver _ _ => exact fun _ => .inr (.inr (.inr rfl))
  | _ => exact hp

theorem due_step (h : v.Step a v') (hclear : v.handler = .clear → v.called = true) :
    (v'.handler = .clear → v'.called = true) ∧
      [a].count .poll + due v' ≤ [a].count .remoteRing + due v := by
  cases h with
  | remoteRing =>
    refine ⟨fun _ => rfl, ?_⟩
    have hle := v.called.toNat_le
    simp only [due, List.count_singleton_self, Bool.toNat_true]
    have hpoll : [Act.remoteRing].count .poll = 0 := rfl
    omega
  | irq _ hidle hcalled =>
    refine ⟨fun _ => hcalled, ?_⟩
    simp [due, hidle]
  | clear h =>
    refine ⟨nofun, ?_⟩
    simp [due, h, hclear h]
  | get h =>
    refine ⟨nofun, ?_⟩
    simp [due, h]
  | drop h _ =>
    refine ⟨nofun, ?_⟩
    simp [due, h]
  | deliver h _ =>
    refine ⟨nofun, ?_⟩
    have hle := (!v.sync).toNat_le
    simp only [due, h]
    simp
  | poll _ h =>
    refine ⟨hclear, ?_⟩
    simp [due, h]
    omega
  | _ => exact ⟨hclear, by simp [due]⟩

/-- **No wake-up is lost**: when the other core has rung since the thread last took a notification,
one is pending, however the handler, the core and the thread take turns; and the thread has taken no
more than there were rings. -/
theorem no_lost_wakeup {chn : UioDev → MbxChannel} {s₀ s : State} {es : List Event} (hA : Apart chn)
    (h₀ : Start chn s₀) (h : Run (ofNext (step chn)) s₀ es s) (c : UioDev) (hsync : s₀.sync c = true)
    (hword : (s₀.shm (wordOffset chn (chn c).sendType.other c)).toNat < rpvdevMaxNum)
    (hput : ∀ w, Act.remotePut w ∈ acts c es → w.toNat < rpvdevMaxNum) :
    ((acts c es).foldl rung false = true → Pending (s.view chn c)) ∧
      (acts c es).count .poll ≤ (acts c es).count .remoteRing +
        (s₀.line chn (chn c).sendType.other c).toNat := by
  let I : List Act → View → Prop := fun as u => (∀ w, Act.remotePut w ∈ as → w.toNat < rpvdevMaxNum) →
    ValidIds u ∧ (as.foldl rung false = true → Pending u) ∧ (u.handler = .clear → u.called = true) ∧
      as.count .poll + due u ≤ as.count .remoteRing + due (s₀.view chn c)
  have hidle : (s₀.view chn c).handler = .idle := h₀.handler c
  have hI : I (acts c es) (s.view chn c) := by
    refine (run_view hA h₀.typed h c).inv_trace (I := I) (fun _ => ?_) fun {as u a u'} ih hs hw => ?_
    · refine ⟨⟨hword, fun val hval => ?_⟩, nofun, fun hc => ?_, Nat.le_refl _⟩
      · cases hidle.symm.trans hval
      · cases hidle.symm.trans hc
    obtain ⟨hvalid, hp, hclear, hdue⟩ := ih fun w hmem => hw w (List.mem_append_left _ hmem)
    obtain ⟨hclear', hdue'⟩ := due_step hs hclear
    refine ⟨hvalid.step hs fun w ha => hw w (by simp [ha]), ?_, hclear', ?_⟩
    · rw [List.foldl_append]
      exact Pending.step hp hvalid hs
    · rw [List.count_append, List.count_append]
      omega
  obtain ⟨-, hp, -, hdue⟩ := hI hput
  refine ⟨hp, ?_⟩
  have hstart : due (s₀.view chn c) = (s₀.line chn (chn c).sendType.other c).toNat := by
    have hs : (s₀.view chn c).sync = true := hsync
    simp only [due, hidle, hs]
    rfl
  omega

end BeingRung

/-- A ring, the handler up to its last step, and another ring meanwhile. -/
def sampleRung : List Event :=
  ([.remotePut 1, .remoteRing, .irq, .clear, .remoteRing, .get, .deliver] : List Act).map (.receiver2, ·)

theorem no_lost_wakeup_sampleRung :
    ∃ s, exec (step chnInfo) sample sampleRung = some s ∧ Pending (s.view chnInfo .receiver2) := by
  obtain ⟨s, hs⟩ := Option.isSome_iff_exists.mp
    (by decide : (exec (step chnInfo) sample sampleRung).isSome = true)
  refine ⟨s, hs, (no_lost_wakeup apart_chnInfo start_sample (run_of_exec hs) .receiver2 rfl (by decide)
    fun w hw => ?_).1 rfl⟩
  have hacts : acts .receiver2 sampleRung =
    [.remotePut 1, .remoteRing, .irq, .clear, .remoteRing, .get, .deliver] := rfl
  simp only [hacts, List.mem_cons, Act.remotePut.injEq, List.not_mem_nil, or_false, reduceCtorEq] at hw
  subst hw
  decide

end CR8Devkit.Mailbox
