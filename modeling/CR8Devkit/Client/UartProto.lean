import CR8Devkit.Client.Proto
import Mathlib.Data.List.DropRight

/-!
# The UART protocol and uartd's standard input

* `UartCmd`, `UartRsp`: the two messages; `UartRsp.decode`: the reply as it lies in the reply
  buffer.
* `fgets`, `parseLine`: one line of standard input and what it asks for; `sendCmd`: the command that
  is made of the text of a `send` line.
* `uartdXfer`: one exchange with the R8, against an arbitrary transport.
-/

namespace CR8Devkit.Uart

open WaitReply (Byte Reply)
open Proto (Word word32)

/-- `UART_CMD_MAGIC`. -/
def uartCmdMagic : Word := 0x43524155
/-- `UART_RSP_MAGIC`. -/
def uartRspMagic : Word := 0x53524155
def uartAbiVer : Word := 1
/-- Transmit the bytes; the reply carries what has been received. -/
def uartOpSend : Word := 0
/-- Ask only for what has been received. -/
def uartOpQuery : Word := 1
/-- The bytes that a command or a reply has room for. -/
def uartDataMax : ℕ := 384

/-- The transmitter has no room: try again. -/
def uartErrTxBusy : Word := -3

/-- `uart_cmd_t`. -/
structure UartCmd where
  magic : Word
  abiVer : Word
  op : Word
  len : Word
  data : List Byte
  deriving DecidableEq

/-- `uart_rsp_t`; `rxLen` bytes of `data` are received bytes. -/
structure UartRsp where
  magic : Word
  abiVer : Word
  status : Word
  txTotal : Word
  rxTotal : Word
  rxDropped : Word
  rxLen : Word
  data : List Byte
  deriving DecidableEq

/-- `sizeof(uart_rsp_t)`. -/
def uartRspSize : ℕ := 412

/-- `memcpy(rsp, g_reply_buf, sizeof(*rsp))`. -/
def UartRsp.decode (b : List Byte) : UartRsp :=
  ⟨word32 b 0, word32 b 4, word32 b 8, word32 b 12, word32 b 16, word32 b 20, word32 b 24,
    (List.range uartDataMax).map fun i => b.getD (28 + i) 0⟩

theorem UartRsp.length_decode (b : List Byte) : (decode b).data.length = uartDataMax := by
  simp [decode]

/-! ## Standard input -/

/-- `fgets` into a buffer of `n + 1` bytes: what it reads, and what stays in the pipe. -/
def fgets : ℕ → List Byte → List Byte × List Byte
  | 0, s => ([], s)
  | _ + 1, [] => ([], [])
  | n + 1, c :: s =>
    if c = 10 then ([c], s)
    else
      let (l, s') := fgets n s
      (c :: l, s')

/-- `fgets` has found the end of a line, filled its buffer or met the end of the file. -/
def complete (n : ℕ) (l : List Byte) (closed : Bool) : Bool :=
  l.getLast? == some 10 || l.length == n || closed

/-- `line[512]`. -/
def lineMax : ℕ := 511

/-- The line as a C string without its trailing newlines and carriage returns. -/
def stripLine (l : List Byte) : List Byte :=
  (l.takeWhile fun c => c != 0).rdropWhile fun c => c == 10 || c == 13

/-- `"send "`. -/
def sendPrefix : List Byte := [115, 101, 110, 100, 32]

/-- A line of standard input: `send <text>`, anything else, or nothing. -/
inductive Line
  | send (text : List Byte)
  | unknown
  | empty
  deriving DecidableEq

/-- The tests in the order in which uartd makes them. -/
def parseLine (l : List Byte) : Line :=
  let s := stripLine l
  if sendPrefix <+: s then .send (s.drop 5)
  else if s = [] then .empty
  else .unknown

/-- The text, cut to `UART_DATA_MAX - 1` bytes, and a newline, in a cleared command. -/
def sendCmd (text : List Byte) : UartCmd :=
  let n := min text.length (uartDataMax - 1)
  ⟨uartCmdMagic, uartAbiVer, uartOpSend, .ofNat 32 (n + 1),
    text.take n ++ 10 :: List.replicate (uartDataMax - 1 - n) 0⟩

/-- The command of a round without text. -/
def queryCmd : UartCmd := ⟨uartCmdMagic, uartAbiVer, uartOpQuery, 0, List.replicate uartDataMax 0⟩

/-- The bytes the R8 is asked to transmit. -/
def UartCmd.payload (c : UartCmd) : List Byte := c.data.take c.len.toNat

theorem payload_sendCmd (text : List Byte) :
    (sendCmd text).payload = text.take (uartDataMax - 1) ++ [10] := by
  have hlen : (min text.length (uartDataMax - 1) + 1) % 2 ^ 32 =
      (text.take (min text.length (uartDataMax - 1)) ++ [10]).length := by
    simp only [List.length_append, List.length_take, List.length_singleton, uartDataMax]
    omega
  have htake : text.take (min text.length (uartDataMax - 1)) = text.take (uartDataMax - 1) := by
    rw [← List.take_take]
    exact List.take_of_length_le (by simp only [List.length_take]; omega)
  simp only [UartCmd.payload, sendCmd, BitVec.toNat_ofNat, hlen]
  rw [List.append_cons _ _ (List.replicate _ _), List.take_left' rfl, htake]

/-! ## One exchange -/

/-- `RPMSG_ERR_NO_BUFF`. -/
def rpmsgErrNoBuff : ℤ := -2002

/-- What one call of `uartd_xfer` meets: the result of each `rpmsg_trysend`, `force_stop` at each
test of the loop and after it, the result of `wait_reply(1000)`, and the reply buffer after it. -/
structure Exchange where
  trysend : ℕ → ℤ
  stopped : ℕ → Bool
  late : Bool
  waited : ℤ
  reply : Reply

/-- The send loop from try `a` on, with `n` tries left; `sret` is the last result. -/
def Exchange.send (x : Exchange) : ℕ → ℕ → ℤ → ℤ
  | 0, _, sret => sret
  | n + 1, a, sret =>
    if x.stopped a then sret
    else if x.trysend a ≠ rpmsgErrNoBuff then x.trysend a
    else x.send n (a + 1) (x.trysend a)

/-- `uartd_xfer`: the reply, if it returns 0. -/
def uartdXfer (x : Exchange) : Option UartRsp :=
  let rsp := UartRsp.decode x.reply.buf
  if x.send 200 0 rpmsgErrNoBuff < 0 ∨ x.late = true then none
  else if x.waited ≠ 0 then none
  else if x.reply.len < uartRspSize then none
  else if rsp.magic ≠ uartRspMagic ∨ rsp.abiVer ≠ uartAbiVer then none
  else some rsp

theorem uartdXfer_length {x : Exchange} {rsp : UartRsp} (h : uartdXfer x = some rsp) :
    rsp.data.length = uartDataMax := by
  simp only [uartdXfer] at h
  split_ifs at h
  rw [← Option.some.inj h]
  exact UartRsp.length_decode _

end CR8Devkit.Uart
