import DoorLock.Effect

/-!
# The UART to the fingerprint module (`fg_reader.c`: `fg_getsum`, `fg_cmd_transmit`)

The module answers the commands it is sent with frames, delivered after delays of its own. Each
byte on the line carries the number of the command it answers, so that it can be said whose reply
a frame is. `s_uart_rx_buf` is memory from its first byte on: the bytes from index
`UART1_MAX_RW_LEN` on lie behind the array.
-/

namespace DoorLock

/-- The fingerprint module and its timing, as one job sees them. -/
structure FgModule where
  /-- The bytes with which the module answers the `n`-th command. -/
  reply : Nat → List UInt8
  /-- How many bytes have come in when the `n`-th driver call ends. -/
  arrived : Nat → Nat
  /-- `xTaskGetTickCount()` after `n` driver calls. -/
  tick : Nat → TickType

/-- `UART1_MAX_RW_LEN` -/
def uart1MaxRwLen : Nat := 72

/-- The receive buffer and the line. The bytes on the line answer commands already sent. -/
structure Uart where
  /-- `s_uart_rx_buf` and the memory behind it -/
  rxBuf : Nat → UInt8
  /-- One past the highest index of `s_uart_rx_buf` that was read or written. -/
  reach : Nat
  /-- The bytes on the line that were not read, with the command each one answers. -/
  line : List (Nat × UInt8)
  /-- The commands sent so far. -/
  cmds : List (List UInt8)
  /-- The bytes read off the line so far. -/
  taken : List (Nat × UInt8)
  /-- The driver calls made so far. -/
  calls : Nat
  line_lt : ∀ b ∈ line, b.1 < cmds.length

variable (fg : FgModule)

/-- `uart_write_bytes` of a command: the module will answer it. -/
def uartWriteBytes (s : Uart) (tx : List UInt8) : Uart :=
  { s with
    cmds := s.cmds ++ [tx]
    line := s.line ++ (fg.reply s.cmds.length).map (s.cmds.length, ·)
    line_lt := by
      intro b hb
      rw [List.length_append]
      rcases List.mem_append.mp hb with hb | hb
      · exact Nat.lt_add_right _ (s.line_lt b hb)
      · obtain ⟨_, _, rfl⟩ := List.mem_map.mp hb
        simp }

/-- `uart_flush_input`: drops what has come in. -/
def uartFlushInput (s : Uart) : Uart :=
  { s with
    line := s.line.drop (fg.arrived s.calls)
    calls := s.calls + 1
    line_lt := fun b hb => s.line_lt b (List.mem_of_mem_drop hb) }

/-- Memory after `bytes` were written from `off` on. -/
def writeAt (mem : Nat → UInt8) (off : Nat) (bytes : List UInt8) : Nat → UInt8 := fun i =>
  if off ≤ i then bytes.getD (i - off) (mem i) else mem i

/-- How many bytes a read of `n` bytes returns: those that come in before its time-out. -/
def Uart.got (s : Uart) (n : Nat) : Nat := min n (min (fg.arrived s.calls) s.line.length)

/-- `uart_read_bytes(UART_PORT_1, s_uart_rx_buf + off, n, timeout)`, with its result. -/
def uartReadBytes (s : Uart) (off n : Nat) : Nat × Uart :=
  let k := s.got fg n
  (k, { s with
    rxBuf := writeAt s.rxBuf off ((s.line.take k).map Prod.snd)
    reach := max s.reach (off + k)
    line := s.line.drop k
    taken := s.taken ++ s.line.take k
    calls := s.calls + 1
    line_lt := fun b hb => s.line_lt b (List.mem_of_mem_drop hb) })

/-- The `for` loop of `fg_getsum`, with its eight-bit counter. -/
def fgGetsumLoop (mem : Nat → UInt8) (len : UInt16) : Nat → UInt8 → UInt32 → Option UInt32
  | 0, _, _ => none
  | fuel + 1, i, sum =>
    if i.toNat < len.toNat then
      fgGetsumLoop mem len fuel (i + 1) (sum + (mem i.toNat).toUInt32)
    else some sum

/-- `fg_getsum`. A loop that is not done after 256 rounds has wrapped its counter and never
ends. -/
def fgGetsum (mem : Nat → UInt8) (len : UInt16) : Option UInt32 := fgGetsumLoop mem len 257 0 0

def fgReadSensorCmd : List UInt8 := [0x01, 0x00, 0x03, 0x01, 0x00, 0x05]
def fgGenPattern : List UInt8 := [0x01, 0x00, 0x04, 0x02, 0x01, 0x00, 0x08]
def fgSearchPattern : List UInt8 :=
  [0x01, 0x00, 0x08, 0x04, 0x01, 0x00, 0x01, 0x00, 0xff, 0x01, 0x0e]
def fgAuthDef : List UInt8 := [0x01, 0x00, 0x07, 0x13, 0x00, 0x00, 0x00, 0x01, 0x00, 0x1c]
def fgLedOn : List UInt8 := [0x01, 0x00, 0x07, 0x3c, 0x03, 0x03, 0x03, 0x00, 0x00, 0x4d]
/-- `FG_CLEAR_ALL_FG`: ten bytes, of which six are given. -/
def fgClearAllFg : List UInt8 := [0x01, 0x00, 0x03, 0x0d, 0x00, 0x11, 0x00, 0x00, 0x00, 0x00]

/-- The header a reply must have: the start code, the address and the package flag. -/
def fgAckHead : List UInt8 := [0xef, 0x01, 0xff, 0xff, 0xff, 0xff, 0x07]

/-- `s_uart_rx_buf[7]*256+s_uart_rx_buf[8]` -/
def Uart.bodyLen (s : Uart) : Nat := (s.rxBuf 7).toNat * 256 + (s.rxBuf 8).toNat

/-- The checks on `s_uart_rx_buf[0..6]`. -/
def Uart.headOk (s : Uart) : Bool := (List.range 7).map s.rxBuf == fgAckHead

/-- The indices below `n` were read. -/
def Uart.touch (s : Uart) (n : Nat) : Uart := { s with reach := max s.reach n }

/-- The checksum that came with a body of `bodyLen` bytes. -/
def Uart.recvSum (s : Uart) (bodyLen : Nat) : UInt32 :=
  ((s.rxBuf (8 + bodyLen - 1)).toUInt32 <<< 8) ||| (s.rxBuf (8 + bodyLen)).toUInt32

/-- The end of `fg_cmd_transmit`: the length and the checksum. `none` when `fg_getsum` does not
return: it then reads at every value of its counter. -/
def checkBody (s : Uart) (bodyLen bodyRecvLen : Nat) : Option Bool × Uart :=
  if bodyRecvLen < bodyLen then (some false, s)
  else
    let len := UInt16.ofNat (bodyLen + 1)
    match fgGetsum (fun i => s.rxBuf (6 + i)) len with
    | none => (none, s.touch (6 + 256))
    | some calcSum => (some (calcSum == s.recvSum bodyLen), s.touch (9 + bodyLen))

/-- `fg_cmd_transmit(tx, sizeof(tx), timeout)`; an empty `tx` is `send_len` 0. The result is
`none` when the call does not return within `fuel` nested calls. -/
def fgCmdTransmit : Nat → List UInt8 → Uart → Option Bool × Uart
  | 0, _, s => (none, s)
  | fuel + 1, tx, s =>
    if 11 < tx.length then (some false, s)
    else
      let s := if 0 < tx.length then uartWriteBytes fg s tx else s
      let (sendedLen, s) := uartReadBytes fg s 0 9
      if sendedLen < 9 then (some false, s)
      else if !s.headOk then (some false, s)
      else
        let bodyLen := s.bodyLen
        let (bodyRecvLen, s) := uartReadBytes fg s 9 bodyLen
        -- the log reads four body bytes, whether they came or not
        let s := s.touch 13
        if s.rxBuf 9 = 0x13 then
          match fgCmdTransmit fuel fgAuthDef s with
          | (none, s) => (none, s)
          | (some _, s) => checkBody s bodyLen bodyRecvLen
        else checkBody s bodyLen bodyRecvLen

end DoorLock
