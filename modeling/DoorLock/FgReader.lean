import DoorLock.Uart
import Mathlib.Algebra.GroupWithZero.Nat

/-!
# The fingerprint service (`fg_reader.c`: `fg_wake` to `fg_service`)

Each function takes the state of the reader and returns its result with the state it leaves; the
result is `none` when the call does not return within its fuel. The events a job publishes are
collected in `published`, also those of a job that never ends.
-/

namespace DoorLock

/-- The statics of `fg_reader.c` and the events published by the current job. -/
structure FgReader where
  uart : Uart
  sFgState : FgStatus
  gVIdentifiedId : UInt16
  published : List Out

/-- The reader before its first job. -/
def FgReader.init : FgReader where
  uart :=
    { rxBuf := fun _ => 0, reach := 0, line := [], cmds := [], taken := [], calls := 0
      line_lt := by simp }
  sFgState := .idle
  gVIdentifiedId := 0
  published := []

def fgEventOut (fgStatus : FgStatus) (progress : FgProgress) (detail : UInt8) : Out :=
  .publish .hwFg .servUi (.fgEvent ⟨fgStatus, progress, detail⟩) .fgEvent

namespace FgReader

def publish (r : FgReader) (o : Out) : FgReader := { r with published := r.published ++ [o] }

/-- An `fg_event_t` sent to the UI, with the mode the job was started in. -/
def publishEvent (r : FgReader) (progress : FgProgress) (detail : UInt8) : FgReader :=
  r.publish (fgEventOut r.sFgState progress detail)

def rx (r : FgReader) (i : Nat) : UInt8 := r.uart.rxBuf i

end FgReader

/-- What a call leaves: its result, unless it does not return, and the state of the reader. -/
abbrev Returns (α : Type) := Option α × FgReader

/-- Go on after a call that returned. -/
def Returns.andThen {α β : Type} (x : Returns α) (k : α → FgReader → Returns β) : Returns β :=
  match x with
  | (none, r) => (none, r)
  | (some a, r) => k a r

variable (fg : FgModule)

def fgTransmit (fuel : Nat) (tx : List UInt8) (r : FgReader) : Returns Bool :=
  let (ok, uart) := fgCmdTransmit fg fuel tx r.uart
  (ok, { r with uart := uart })

/-- The loop of `fg_wake` that waits for the `0x55` of a module that has booted. -/
def fgWakeLoop (startTick : TickType) : Nat → FgReader → Returns Unit
  | 0, r => (none, r)
  | fuel + 1, r =>
    if fg.tick r.uart.calls - startTick < pdMsToTicks 1000 then
      let r := { r with uart := (uartReadBytes fg r.uart 0 1).2 }
      if r.rx 0 = 0x55 then (some (), r) else fgWakeLoop startTick fuel r
    else (some (), r)

/-- `fg_wake` -/
def fgWake (fuel : Nat) (r : FgReader) : Returns Unit :=
  let r := { r with uart := uartFlushInput fg r.uart }
  (fgWakeLoop fg (fg.tick r.uart.calls) fuel r).andThen fun _ r =>
  (fgTransmit fg fuel fgAuthDef r).andThen fun _ r =>
  (fgTransmit fg fuel fgLedOn r).andThen fun _ r =>
  (some (), r)

/-- `fg_read_sensor` -/
def fgReadSensor (fuel : Nat) (r : FgReader) : Returns Bool :=
  (fgTransmit fg fuel fgReadSensorCmd r).andThen fun ok r =>
  if !ok then (some false, r)
  else if r.rx 9 = 0x02 then (some false, r)
  else if r.rx 9 ≠ 0x00 then (some false, r)
  else
    (fgTransmit fg fuel fgGenPattern r).andThen fun ok r =>
    (some (ok && r.rx 9 == 0x00), r)

/-- Two bytes of the buffer, `(s_uart_rx_buf[i] << 8) | s_uart_rx_buf[i+1]`. -/
def FgReader.rx16 (r : FgReader) (i : Nat) : UInt16 :=
  ((r.rx i).toUInt16 <<< 8) ||| (r.rx (i + 1)).toUInt16

/-- What `fg_identify` makes of the reply to its search. -/
def identifyResult (r : FgReader) : Bool × FgReader :=
  if r.rx 9 = 0x00 then
    let r := { r with gVIdentifiedId := r.rx16 10 }
    if 50 < (r.rx16 12).toNat then (true, r)
    else (false, r.publishEvent .jobDoneFail FgDetail.hesitate.toByte)
  else if r.rx 9 = 0x09 then (false, r.publishEvent .jobDoneFail FgDetail.notFound.toByte)
  else (false, r.publishEvent .jobDoneFail 0)

/-- `fg_identify` -/
def fgIdentify (fuel : Nat) (r : FgReader) : Returns Bool :=
  (fgReadSensor fg fuel { r with uart := uartFlushInput fg r.uart }).andThen fun ok r =>
  if !ok then (some false, r)
  else
    (fgTransmit fg fuel fgSearchPattern r).andThen fun state r =>
    if state then (some (identifyResult r).1, (identifyResult r).2) else (some false, r)

/-- `FG_MAX` -/
def fgMax : UInt16 := 29

/-- The command `fg_enroll` builds in `s_uart_tx_buf`. -/
def enrollCmd (id : UInt16) : List UInt8 :=
  let tx : List UInt8 :=
    [0x01, 0x00, 0x08, 0x31, UInt8.ofNat (id.toUInt8.toNat >>> 8), id.toUInt8, 0x08, 0x00,
      0b00011001]
  let calcSum := (tx.map UInt8.toNat).sum
  tx ++ [UInt8.ofNat (calcSum / 256), UInt8.ofNat calcSum]

/-- What `fg_enroll` does with a report. -/
inductive EnrollReport
  /-- Wait for the next report; the timer starts again when the report was a success. -/
  | next (resetTimer : Bool)
  /-- A touch of the sensor is done. -/
  | touchDone (touch : UInt8)
  | success
  /-- A failure; `none` is the one that is only printed. -/
  | failure (detail : Option UInt8)

/-- The branches of `fg_enroll` on `s_uart_rx_buf[9..11]`. -/
def enrollReport (code step para : UInt8) : EnrollReport :=
  if ¬(0x00 < para ∧ para < 0xf0) ∧ ¬(step = 0x04 ∧ para = 0xf0) ∧ ¬(step = 0x05 ∧ para = 0xf1) ∧
      ¬(step = 0x06 ∧ para = 0xf2) ∧ step = 0x00 then .next false
  else if code = 0x00 then
    if step = 0x03 then .touchDone para
    else if step = 0x06 ∧ para = 0xf2 then .success
    else .next true
  else if code = 0x1f then .failure none
  else if code = 0x26 then .failure (some FgDetail.timeout.toByte)
  else if code = 0x27 then .failure (some FgDetail.timeout.toByte)
  else .failure (some 0)

/-- The `while` loop of `fg_enroll`. -/
def fgEnrollLoop : Nat → TickType → FgReader → Returns Bool
  | 0, _, r => (none, r)
  | fuel + 1, startTime, r =>
    if fg.tick r.uart.calls - startTime < pdMsToTicks 5000 then
      (fgTransmit fg fuel [] r).andThen fun ok r =>
      if !ok then fgEnrollLoop fuel startTime r
      else
        match enrollReport (r.rx 9) (r.rx 10) (r.rx 11) with
        | .next false => fgEnrollLoop fuel startTime r
        | .next true => fgEnrollLoop fuel (fg.tick r.uart.calls) r
        | .touchDone touch =>
          fgEnrollLoop fuel (fg.tick r.uart.calls) (r.publishEvent .progessDoneSucc touch)
        | .success => (some true, r.publishEvent .jobDoneSucc 0)
        | .failure none => (some false, r)
        | .failure (some detail) => (some false, r.publishEvent .progessDoneFail detail)
    else (some false, r)

/-- `fg_enroll` -/
def fgEnroll (fuel : Nat) (id : UInt16) (r : FgReader) : Returns Bool :=
  if fgMax ≤ id then (some false, r)
  else
    let startTime := fg.tick r.uart.calls
    let uart := uartWriteBytes fg (uartFlushInput fg r.uart) (enrollCmd id)
    fgEnrollLoop fg fuel startTime { r with uart := uart }

/-- `fg_del_allfg` -/
def fgDelAllfg (fuel : Nat) (r : FgReader) : Returns Bool :=
  (fgTransmit fg fuel fgClearAllFg r).andThen fun ok r =>
  if ok ∧ r.rx 9 = 0x00 then (some true, r.publishEvent .jobDoneSucc 0)
  else (some false, r.publishEvent .jobDoneFail 0)

/-- The trusted `auth_event_t` for a match. -/
def matchEvent (id : UInt16) : AuthEvent where
  id := id
  trusted := true
  pasw := List.replicate 16 0
  paswAfter := []
  authResultRespondTo := .hwDoorLock
  authFor := .doorUnlock
  validPaswScreenEcho := 0
  wrongPaswScreenEcho := 0

def trustedEvent (id : UInt16) : Out :=
  .publish .hwFg .servAuth (.authEvent (matchEvent id)) .authEvent

/-- One iteration of `fg_service` from the finger on the sensor to `fg_sleep`, with
`g_fg_next_state` as it is when the job starts. -/
def fgServiceJob (fuel : Nat) (gFgNextState : FgStatus) (r : FgReader) : Returns Unit :=
  (fgWake fg fuel { r with sFgState := gFgNextState, published := [] }).andThen fun _ r =>
  match r.sFgState with
  | .idle | .search | .searchNSignin =>
    (fgIdentify fg fuel (r.publishEvent .jobStart 0)).andThen fun status r =>
    if r.sFgState = .searchNSignin ∧ status = true then
      (some (), r.publish (trustedEvent r.gVIdentifiedId))
    else (some (), r)
  | .enroll =>
    (fgEnroll fg fuel 1 (r.publishEvent .jobStart 0)).andThen fun _ r => (some (), r)
  | .delAll =>
    (fgDelAllfg fg fuel (r.publishEvent .jobStart 0)).andThen fun _ r => (some (), r)
  | _ => (some (), r)

end DoorLock
