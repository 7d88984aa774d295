import DoorLock.Ui
import DoorLock.Invoke
import DoorLock.System
import DoorLock.DoorTask
import DoorLock.FgReader
import DoorLock.Lib.Run

/-!
# The running system

The four tasks, their queues and the inputs from outside as one transition system. A task takes a
message and handles it in one step; a receive may time out whenever its queue is empty, unless it
waits with `portMAX_DELAY`. A fingerprint job fixes what it will publish when it starts, and
publishes it one event at a time.
-/

namespace DoorLock

open Transition CString

/-- The keys of the keypad and the four buttons. -/
inductive Key
  | k0 | k1 | k2 | k3 | k4 | k5 | k6 | k7 | k8 | k9 | star | dash | enter | return | up | down
  deriving DecidableEq, Repr

/-- The code that `keypad_input_handler` or `btn_gpio_isr_handler` publishes for a key. -/
def Key.code : Key → UInt16
  | .k0 => 0x30 | .k1 => 0x31 | .k2 => 0x32 | .k3 => 0x33 | .k4 => 0x34
  | .k5 => 0x35 | .k6 => 0x36 | .k7 => 0x37 | .k8 => 0x38 | .k9 => 0x39
  | .star => 0x2a | .dash => keyHash
  | .enter => inptBtnEnter | .return => inptBtnReturn | .up => inptBtnUp | .down => inptBtnDown

/-- `fg_service`: the reader, the mode of the next job, what the current job has still to
publish, and whether the job never ends. -/
structure FgTask where
  reader : FgReader
  gFgNextState : FgStatus
  pending : List Out
  hung : Bool

/-- The state of the device. `live` is the ledger of the content blocks that were allocated and
not released. -/
structure World where
  queueUi : List EventMsg
  queueSystem : List EventMsg
  queueDoorlock : List EventMsg
  nextAddr : Nat
  live : List Nat
  kvdb : Kvdb
  ui : Ui
  invoker : Invoker Call
  door : DoorTask
  fg : FgTask

/-! ## Queues -/

/-- `MSG_BUFF_SIZE`, the length of `queue_ui` -/
def msgBuffSize : Nat := 24

/-- `MAX(MSG_BUFF_SIZE/4,1)`, the length of the other two queues -/
def msgBuffSizeSmall : Nat := max (msgBuffSize / 4) 1

/-- `xQueueSend` with a time-out of 100 ms, with its result. A full queue takes the message only
if the receiver takes one out in time. -/
def xQueueSend (size : Nat) (room : Bool) (queue : List EventMsg) (m : EventMsg) :
    List EventMsg × Bool :=
  if queue.length < size ∨ room then (queue ++ [m], true) else (queue, false)

/-- `event_publish`, with its result: the results of the three sends are not looked at. -/
def eventPublish (env : Env) (w : World) (sender recver : Component) (content : MsgContent)
    (eventStruct : EventStruct) : World × Bool :=
  let m : EventMsg := ⟨sender, recver, eventStruct, w.nextAddr, content⟩
  let room := env.room w.nextAddr
  let w := { w with nextAddr := w.nextAddr + 1, live := w.nextAddr :: w.live }
  match recver with
  | .servUi => ({ w with queueUi := (xQueueSend msgBuffSize room w.queueUi m).1 }, true)
  | .servAuth | .servInvoke | .servSysop =>
    ({ w with queueSystem := (xQueueSend msgBuffSizeSmall room w.queueSystem m).1 }, true)
  | .hwDoorLock =>
    ({ w with queueDoorlock := (xQueueSend msgBuffSizeSmall room w.queueDoorlock m).1 }, true)
  | _ => (w, false)

/-- The message with which `invoke` wakes `system_service` up. -/
def wakeMsg : EventMsg := ⟨.servInvoke, .servSys, .empty, 0, .null⟩

/-- A call made while the message with content address `addr` is handled. -/
def perform (env : Env) (addr : Nat) (w : World) : Out → World
  | .publish sender recver content eventStruct =>
    (eventPublish env w sender recver content eventStruct).1
  | .invoke callDalayMs funcCall =>
    let r := invoke w.invoker (env.tick addr) (env.wakeTick addr) callDalayMs funcCall []
    let queue := if r.wake then
        (xQueueSend msgBuffSizeSmall (env.room w.nextAddr) w.queueSystem wakeMsg).1
      else w.queueSystem
    { w with invoker := r.state, queueSystem := queue }
  | .setFgNextState v => { w with fg := { w.fg with gFgNextState := v } }
  | .free => { w with live := w.live.erase addr }

def performAll (env : Env) (addr : Nat) (w : World) (outs : List Out) : World :=
  outs.foldl (perform env addr) w

/-! ## Steps -/

/-- What can happen next: an input, a task taking its next message, or a receive timing out. -/
inductive Action
  | key (k : Key)
  | touch (fg : FgModule) (fuel : Nat)
  | fgPublish
  | ui
  | system
  | systemTimeout (curTime : TickType)
  | door
  | doorTimeout

/-- Why an action does not lead to a next state. -/
inductive Halt
  | disabled
  | fault (f : Fault)
  deriving DecidableEq

/-- The calls a pass of the time-out branch makes, on the UI they work on. -/
def runCalls : Ui → List (Option Call × List Nat) → Except Fault Ui
  | u, [] => .ok u
  | u, (funcCall, _) :: calls =>
    match funcCall with
    | none => .error .nullItem
    | some (.activityBack _) =>
      match u.back with
      | .ok u => runCalls u calls
      | .error f => .error f

/-- A task's handling of a message, as a step. -/
def handled {α : Type} (r : Except Fault α) (next : α → World) : Except Halt World :=
  match r with
  | .ok a => .ok (next a)
  | .error f => .error (.fault f)

def stepUi (env : Env) (w : World) : Except Halt World :=
  match w.queueUi with
  | [] => .error .disabled
  | m :: rest =>
    handled (uiEventHandler env w.ui m) fun x =>
      performAll env m.addr { w with queueUi := rest, ui := x.1 } x.2

def stepSystem (env : Env) (w : World) : Except Halt World :=
  match w.queueSystem with
  | [] => .error .disabled
  | m :: rest =>
    handled (systemService env w.kvdb m) fun x =>
      performAll env m.addr { w with queueSystem := rest, kvdb := x.1 } x.2

def stepSystemTimeout (w : World) (curTime : TickType) : Except Halt World :=
  if w.queueSystem ≠ [] then .error .disabled
  else if w.invoker.mutexTaken then .ok { w with invoker := w.invoker.retry curTime }
  else handled (runCalls w.ui (w.invoker.dueCalls curTime)) fun u =>
    { w with ui := u, invoker := w.invoker.pass curTime }

def stepDoor (env : Env) (w : World) : Except Halt World :=
  match w.queueDoorlock with
  | [] => .error .disabled
  | m :: rest =>
    handled (doorLockRecv (env.pad m.addr) w.door m.content) fun x =>
      performAll env m.addr { w with queueDoorlock := rest, door := x.1 } x.2

def stepDoorTimeout (env : Env) (w : World) : Except Halt World :=
  if w.queueDoorlock ≠ [] ∨ w.door.heartBeatFreq = portMaxDelay then .error .disabled
  else
    let x := doorLockTimeout w.door
    .ok (performAll env 0 { w with door := x.1 } x.2)

def stepTouch (w : World) (fg : FgModule) (fuel : Nat) : Except Halt World :=
  if w.fg.pending ≠ [] ∨ w.fg.hung then .error .disabled
  else
    let (ended, reader) := fgServiceJob fg fuel w.fg.gFgNextState w.fg.reader
    .ok { w with fg :=
      { w.fg with reader := reader, pending := reader.published, hung := ended.isNone } }

def stepFgPublish (env : Env) (w : World) : Except Halt World :=
  match w.fg.pending with
  | [] => .error .disabled
  | o :: rest => .ok (perform env 0 { w with fg := { w.fg with pending := rest } } o)

def step (env : Env) (w : World) : Action → Except Halt World
  | .key k => .ok (eventPublish env w .hwInpt .servUi (.inptEvent ⟨k.code⟩) .inptEvent).1
  | .touch fg fuel => stepTouch w fg fuel
  | .fgPublish => stepFgPublish env w
  | .ui => stepUi env w
  | .system => stepSystem env w
  | .systemTimeout curTime => stepSystemTimeout w curTime
  | .door => stepDoor env w
  | .doorTimeout => stepDoorTimeout env w

/-! ## Start -/

def FgTask.init : FgTask where
  reader := .init
  gFgNextState := .searchNSignin
  pending := []
  hung := false

/-- The state `app_main` leaves, from what the flash holds. -/
def boot (kv : Kvdb) : World where
  queueUi := []
  queueSystem := []
  queueDoorlock := []
  nextAddr := 1
  live := []
  kvdb := bootKvdb kv
  ui := appInit
  invoker := .init
  door := .init
  fg := .init

/-- Surroundings in which nothing goes wrong: queues have no room beyond their length, the flash
can be written, and what is not initialised is zero. -/
def quietEnv : Env where
  room _ := false
  kvOk _ := true
  paswAfter _ := []
  newPaswAfter _ := []
  resultId _ := 0
  pad _ := 0
  tick _ := 0
  wakeTick _ := 0

/-- A flash that holds the default password. -/
def defaultKvdb : Kvdb := ⟨some (lit "0000")⟩

/-- Press the keys, the UI task handling each at once. -/
def press (ks : List Key) : List Action := ks.flatMap fun k => [.key k, .ui]

/-- The runs of the device from power-on. -/
abbrev RunFrom (env : Env) (kv : Kvdb) : List (Label World Action) → World → Prop :=
  Run (step env) (boot kv)

end DoorLock
