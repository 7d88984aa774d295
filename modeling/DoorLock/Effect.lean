import DoorLock.View

/-!
# What a task leaves to the rest of the system

A task handles one message at a time. Its body is a function of its own state that lists, in
order, the calls it makes on the queues, the timer list and the other tasks' variables; what
these calls find there is settled by the environment.
-/

namespace DoorLock

/-- `TickType_t` -/
abbrev TickType := UInt32

/-- `portMAX_DELAY` -/
def portMaxDelay : TickType := 0xffffffff

/-- `pdMS_TO_TICKS` with `configTICK_RATE_HZ` 100. -/
def pdMsToTicks (ms : TickType) : TickType := UInt32.ofNat (ms.toNat * 100 / 1000)

/-- The functions handed to `invoke`. The call is tagged with the content address of the message
whose handling asked for it; the C call carries the function alone. -/
inductive Call
  | activityBack (reqBy : Nat)
  deriving DecidableEq

/-- A call a task makes while it handles a message. -/
inductive Out
  /-- `event_publish` -/
  | publish (sender recver : Component) (content : MsgContent) (eventStruct : EventStruct)
  /-- `invoke` with no arguments for the function -/
  | invoke (callDalayMs : TickType) (funcCall : Call)
  /-- An assignment to `g_fg_next_state` -/
  | setFgNextState (v : FgStatus)
  /-- `free(msg_recv.msg_content)` -/
  | free
  deriving DecidableEq

/-- What the tasks cannot determine themselves, by the content address of the message that is
sent or handled at the time. -/
structure Env where
  /-- A full queue makes room within the 100 ms a sender waits. -/
  room : Nat → Bool
  /-- `fdb_kv_set` returns `FDB_NO_ERR`. -/
  kvOk : Nat → Bool
  /-- The stack bytes behind `auth_event.pasw`. -/
  paswAfter : Nat → List UInt8
  /-- The heap bytes behind `serv_sysop_pasw_alter->new_pasw`. -/
  newPaswAfter : Nat → List UInt8
  /-- The uninitialised `auth_result.id`. -/
  resultId : Nat → UInt16
  /-- The padding bytes of a payload. -/
  pad : Nat → UInt8
  /-- `xTaskGetTickCount()` -/
  tick : Nat → TickType
  /-- `xTaskGetTickCount()` where `invoke` reads it again for the wake-up tick -/
  wakeTick : Nat → TickType

end DoorLock
