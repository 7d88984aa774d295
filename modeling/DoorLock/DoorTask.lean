import DoorLock.Effect

/-!
# The lock controller (`main.c`: `door_lock_task`)
-/

namespace DoorLock

/-- The locals of `door_lock_task` and the two LEDs it drives. -/
structure DoorTask where
  countdownCnt : Int
  heartBeatFreq : TickType
  ledGreen : Bool
  ledRed : Bool
  deriving DecidableEq

namespace DoorTask

/-- The state in which the loop is entered: red LED on, green off. -/
def init : DoorTask where
  countdownCnt := 0
  heartBeatFreq := portMaxDelay
  ledGreen := false
  ledRed := true

/-- Green on, red off. -/
def Unlocked (d : DoorTask) : Prop := d.ledGreen = true ∧ d.ledRed = false

instance (d : DoorTask) : Decidable d.Unlocked := inferInstanceAs (Decidable (_ ∧ _))

end DoorTask

/-- The lock open, with ten heart beats to go. -/
def unlockedFor10s : DoorTask where
  countdownCnt := 10
  heartBeatFreq := pdMsToTicks 1000
  ledGreen := true
  ledRed := false

def doorEventOut (lockStatus : LockState) (detail : UInt16) : Out :=
  .publish .hwDoorLock .servUi (.doorlockEvent ⟨lockStatus, detail⟩) .doorlockEvent

/-- `door_lock_task`, on a message. Only a message that unlocks is released. -/
def doorLockRecv (pad : UInt8) (d : DoorTask) (content : MsgContent) :
    Except Fault (DoorTask × List Out) :=
  match content.asPaswValid pad with
  | none => .error .badCast
  | some paswValid =>
    if paswValid = 1 then .ok (unlockedFor10s, [doorEventOut .unlock 0, .free])
    else .ok (d, [])

/-- `door_lock_task`, when the receive times out. -/
def doorLockTimeout (d : DoorTask) : DoorTask × List Out :=
  let cnt := d.countdownCnt - 1
  let tick := if cnt ≠ 0 then [doorEventOut .unlocked (UInt16.ofInt cnt)] else []
  if cnt = 0 then
    ({ countdownCnt := cnt, heartBeatFreq := portMaxDelay, ledGreen := false, ledRed := true },
      tick ++ [doorEventOut .relock 0])
  else ({ d with countdownCnt := cnt }, tick)

theorem doorLockRecv_error {pad : UInt8} {d : DoorTask} {content : MsgContent} {f : Fault}
    (h : doorLockRecv pad d content = .error f) : f = .badCast := by
  unfold doorLockRecv at h
  split at h
  · cases h
    rfl
  · split at h <;> cases h

end DoorLock
