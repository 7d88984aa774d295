import DoorLock.Lib.CString

/-!
# The messages of `app.h`

The parties, the tags and the payload structs of the messages that travel on `queue_ui`,
`queue_system` and `queue_doorlock`. A payload keeps its struct; what a receiver reads through a
pointer of another struct type is read from the bytes of the payload (`MsgContent.bytes`).
-/

namespace DoorLock

open CString

/-- `component_e` -/
inductive Component
  | noOne | pub | hwFg | servUi | hwDoorLock | hwInpt | servSys | servAuth | servInvoke | servSysop
  deriving DecidableEq, Repr

/-- `event_struct_e`, the tag that names the struct of a payload. -/
inductive EventStruct
  | empty | doorlockEvent | fgEvent | inptEvent | authEvent | authResult | uiReflexEvent
  | paswChangeReq | servSysop
  deriving DecidableEq, Repr

/-- `serv_sysop_e` -/
inductive ServSysop
  | doorUnlock | paswAlter
  deriving DecidableEq, Repr

/-- `ui_prefab_e` -/
inductive UiPrefab
  | paswValidPop | paswWrongPop | alterSuccsPop | alterFailPop
  deriving DecidableEq, Repr

/-- `lock_state` -/
inductive LockState
  | relock | unlocked | unlock
  deriving DecidableEq, Repr

/-- The value of the C enumerator, as stored in `uint8_t lock_status`. -/
def LockState.toByte : LockState → UInt8
  | .relock => 0
  | .unlocked => 1
  | .unlock => 2

/-- `fg_status_e` -/
inductive FgStatus
  | init | idle | enroll | search | searchNSignin | delAll | delCur
  deriving DecidableEq, Repr

/-- `fg_progress_e` -/
inductive FgProgress
  | jobStart | inProgess | progessDoneSucc | progessDoneFail | jobDoneSucc | jobDoneFail
  deriving DecidableEq, Repr

/-- `fg_detail`, as stored in `uint8_t fg_job_detail`. -/
inductive FgDetail
  | timeout | reEnroll | hesitate | notFound
  deriving DecidableEq, Repr

def FgDetail.toByte : FgDetail → UInt8
  | .timeout => 0
  | .reEnroll => 1
  | .hesitate => 2
  | .notFound => 3

/-- `doorlock_event_t` -/
structure DoorlockEvent where
  lockStatus : LockState
  detail : UInt16
  deriving DecidableEq

/-- `fg_event_t` -/
structure FgEvent where
  fgStatus : FgStatus
  fgJobProgress : FgProgress
  fgJobDetail : UInt8
  deriving DecidableEq

/-- `inpt_event_t` -/
structure InptEvent where
  content : UInt16
  deriving DecidableEq

/-- `ui_reflex_event_t` -/
structure UiReflexEvent where
  uiPrefab : UiPrefab
  data : UInt16
  deriving DecidableEq

/-- `auth_event_t`. `paswAfter` is the memory that follows `pasw[16]`: `strcmp` reads on into it
when the array holds no terminator. -/
structure AuthEvent where
  id : UInt16
  trusted : Bool
  pasw : List UInt8
  paswAfter : List UInt8
  authResultRespondTo : Component
  authFor : ServSysop
  validPaswScreenEcho : UInt8
  wrongPaswScreenEcho : UInt8
  deriving DecidableEq

/-- `auth_result_t` -/
structure AuthResult where
  paswValid : UInt8
  id : UInt16
  pasw : List UInt8
  authFor : ServSysop
  deriving DecidableEq

/-- `serv_sysop_pasw_alter_t`, with the heap bytes behind it. -/
structure PaswAlterPara where
  newPasw : List UInt8
  newPaswAfter : List UInt8
  deriving DecidableEq

/-- `serv_sysop_t`. The block that `op_para` points to is handed over with the message. -/
structure ServSysopMsg where
  paswGrant : List UInt8
  operation : ServSysop
  opPara : PaswAlterPara
  deriving DecidableEq

/-- What `msg_content` points to; `null` is the `NULL` of the wake-up message of `invoke`. -/
inductive MsgContent
  | null
  | doorlockEvent (e : DoorlockEvent)
  | fgEvent (e : FgEvent)
  | inptEvent (e : InptEvent)
  | uiReflexEvent (e : UiReflexEvent)
  | authEvent (e : AuthEvent)
  | authResult (e : AuthResult)
  | servSysop (e : ServSysopMsg)
  deriving DecidableEq

/-- `event_msg_t`. `addr` is the address of the content, counted in allocations: the content of
no two messages has the same address, and `NULL` is `0`. -/
structure EventMsg where
  sender : Component
  recver : Component
  eventStruct : EventStruct
  addr : Nat
  content : MsgContent
  deriving DecidableEq

/-! ## Layout of the structs that travel on `queue_doorlock` -/

/-- A `uint16_t` in memory, little endian. -/
def le16 (v : UInt16) : List UInt8 := [v.toUInt8, (v >>> 8).toUInt8]

/-- A C enum in memory: four bytes, little endian. -/
def ServSysop.le32 : ServSysop → List UInt8
  | .doorUnlock => [0, 0, 0, 0]
  | .paswAlter => [1, 0, 0, 0]

/-- `uint8_t lock_status; uint16_t detail;` with a padding byte to align `detail`. -/
def DoorlockEvent.bytes (pad : UInt8) (e : DoorlockEvent) : List UInt8 :=
  e.lockStatus.toByte :: pad :: le16 e.detail

/-- `uint8_t pasw_valid; uint16_t id; char pasw[16]; serv_sysop_e auth_for;` with a padding byte
to align `id`; the array ends on a multiple of four. -/
def AuthResult.bytes (pad : UInt8) (r : AuthResult) : List UInt8 :=
  r.paswValid :: pad :: le16 r.id ++ r.pasw ++ r.authFor.le32

/-- The memory image of a payload that `system_service` may send to `HW_DOOR_LOCK`. -/
def MsgContent.bytes (pad : UInt8) : MsgContent → Option (List UInt8)
  | .doorlockEvent e => some (e.bytes pad)
  | .authResult r => some (r.bytes pad)
  | _ => none

/-- `((auth_result_t*)msg_content)->pasw_valid`: the first byte, whatever the struct is. -/
def MsgContent.asPaswValid (pad : UInt8) (c : MsgContent) : Option UInt8 :=
  (c.bytes pad).bind List.head?

@[simp] theorem asPaswValid_doorlockEvent (pad : UInt8) (e : DoorlockEvent) :
    (MsgContent.doorlockEvent e).asPaswValid pad = some e.lockStatus.toByte := rfl

@[simp] theorem asPaswValid_authResult (pad : UInt8) (r : AuthResult) :
    (MsgContent.authResult r).asPaswValid pad = some r.paswValid := rfl

end DoorLock
