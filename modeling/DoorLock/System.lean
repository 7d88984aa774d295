import DoorLock.Effect
import DoorLock.Lib.Run

/-!
# The system service (`app.c`: `system_service`) and the key-value store behind it

`fdb_kv_get` and `fdb_kv_set` for the one key the tasks use, `doorlock_pasw`. The time-out branch
of `system_service` is in `DoorLock.Invoke`.
-/

namespace DoorLock

open CString Transition

/-- The value stored under `doorlock_pasw`, if the key is present. -/
structure Kvdb where
  doorlockPasw : Option (List UInt8)
  deriving DecidableEq

/-- `FDB_STR_KV_VALUE_MAX_SIZE` -/
def fdbStrKvValueMaxSize : Nat := 128

/-- `__is_print`: `(unsigned int)(ch - ' ') < 127u - ' '` -/
def isPrint (ch : UInt8) : Bool := 0x20 ≤ ch && ch < 127

/-- `fdb_is_str` -/
def fdbIsStr (value : List UInt8) : Bool := value.all isPrint

/-- `fdb_kv_get(&kvdb, "doorlock_pasw")`; `none` is `NULL`. -/
def fdbKvGet (kv : Kvdb) : Option (List UInt8) :=
  match kv.doorlockPasw with
  | none => none
  | some saved =>
    let value := saved.take fdbStrKvValueMaxSize
    if 0 < value.length ∧ fdbIsStr value then some value else none

/-- `fdb_kv_set(&kvdb, "doorlock_pasw", value)` where it succeeds: `strlen(value)` bytes. -/
def fdbKvSet (_ : Kvdb) (value : List UInt8) : Kvdb := ⟨some (cstr value)⟩

/-- The string at `pasw` of an `auth_event_t`, read on behind the array. -/
def AuthEvent.paswStr (e : AuthEvent) : List UInt8 := e.pasw ++ e.paswAfter

/-- The string at `pasw_grant` of a `serv_sysop_t`; `operation` lies behind the array. -/
def ServSysopMsg.grantStr (e : ServSysopMsg) : List UInt8 := e.paswGrant ++ e.operation.le32

/-- The string at `new_pasw`, read on behind the array. -/
def PaswAlterPara.newPaswStr (p : PaswAlterPara) : List UInt8 := p.newPasw ++ p.newPaswAfter

/-- The popup `system_service` asks the UI for. -/
def reflexOut (prefab : UiPrefab) : Out :=
  .publish .servAuth .servUi (.uiReflexEvent ⟨prefab, 0⟩) .uiReflexEvent

/-- The two messages sent for a trusted `auth_event_t`. -/
def trustedAuth (e : AuthEvent) : List Out :=
  let authResult : AuthResult :=
    { paswValid := 1, id := e.id, pasw := strncpy [] 16, authFor := .doorUnlock }
  [.publish .servAuth .servUi (.authResult authResult) .authResult,
    .publish .servAuth .hwDoorLock (.doorlockEvent ⟨.unlock, 10⟩) .doorlockEvent]

/-- The `auth_result_t` for an untrusted `auth_event_t`, with the stored password `corrPasw`. The
bytes of `pasw` behind the terminator are indeterminate, and never read. -/
def authResultOf (env : Env) (addr : Nat) (corrPasw : List UInt8) (e : AuthEvent) :
    AuthResult where
  paswValid := if strcmpEq corrPasw e.paswStr then 1 else 0
  id := env.resultId addr
  pasw := store (List.replicate 16 0) (snprintf e.paswStr 16)
  authFor := e.authFor

/-- The messages sent for an untrusted `auth_event_t`. -/
def untrustedAuth (env : Env) (addr : Nat) (corrPasw : List UInt8) (e : AuthEvent) : List Out :=
  let echo :=
    if strcmpEq corrPasw e.paswStr then
      if e.validPaswScreenEcho = 1 then [reflexOut .paswValidPop] else []
    else if e.wrongPaswScreenEcho = 1 then [reflexOut .paswWrongPop] else []
  let answer :=
    if e.authResultRespondTo ≠ .noOne then
      [.publish .servAuth e.authResultRespondTo
        (.authResult (authResultOf env addr corrPasw e)) .authResult]
    else []
  echo ++ answer

/-- `recver == SERV_AUTH`: `strcmp` dereferences what `fdb_kv_get` returned. -/
def systemAuth (env : Env) (addr : Nat) (kv : Kvdb) (e : AuthEvent) : Except Fault (List Out) :=
  if e.trusted then .ok (trustedAuth e)
  else match fdbKvGet kv with
    | none => .error .nullPasw
    | some corrPasw => .ok (untrustedAuth env addr corrPasw e)

/-- `recver == SERV_SYSOP` -/
def systemSysop (env : Env) (addr : Nat) (kv : Kvdb) (e : ServSysopMsg) :
    Except Fault (Kvdb × List Out) :=
  match e.operation with
  | .paswAlter =>
    match fdbKvGet kv with
    | none => .error .nullPasw
    | some paswOld =>
      if strcmpEq paswOld e.grantStr then
        if env.kvOk addr then .ok (fdbKvSet kv e.opPara.newPaswStr, [reflexOut .alterSuccsPop])
        else .ok (kv, [reflexOut .alterFailPop])
      else .ok (kv, [reflexOut .paswWrongPop])
  | .doorUnlock => .ok (kv, [])

/-- `system_service`, on a message. -/
def systemService (env : Env) (kv : Kvdb) (m : EventMsg) : Except Fault (Kvdb × List Out) :=
  if m.recver = .servAuth ∧ m.eventStruct = .authEvent then
    match m.content with
    | .authEvent e => (systemAuth env m.addr kv e).map fun outs => (kv, outs ++ [.free])
    | _ => .error .badCast
  else if m.recver = .servSysop ∧ m.eventStruct = .servSysop then
    match m.content with
    | .servSysop e => (systemSysop env m.addr kv e).map fun x => (x.1, x.2 ++ [.free])
    | _ => .error .badCast
  else .ok (kv, [.free])

/-- The password check of `app_main`: the default is written when there is none to read. -/
def bootKvdb (kv : Kvdb) : Kvdb :=
  match fdbKvGet kv with
  | none => fdbKvSet kv (lit "0000")
  | some _ => kv

section
variable {env : Env} {kv : Kvdb} {m : EventMsg} {x : Kvdb × List Out} {addr : Nat} {f : Fault}

/-- What `system_service` does with a message. -/
inductive Serves (env : Env) (kv : Kvdb) (m : EventMsg) : Kvdb × List Out → Prop
  | auth {e : AuthEvent} {outs : List Out} (hr : m.recver = .servAuth)
      (hc : m.content = .authEvent e) (h : systemAuth env m.addr kv e = .ok outs) :
      Serves env kv m (kv, outs ++ [.free])
  | sysop {e : ServSysopMsg} {y : Kvdb × List Out} (hr : m.recver = .servSysop)
      (ht : m.eventStruct = .servSysop) (hc : m.content = .servSysop e)
      (h : systemSysop env m.addr kv e = .ok y) : Serves env kv m (y.1, y.2 ++ [.free])
  | other : Serves env kv m (kv, [.free])

theorem systemService_ok (h : systemService env kv m = .ok x) : Serves env kv m x := by
  unfold systemService at h
  split at h
  case isTrue hauth =>
    split at h
    · rename_i e hc
      obtain ⟨outs, ho, rfl⟩ := map_eq_ok.mp h
      exact .auth hauth.1 hc ho
    · cases h
  case isFalse =>
    split at h
    case isTrue hsys =>
      split at h
      · rename_i e hc
        obtain ⟨y, hy, rfl⟩ := map_eq_ok.mp h
        exact .sysop hsys.1 hsys.2 hc hy
      · cases h
    case isFalse =>
      cases h
      exact .other

/-! ## What may go wrong -/

theorem systemAuth_error {e : AuthEvent} (h : systemAuth env addr kv e = .error f) :
    f = .nullPasw ∧ fdbKvGet kv = none := by
  unfold systemAuth at h
  split at h
  · cases h
  · split at h
    · rename_i hp
      cases h
      exact ⟨rfl, hp⟩
    · cases h

theorem systemSysop_error {e : ServSysopMsg} (h : systemSysop env addr kv e = .error f) :
    f = .nullPasw ∧ fdbKvGet kv = none := by
  unfold systemSysop at h
  split at h
  · split at h
    · rename_i hp
      cases h
      exact ⟨rfl, hp⟩
    · split at h
      · split at h <;> cases h
      · cases h
  · cases h

/-- There is no password to read, or the payload is not what the tag says. -/
theorem systemService_error (h : systemService env kv m = .error f) :
    f = .nullPasw ∧ fdbKvGet kv = none ∨ f = .badCast := by
  unfold systemService at h
  split at h
  · split at h
    · exact .inl (systemAuth_error (map_eq_error.mp h))
    · cases h
      exact .inr rfl
  · split at h
    · split at h
      · exact .inl (systemSysop_error (map_eq_error.mp h))
      · cases h
        exact .inr rfl
    · cases h

end

end DoorLock
