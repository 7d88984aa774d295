import DoorLock.Activity
import DoorLock.Effect
import Mathlib.Logic.Function.Basic

/-!
# The UI task (`app.c`: `app_init`, `ui_event_handler`, `pasw_auth_activity_launch`)

One definition for each branch of `ui_event_handler`, put together in `uiEventHandler`. The first
component of a result is the state of the UI, the second the calls made, in order.
-/

namespace DoorLock

open CString

/-- `avtivity_cache` of `activity_psw_auth`: two enums written by `memcpy`, zero at first. -/
structure PswAuthCache where
  authFor : ServSysop
  respondTo : Component
  deriving DecidableEq

/-- The activities, their views and the stack. `launchedFor` is the argument of the last call of
`pasw_auth_activity_launch`; the program does not store it. -/
structure Ui extends Display where
  titleContent : Page → ViewTitleContent
  inputPage : Page → ViewInputPage
  viewList : Page → ViewList
  pswAuthCache : PswAuthCache
  pswAlterCache : List UInt8
  launchedFor : Option ServSysop

namespace Ui

def setTitleContent (u : Ui) (p : Page) (f : ViewTitleContent → ViewTitleContent) : Ui :=
  { u with titleContent := Function.update u.titleContent p (f (u.titleContent p)) }

/-- `strncpy(tc_title, text, n)` -/
def setTitle (u : Ui) (p : Page) (text : List UInt8) (n : Nat) : Ui :=
  u.setTitleContent p fun v => { v with tcTitle := store v.tcTitle (strncpy text n) }

/-- `strncpy(tc_content, text, 64)` -/
def setContent (u : Ui) (p : Page) (text : List UInt8) : Ui :=
  u.setTitleContent p fun v => { v with tcContent := store v.tcContent (strncpy text 64) }

def setInputPage (u : Ui) (p : Page) (f : ViewInputPage → ViewInputPage) : Ui :=
  { u with inputPage := Function.update u.inputPage p (f (u.inputPage p)) }

def setViewList (u : Ui) (p : Page) (l : ViewList) : Ui :=
  { u with viewList := Function.update u.viewList p l }

/-- `ipg_inpt_content[0]='\0'` -/
def clearInpt (u : Ui) (p : Page) : Ui :=
  u.setInputPage p fun v => { v with ipgInptContent := store v.ipgInptContent [0] }

def run (u : Ui) (p : Page) : Ui := { u with toDisplay := activityRun u.toDisplay p }

def refresh (u : Ui) : Except Fault Ui :=
  (activityScreenRefresh u.toDisplay).map fun d => { u with toDisplay := d }

def back (u : Ui) : Except Fault Ui :=
  (activityBack u.toDisplay).map fun d => { u with toDisplay := d }

/-- `activity_stack_peek()` -/
def peek (u : Ui) : Option Page := activityStackPeek u.stack

end Ui

/-! ## Reflex popups -/

/-- The title and the content of a popup. -/
def UiPrefab.text : UiPrefab → List UInt8 × List UInt8
  | .paswValidPop => (lit "Continue...", lit "Password valid.")
  | .paswWrongPop => (lit "Ops!", lit "You got an wrong password.")
  | .alterSuccsPop => (lit "Done!", lit "Alter sussecss.")
  | .alterFailPop => (lit "Ops!", lit "Alter failed.")

def uiReflex (addr : Nat) (u : Ui) (e : UiReflexEvent) : Ui × List Out :=
  let text := e.uiPrefab.text
  (((u.setTitle .popup text.1 32).setContent .popup text.2).run .popup,
    [.invoke 1000 (.activityBack addr)])

/-! ## Door events -/

/-- `unlock_id`: set to 0 before the loop and never assigned. -/
def unlockId : UInt16 := 0

def uiDoorLock (u : Ui) (e : DoorlockEvent) : Except Fault Ui :=
  match e.lockStatus with
  | .unlock =>
    let welcome := if unlockId = 0 then lit "Welcome public."
      else lit "Welcome id:" ++ lit (toString unlockId.toNat)
    .ok (((u.setTitle .doorUnlock (lit "门已开锁!") 32).setContent .doorUnlock welcome).run
      .doorUnlock)
  | .unlocked =>
    (u.setContent .doorUnlock (lit (toString e.detail.toNat) ++ lit "s left")).refresh
  | .relock => u.back

/-! ## Fingerprint events -/

def uiFg (addr : Nat) (u : Ui) (e : FgEvent) : Except Fault (Ui × List Out) :=
  match e.fgStatus, e.fgJobProgress with
  | .enroll, .jobStart =>
    .ok (((u.setTitle .fgReader (lit "Enrolling'") 32).setTitle .fgReader (lit "Pls wait'") 32).run
      .fgReader, [])
  | .enroll, .progessDoneSucc => do
    let text := lit "[" ++ lit (toString e.fgJobDetail.toNat) ++ lit "/8] done, pls retap."
    let u ← (u.setContent .fgReader text).refresh
    .ok (u, [])
  | .enroll, .jobDoneSucc => do
    let u ← (u.setContent .fgReader (lit "Done. Thank you.")).refresh
    .ok (u, [.invoke 1000 (.activityBack addr)])
  | .enroll, .progessDoneFail => do
    let text :=
      if e.fgJobDetail = FgDetail.timeout.toByte then lit "Fail: Time out."
      else if e.fgJobDetail = FgDetail.reEnroll.toByte then lit "Fail: FG re-enroll."
      else lit "Fail, Pls check log."
    let u ← (u.setContent .fgReader text).refresh
    .ok (u, [.invoke 2000 (.activityBack addr)])
  | .searchNSignin, .jobStart =>
    .ok (((u.setTitle .fgReader (lit "Identifyn'") 32).setContent .fgReader
      (lit "Scanning...")).run .fgReader, [])
  | .searchNSignin, .jobDoneSucc => do
    let u ← u.back
    .ok (u, [])
  | .searchNSignin, .jobDoneFail => do
    let text :=
      if e.fgJobDetail = FgDetail.hesitate.toByte then lit "Not confident with result."
      else if e.fgJobDetail = FgDetail.notFound.toByte then lit "Not reconized."
      else lit "Some error occurs."
    let u ← (u.setContent .fgReader text).refresh
    .ok (u, [.invoke 1000 (.activityBack addr)])
  | .delAll, .jobStart =>
    .ok (((u.setTitle .fgReader (lit "Deleting") 32).setContent .fgReader
      (lit "All fingerprint enrolled would delete.")).run .fgReader, [])
  | .delAll, .jobDoneSucc => do
    let u ← (u.setTitle .fgReader (lit "Delete Success") 64).refresh
    .ok (u, [.invoke 1000 (.activityBack addr)])
  | .delAll, .jobDoneFail => do
    let u ← (u.setTitle .fgReader (lit "Delete Failed") 64).refresh
    .ok (u, [.invoke 1000 (.activityBack addr)])
  | _, _ => .ok (u, [])

/-! ## Keys -/

def inptBtnEnter : UInt16 := 0x80
def inptBtnReturn : UInt16 := 0x81
def inptBtnUp : UInt16 := 0x82
def inptBtnDown : UInt16 := 0x83

/-- `'#'` -/
def keyHash : UInt16 := 0x23

def paswAuthActivityLaunch (u : Ui) (authFor : ServSysop) : Ui :=
  let respondTo : Component := match authFor with
    | .doorUnlock => .hwDoorLock
    | .paswAlter => .servUi
  let title := match authFor with
    | .doorUnlock => lit "Password:"
    | .paswAlter => lit "Old password:"
  let u := u.setInputPage .pswAuth fun v =>
    { v with
      ipgTitle := store v.ipgTitle (snprintf title 64)
      ipgTips := store v.ipgTips (snprintf (lit "[#] to Confirm:") 64) }
  { u with pswAuthCache := ⟨authFor, respondTo⟩, launchedFor := some authFor }.run .pswAuth

/-- A control key while `p`, a list, is on top. -/
def uiListKey (u : Ui) (p : Page) (content : UInt16) : Except Fault (Ui × List Out) :=
  if content = inptBtnUp then do
    let l ← viewListSelectShift (u.viewList p) (-1)
    let u ← (u.setViewList p l).refresh
    .ok (u, [])
  else if content = inptBtnDown then do
    let l ← viewListSelectShift (u.viewList p) 1
    let u ← (u.setViewList p l).refresh
    .ok (u, [])
  else if content = inptBtnEnter then
    match (u.viewList p).deref (u.viewList p).vlContentSelect with
    | none => .error .nullItem
    | some actionHead =>
      match actionHead.vlcAction with
      | .launch q => .ok (u.run q, [])
      | .iSet v => .ok (u, [.setFgNextState v])
      -- assigns a field of the action itself
      | .ptrSet => .ok (u, [])
      | .auth authFor => .ok (paswAuthActivityLaunch u authFor, [])
  else .ok (u, [])

/-- A control code, after the `ENTER` on the home page has been dealt with. -/
def uiControl (u : Ui) (content : UInt16) : Except Fault (Ui × List Out) :=
  match u.peek with
  | none => .error .nullPage
  | some p =>
    let r := if p.viewType = .list then uiListKey u p content else .ok (u, [])
    if content = inptBtnReturn then r.bind fun x => x.1.back.map fun u => (u, x.2) else r

/-- Put a character at the end of the text of an input page, if its first NUL comes before the
last byte of the buffer. -/
def inptAppend (buf : List UInt8) (c : UInt8) : List UInt8 :=
  let i := buf.findIdx (· == 0)
  if i < widgetContentMaxsize - 1 then (buf.set i c).set (i + 1) 0 else buf

/-- The `auth_event_t` filled in when `activity_psw_auth` is confirmed. -/
def authEventOf (env : Env) (addr : Nat) (u : Ui) : AuthEvent where
  id := 0
  trusted := false
  pasw := strncpy (u.inputPage .pswAuth).ipgInptContent 16
  paswAfter := env.paswAfter addr
  authResultRespondTo := u.pswAuthCache.respondTo
  authFor := u.pswAuthCache.authFor
  validPaswScreenEcho := 0
  wrongPaswScreenEcho := 1

/-- `'#'` with `activity_psw_auth` on top. -/
def confirmAuth (env : Env) (addr : Nat) (u : Ui) : Except Fault (Ui × List Out) := do
  let authEvent := authEventOf env addr u
  let u ← u.back
  .ok (u.clearInpt .pswAuth, [.publish .servUi .servAuth (.authEvent authEvent) .authEvent])

/-- The `serv_sysop_t` filled in when `activity_psw_alter` is confirmed. -/
def servSysopOf (env : Env) (addr : Nat) (u : Ui) : ServSysopMsg where
  operation := .paswAlter
  paswGrant := strncpy u.pswAlterCache 16
  opPara :=
    { newPasw := strncpy (u.inputPage .pswAlter).ipgInptContent 16
      newPaswAfter := env.newPaswAfter addr }

/-- `'#'` with `activity_psw_alter` on top. -/
def confirmAlter (env : Env) (addr : Nat) (u : Ui) : Except Fault (Ui × List Out) := do
  let servSysop := servSysopOf env addr u
  -- the page that is cleared is `activity_psw_auth`
  let u ← (u.clearInpt .pswAuth).back
  .ok (u, [.publish .servUi .servSysop (.servSysop servSysop) .servSysop])

/-- A printable character typed on the input page `p`. -/
def typed (u : Ui) (p : Page) (content : UInt16) : Ui :=
  u.setInputPage p fun v =>
    { v with ipgInptContent := inptAppend v.ipgInptContent content.toUInt8 }

/-- A character: it opens the password page on the home page, confirms a page, or is typed. -/
def uiChar (env : Env) (addr : Nat) (u : Ui) (content : UInt16) : Except Fault (Ui × List Out) :=
  let u := if u.peek = some .home ∧ content ≠ keyHash then
      paswAuthActivityLaunch (u.clearInpt .pswAuth) .doorUnlock
    else u
  if content = keyHash then
    if u.peek = some .pswAuth then confirmAuth env addr u
    else if u.peek = some .pswAlter then confirmAlter env addr u
    else .ok (u, [])
  else match u.peek with
    | none => .error .nullPage
    | some p =>
      if p.viewType = .inptPage ∧ 0x20 < content ∧ content < 0x80 then
        .ok (typed u p content, [])
      else .ok (u, [])

/-! ## Authentication results -/

/-- The string at `pasw` of an `auth_result_t`; `auth_for` lies behind the array. -/
def AuthResult.paswStr (r : AuthResult) : List UInt8 := r.pasw ++ r.authFor.le32

def uiAuth (u : Ui) (r : AuthResult) : Ui :=
  match r.authFor with
  | .paswAlter =>
    if r.paswValid ≠ 0 then
      { u with pswAlterCache := store u.pswAlterCache (snprintf r.paswStr 24) }.run .pswAlter
    else u
  | .doorUnlock => u

/-! ## The loop body -/

/-- The end of the loop body: the content of the message is released. -/
def thenFree (r : Except Fault (Ui × List Out)) : Except Fault (Ui × List Out) :=
  r.map fun x => (x.1, x.2 ++ [.free])

def uiInpt (env : Env) (addr : Nat) (u : Ui) (content : UInt16) : Except Fault (Ui × List Out) :=
  if 0x80 ≤ content then
    -- `continue` skips the release of the content
    if u.peek = some .home ∧ content = inptBtnEnter then .ok (u.run .manu, [])
    else thenFree (uiControl u content)
  else thenFree (uiChar env addr u content)

def uiEventHandler (env : Env) (u : Ui) (m : EventMsg) : Except Fault (Ui × List Out) :=
  if m.eventStruct = .uiReflexEvent then
    match m.content with
    | .uiReflexEvent e => thenFree (.ok (uiReflex m.addr u e))
    | _ => .error .badCast
  else match m.sender with
    | .hwDoorLock =>
      match m.content with
      | .doorlockEvent e => thenFree ((uiDoorLock u e).map fun u => (u, []))
      | _ => .error .badCast
    | .hwFg =>
      match m.content with
      | .fgEvent e => thenFree (uiFg m.addr u e)
      | _ => .error .badCast
    | .hwInpt =>
      match m.content with
      | .inptEvent e => uiInpt env m.addr u e.content
      | _ => .error .badCast
    | .servAuth =>
      match m.content with
      | .authResult r => thenFree (.ok (uiAuth u r, []))
      | _ => .error .badCast
    | _ => thenFree (.ok (u, []))

/-! ## Start -/

/-- `app_init`: the activities with their views, and the home page opened. -/
def appInit : Ui :=
  let manu := viewListPushContent (viewListPushContent (viewListPushContent
    (viewListSetup (lit "Manu"))
    (lit "FG Mode") (.launch .fgModeSet))
    (lit "Set password") (.auth .paswAlter))
    (lit "About Project") (.launch .about)
  let fgModeSet := viewListPushContent (viewListPushContent (viewListPushContent
    (viewListSetup (lit "FG Mode Set"))
    (lit "Scan") (.iSet .searchNSignin))
    (lit "Register") (.iSet .enroll))
    (lit "Delete") (.iSet .delAll)
  { stack := .empty
    screen := none
    titleContent := fun
      | .home => viewTitleContentSetup (lit "Hi there")
          (lit "This door lock support FG print, password. bla bla bla long str")
      | .about => viewTitleContentSetup (lit "This UI") (lit "Rate: 5****\nRated by me.")
      | _ => viewTitleContentSetup [] []
    inputPage := fun
      | .pswAlter => viewInputPageSetup (lit "New Password:") [] (lit "[#] to Confirm")
      | _ => viewInputPageSetup (lit ":") [] []
    viewList := fun
      | .fgModeSet => fgModeSet
      | _ => manu
    pswAuthCache := ⟨.doorUnlock, .noOne⟩
    pswAlterCache := List.replicate 24 0
    launchedFor := none : Ui }.run .home

end DoorLock
