import DoorLock.UiStep
import DoorLock.Lib.Run

/-!
# What the UI task remembers

Beside its page operation, handling a message may write to the caches of the two password pages
and to the texts typed there, and may publish a message. The ways in which it does so are listed
in `UiChange`; the branches of the handler are gone through once, here.
-/

namespace DoorLock

open CString Transition

/-- Nothing was changed that a later step looks at, the stack and the screen apart. -/
structure Ui.Agree (u u' : Ui) : Prop where
  pswAuthCache : u'.pswAuthCache = u.pswAuthCache
  pswAlterCache : u'.pswAlterCache = u.pswAlterCache
  launchedFor : u'.launchedFor = u.launchedFor
  inpt : ∀ p, (u'.inputPage p).ipgInptContent = (u.inputPage p).ipgInptContent
  contents : ∀ p, (u'.viewList p).contents = (u.viewList p).contents

/-- `event_publish`, among the calls of a task. -/
def Out.isPublish : Out → Bool
  | .publish .. => true
  | _ => false

/-- The messages published by a list of calls. -/
def published (outs : List Out) : List Out := outs.filter Out.isPublish

@[simp] theorem published_free (outs : List Out) :
    published (outs ++ [.free]) = published outs := by
  simp [published, Out.isPublish]

theorem mem_published {outs : List Out} {s r : Component} {c : MsgContent} {t : EventStruct} :
    .publish s r c t ∈ published outs ↔ .publish s r c t ∈ outs := by
  simp [published, Out.isPublish]

/-- The message of a key. -/
structure EventMsg.IsKey (m : EventMsg) (content : UInt16) : Prop where
  sender : m.sender = .hwInpt
  content : m.content = .inptEvent ⟨content⟩

/-- A result of an authentication that opens the page for the new password. -/
structure EventMsg.IsGrant (m : EventMsg) (r : AuthResult) : Prop where
  sender : m.sender = .servAuth
  content : m.content = .authResult r
  authFor : r.authFor = .paswAlter
  paswValid : r.paswValid ≠ 0

/-- `activity_psw_alter` opened with the password of an authentication. -/
def grantAlter (u : Ui) (r : AuthResult) : Ui :=
  { u with pswAlterCache := store u.pswAlterCache (snprintf r.paswStr 24) }.run .pswAlter

/-- What handling `m` leaves, and the messages it publishes. -/
inductive UiChange (env : Env) (u : Ui) (m : EventMsg) (u' : Ui) : List Out → Prop
  | agree (h : u.Agree u') : UiChange env u m u' []
  | launch (authFor : ServSysop) (h : u' = paswAuthActivityLaunch u authFor) :
      UiChange env u m u' []
  | home (hpeek : u.peek = some .home) (h : u' = homeLaunch u) : UiChange env u m u' []
  | typed {u₁ : Ui} {p : Page} {content : UInt16} (hu : u₁ = u ∨ u₁ = homeLaunch u)
      (hkey : m.IsKey content) (hhash : content ≠ keyHash) (hpeek : u₁.peek = some p)
      (hlo : 0x20 < content) (hhi : content < 0x80) (h : u' = typed u₁ p content) :
      UiChange env u m u' []
  | confirmAuth (hkey : m.IsKey keyHash) (hpeek : u.peek = some .pswAuth)
      (h : (u.clearInpt .pswAuth).Agree u') :
      UiChange env u m u'
        [.publish .servUi .servAuth (.authEvent (authEventOf env m.addr u)) .authEvent]
  | confirmAlter (hkey : m.IsKey keyHash) (hpeek : u.peek = some .pswAlter)
      (h : (u.clearInpt .pswAuth).Agree u') :
      UiChange env u m u'
        [.publish .servUi .servSysop (.servSysop (servSysopOf env m.addr u)) .servSysop]
  | grant {r : AuthResult} (hm : m.IsGrant r) (h : u' = grantAlter u r) : UiChange env u m u' []

namespace Ui.Agree

variable {u u' u'' : Ui}

theorem rfl : u.Agree u := ⟨.refl _, .refl _, .refl _, fun _ => .refl _, fun _ => .refl _⟩

theorem trans (h : u.Agree u') (h' : u'.Agree u'') : u.Agree u'' where
  pswAuthCache := h'.pswAuthCache.trans h.pswAuthCache
  pswAlterCache := h'.pswAlterCache.trans h.pswAlterCache
  launchedFor := h'.launchedFor.trans h.launchedFor
  inpt p := (h'.inpt p).trans (h.inpt p)
  contents p := (h'.contents p).trans (h.contents p)

/-- Only the stack and the screen differ. -/
theorem display (d : Display) : u.Agree { u with toDisplay := d } :=
  ⟨.refl _, .refl _, .refl _, fun _ => .refl _, fun _ => .refl _⟩

theorem run (p : Page) : u.Agree (u.run p) := display _

theorem refresh (h : u.refresh = .ok u') : u.Agree u' := by
  obtain ⟨d, -, rfl⟩ := map_eq_ok.mp h
  exact display d

theorem back (h : u.back = .ok u') : u.Agree u' := by
  obtain ⟨d, -, rfl⟩ := map_eq_ok.mp h
  exact display d

theorem setTitleContent (p : Page) (f) : u.Agree (u.setTitleContent p f) :=
  ⟨.refl _, .refl _, .refl _, fun _ => .refl _, fun _ => .refl _⟩

/-- A list that keeps its entries. -/
theorem setViewList {p : Page} {l : ViewList} (h : l.contents = (u.viewList p).contents) :
    u.Agree (u.setViewList p l) := by
  refine ⟨.refl _, .refl _, .refl _, fun _ => .refl _, fun q => ?_⟩
  by_cases hq : q = p
  · subst hq
    simpa [Ui.setViewList] using h
  · simp [Ui.setViewList, hq]

end Ui.Agree

/-- The lists keep their entries. -/
theorem UiChange.contents {env : Env} {u u' : Ui} {m : EventMsg} {outs : List Out}
    (h : UiChange env u m u' outs) (p : Page) :
    (u'.viewList p).contents = (u.viewList p).contents := by
  cases h with
  | agree ha => exact ha.contents p
  | launch authFor hu' => rw [hu']; rfl
  | home _ hu' => rw [hu']; rfl
  | typed hu _ _ _ _ _ hu' => rcases hu with rfl | rfl <;> rw [hu'] <;> rfl
  | confirmAuth _ _ ha => exact ha.contents p
  | confirmAlter _ _ ha => exact ha.contents p
  | grant _ hu' => rw [hu']; rfl

section
variable {env : Env} {u : Ui} {m : EventMsg}

/-- A result of the handler only changes what `UiChange` lists. -/
def Changes (env : Env) (u : Ui) (m : EventMsg) (r : Except Fault (Ui × List Out)) : Prop :=
  ∀ x, r = .ok x → UiChange env u m x.1 (published x.2)

namespace Changes

theorem error {f : Fault} : Changes env u m (.error f) := nofun

theorem pure {u' : Ui} {outs : List Out} (h : u.Agree u') (ho : published outs = []) :
    Changes env u m (.ok (u', outs)) := by
  rintro x ⟨⟩
  exact ho ▸ .agree h

theorem free {r : Except Fault (Ui × List Out)} (h : Changes env u m r) :
    Changes env u m (thenFree r) := by
  cases r with
  | error f => exact error
  | ok x =>
    rintro y ⟨⟩
    simpa using h x rfl

/-- Bookkeeping after a refresh or a return to the last page. -/
theorem bind {u₁ : Ui} {r₀ : Except Fault Ui} {outs : List Out} (h₁ : u.Agree u₁)
    (h : ∀ u', r₀ = .ok u' → u₁.Agree u') (ho : published outs = []) :
    Changes env u m (r₀.bind fun u' => .ok (u', outs)) := by
  cases r₀ with
  | error f => exact error
  | ok u' => exact .pure (h₁.trans (h u' rfl)) ho

end Changes

theorem uiReflex_changes (addr : Nat) (e : UiReflexEvent) :
    Changes env u m (.ok (uiReflex addr u e)) :=
  .pure (((Ui.Agree.setTitleContent _ _).trans (.setTitleContent _ _)).trans (.run _)) rfl

theorem uiDoorLock_changes (e : DoorlockEvent) :
    Changes env u m ((uiDoorLock u e).map fun u => (u, [])) := by
  unfold uiDoorLock
  cases e.lockStatus with
  | unlock =>
    exact .pure (((Ui.Agree.setTitleContent _ _).trans (.setTitleContent _ _)).trans (.run _)) rfl
  | unlocked => exact .bind (.setTitleContent _ _) (fun _ => .refresh) rfl
  | relock => exact .bind .rfl (fun _ => .back) rfl

theorem uiFg_changes (addr : Nat) (e : FgEvent) : Changes env u m (uiFg addr u e) := by
  obtain ⟨status, progress, detail⟩ := e
  cases status <;> cases progress <;>
    first
      | exact .pure .rfl rfl
      | exact .pure (((Ui.Agree.setTitleContent _ _).trans (.setTitleContent _ _)).trans
          (.run _)) rfl
      | exact .bind (.setTitleContent _ _) (fun _ => .refresh) rfl
      | exact .bind .rfl (fun _ => .back) rfl

theorem uiListKey_changes (p : Page) (content : UInt16) :
    Changes env u m (uiListKey u p content) := by
  unfold uiListKey
  have hshift (dir : Int) : Changes env u m
      ((viewListSelectShift (u.viewList p) dir).bind fun l =>
        (u.setViewList p l).refresh.bind fun u => .ok (u, [])) := by
    cases hl : viewListSelectShift (u.viewList p) dir with
    | error f => exact .error
    | ok l =>
      exact .bind (.setViewList (viewListSelectShift_contents hl)) (fun _ => .refresh) rfl
  by_cases hup : content = inptBtnUp
  · rw [if_pos hup]
    exact hshift (-1)
  by_cases hdown : content = inptBtnDown
  · rw [if_neg hup, if_pos hdown]
    exact hshift 1
  rw [if_neg hup, if_neg hdown]
  by_cases henter : content = inptBtnEnter
  · rw [if_pos henter]
    cases (u.viewList p).deref (u.viewList p).vlContentSelect with
    | none => exact .error
    | some item =>
      dsimp only
      cases item.vlcAction with
      | launch q => exact .pure (.run q) rfl
      | iSet v => exact .pure .rfl rfl
      | ptrSet => exact .pure .rfl rfl
      | auth authFor =>
        rintro x ⟨⟩
        exact .launch authFor rfl
  · rw [if_neg henter]
    exact .pure .rfl rfl

theorem uiControl_changes (content : UInt16) : Changes env u m (uiControl u content) := by
  unfold uiControl
  cases u.peek with
  | none => exact .error
  | some p =>
    dsimp only
    by_cases hret : content = inptBtnReturn
    · subst hret
      have hlist : (if p.viewType = .list then uiListKey u p inptBtnReturn else .ok (u, [])) =
          .ok (u, []) := by
        split
        · exact uiListKey_return u p
        · rfl
      rw [hlist, if_pos rfl]
      exact .bind .rfl (fun _ => .back) rfl
    · rw [if_neg hret]
      split
      · exact uiListKey_changes p content
      · exact .pure .rfl rfl

theorem clearInpt_back {u' : Ui} (h : u.back = .ok u') :
    (u.clearInpt .pswAuth).Agree (u'.clearInpt .pswAuth) := by
  obtain ⟨d, -, rfl⟩ := map_eq_ok.mp h
  exact .display d

theorem confirmAuth_changes (hkey : m.IsKey keyHash) (hpeek : u.peek = some .pswAuth) :
    Changes env u m (confirmAuth env m.addr u) := by
  unfold confirmAuth
  cases hb : u.back with
  | error f => exact .error
  | ok u' =>
    rintro x ⟨⟩
    exact .confirmAuth hkey hpeek (clearInpt_back hb)

theorem confirmAlter_changes (hkey : m.IsKey keyHash) (hpeek : u.peek = some .pswAlter) :
    Changes env u m (confirmAlter env m.addr u) := by
  unfold confirmAlter
  cases hb : (u.clearInpt .pswAuth).back with
  | error f => exact .error
  | ok u' =>
    rintro x ⟨⟩
    exact .confirmAlter hkey hpeek (.back hb)

theorem uiChar_changes {content : UInt16} (hkey : m.IsKey content) :
    Changes env u m (uiChar env m.addr u content) := by
  by_cases hhash : content = keyHash
  · have hkeep : ¬(u.peek = some .home ∧ content ≠ keyHash) := fun h => h.2 hhash
    unfold uiChar
    simp only [if_neg hkeep, if_pos hhash]
    rw [hhash] at hkey
    by_cases hauth : u.peek = some .pswAuth
    · rw [if_pos hauth]
      exact confirmAuth_changes hkey hauth
    by_cases halter : u.peek = some .pswAlter
    · rw [if_neg hauth, if_pos halter]
      exact confirmAlter_changes hkey halter
    · rw [if_neg hauth, if_neg halter]
      exact .pure .rfl rfl
  · obtain ⟨v, hv, ⟨-, hres⟩ | ⟨p, hp, hres⟩⟩ := uiChar_cases env m.addr u hhash
    · rw [hres]
      exact .error
    · rw [hres]
      rintro x ⟨⟩
      unfold typedOn
      split
      case isTrue hc =>
        exact .typed (hv.symm.imp And.right And.right) hkey hhash hp hc.2.1 hc.2.2 rfl
      case isFalse =>
        rcases hv with ⟨hhome, rfl⟩ | ⟨-, rfl⟩
        · exact .home hhome rfl
        · exact .agree .rfl

theorem uiAuth_changes {r : AuthResult} (hs : m.sender = .servAuth)
    (hc : m.content = .authResult r) : Changes env u m (.ok (uiAuth u r, [])) := by
  unfold uiAuth
  cases hf : r.authFor with
  | doorUnlock => exact .pure .rfl rfl
  | paswAlter =>
    dsimp only
    split
    · rename_i hv
      rintro x ⟨⟩
      exact .grant ⟨hs, hc, hf, hv⟩ rfl
    · exact .pure .rfl rfl

/-- What handling a message does to the caches and the texts typed, and what it publishes. -/
theorem uiEventHandler_change {x : Ui × List Out} (h : uiEventHandler env u m = .ok x) :
    UiChange env u m x.1 (published x.2) := by
  suffices hc : Changes env u m (uiEventHandler env u m) from hc x h
  unfold uiEventHandler
  by_cases htag : m.eventStruct = .uiReflexEvent
  · rw [if_pos htag]
    cases m.content with
    | uiReflexEvent e => exact (uiReflex_changes m.addr e).free
    | _ => exact .error
  rw [if_neg htag]
  cases hs : m.sender with
  | hwDoorLock =>
    cases m.content with
    | doorlockEvent e => exact (uiDoorLock_changes e).free
    | _ => exact .error
  | hwFg =>
    cases m.content with
    | fgEvent e => exact (uiFg_changes m.addr e).free
    | _ => exact .error
  | hwInpt =>
    cases hc : m.content with
    | inptEvent e =>
      dsimp only
      unfold uiInpt
      split
      · split
        · exact .pure (.run _) rfl
        · exact (uiControl_changes e.content).free
      · exact (uiChar_changes ⟨hs, hc⟩).free
    | _ => exact .error
  | servAuth =>
    cases hc : m.content with
    | authResult r => exact (uiAuth_changes hs hc).free
    | _ => exact .error
  | _ => exact (Changes.pure .rfl rfl).free

end

end DoorLock
