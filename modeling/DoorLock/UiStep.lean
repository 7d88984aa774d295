import DoorLock.Ui

/-!
# What the UI task does with a message

The effect of `uiEventHandler` on the page stack and the screen is that of one page operation,
read off the message and the page on top (`uiPageOp`). The claims about the stack and the screen
are proved about page operations; the branches of the handler are gone through once, here.
-/

namespace DoorLock

/-- What handling a message does to the stack and the screen. -/
inductive PageOp
  | run (p : Page)
  | refresh
  | back
  | keep
  deriving DecidableEq

def PageOp.apply (d : Display) : PageOp → Except Fault Display
  | .run p => .ok (activityRun d p)
  | .refresh => activityScreenRefresh d
  | .back => activityBack d
  | .keep => .ok d

def doorLockOp (e : DoorlockEvent) : PageOp :=
  match e.lockStatus with
  | .unlock => .run .doorUnlock
  | .unlocked => .refresh
  | .relock => .back

def fgOp (e : FgEvent) : PageOp :=
  match e.fgStatus, e.fgJobProgress with
  | .enroll, .jobStart | .searchNSignin, .jobStart | .delAll, .jobStart => .run .fgReader
  | .searchNSignin, .jobDoneSucc => .back
  | .enroll, .progessDoneSucc | .enroll, .jobDoneSucc | .enroll, .progessDoneFail
  | .searchNSignin, .jobDoneFail | .delAll, .jobDoneSucc | .delAll, .jobDoneFail => .refresh
  | _, _ => .keep

/-- The page operation of `ENTER` on a list entry. -/
def VlcAction.pageOp : VlcAction → PageOp
  | .launch q => .run q
  | .auth _ => .run .pswAuth
  | _ => .keep

def listOp (l : ViewList) (content : UInt16) : PageOp :=
  if content = inptBtnUp ∨ content = inptBtnDown then .refresh
  else if content = inptBtnEnter then
    ((l.deref l.vlContentSelect).map fun c => c.vlcAction.pageOp).getD .keep
  else .keep

def inptOp (u : Ui) (content : UInt16) : PageOp :=
  if 0x80 ≤ content then
    if u.peek = some .home ∧ content = inptBtnEnter then .run .manu
    else if content = inptBtnReturn then .back
    else match u.peek with
      | some p => if p.viewType = .list then listOp (u.viewList p) content else .keep
      | none => .keep
  else if content = keyHash then
    if u.peek = some .pswAuth ∨ u.peek = some .pswAlter then .back else .keep
  else if u.peek = some .home then .run .pswAuth
  else .keep

def authOp (r : AuthResult) : PageOp :=
  if r.authFor = .paswAlter ∧ r.paswValid ≠ 0 then .run .pswAlter else .keep

/-- The page operation of a message. -/
def uiPageOp (u : Ui) (m : EventMsg) : PageOp :=
  if m.eventStruct = .uiReflexEvent then .run .popup
  else match m.sender, m.content with
    | .hwDoorLock, .doorlockEvent e => doorLockOp e
    | .hwFg, .fgEvent e => fgOp e
    | .hwInpt, .inptEvent e => inptOp u e.content
    | .servAuth, .authResult r => authOp r
    | _, _ => .keep

/-! ## Page operations -/

/-- `refresh` and `back` as equations of the display, whether they come back or fault. -/
theorem refresh_display (u : Ui) :
    u.refresh.map Ui.toDisplay = PageOp.refresh.apply u.toDisplay := by
  unfold Ui.refresh PageOp.apply
  cases activityScreenRefresh u.toDisplay <;> rfl

theorem back_display (u : Ui) : u.back.map Ui.toDisplay = PageOp.back.apply u.toDisplay := by
  unfold Ui.back PageOp.apply
  cases activityBack u.toDisplay <;> rfl

theorem refresh_ne_error {d : Display} (h : d.stack.activities ≠ []) {f : Fault} :
    PageOp.refresh.apply d ≠ .error f := by
  unfold PageOp.apply activityScreenRefresh activityPrint activityStackPeek
  obtain ⟨p, ps, hd⟩ := List.exists_cons_of_ne_nil h
  simp [hd]

/-- A page that has just been opened is on top, or the stack was full. -/
theorem activityRun_ne_nil (d : Display) (p : Page) : (activityRun d p).stack.activities ≠ [] := by
  rw [activityRun]
  by_cases h : d.stack.depth < activityStackDepthMax
  · simp [activityStackPush_of_lt h]
  · simp only [activityStackPush_of_full h]
    intro hnil
    simp [ActivityStack.depth, hnil, activityStackDepthMax] at h

/-- What a page operation that comes back has done to the stack. -/
theorem PageOp.apply_ok {d d' : Display} {op : PageOp} (h : op.apply d = .ok d') :
    d'.stack.activities = d.stack.activities ∨
      (∃ p, op = .run p ∧ d'.stack.activities = p :: d.stack.activities) ∨
      ∃ p q rest, op = .back ∧ d.stack.activities = p :: q :: rest ∧
        d'.stack.activities = q :: rest := by
  cases op with
  | run p =>
    cases h
    by_cases hlt : d.stack.depth < activityStackDepthMax
    · exact .inr (.inl ⟨p, rfl, activityStackPush_of_lt hlt p⟩)
    · exact .inl (congrArg _ (activityStackPush_of_full hlt p))
  | refresh => exact .inl (congrArg _ (activityScreenRefresh_eq h).1)
  | back =>
    obtain ⟨p, q, rest, hd, hd', -⟩ := activityBack_ok h
    exact .inr (.inr ⟨p, q, rest, rfl, hd, hd'⟩)
  | keep =>
    cases h
    exact .inl rfl

/-- A page found on the stack was there before, or has just been opened. -/
theorem PageOp.mem_apply {d d' : Display} {op : PageOp} {p : Page} (h : op.apply d = .ok d')
    (hp : p ∈ d'.stack.activities) : p ∈ d.stack.activities ∨ op = .run p := by
  rcases PageOp.apply_ok h with heq | ⟨r, rfl, heq⟩ | ⟨r, q, rest, -, hd, heq⟩
  · exact .inl (heq ▸ hp)
  · rw [heq] at hp
    rcases List.mem_cons.mp hp with rfl | hp
    · exact .inr rfl
    · exact .inl hp
  · rw [heq] at hp
    exact .inl (hd ▸ List.mem_cons_of_mem _ hp)

/-- A page operation that comes back leaves a page. -/
theorem PageOp.apply_ne_nil {d d' : Display} {op : PageOp} (h : op.apply d = .ok d')
    (hne : d.stack.activities ≠ []) : d'.stack.activities ≠ [] := by
  rcases PageOp.apply_ok h with heq | ⟨r, rfl, heq⟩ | ⟨r, q, rest, -, hd, heq⟩
  · exact heq ▸ hne
  · exact heq ▸ List.cons_ne_nil _ _
  · exact heq ▸ List.cons_ne_nil _ _

/-! ## The handler follows its page operation -/

/-- A result of the handler agrees with a page operation on the display: it comes back with the
display the operation leaves, and dereferences `NULL` for a page just when the operation does. -/
structure Follows (d : Display) (op : PageOp) (r : Except Fault (Ui × List Out)) : Prop where
  ok : ∀ {x}, r = .ok x → op.apply d = .ok x.1.toDisplay
  fault : r = .error .nullPage ↔ op.apply d = .error .nullPage

namespace Follows

variable {d : Display} {op : PageOp} {r : Except Fault (Ui × List Out)} {u : Ui}

theorem pure {outs : List Out} (h : op.apply d = .ok u.toDisplay) :
    Follows d op (.ok (u, outs)) where
  ok := by rintro x ⟨⟩; exact h
  fault := by simp [h]

theorem error {f : Fault} (h : f ≠ .nullPage) (hop : op.apply d ≠ .error .nullPage) :
    Follows d op (.error f) where
  ok := nofun
  fault := by simp [h, hop]

/-- A refresh or a return to the last page, with bookkeeping after it. -/
theorem bind {r₀ : Except Fault Ui} {k : Ui → Ui × List Out}
    (h : r₀.map Ui.toDisplay = op.apply d) (hk : ∀ u, (k u).1.toDisplay = u.toDisplay) :
    Follows d op (r₀.bind fun u => .ok (k u)) := by
  cases r₀ with
  | error f => exact ⟨nofun, by rw [← h]; simp [Except.map, Except.bind]⟩
  | ok u =>
    refine ⟨?_, by rw [← h]; simp [Except.map, Except.bind]⟩
    rintro x ⟨⟩
    rw [hk]
    exact h.symm

theorem free (h : Follows d op r) : Follows d op (thenFree r) := by
  cases r with
  | error f => exact ⟨nofun, by simpa [thenFree, Except.map] using h.fault⟩
  | ok x =>
    refine ⟨?_, by simpa [thenFree, Except.map] using h.fault⟩
    rintro y ⟨⟩
    exact h.ok (x := x) rfl

end Follows

theorem uiDoorLock_follows (u : Ui) (e : DoorlockEvent) :
    Follows u.toDisplay (doorLockOp e) ((uiDoorLock u e).map fun u => (u, [])) := by
  unfold uiDoorLock doorLockOp
  cases e.lockStatus with
  | unlock => exact .pure rfl
  | unlocked => exact .bind (refresh_display _) fun _ => rfl
  | relock => exact .bind (back_display _) fun _ => rfl

theorem uiFg_follows (addr : Nat) (u : Ui) (e : FgEvent) :
    Follows u.toDisplay (fgOp e) (uiFg addr u e) := by
  obtain ⟨status, progress, detail⟩ := e
  cases status <;> cases progress <;>
    first
      | exact .pure rfl
      | exact .bind (refresh_display _) fun _ => rfl
      | exact .bind (back_display _) fun _ => rfl

theorem uiListKey_follows {u : Ui} {p : Page} (content : UInt16)
    (hne : u.stack.activities ≠ []) :
    Follows u.toDisplay (listOp (u.viewList p) content) (uiListKey u p content) := by
  unfold uiListKey listOp
  have hshift (dir : Int) : Follows u.toDisplay .refresh
      ((viewListSelectShift (u.viewList p) dir).bind fun l =>
        (u.setViewList p l).refresh.bind fun u => .ok (u, [])) := by
    cases hl : viewListSelectShift (u.viewList p) dir with
    | error f => exact .error (viewListSelectShift_error hl) (refresh_ne_error hne)
    | ok l => exact .bind (refresh_display _) fun _ => rfl
  by_cases hup : content = inptBtnUp
  · rw [if_pos hup, if_pos (.inl hup)]
    exact hshift (-1)
  by_cases hdown : content = inptBtnDown
  · rw [if_neg hup, if_pos hdown, if_pos (.inr hdown)]
    exact hshift 1
  rw [if_neg hup, if_neg hdown, if_neg (not_or.mpr ⟨hup, hdown⟩)]
  by_cases henter : content = inptBtnEnter
  · rw [if_pos henter, if_pos henter]
    cases (u.viewList p).deref (u.viewList p).vlContentSelect with
    | none => exact .error nofun nofun
    | some item =>
      simp only [Option.map_some, Option.getD_some, VlcAction.pageOp]
      cases item.vlcAction <;> exact .pure rfl
  · rw [if_neg henter, if_neg henter]
    exact .pure rfl

theorem confirmAuth_follows (env : Env) (addr : Nat) (u : Ui) :
    Follows u.toDisplay .back (confirmAuth env addr u) :=
  .bind (back_display u) fun _ => rfl

theorem confirmAlter_follows (env : Env) (addr : Nat) (u : Ui) :
    Follows u.toDisplay .back (confirmAlter env addr u) :=
  .bind (back_display (u.clearInpt .pswAuth)) fun _ => rfl

theorem uiListKey_return (u : Ui) (p : Page) : uiListKey u p inptBtnReturn = .ok (u, []) := rfl

theorem uiControl_follows {u : Ui} {content : UInt16} (hne : u.stack.activities ≠ [])
    (hc : 0x80 ≤ content) (hhome : ¬(u.peek = some .home ∧ content = inptBtnEnter)) :
    Follows u.toDisplay (inptOp u content) (uiControl u content) := by
  unfold uiControl inptOp
  rw [if_pos hc, if_neg hhome]
  cases hp : u.peek with
  | none => exact absurd (List.head?_eq_none_iff.mp hp) hne
  | some p =>
    by_cases hret : content = inptBtnReturn
    · subst hret
      have hlist : (if p.viewType = .list then uiListKey u p inptBtnReturn else .ok (u, [])) =
          .ok (u, []) := by
        split
        · exact uiListKey_return u p
        · rfl
      dsimp only
      rw [hlist, if_pos rfl, if_pos rfl]
      exact .bind (back_display u) fun _ => rfl
    · dsimp only
      rw [if_neg hret, if_neg hret]
      split
      · exact uiListKey_follows content hne
      · exact .pure rfl

/-- The password page as a first character on the home page opens it. -/
def homeLaunch (u : Ui) : Ui := paswAuthActivityLaunch (u.clearInpt .pswAuth) .doorUnlock

/-- The UI after a character other than `#` on the page `p`. -/
def typedOn (u : Ui) (p : Page) (content : UInt16) : Ui :=
  if p.viewType = .inptPage ∧ 0x20 < content ∧ content < 0x80 then typed u p content else u

/-- A character other than `#`, on the home page or another one. -/
theorem uiChar_cases (env : Env) (addr : Nat) (u : Ui) {content : UInt16}
    (hhash : content ≠ keyHash) :
    ∃ v, ((u.peek = some .home ∧ v = homeLaunch u) ∨ (u.peek ≠ some .home ∧ v = u)) ∧
      ((v.peek = none ∧ uiChar env addr u content = .error .nullPage) ∨
        ∃ p, v.peek = some p ∧ uiChar env addr u content = .ok (typedOn v p content, [])) := by
  refine ⟨if u.peek = some .home ∧ content ≠ keyHash then homeLaunch u else u, ?_, ?_⟩
  · by_cases hhome : u.peek = some .home
    · exact .inl ⟨hhome, if_pos ⟨hhome, hhash⟩⟩
    · exact .inr ⟨hhome, if_neg fun h => hhome h.1⟩
  · unfold uiChar homeLaunch
    dsimp only
    generalize (if u.peek = some .home ∧ content ≠ keyHash then
      paswAuthActivityLaunch (u.clearInpt .pswAuth) .doorUnlock else u) = v
    rw [if_neg hhash]
    cases v.peek with
    | none => exact .inl ⟨rfl, rfl⟩
    | some p =>
      refine .inr ⟨p, rfl, ?_⟩
      unfold typedOn
      dsimp only
      split
      · rfl
      · rfl

@[simp] theorem typedOn_toDisplay (u : Ui) (p : Page) (content : UInt16) :
    (typedOn u p content).toDisplay = u.toDisplay := by
  unfold typedOn
  split
  · rfl
  · rfl

theorem uiChar_follows {u : Ui} {content : UInt16} (env : Env) (addr : Nat)
    (hne : u.stack.activities ≠ []) (hc : ¬ 0x80 ≤ content) :
    Follows u.toDisplay (inptOp u content) (uiChar env addr u content) := by
  unfold inptOp
  rw [if_neg hc]
  by_cases hhash : content = keyHash
  · have hkeep : ¬(u.peek = some .home ∧ content ≠ keyHash) := fun h => h.2 hhash
    unfold uiChar
    simp only [if_neg hkeep, if_pos hhash]
    by_cases hauth : u.peek = some .pswAuth
    · rw [if_pos hauth, if_pos (.inl hauth)]
      exact confirmAuth_follows env addr u
    by_cases halter : u.peek = some .pswAlter
    · rw [if_neg hauth, if_pos halter, if_pos (.inr halter)]
      exact confirmAlter_follows env addr u
    · rw [if_neg hauth, if_neg halter, if_neg (not_or.mpr ⟨hauth, halter⟩)]
      exact .pure rfl
  · rw [if_neg hhash]
    obtain ⟨v, hv, ⟨hnone, -⟩ | ⟨p, -, hres⟩⟩ := uiChar_cases env addr u hhash
    · have hempty : v.stack.activities = [] := List.head?_eq_none_iff.mp hnone
      rcases hv with ⟨-, rfl⟩ | ⟨-, rfl⟩
      · exact absurd hempty (activityRun_ne_nil _ _)
      · exact absurd hempty hne
    · rw [hres]
      refine .pure ?_
      rw [typedOn_toDisplay]
      rcases hv with ⟨hhome, rfl⟩ | ⟨hhome, rfl⟩
      · rw [if_pos hhome]
        rfl
      · rw [if_neg hhome]
        rfl

theorem uiAuth_follows (u : Ui) (r : AuthResult) :
    Follows u.toDisplay (authOp r) (.ok (uiAuth u r, [])) := by
  unfold uiAuth authOp
  cases r.authFor with
  | doorUnlock => exact .pure rfl
  | paswAlter =>
    by_cases hv : r.paswValid = 0
    · simp only [hv, ne_eq, not_true_eq_false, and_false, if_false]
      exact .pure rfl
    · simp only [hv, ne_eq, not_false_eq_true, and_self, if_true]
      exact .pure rfl

/-- On a stack that holds a page, handling a message is its page operation. -/
theorem uiEventHandler_follows (env : Env) {u : Ui} (m : EventMsg)
    (hne : u.stack.activities ≠ []) :
    Follows u.toDisplay (uiPageOp u m) (uiEventHandler env u m) := by
  unfold uiEventHandler uiPageOp
  by_cases htag : m.eventStruct = .uiReflexEvent
  · simp only [htag, if_true]
    cases m.content with
    | uiReflexEvent e => exact .free (.pure rfl)
    | _ => exact .error nofun nofun
  · simp only [htag, if_false]
    cases m.sender with
    | hwDoorLock =>
      cases m.content with
      | doorlockEvent e => exact (uiDoorLock_follows u e).free
      | _ => exact .error nofun nofun
    | hwFg =>
      cases m.content with
      | fgEvent e => exact (uiFg_follows m.addr u e).free
      | _ => exact .error nofun nofun
    | hwInpt =>
      cases m.content with
      | inptEvent e =>
        dsimp only
        unfold uiInpt
        by_cases hc : 0x80 ≤ e.content
        · rw [if_pos hc]
          by_cases hhome : u.peek = some .home ∧ e.content = inptBtnEnter
          · rw [if_pos hhome, inptOp, if_pos hc, if_pos hhome]
            exact .pure rfl
          · rw [if_neg hhome]
            exact (uiControl_follows hne hc hhome).free
        · rw [if_neg hc]
          exact (uiChar_follows env m.addr hne hc).free
      | _ => exact .error nofun nofun
    | servAuth =>
      cases m.content with
      | authResult r => exact (uiAuth_follows u r).free
      | _ => exact .error nofun nofun
    | _ => exact .free (.pure rfl)

end DoorLock
