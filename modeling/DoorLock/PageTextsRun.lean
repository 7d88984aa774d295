import DoorLock.PageTexts
import DoorLock.UiRun

/-!
# What the pages say along a run

No message and no deferred call puts a text on a page that its label cannot draw.
-/

namespace DoorLock

open CString Transition

variable {u u' : Ui} {env : Env}

/-! ## Messages -/

/-- A result of the handler whose pages can be drawn. -/
def LeavesLegible (r : Except Fault (Ui × List Out)) : Prop := ∀ x, r = .ok x → x.1.AllLegible

namespace LeavesLegible

variable {f : Fault} {outs : List Out} {r : Except Fault (Ui × List Out)} {r₀ : Except Fault Ui}

theorem error : LeavesLegible (.error f) := nofun

theorem pure (h : u.AllLegible) : LeavesLegible (.ok (u, outs)) := by
  rintro x ⟨⟩
  exact h

theorem free (h : LeavesLegible r) : LeavesLegible (thenFree r) := by
  intro x hx
  obtain ⟨y, hy, rfl⟩ := map_eq_ok.mp hx
  exact h y hy

theorem bind (h : ∀ u', r₀ = .ok u' → u'.AllLegible) :
    LeavesLegible (r₀.bind fun u' => .ok (u', outs)) := by
  intro x hx
  obtain ⟨u', hu', hx⟩ := bind_eq_ok.mp hx
  cases hx
  exact h u' hu'

end LeavesLegible

theorem uiReflex_legible (h : u.AllLegible) (addr : Nat) (e : UiReflexEvent) :
    (uiReflex addr u e).1.AllLegible := by
  have hfits : Fits e.uiPrefab.text.1 32 ∧ Fits e.uiPrefab.text.2 widgetContentMaxsize := by
    cases e.uiPrefab <;>
      exact ⟨fits_lit, fits_lit⟩
  exact ((h.setTitle _ hfits.1 (by decide)).setContent _ hfits.2).run _

theorem uiDoorLock_legible (h : u.AllLegible) (e : DoorlockEvent) (hu : uiDoorLock u e = .ok u') :
    u'.AllLegible := by
  unfold uiDoorLock at hu
  cases hs : e.lockStatus with
  | unlock =>
    rw [hs] at hu
    cases hu
    exact ((h.setTitle _ fits_lit (by decide)).setContent _ fits_lit).run _
  | unlocked =>
    rw [hs] at hu
    have hleft : (lit "s left").length = 6 := by decide +kernel
    have hlen := length_toString (k := 4) (Nat.lt_of_lt_of_le e.detail.toNat_lt (by decide))
    refine (h.setContent _ ⟨(drawable_toString _).append
      (drawable_of_isDrawable (by decide +kernel)), ?_⟩).refresh hu
    rw [List.length_append, hleft, widgetContentMaxsize]
    omega
  | relock =>
    rw [hs] at hu
    exact h.back hu

/-- The text after an image of an enrolment. -/
theorem fits_progress (b : UInt8) :
    Fits (lit "[" ++ lit (toString b.toNat) ++ lit "/8] done, pls retap.")
      widgetContentMaxsize := by
  have hopen : (lit "[").length = 1 := by decide +kernel
  have hclose : (lit "/8] done, pls retap.").length = 20 := by decide +kernel
  have hlen := length_toString (k := 2) (Nat.lt_of_lt_of_le b.toNat_lt (by decide))
  refine ⟨((drawable_of_isDrawable (by decide +kernel)).append (drawable_toString _)).append
    (drawable_of_isDrawable (by decide +kernel)), ?_⟩
  rw [List.length_append, List.length_append, hopen, hclose, widgetContentMaxsize]
  omega

theorem uiFg_legible (h : u.AllLegible) (addr : Nat) (e : FgEvent) :
    LeavesLegible (uiFg addr u e) := by
  have hopened {title content : List UInt8} (ht : Fits title 32)
      (hc : Fits content widgetContentMaxsize) {outs : List Out} :
      LeavesLegible (.ok (((u.setTitle .fgReader title 32).setContent .fgReader content).run
        .fgReader, outs)) :=
    .pure (((h.setTitle _ ht (by decide)).setContent _ hc).run _)
  have hcontent {content : List UInt8} (hc : Fits content widgetContentMaxsize) {outs : List Out} :
      LeavesLegible ((u.setContent .fgReader content).refresh.bind fun u => .ok (u, outs)) :=
    .bind fun _ => (h.setContent _ hc).refresh
  have htitle {title : List UInt8} (ht : Fits title 64) {outs : List Out} :
      LeavesLegible ((u.setTitle .fgReader title 64).refresh.bind fun u => .ok (u, outs)) :=
    .bind fun _ => (h.setTitle _ ht (Nat.le_refl _)).refresh
  obtain ⟨status, progress, detail⟩ := e
  cases status <;> cases progress
  case enroll.jobStart =>
    exact .pure (((h.setTitle _ fits_lit (by decide)).setTitle _ fits_lit (by decide)).run _)
  case enroll.progessDoneSucc => exact hcontent (fits_progress detail)
  case enroll.jobDoneSucc => exact hcontent fits_lit
  case enroll.progessDoneFail =>
    refine hcontent ?_
    split
    · exact fits_lit
    split <;> exact fits_lit
  case searchNSignin.jobStart =>
    exact hopened fits_lit fits_lit
  case searchNSignin.jobDoneSucc => exact .bind fun _ => h.back
  case searchNSignin.jobDoneFail =>
    refine hcontent ?_
    split
    · exact fits_lit
    split <;> exact fits_lit
  case delAll.jobStart =>
    exact hopened fits_lit fits_lit
  case delAll.jobDoneSucc => exact htitle fits_lit
  case delAll.jobDoneFail => exact htitle fits_lit
  all_goals exact .pure h

theorem uiListKey_legible (h : u.AllLegible) (p : Page) (content : UInt16) :
    LeavesLegible (uiListKey u p content) := by
  have hshift (dir : Int) : LeavesLegible ((viewListSelectShift (u.viewList p) dir).bind fun l =>
      (u.setViewList p l).refresh.bind fun u => .ok (u, [])) := by
    cases hl : viewListSelectShift (u.viewList p) dir with
    | error f => exact .error
    | ok l => exact .bind fun _ => (h.setViewList ((h.viewList p).shift hl)).refresh
  unfold uiListKey
  by_cases hup : content = inptBtnUp
  · rw [if_pos hup]
    exact hshift (-1)
  by_cases hdown : content = inptBtnDown
  · rw [if_neg hup, if_pos hdown]
    exact hshift 1
  rw [if_neg hup, if_neg hdown]
  split
  · cases (u.viewList p).deref (u.viewList p).vlContentSelect with
    | none => exact .error
    | some item =>
      dsimp only
      cases item.vlcAction with
      | launch q => exact .pure (h.run q)
      | iSet v => exact .pure h
      | ptrSet => exact .pure h
      | auth authFor => exact .pure (h.launch authFor)
  · exact .pure h

theorem uiControl_legible (h : u.AllLegible) (content : UInt16) :
    LeavesLegible (uiControl u content) := by
  unfold uiControl
  cases u.peek with
  | none => exact .error
  | some p =>
    have hlist : LeavesLegible
        (if p.viewType = .list then uiListKey u p content else .ok (u, [])) := by
      split
      · exact uiListKey_legible h p content
      · exact .pure h
    dsimp only
    split
    · intro x hx
      obtain ⟨y, hy, hx⟩ := bind_eq_ok.mp hx
      obtain ⟨u', hb, rfl⟩ := map_eq_ok.mp hx
      exact (hlist y hy).back hb
    · exact hlist

theorem uiChar_legible (h : u.AllLegible) (addr : Nat) (content : UInt16) :
    LeavesLegible (uiChar env addr u content) := by
  by_cases hhash : content = keyHash
  · have hkeep : ¬(u.peek = some .home ∧ content ≠ keyHash) := fun h => h.2 hhash
    unfold uiChar
    simp only [if_neg hkeep, if_pos hhash]
    split
    · intro x hx
      obtain ⟨u', hb, hx⟩ := bind_eq_ok.mp hx
      cases hx
      exact (h.back hb).clearInpt _
    split
    · exact .bind fun _ => (h.clearInpt _).back
    · exact .pure h
  · obtain ⟨v, hv, ⟨-, hres⟩ | ⟨p, hp, hres⟩⟩ := uiChar_cases env addr u hhash
    · rw [hres]
      exact .error
    · have hlegible : v.AllLegible := by
        rcases hv with ⟨-, rfl⟩ | ⟨-, rfl⟩
        · exact (h.clearInpt _).launch _
        · exact h
      rw [hres]
      refine .pure ?_
      unfold typedOn
      split
      case isTrue hc => exact hlegible.typed p hc.2.1 hc.2.2
      case isFalse => exact hlegible

theorem uiAuth_legible (h : u.AllLegible) (r : AuthResult) : (uiAuth u r).AllLegible := by
  unfold uiAuth
  cases r.authFor with
  | doorUnlock => exact h
  | paswAlter =>
    dsimp only
    split
    · exact ⟨h.titleContent, h.inputPage, h.viewList⟩
    · exact h

/-- Whatever message is handled, every label can be drawn afterwards. -/
theorem uiEventHandler_legible (h : u.AllLegible) (env : Env) (m : EventMsg) :
    LeavesLegible (uiEventHandler env u m) := by
  unfold uiEventHandler
  by_cases htag : m.eventStruct = .uiReflexEvent
  · rw [if_pos htag]
    cases m.content with
    | uiReflexEvent e => exact (LeavesLegible.pure (uiReflex_legible h m.addr e)).free
    | _ => exact .error
  rw [if_neg htag]
  cases m.sender with
  | hwDoorLock =>
    cases m.content with
    | doorlockEvent e =>
      refine LeavesLegible.free fun x hx => ?_
      obtain ⟨u', hu', rfl⟩ := map_eq_ok.mp hx
      exact uiDoorLock_legible h e hu'
    | _ => exact .error
  | hwFg =>
    cases m.content with
    | fgEvent e => exact (uiFg_legible h m.addr e).free
    | _ => exact .error
  | hwInpt =>
    cases m.content with
    | inptEvent e =>
      dsimp only
      unfold uiInpt
      split
      · split
        · exact .pure (h.run _)
        · exact (uiControl_legible h e.content).free
      · exact (uiChar_legible h m.addr e.content).free
    | _ => exact .error
  | servAuth =>
    cases m.content with
    | authResult r => exact (LeavesLegible.pure (uiAuth_legible h r)).free
    | _ => exact .error
  | _ => exact (LeavesLegible.pure h).free

/-! ## Runs -/

theorem runCalls_legible {calls : List (Option Call × List Nat)} (h : u.AllLegible)
    (hc : runCalls u calls = .ok u') : u'.AllLegible := by
  induction calls generalizing u with
  | nil =>
    cases hc
    exact h
  | cons c calls ih =>
    obtain ⟨_ | ⟨addr⟩, args⟩ := c
    · cases hc
    · rw [runCalls_cons_back] at hc
      obtain ⟨u₁, hb, hc⟩ := bind_eq_ok.mp hc
      exact ih (h.back hb) hc

/-- In every state of every run all labels of all pages can be drawn. -/
theorem legible_run {kv : Kvdb} {tr : List (Label World Action)} {w : World}
    (h : RunFrom env kv tr w) : w.ui.AllLegible := by
  refine Run.invariant (I := fun w => w.ui.AllLegible) h Ui.AllLegible.init fun w a w' hw hs => ?_
  rcases ui_step hs with heq | ⟨-, k, x, -, hx, heq⟩ | ⟨_, -, -, -, hc⟩
  · exact heq ▸ hw
  · exact heq ▸ uiEventHandler_legible hw env k x hx
  · exact runCalls_legible hw hc

end DoorLock
