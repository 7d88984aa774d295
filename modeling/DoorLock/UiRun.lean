import DoorLock.Origin

/-!
# The pages along a run

The UI changes in two ways: the UI task performs the page operation of a message, and a pass of
the deferred calls returns to earlier pages. What holds of the stack in every run is proved from
these two.
-/

namespace DoorLock

open Transition

/-- `activity_back` called `n` times. -/
def backs : Nat → Display → Except Fault Display
  | 0, d => .ok d
  | n + 1, d => (activityBack d).bind (backs n)

section
variable {u u' : Ui} {d d' : Display}

theorem runCalls_cons_back (u : Ui) (addr : Nat) (args : List Nat)
    (calls : List (Option Call × List Nat)) :
    runCalls u ((some (.activityBack addr), args) :: calls) =
      u.back.bind fun u => runCalls u calls := by
  rw [runCalls]
  cases u.back <;> rfl

/-- The calls of a pass are returns to the last page, as many as are due. -/
theorem runCalls_display {calls : List (Option Call × List Nat)}
    (hf : ∀ c ∈ calls, c.1 ≠ none) :
    (runCalls u calls).map Ui.toDisplay = backs calls.length u.toDisplay := by
  induction calls generalizing u with
  | nil => rfl
  | cons c calls ih =>
    obtain ⟨_ | ⟨addr⟩, args⟩ := c
    · exact absurd rfl (hf _ (.head _))
    · rw [runCalls_cons_back, List.length_cons, backs, Ui.back]
      cases activityBack u.toDisplay with
      | error f => rfl
      | ok d => exact ih fun c hc => hf c (.tail _ hc)

theorem runCalls_calls {calls : List (Option Call × List Nat)} (h : runCalls u calls = .ok u') :
    ∀ c ∈ calls, c.1 ≠ none := by
  induction calls generalizing u with
  | nil => simp
  | cons c calls ih =>
    obtain ⟨_ | ⟨addr⟩, args⟩ := c
    · simp [runCalls] at h
    · rw [runCalls_cons_back] at h
      obtain ⟨u₁, -, h⟩ := bind_eq_ok.mp h
      intro c hc
      rcases List.mem_cons.mp hc with rfl | hc
      · exact Option.some_ne_none _
      · exact ih h c hc

/-- `n` returns take `n` pages off the stack and leave at least one. -/
theorem backs_ok {n : Nat} (h : backs n d = .ok d') :
    d'.stack.activities = d.stack.activities.drop n ∧
      (d.stack.activities ≠ [] → d'.stack.activities ≠ []) := by
  induction n generalizing d with
  | zero =>
    cases h
    exact ⟨rfl, id⟩
  | succ n ih =>
    obtain ⟨d₁, hb, h⟩ := bind_eq_ok.mp h
    obtain ⟨p, q, rest, hd, hd₁, -⟩ := activityBack_ok hb
    obtain ⟨heq, hne⟩ := ih h
    refine ⟨by rw [heq, hd, hd₁]; rfl, fun _ => hne (hd₁ ▸ List.cons_ne_nil _ _)⟩

/-- `n` returns fail just when there are no more than `n` pages, and always at a missing page. -/
theorem backs_error_iff {n : Nat} {f : Fault} (hne : d.stack.activities ≠ []) :
    backs n d = .error f ↔ f = .nullPage ∧ d.stack.depth ≤ n := by
  induction n generalizing d with
  | zero =>
    have := List.length_pos_iff.mpr hne
    simp [backs, ActivityStack.depth, hne]
  | succ n ih =>
    rw [backs]
    cases hb : activityBack d with
    | error g =>
      obtain ⟨rfl, hle⟩ := activityBack_error_iff.mp hb
      simp only [Except.bind, Except.error.injEq, eq_comm (a := Fault.nullPage)]
      exact ⟨fun hf => ⟨hf, by omega⟩, And.left⟩
    | ok d₁ =>
      obtain ⟨p, q, rest, hd, hd₁, -⟩ := activityBack_ok hb
      simp only [Except.bind]
      rw [ih (hd₁ ▸ List.cons_ne_nil _ _), ActivityStack.depth, ActivityStack.depth, hd, hd₁]
      simp

end

section
variable {env : Env} {kv : Kvdb} {tr : List (Label World Action)} {w w' : World} {a : Action}

/-- What a step does to the stack and the screen. -/
theorem display_step (h : step env w a = .ok w') (hne : w.ui.stack.activities ≠ []) :
    w'.ui.toDisplay = w.ui.toDisplay ∨
      (∃ m, a = .ui ∧ w.queueUi.head? = some m ∧
        (uiPageOp w.ui m).apply w.ui.toDisplay = .ok w'.ui.toDisplay) ∨
      ∃ curTime, a = .systemTimeout curTime ∧ w.queueSystem = [] ∧ w.invoker.mutexTaken = false ∧
        backs (w.invoker.dueCalls curTime).length w.ui.toDisplay = .ok w'.ui.toDisplay := by
  rcases ui_step h with heq | ⟨rfl, m, x, hm, hx, heq⟩ | ⟨curTime, rfl, hq, hmutex, hc⟩
  · exact .inl (by rw [heq])
  · exact .inr (.inl ⟨m, rfl, hm, heq ▸ (uiEventHandler_follows env m hne).ok hx⟩)
  · refine .inr (.inr ⟨curTime, rfl, hq, hmutex, ?_⟩)
    rw [← runCalls_display (runCalls_calls hc), hc]
    rfl

/-- A step that comes back leaves a page. -/
theorem ne_nil_step (h : step env w a = .ok w') (hne : w.ui.stack.activities ≠ []) :
    w'.ui.stack.activities ≠ [] := by
  rcases display_step h hne with heq | ⟨m, -, -, hop⟩ | ⟨_, -, -, -, hb⟩
  · rw [heq]
    exact hne
  · exact PageOp.apply_ne_nil hop hne
  · exact (backs_ok hb).2 hne

theorem stack_ne_nil (h : RunFrom env kv tr w) : w.ui.stack.activities ≠ [] :=
  Run.invariant (I := fun w => w.ui.stack.activities ≠ []) h (List.cons_ne_nil _ _)
    fun _ _ _ hne hs => ne_nil_step hs hne

/-- A page found on the stack after a step was there before, or was opened by a message. -/
theorem mem_stack_step {p : Page} (h : step env w a = .ok w') (hne : w.ui.stack.activities ≠ [])
    (hp : p ∈ w'.ui.stack.activities) : p ∈ w.ui.stack.activities ∨
      ∃ m, a = .ui ∧ w.queueUi.head? = some m ∧ uiPageOp w.ui m = .run p := by
  rcases display_step h hne with heq | ⟨m, ha, hm, hop⟩ | ⟨_, -, -, -, hb⟩
  · exact .inl (by rw [heq] at hp; exact hp)
  · exact (PageOp.mem_apply hop hp).imp_right fun hrun => ⟨m, ha, hm, hrun⟩
  · rw [(backs_ok hb).1] at hp
    exact .inl (List.mem_of_mem_drop hp)

/-- The lists keep the entries they are set up with. -/
theorem contents_eq (h : RunFrom env kv tr w) (p : Page) :
    (w.ui.viewList p).contents = (appInit.viewList p).contents := by
  refine Run.invariant (I := fun w => ∀ p,
    (w.ui.viewList p).contents = (appInit.viewList p).contents) h (fun _ => rfl) ?_ p
  intro w a w' ih hs p
  rcases ui_step_change hs with ha | ⟨k, -, -, hc⟩
  · rw [ha.contents, ih]
  · rw [hc.contents, ih]

/-- What the entries of the lists open. -/
theorem launches_of_list {l : ViewList} {p q : Page} {i : Option Nat} {item : VlContent}
    (hl : l.contents = (appInit.viewList p).contents) (hi : l.deref i = some item)
    (hrun : item.vlcAction.pageOp = .run q) : q = .fgModeSet ∨ q = .about ∨ q = .pswAuth := by
  have hmem : item ∈ (appInit.viewList p).contents := by
    rw [← hl]
    unfold ViewList.deref at hi
    obtain ⟨j, -, hj⟩ := Option.bind_eq_some_iff.mp hi
    exact List.mem_of_getElem? hj
  have hall : ∀ p, ∀ item ∈ (appInit.viewList p).contents,
      item.vlcAction.pageOp = .run .fgModeSet ∨ item.vlcAction.pageOp = .run .about ∨
        item.vlcAction.pageOp = .run .pswAuth ∨ item.vlcAction.pageOp = .keep := by
    intro p
    cases p <;> decide
  have h := hall p item hmem
  rw [hrun] at h
  simpa using h

theorem listOp_run {l : ViewList} {p q : Page} {content : UInt16}
    (hl : l.contents = (appInit.viewList p).contents) (h : listOp l content = .run q) :
    q = .fgModeSet ∨ q = .about ∨ q = .pswAuth := by
  unfold listOp at h
  split at h
  · cases h
  split at h
  · cases hi : l.deref l.vlContentSelect with
    | none => simp [hi] at h
    | some item =>
      rw [hi] at h
      exact launches_of_list hl hi h
  · cases h

/-- The pages that a key opens. -/
theorem inptOp_run {u : Ui} {content : UInt16} {p : Page}
    (hl : ∀ p, (u.viewList p).contents = (appInit.viewList p).contents)
    (h : inptOp u content = .run p) : p ≠ .home ∧ p ≠ .pswAlter := by
  unfold inptOp at h
  split at h
  · split at h
    · cases h
      exact ⟨nofun, nofun⟩
    split at h
    · cases h
    split at h
    · split at h
      · rcases listOp_run (hl _) h with rfl | rfl | rfl <;> exact ⟨nofun, nofun⟩
      · cases h
    · cases h
  · split at h
    · split at h <;> cases h
    · split at h <;> cases h
      exact ⟨nofun, nofun⟩

/-- A message opens no second home page, and `activity_psw_alter` only if it grants an
authentication. -/
theorem uiPageOp_run {u : Ui} {m : EventMsg} {p : Page}
    (hl : ∀ p, (u.viewList p).contents = (appInit.viewList p).contents)
    (h : uiPageOp u m = .run p) :
    p ≠ .home ∧ (p = .pswAlter → m.eventStruct ≠ .uiReflexEvent ∧ ∃ r, m.IsGrant r) := by
  unfold uiPageOp at h
  split at h
  · cases h
    exact ⟨nofun, nofun⟩
  rename_i htag
  split at h
  · rename_i e _ _
    unfold doorLockOp at h
    cases hs : e.lockStatus <;> rw [hs] at h <;> cases h
    exact ⟨nofun, nofun⟩
  · rename_i e _ _
    obtain ⟨status, progress, detail⟩ := e
    cases status <;> cases progress <;> cases h <;> exact ⟨nofun, nofun⟩
  · obtain ⟨hhome, halter⟩ := inptOp_run hl h
    exact ⟨hhome, fun heq => absurd heq halter⟩
  · rename_i r hs hc
    unfold authOp at h
    split at h
    · rename_i hr
      cases h
      exact ⟨nofun, fun _ => ⟨htag, r, hs, hc, hr.1, hr.2⟩⟩
    · cases h
  · cases h

/-- `activity_psw_alter` is opened by a granted authentication, and in no other way. -/
theorem uiPageOp_run_pswAlter {u : Ui} {m : EventMsg}
    (hl : ∀ p, (u.viewList p).contents = (appInit.viewList p).contents)
    (h : uiPageOp u m = .run .pswAlter) : m.eventStruct ≠ .uiReflexEvent ∧ ∃ r, m.IsGrant r :=
  (uiPageOp_run hl h).2 rfl

end

end DoorLock
