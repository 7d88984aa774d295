import DoorLock.Lib.Stack
import DoorLock.UiRun

/-!
# Automatic closing

`activity_back` pops whatever is on top. The run is flattened to what is published and to the
pages that are opened and closed, so that an automatic call of `activity_back` can be asked whether
the entry it pops is the one that the event it closes had pushed.
-/

namespace DoorLock

open Transition Stack

/-- What happens to the pages in a run. -/
inductive PageEvent
  /-- A message was published; `start` is for `DOOR_UNLOCK` and `FG_JOB_START`. -/
  | sent (sender : Component) (addr : Nat) (start : Bool)
  /-- The message with content address `addr` opened a page. -/
  | opened (addr : Nat) (p : Page)
  /-- A page was closed: by a key, or automatically on behalf of the message `addr`. -/
  | closed (auto : Option Nat)
  deriving DecidableEq

namespace PageEvent

def move : PageEvent → Move Page
  | .sent _ _ _ => .stay
  | .opened _ p => .push p
  | .closed _ => .pop

/-- The message `addr` opened a page. -/
def opensFor (addr : Nat) : PageEvent → Bool
  | .opened a _ => a == addr
  | _ => false

end PageEvent

/-- The events that begin what a later event of the same sender ends. -/
def MsgContent.starts : MsgContent → Bool
  | .doorlockEvent e => e.lockStatus = .unlock
  | .fgEvent e => e.fgJobProgress = .jobStart
  | _ => false

/-- The messages published by `outs`, from the content address `addr` on. -/
def sentEvents (addr : Nat) : List Out → List PageEvent
  | [] => []
  | .publish sender _ content _ :: outs =>
    .sent sender addr content.starts :: sentEvents (addr + 1) outs
  | _ :: outs => sentEvents addr outs

def uiEvents (u : Ui) (m : EventMsg) : List PageEvent :=
  match uiPageOp u m with
  | .run p => [.opened m.addr p]
  | .back => [.closed (if m.sender = .hwInpt then none else some m.addr)]
  | _ => []

/-- The deferred calls of a pass, each on behalf of the message that asked for it. -/
def dueEvents (calls : List (Option Call × List Nat)) : List PageEvent :=
  calls.map fun c => .closed (c.1.map fun (.activityBack reqBy) => reqBy)

/-- The pages opened and closed in a step. -/
def stepPages (w : World) : Action → List PageEvent
  | .ui => match w.queueUi with
    | [] => []
    | m :: _ => uiEvents w.ui m
  | .systemTimeout curTime =>
    if w.invoker.mutexTaken then [] else dueEvents (w.invoker.dueCalls curTime)
  | _ => []

def pageEvents (env : Env) (l : Label World Action) : List PageEvent :=
  stepPages l.pre l.act ++ sentEvents l.pre.nextAddr (outsOf env l.pre l.act)

/-- The record of a run. It begins with the home page that `app_init` opens. -/
def pagesOf (env : Env) (tr : List (Label World Action)) : List PageEvent :=
  .opened 0 .home :: tr.flatMap (pageEvents env)

/-- The stack behind a record, each page with the number of the event that opened it. -/
def pageStack (es : List PageEvent) : List (Nat × Page) :=
  entries activityStackDepthMax (es.map PageEvent.move)

/-! ## The stack of a run -/

section
variable {env : Env} {kv : Kvdb} {tr : List (Label World Action)} {w w' : World} {a : Action}
variable {l : Label World Action}

theorem pagesOf_snoc : pagesOf env (tr ++ [l]) = pagesOf env tr ++ pageEvents env l := by
  simp [pagesOf]

theorem pageStack_append (es es' : List PageEvent) : pageStack (es ++ es') =
    replay activityStackDepthMax es.length (pageStack es) (es'.map PageEvent.move) := by
  rw [pageStack, List.map_append, entries_append, List.length_map, pageStack]

theorem sentEvents_stay (addr : Nat) (outs : List Out) :
    ∀ m ∈ (sentEvents addr outs).map PageEvent.move, m = .stay := by
  induction outs generalizing addr with
  | nil => exact fun _ h => nomatch h
  | cons o outs ih =>
    cases o with
    | publish s r c t =>
      intro m hm
      rcases List.mem_cons.mp hm with rfl | hm
      · rfl
      · exact ih _ m hm
    | invoke => exact ih addr
    | setFgNextState => exact ih addr
    | free => exact ih addr

theorem pageStack_sent (es : List PageEvent) (addr : Nat) (outs : List Out) :
    pageStack (es ++ sentEvents addr outs) = pageStack es := by
  rw [pageStack_append, replay_stay (sentEvents_stay addr outs)]

/-- A page operation that comes back does to the stack what the record says. -/
theorem pageStack_uiEvents {es : List PageEvent} {u : Ui} {m : EventMsg} {d d' : Display}
    (hop : (uiPageOp u m).apply d = .ok d') (h : (pageStack es).map Prod.snd = d.stack.activities) :
    (pageStack (es ++ uiEvents u m)).map Prod.snd = d'.stack.activities := by
  rw [pageStack_append]
  unfold uiEvents
  cases ho : uiPageOp u m with
  | run p =>
    rw [ho] at hop
    cases hop
    have hdepth : d.stack.depth = (pageStack es).length := by
      rw [ActivityStack.depth, ← h, List.length_map]
    change (if (pageStack es).length < activityStackDepthMax then _ else _ :
      List (Nat × Page)).map Prod.snd = _
    rw [activityRun]
    by_cases hlt : d.stack.depth < activityStackDepthMax
    · rw [if_pos (hdepth ▸ hlt), activityStackPush_of_lt hlt, ← h]
      rfl
    · rw [if_neg (hdepth ▸ hlt), activityStackPush_of_full hlt, h]
  | back =>
    rw [ho] at hop
    obtain ⟨p, q, rest, hd, hd', -⟩ := activityBack_ok hop
    change (pageStack es).tail.map Prod.snd = _
    rw [List.map_tail, h, hd, hd', List.tail_cons]
  | refresh =>
    rw [ho] at hop
    rw [(activityScreenRefresh_eq hop).1]
    exact h
  | keep =>
    rw [ho] at hop
    cases hop
    exact h

theorem pageStack_dueEvents {es : List PageEvent} {calls : List (Option Call × List Nat)}
    {d d' : Display} (hb : backs calls.length d = .ok d')
    (h : (pageStack es).map Prod.snd = d.stack.activities) :
    (pageStack (es ++ dueEvents calls)).map Prod.snd = d'.stack.activities := by
  rw [pageStack_append, replay_pops, (backs_ok hb).1, ← h, List.map_drop]
  · simp [dueEvents]
  · intro m hm
    simp only [dueEvents, List.map_map] at hm
    obtain ⟨c, -, rfl⟩ := List.mem_map.mp hm
    rfl

theorem pageStack_step {es : List PageEvent} (hs : step env w a = .ok w')
    (hne : w.ui.stack.activities ≠ [])
    (h : (pageStack es).map Prod.snd = w.ui.stack.activities) :
    (pageStack (es ++ stepPages w a)).map Prod.snd = w'.ui.stack.activities := by
  have hsame (hu : w'.ui = w.ui) :
      (pageStack (es ++ [])).map Prod.snd = w'.ui.stack.activities := by
    rw [List.append_nil, hu, h]
  cases a with
  | ui =>
    obtain ⟨m, rest, x, hq, hx, rfl⟩ := stepUi_ok hs
    rw [stepPages, hq, performAll_ui]
    exact pageStack_uiEvents ((uiEventHandler_follows env m hne).ok hx) h
  | systemTimeout curTime =>
    obtain ⟨-, ⟨hm, rfl⟩ | ⟨hm, u, hu, rfl⟩⟩ := stepSystemTimeout_ok hs
    · rw [stepPages, if_pos hm]
      exact hsame rfl
    · rw [stepPages, if_neg (by simp [hm])]
      have hb := runCalls_display (u := w.ui) (runCalls_calls hu)
      rw [hu] at hb
      exact pageStack_dueEvents hb.symm h
  | key | touch | fgPublish | system | door | doorTimeout =>
    refine hsame ?_
    rcases ui_step hs with hu | ⟨ha, -⟩ | ⟨_, ha, -⟩
    · exact hu
    · cases ha
    · cases ha

/-- The stack is that of the record. -/
theorem pageStack_run (h : RunFrom env kv tr w) :
    (pageStack (pagesOf env tr)).map Prod.snd = w.ui.stack.activities := by
  induction h with
  | nil => rfl
  | snoc hrun hs ih =>
    rw [pagesOf_snoc, pageEvents, ← List.append_assoc, pageStack_sent]
    exact pageStack_step hs (stack_ne_nil hrun) ih

end

/-! ## The event that an automatic return closes -/

/-- The latest start sent before the message `addr` by the same sender. -/
def startOf (addr : Nat) : (Component → Option Nat) → List PageEvent → Option Nat
  | _, [] => none
  | cur, .sent sender a start :: es =>
    if a = addr then cur sender
    else startOf addr (if start then Function.update cur sender (some a) else cur) es
  | cur, _ :: es => startOf addr cur es

/-- The number of the event that opened the page which the message `addr` closes: its own page, or
the page of the start that it ends. -/
def openerOf (es : List PageEvent) (addr : Nat) : Option Nat :=
  match es.findIdx? (·.opensFor addr) with
  | some n => some n
  | none => (startOf addr (fun _ => none) es).bind fun start => es.findIdx? (·.opensFor start)

/-- The entry popped on behalf of `addr`, behind the record `es`, is that of its own page. -/
def ClosesOwn (es : List PageEvent) (addr : Nat) : Prop :=
  ∃ n, openerOf es addr = some n ∧ (pageStack es).head?.map Prod.fst = some n

/-- Since the page that `addr` closes was opened, pages were opened and closed in pairs. -/
def NestedSince (es : List PageEvent) (addr : Nat) : Prop :=
  ∃ as a p ws, es = as ++ .opened a p :: ws ∧ openerOf es addr = some as.length ∧
    Nested activityStackDepthMax (as.map PageEvent.move) p (ws.map PageEvent.move)

theorem split_of_findIdx {es : List PageEvent} {addr n : Nat}
    (h : es.findIdx? (·.opensFor addr) = some n) :
    ∃ as a p ws, es = as ++ .opened a p :: ws ∧ as.length = n := by
  obtain ⟨hn, hp, -⟩ := List.findIdx?_eq_some_iff_getElem.mp h
  cases he : es[n] with
  | opened a p =>
    refine ⟨es.take n, a, p, es.drop (n + 1), ?_, List.length_take_of_le hn.le⟩
    rw [← he, List.getElem_cons_drop, List.take_append_drop]
  | sent | closed =>
    rw [he] at hp
    cases hp

theorem split_of_openerOf {es : List PageEvent} {addr n : Nat} (h : openerOf es addr = some n) :
    ∃ as a p ws, es = as ++ .opened a p :: ws ∧ as.length = n := by
  unfold openerOf at h
  split at h
  · rename_i hn
    cases h
    exact split_of_findIdx hn
  · obtain ⟨start, -, hn⟩ := Option.bind_eq_some_iff.mp h
    exact split_of_findIdx hn

/-- An automatic return closes its own page exactly when pages were opened and closed in pairs
since. -/
theorem closesOwn_iff {es : List PageEvent} {addr : Nat} :
    ClosesOwn es addr ↔ NestedSince es addr := by
  have hstack (as : List PageEvent) (a : Nat) (p : Page) (ws : List PageEvent) :
      (pageStack (as ++ .opened a p :: ws)).head?.map Prod.fst = some as.length ↔
        Nested activityStackDepthMax (as.map PageEvent.move) p (ws.map PageEvent.move) := by
    have h := head_owner_iff activityStackDepthMax (as.map PageEvent.move) p
      (ws.map PageEvent.move)
    rw [List.length_map] at h
    rw [← h, pageStack, List.map_append]
    rfl
  constructor
  · rintro ⟨n, hopen, htop⟩
    obtain ⟨as, a, p, ws, rfl, rfl⟩ := split_of_openerOf hopen
    exact ⟨as, a, p, ws, rfl, hopen, (hstack as a p ws).mp htop⟩
  · rintro ⟨as, a, p, ws, rfl, hopen, hn⟩
    exact ⟨as.length, hopen, (hstack as a p ws).mpr hn⟩

/-! ## The end of an unlocking -/

/-- In the step the UI task handles the `DOOR_RELOCK` in `m`. -/
structure Relocks (l : Label World Action) (m : EventMsg) : Prop where
  act : l.act = .ui
  taken : l.pre.queueUi.head? = some m
  event : m.eventStruct ≠ .uiReflexEvent
  sender : m.sender = .hwDoorLock
  content : ∃ e, m.content = .doorlockEvent e ∧ e.lockStatus = .relock

/-- No deferred call is pending. -/
def NoPending (w : World) : Prop := ∀ e ∈ w.invoker.toDoList, e.pending = false

/-- The unlock page was not on the stack when the page that `addr` closes was opened. -/
def OpenedAfresh (es : List PageEvent) (addr : Nat) : Prop :=
  ∀ n, openerOf es addr = some n → Page.doorUnlock ∉ (pageStack (es.take n)).map Prod.snd

section
variable {env : Env} {kv : Kvdb} {tr p q : List (Label World Action)} {w : World}
variable {l : Label World Action} {m : EventMsg}

theorem Relocks.pageEvents (h : Relocks l m) : pageEvents env l =
    .closed (some m.addr) :: sentEvents l.pre.nextAddr (outsOf env l.pre l.act) := by
  obtain ⟨e, hc, he⟩ := h.content
  have hop : uiPageOp l.pre.ui m = .back := by
    simp only [uiPageOp, if_neg h.event, h.sender, hc, doorLockOp, he]
  obtain ⟨rest, hq⟩ : ∃ rest, l.pre.queueUi = m :: rest := List.head?_eq_some_iff.mp h.taken
  rw [DoorLock.pageEvents, h.act, stepPages, hq]
  simp [uiEvents, hop, h.sender]

/-- A relock whose page is on top leaves the stack as the unlock found it. -/
theorem relock_iff (h : RunFrom env kv (p ++ l :: q) w) (hr : Relocks l m)
    (hn : NestedSince (pagesOf env p) m.addr) :
    Page.doorUnlock ∉ l.post.ui.stack.activities ↔ OpenedAfresh (pagesOf env p) m.addr := by
  obtain ⟨hrun, hs, -⟩ := h.split rfl
  obtain ⟨as, a, pg, ws, hes, hopen, hnest⟩ := hn
  have hbefore : pageStack (pagesOf env p) = (as.length, pg) :: pageStack as := by
    have hentries := hnest.entries_eq
    rw [List.length_map] at hentries
    rw [hes, pageStack, List.map_append]
    exact hentries
  have hpost : l.post.ui.stack.activities = (pageStack as).map Prod.snd := by
    rw [← pageStack_run (hrun.snoc hs), pagesOf_snoc, hr.pageEvents, List.append_cons,
      pageStack_sent, pageStack_append, hbefore]
    rfl
  rw [hpost, OpenedAfresh]
  simp only [hopen, Option.some.injEq, forall_eq']
  rw [hes, List.take_left]

/-! ## Whole runs -/

/-- Every automatic return pops the entry of the event it closes, and behind a relock with no
deferred call pending the unlock page is not on the stack. -/
structure ClosesRight (env : Env) (tr : List (Label World Action)) : Prop where
  own : ∀ es addr rest, pagesOf env tr = es ++ .closed (some addr) :: rest → ClosesOwn es addr
  relock : ∀ p l q m, tr = p ++ l :: q → Relocks l m → NoPending l.post →
    Page.doorUnlock ∉ l.post.ui.stack.activities

/-- When an automatic return is due, pages have been opened and closed in pairs since the one that
it closes, and the unlock that a relock ends found no unlock page on the stack. -/
structure InPairs (env : Env) (tr : List (Label World Action)) : Prop where
  nested : ∀ es addr rest, pagesOf env tr = es ++ .closed (some addr) :: rest → NestedSince es addr
  afresh : ∀ p l q m, tr = p ++ l :: q → Relocks l m → NoPending l.post →
    OpenedAfresh (pagesOf env p) m.addr

theorem pagesOf_relock (env : Env) (p q : List (Label World Action)) (hr : Relocks l m) : ∃ rest,
    pagesOf env (p ++ l :: q) = pagesOf env p ++ .closed (some m.addr) :: rest := by
  refine ⟨sentEvents l.pre.nextAddr (outsOf env l.pre l.act) ++ q.flatMap (pageEvents env), ?_⟩
  simp [pagesOf, hr.pageEvents]

/-- In every run the automatic returns close the right pages exactly when pages are opened and
closed in pairs around them. -/
theorem closesRight_iff (h : RunFrom env kv tr w) : ClosesRight env tr ↔ InPairs env tr := by
  constructor
  · intro hr
    have hnest : ∀ es addr rest, pagesOf env tr = es ++ .closed (some addr) :: rest →
        NestedSince es addr := fun es addr rest hes => closesOwn_iff.mp (hr.own es addr rest hes)
    refine ⟨hnest, ?_⟩
    rintro p l q m rfl hm hp
    obtain ⟨rest, hrest⟩ := pagesOf_relock env p q hm
    exact (relock_iff h hm (hnest _ _ _ hrest)).mp (hr.relock p l q m rfl hm hp)
  · intro hc
    refine ⟨fun es addr rest hes => closesOwn_iff.mpr (hc.nested es addr rest hes), ?_⟩
    rintro p l q m rfl hm hp
    obtain ⟨rest, hrest⟩ := pagesOf_relock env p q hm
    exact (relock_iff h hm (hc.nested _ _ _ hrest)).mpr (hc.afresh p l q m rfl hm hp)

end

/-- A wrong password, and the popup left until its deferred call. -/
def popupStays : List Action := press [.k1, .dash] ++ [.system, .ui, .system, .systemTimeout 0]

theorem closesRight_iff_popupStays :
    ClosesRight quietEnv (trace (step quietEnv) (boot defaultKvdb) popupStays) ↔
      InPairs quietEnv (trace (step quietEnv) (boot defaultKvdb) popupStays) :=
  closesRight_iff (Run.of_isOk popupStays (by decide +kernel))

/-- A wrong password; the popup is closed by a key and the menu opened before the deferred call. -/
def popupLeft : List Action :=
  press [.k1, .dash] ++ [.system, .ui] ++ press [.return, .enter] ++ [.system, .systemTimeout 0]

/-- The call that was to close the popup closes the menu. -/
theorem popupLeft_closes_manu : ∃ tr w, RunFrom quietEnv defaultKvdb tr w ∧
    ¬ ClosesRight quietEnv tr := by
  refine ⟨_, _, Run.of_isOk popupLeft (by decide +kernel), fun h => ?_⟩
  obtain ⟨n, hopen, htop⟩ := h.own
    (pagesOf quietEnv (trace (step quietEnv) (boot defaultKvdb) popupLeft)).dropLast 4 []
    (by decide +kernel)
  have hne : openerOf
      (pagesOf quietEnv (trace (step quietEnv) (boot defaultKvdb) popupLeft)).dropLast 4 ≠
        (pageStack (pagesOf quietEnv
          (trace (step quietEnv) (boot defaultKvdb) popupLeft)).dropLast).head?.map Prod.fst := by
    decide +kernel
  exact hne (hopen.trans htop.symm)

end DoorLock
