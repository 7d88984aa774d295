import DoorLock.Lib.Ledger
import DoorLock.Origin

/-!
# Who releases a content buffer

`event_publish` allocates a buffer for the content of each message; the task that takes the message
off its queue releases it. No buffer is ever released twice. Live buffers and queued messages stay
in step just as long as every message is delivered, `ENTER` is not pressed on the home page and
`door_lock_task` gets no message but those that unlock.
-/

namespace DoorLock

open Transition Ledger

/-! ## The ledger -/

/-- What can happen to the buffers: a step of the system, or a message from any task to any
receiver. -/
inductive BufferAction
  | step (a : Action)
  | publish (sender recver : Component) (content : MsgContent) (eventStruct : EventStruct)

def bufferStep (env : Env) (w : World) : BufferAction → Except Halt World
  | .step a => step env w a
  | .publish sender recver content eventStruct =>
    .ok (eventPublish env w sender recver content eventStruct).1

/-- The buffers of the messages that are queued: `invoke` wakes `system_service` up with a message
that has none. -/
def World.queued (w : World) : List Nat :=
  ((w.queueUi ++ w.queueSystem ++ w.queueDoorlock).map EventMsg.addr).filter (· ≠ 0)

/-- The content of the message taken in a step; address 0 is `NULL`. -/
def takenAddr (w : World) (a : Action) : Nat := ((takenBy w a).map EventMsg.addr).getD 0

/-- The buffers released in a step, as often as they are; `free(NULL)` releases none. -/
def releasedBy (env : Env) (l : Label World BufferAction) : List Nat :=
  match l.act with
  | .publish .. => []
  | .step a =>
    if takenAddr l.pre a = 0 then []
    else List.replicate ((outsOf env l.pre a).count .free) (takenAddr l.pre a)

/-- The live buffers are those of the messages that are queued. -/
def Accounted (w : World) : Prop := w.queued.Perm w.live

/-! ## When a step loses a buffer -/

/-- The length of a queue. -/
def Queue.size : Queue → Nat
  | .ui => msgBuffSize
  | .system | .doorlock => msgBuffSizeSmall

/-- A message is delivered to `recver`: it has a queue, with room for the message. -/
def Delivers (env : Env) (w : World) (recver : Component) : Prop :=
  ∃ q, recver.queue = some q ∧ ((w.queue q).length < q.size ∨ env.room w.nextAddr)

def OutDelivers (env : Env) (w : World) : Out → Prop
  | .publish _ recver _ _ => Delivers env w recver
  | _ => True

/-- Each message that is published finds its receiver as the calls before it left it. -/
def AllDeliver (env : Env) (addr : Nat) : World → List Out → Prop
  | _, [] => True
  | w, o :: outs => OutDelivers env w o ∧ AllDeliver env addr (perform env addr w o) outs

/-- `ENTER` on the home page. -/
structure EntersManu (u : Ui) (m : EventMsg) : Prop where
  tag : m.eventStruct ≠ .uiReflexEvent
  key : m.IsKey inptBtnEnter
  peek : u.peek = some .home

/-- The task that takes `m` in a step releases its content. -/
def Frees (env : Env) (w : World) (a : Action) (m : EventMsg) : Prop :=
  match a with
  | .ui => ¬EntersManu w.ui m
  | .door => m.content.asPaswValid (env.pad m.addr) = some 1
  | _ => True

/-- The state in which the calls of a step begin, as far as its queues go. -/
def afterTake (w : World) : Action → World
  | .ui => { w with queueUi := w.queueUi.tail }
  | .system => { w with queueSystem := w.queueSystem.tail }
  | .door => { w with queueDoorlock := w.queueDoorlock.tail }
  | _ => w

/-- A step that loses no buffer. -/
def LosesNone (env : Env) (l : Label World BufferAction) : Prop :=
  match l.act with
  | .publish _ recver _ _ => Delivers env l.pre recver
  | .step a =>
    (∀ m, takenBy l.pre a = some m → m.addr ≠ 0 → Frees env l.pre a m) ∧
      AllDeliver env (takenAddr l.pre a) (afterTake l.pre a) (outsOf env l.pre a)

/-! ## What each handler releases -/

/-- A result that comes with no release. -/
def NoFree {α : Type} (r : Except Fault (α × List Out)) : Prop := ∀ x, r = .ok x → .free ∉ x.2

section
variable {env : Env} {u : Ui} {m : EventMsg}

namespace NoFree

variable {α : Type}

theorem error {f : Fault} : NoFree (.error f : Except Fault (α × List Out)) := nofun

theorem pure {a : α} {outs : List Out} (h : .free ∉ outs) : NoFree (.ok (a, outs)) := by
  rintro x ⟨⟩
  exact h

theorem bind {β : Type} {r₀ : Except Fault β} {f : β → α} {outs : List Out} (h : .free ∉ outs) :
    NoFree (r₀.bind fun b => .ok (f b, outs)) := by
  cases r₀ with
  | error f => exact error
  | ok b => exact .pure h

end NoFree

theorem uiDoorLock_noFree (e : DoorlockEvent) :
    NoFree ((uiDoorLock u e).map fun u => (u, [])) := by
  cases uiDoorLock u e with
  | error f => exact .error
  | ok u => exact .pure List.not_mem_nil

theorem uiFg_noFree (addr : Nat) (e : FgEvent) : NoFree (uiFg addr u e) := by
  obtain ⟨status, progress, detail⟩ := e
  cases status <;> cases progress <;>
    first
      | exact .pure (by decide)
      | exact .bind (by simp)

theorem uiListKey_noFree (p : Page) (content : UInt16) : NoFree (uiListKey u p content) := by
  unfold uiListKey
  have hshift (dir : Int) : NoFree ((viewListSelectShift (u.viewList p) dir).bind fun l =>
      (u.setViewList p l).refresh.bind fun u => .ok (u, [])) := by
    cases viewListSelectShift (u.viewList p) dir with
    | error f => exact .error
    | ok l => exact .bind List.not_mem_nil
  split
  · exact hshift (-1)
  split
  · exact hshift 1
  split
  · cases (u.viewList p).deref (u.viewList p).vlContentSelect with
    | none => exact .error
    | some item =>
      dsimp only
      cases item.vlcAction <;> exact .pure (by simp)
  · exact .pure List.not_mem_nil

theorem uiControl_noFree (content : UInt16) : NoFree (uiControl u content) := by
  unfold uiControl
  cases u.peek with
  | none => exact .error
  | some p =>
    have hlist : NoFree (if p.viewType = .list then uiListKey u p content else .ok (u, [])) := by
      split
      · exact uiListKey_noFree p content
      · exact .pure List.not_mem_nil
    dsimp only
    generalize (if p.viewType = .list then uiListKey u p content else .ok (u, [])) = r at hlist ⊢
    split
    · cases r with
      | error f => exact .error
      | ok x => exact .bind (hlist x rfl)
    · exact hlist

theorem uiChar_noFree (addr : Nat) (content : UInt16) : NoFree (uiChar env addr u content) := by
  unfold uiChar
  generalize (if u.peek = some .home ∧ content ≠ keyHash then
    paswAuthActivityLaunch (u.clearInpt .pswAuth) .doorUnlock else u) = v
  dsimp only
  split
  · split
    · exact .bind (by simp)
    split
    · exact .bind (by simp)
    · exact .pure List.not_mem_nil
  · cases v.peek with
    | none => exact .error
    | some p =>
      dsimp only
      split <;> exact .pure List.not_mem_nil

/-- The calls of a handler that goes through its end: the content is released last. -/
def FreesLast (outs : List Out) : Prop := ∃ outs', outs = outs' ++ [.free] ∧ .free ∉ outs'

theorem NoFree.thenFree {r : Except Fault (Ui × List Out)} (h : NoFree r) {x : Ui × List Out}
    (hx : thenFree r = .ok x) : FreesLast x.2 := by
  cases r with
  | error f => cases hx
  | ok y =>
    cases hx
    exact ⟨y.2, rfl, h y rfl⟩

/-- `ENTER` on the home page is the one key whose content is not released. -/
theorem uiInpt_frees {addr : Nat} {content : UInt16} {x : Ui × List Out}
    (hx : uiInpt env addr u content = .ok x) :
    ((u.peek = some .home ∧ content = inptBtnEnter) ∧ .free ∉ x.2) ∨
      (¬(u.peek = some .home ∧ content = inptBtnEnter) ∧ FreesLast x.2) := by
  unfold uiInpt at hx
  split at hx
  · split at hx
    · rename_i henter
      cases hx
      exact .inl ⟨henter, List.not_mem_nil⟩
    · rename_i henter
      exact .inr ⟨henter, (uiControl_noFree content).thenFree hx⟩
  · rename_i hchar
    exact .inr ⟨fun h => hchar (h.2 ▸ by decide), (uiChar_noFree addr content).thenFree hx⟩

theorem uiEventHandler_frees {x : Ui × List Out} (hx : uiEventHandler env u m = .ok x) :
    (EntersManu u m ∧ .free ∉ x.2) ∨ (¬EntersManu u m ∧ FreesLast x.2) := by
  unfold uiEventHandler at hx
  by_cases htag : m.eventStruct = .uiReflexEvent
  · rw [if_pos htag] at hx
    refine .inr ⟨fun h => h.tag htag, ?_⟩
    split at hx
    · exact NoFree.thenFree (.pure (by simp)) hx
    · cases hx
  rw [if_neg htag] at hx
  by_cases hinpt : m.sender = .hwInpt
  · rw [hinpt] at hx
    dsimp only at hx
    split at hx
    · rename_i e hc
      have hkey : EntersManu u m ↔ u.peek = some .home ∧ e.content = inptBtnEnter := by
        refine ⟨fun h => ⟨h.peek, ?_⟩, fun ⟨hpeek, henter⟩ =>
          ⟨htag, ⟨hinpt, henter ▸ hc⟩, hpeek⟩⟩
        cases hc.symm.trans h.key.content
        rfl
      rw [hkey]
      exact uiInpt_frees hx
    · cases hx
  refine .inr ⟨fun h => hinpt h.key.sender, ?_⟩
  split at hx
  · split at hx
    · exact (uiDoorLock_noFree _).thenFree hx
    · cases hx
  · split at hx
    · exact (uiFg_noFree _ _).thenFree hx
    · cases hx
  · rename_i hs
    exact absurd hs hinpt
  · split at hx
    · exact NoFree.thenFree (.pure List.not_mem_nil) hx
    · cases hx
  · exact NoFree.thenFree (.pure List.not_mem_nil) hx

theorem systemAuth_noFree {addr : Nat} {kv : Kvdb} {e : AuthEvent} {outs : List Out}
    (h : systemAuth env addr kv e = .ok outs) : .free ∉ outs := by
  unfold systemAuth at h
  split at h
  · cases h
    simp [trustedAuth]
  · split at h
    · cases h
    · cases h
      intro hmem
      rcases mem_untrustedAuth hmem with ⟨prefab, ho⟩ | ho <;> cases ho

/-- `system_service` releases every message. -/
theorem systemService_frees {kv : Kvdb} {x : Kvdb × List Out}
    (hx : systemService env kv m = .ok x) : FreesLast x.2 := by
  cases systemService_ok hx with
  | auth _ _ ho => exact ⟨_, rfl, systemAuth_noFree ho⟩
  | sysop _ _ _ ho =>
    refine ⟨_, rfl, fun hmem => ?_⟩
    obtain ⟨prefab, hfree⟩ := systemSysop_outs ho _ hmem
    cases hfree
  | other => exact ⟨[], rfl, List.not_mem_nil⟩

/-- `door_lock_task` releases the messages that unlock. -/
theorem doorLockRecv_frees {pad : UInt8} {d : DoorTask} {content : MsgContent}
    {x : DoorTask × List Out} (hx : doorLockRecv pad d content = .ok x) :
    (content.asPaswValid pad = some 1 ∧ FreesLast x.2) ∨
      (content.asPaswValid pad ≠ some 1 ∧ .free ∉ x.2) := by
  unfold doorLockRecv at hx
  split at hx
  · cases hx
  rename_i v hv
  split at hx
  · rename_i hone
    cases hx
    exact .inl ⟨hone ▸ hv, [doorEventOut .unlock 0], rfl, by decide⟩
  · rename_i hone
    cases hx
    exact .inr ⟨by simpa [hv] using hone, List.not_mem_nil⟩

end

/-! ## What a call does to the ledger -/

/-- The buffers in `hand` and those of the queued messages are live, and distinct. -/
structure Held (w : World) (hand : List Nat) : Prop where
  pos : 0 < w.nextAddr
  zero : 0 ∉ w.live
  sub : (hand ++ w.queued).Subperm w.live

/-- No other buffer is live. -/
def AccountedWith (w : World) (hand : List Nat) : Prop := (hand ++ w.queued).Perm w.live

/-- The buffers of the messages on a queue. -/
def buffers (queue : List EventMsg) : List Nat := (queue.map EventMsg.addr).filter (· ≠ 0)

section
variable {env : Env} {addr : Nat} {w : World} {hand : List Nat} {r : Component} {o : Out}

theorem queued_eq (w : World) : w.queued =
    buffers (w.queue .ui) ++ buffers (w.queue .system) ++ buffers (w.queue .doorlock) := by
  simp [World.queued, buffers, World.queue]

/-- One more buffer on one of the queues. -/
theorem queued_perm {w' : World} {q : Queue} {a : Nat}
    (hq : buffers (w'.queue q) = buffers (w.queue q) ++ [a])
    (hother : ∀ q', q' ≠ q → w'.queue q' = w.queue q') : w'.queued.Perm (a :: w.queued) := by
  rw [queued_eq, queued_eq]
  cases q with
  | ui =>
    rw [hq, hother .system nofun, hother .doorlock nofun, List.append_assoc, List.append_assoc,
      List.append_assoc]
    exact List.perm_middle
  | system =>
    rw [hq, hother .ui nofun, hother .doorlock nofun, ← List.append_assoc, List.append_assoc]
    exact List.perm_middle
  | doorlock =>
    rw [hq, hother .ui nofun, hother .system nofun, ← List.append_assoc]
    exact List.perm_append_singleton _ _

theorem queued_congr {w' : World} (h : ∀ q, buffers (w'.queue q) = buffers (w.queue q)) :
    w'.queued = w.queued := by
  rw [queued_eq, queued_eq, h, h, h]

theorem queue_eventPublish (s : Component) (c : MsgContent) (t : EventStruct) (q : Queue) :
    (eventPublish env w s r c t).1.queue q =
      if r.queue = some q then
        (xQueueSend q.size (env.room w.nextAddr) (w.queue q) ⟨s, r, t, w.nextAddr, c⟩).1
      else w.queue q := by
  cases r <;> cases q <;> rfl

theorem buffers_xQueueSend (size : Nat) (room : Bool) (queue : List EventMsg) (m : EventMsg) :
    buffers (xQueueSend size room queue m).1 =
      if queue.length < size ∨ room then buffers queue ++ buffers [m] else buffers queue := by
  unfold xQueueSend
  split
  · simp [buffers]
  · rfl

theorem buffers_single {m : EventMsg} (h : m.addr ≠ 0) : buffers [m] = [m.addr] := by
  simp [buffers, h]

theorem queued_delivered (hpos : 0 < w.nextAddr) (h : Delivers env w r) (s : Component)
    (c : MsgContent) (t : EventStruct) :
    (eventPublish env w s r c t).1.queued.Perm (w.nextAddr :: w.queued) := by
  obtain ⟨q, hr, hroom⟩ := h
  refine queued_perm (q := q) ?_ fun q' hne => ?_
  · rw [queue_eventPublish, if_pos hr, buffers_xQueueSend, if_pos hroom,
      buffers_single hpos.ne']
  · rw [queue_eventPublish, if_neg fun h => hne (Option.some.inj (h.symm.trans hr))]

theorem queued_undelivered (h : ¬Delivers env w r) (s : Component) (c : MsgContent)
    (t : EventStruct) : (eventPublish env w s r c t).1.queued = w.queued := by
  refine queued_congr fun q => ?_
  rw [queue_eventPublish]
  split
  · rename_i hr
    rw [buffers_xQueueSend, if_neg fun hroom => h ⟨q, hr, hroom⟩]
  · rfl

theorem eventPublish_live (s : Component) (c : MsgContent) (t : EventStruct) :
    (eventPublish env w s r c t).1.live = w.nextAddr :: w.live := by
  cases r <;> rfl

/-- A message that is published is in hand for as long as it takes to be delivered. -/
theorem held_eventPublish (env : Env) (h : Held w hand) (s : Component) (c : MsgContent)
    (t : EventStruct) :
    Held (eventPublish env w s r c t).1 hand ∧
      (AccountedWith (eventPublish env w s r c t).1 hand ↔
        AccountedWith w hand ∧ Delivers env w r) := by
  have hpos : 0 < (eventPublish env w s r c t).1.nextAddr := by simp
  have hzero : 0 ∉ (eventPublish env w s r c t).1.live := by
    rw [eventPublish_live, List.mem_cons, not_or]
    exact ⟨h.pos.ne, h.zero⟩
  by_cases hd : Delivers env w r
  · have hperm : (hand ++ (eventPublish env w s r c t).1.queued).Perm
        (w.nextAddr :: (hand ++ w.queued)) :=
      ((queued_delivered h.pos hd s c t).append_left hand).trans List.perm_middle
    refine ⟨⟨hpos, hzero, ?_⟩, ?_⟩
    · rw [eventPublish_live]
      exact hperm.subperm_right.mpr ((List.subperm_cons _).mpr h.sub)
    · rw [AccountedWith, eventPublish_live, and_iff_left hd, AccountedWith]
      exact ⟨fun hp => List.perm_cons _ |>.mp (hperm.symm.trans hp),
        fun hp => hperm.trans (hp.cons _)⟩
  · have hqueued := queued_undelivered hd s c t
    refine ⟨⟨hpos, hzero, ?_⟩, iff_of_false (fun hp => ?_) fun hp => hd hp.2⟩
    · rw [hqueued, eventPublish_live]
      exact h.sub.cons_right w.nextAddr
    · -- the new buffer is live, and nobody has it
      rw [AccountedWith, hqueued, eventPublish_live] at hp
      exact not_perm_of_cons ((List.subperm_cons w.nextAddr).mpr h.sub) hp

@[simp] theorem queue_perform_setFgNextState (v : FgStatus) (q : Queue) :
    (perform env addr w (.setFgNextState v)).queue q = w.queue q := by
  cases q <;> rfl

@[simp] theorem queue_perform_free (q : Queue) :
    (perform env addr w .free).queue q = w.queue q := by
  cases q <;> rfl

/-- The calls that do not release the message that is handled. -/
theorem held_perform (h : Held w hand) (ho : o = .free → addr = 0) :
    Held (perform env addr w o) hand ∧
      (AccountedWith (perform env addr w o) hand ↔ AccountedWith w hand ∧ OutDelivers env w o) := by
  have hsame {w' : World} (hn : w'.nextAddr = w.nextAddr) (hl : w'.live = w.live)
      (hq : w'.queued = w.queued) :
      Held w' hand ∧ (AccountedWith w' hand ↔ AccountedWith w hand ∧ True) := by
    refine ⟨⟨hn ▸ h.pos, hl ▸ h.zero, ?_⟩, ?_⟩
    · rw [hq, hl]
      exact h.sub
    · rw [AccountedWith, hq, hl, and_true, AccountedWith]
  cases o with
  | publish s r c t => exact held_eventPublish env h s c t
  | invoke delay call =>
    refine hsame rfl rfl (queued_congr fun q => ?_)
    cases q with
    | ui | doorlock => rfl
    | system =>
      dsimp only [perform, World.queue]
      split
      · rw [buffers_xQueueSend, show buffers [wakeMsg] = [] from rfl, List.append_nil, ite_self]
      · rfl
  | setFgNextState v => exact hsame rfl rfl (queued_congr fun q => by simp)
  | free =>
    obtain rfl := ho rfl
    exact hsame rfl (List.erase_of_not_mem h.zero) (queued_congr fun q => by simp)

theorem held_performAll {outs : List Out} (h : Held w hand) (ho : .free ∈ outs → addr = 0) :
    Held (performAll env addr w outs) hand ∧
      (AccountedWith (performAll env addr w outs) hand ↔
        AccountedWith w hand ∧ AllDeliver env addr w outs) := by
  induction outs generalizing w with
  | nil => exact ⟨h, (and_true _).symm ▸ Iff.rfl⟩
  | cons o outs ih =>
    obtain ⟨hheld, hacc⟩ := held_perform h fun heq => ho (heq ▸ List.mem_cons_self)
    obtain ⟨hheld', hacc'⟩ := ih hheld fun hmem => ho (List.mem_cons_of_mem o hmem)
    refine ⟨hheld', ?_⟩
    rw [performAll_cons, hacc', hacc, AllDeliver, and_assoc]

/-- The message that is handled is released. -/
theorem held_free (env : Env) {a : Nat} (h : Held w [a]) : Held (perform env a w .free) [] ∧
    (AccountedWith (perform env a w .free) [] ↔ AccountedWith w [a]) := by
  have hqueued : (perform env a w .free).queued = w.queued := queued_congr fun q => by simp
  have hmem : a ∈ w.live := h.sub.subset List.mem_cons_self
  refine ⟨⟨h.pos, fun hz => h.zero (List.mem_of_mem_erase hz), ?_⟩, ?_⟩
  · rw [hqueued]
    exact subperm_release h.sub
  · rw [AccountedWith, hqueued]
    exact perm_release_iff hmem

/-- The message that is handled is forgotten. -/
theorem held_forget {a : Nat} (h : Held w [a]) : Held w [] ∧ ¬AccountedWith w [] :=
  ⟨⟨h.pos, h.zero, (List.subperm_cons_self).trans h.sub⟩, not_perm_of_cons h.sub⟩

theorem conserved_perform {released : List Nat} (h : Conserved w.nextAddr released w.live)
    (hpos : 0 < w.nextAddr) (ho : o = .free → addr = 0) :
    Conserved (perform env addr w o).nextAddr released (perform env addr w o).live := by
  cases o with
  | publish s r c t =>
    dsimp only [perform]
    rw [eventPublish_nextAddr, eventPublish_live]
    exact h.alloc hpos
  | invoke delay call => exact h
  | setFgNextState v => exact h
  | free =>
    obtain rfl := ho rfl
    dsimp only [perform]
    rw [List.erase_of_not_mem h.zero_notMem]
    exact h

theorem conserved_performAll {released : List Nat} {outs : List Out}
    (h : Conserved w.nextAddr released w.live) (hpos : 0 < w.nextAddr)
    (ho : .free ∈ outs → addr = 0) :
    Conserved (performAll env addr w outs).nextAddr released (performAll env addr w outs).live := by
  induction outs generalizing w with
  | nil => exact h
  | cons o outs ih =>
    refine ih (conserved_perform h hpos fun heq => ho (heq ▸ List.mem_cons_self)) ?_
      fun hmem => ho (List.mem_cons_of_mem o hmem)
    exact hpos.trans_le (nextAddr_le_perform env addr w o)

end

/-! ## What a step does to it -/

section
variable {env : Env} {addr : Nat} {w w' : World} {a : Action} {m : EventMsg} {outs : List Out}

theorem allDeliver_congr (hq : ∀ q, w.queue q = w'.queue q) (hn : w.nextAddr = w'.nextAddr)
    (hi : w.invoker = w'.invoker) : AllDeliver env addr w outs ↔ AllDeliver env addr w' outs := by
  induction outs generalizing w w' with
  | nil => exact Iff.rfl
  | cons o outs ih =>
    have hd (r : Component) : Delivers env w r ↔ Delivers env w' r := by
      simp only [Delivers, hq, hn]
    cases o with
    | publish s r c t =>
      refine and_congr (hd r) (ih (fun q => ?_) ?_ ?_)
      · simp only [perform, queue_eventPublish, hq, hn]
      · simp [perform, hn]
      · simp [perform, hi]
    | invoke delay call =>
      refine and_congr_right fun _ => ih (fun q => ?_) hn ?_
      · cases q with
        | ui => exact hq .ui
        | doorlock => exact hq .doorlock
        | system =>
          have hsystem : w.queueSystem = w'.queueSystem := hq .system
          simp only [perform, World.queue, hi, hn, hsystem]
      · simp only [perform, hi]
    | setFgNextState v => exact and_congr_right fun _ => ih (fun q => by simp [hq]) hn hi
    | free => exact and_congr_right fun _ => ih (fun q => by simp [hq]) hn hi

theorem performAll_concat (o : Out) :
    performAll env addr w (outs ++ [o]) = perform env addr (performAll env addr w outs) o :=
  List.foldl_append

theorem allDeliver_append_free : AllDeliver env addr w (outs ++ [.free]) ↔
    AllDeliver env addr w outs := by
  induction outs generalizing w with
  | nil => simp [AllDeliver, OutDelivers]
  | cons o outs ih => rw [List.cons_append, AllDeliver, AllDeliver, ih]

/-- A step takes its message and then makes its calls. -/
theorem step_parts (h : step env w a = .ok w') : ∃ w₁,
    w' = performAll env (takenAddr w a) w₁ (outsOf env w a) ∧ w₁.nextAddr = w.nextAddr ∧
      w₁.live = w.live ∧ (∀ q, w₁.queue q = (afterTake w a).queue q) ∧
        (AllDeliver env (takenAddr w a) w₁ (outsOf env w a) ↔
          AllDeliver env (takenAddr w a) (afterTake w a) (outsOf env w a)) := by
  cases a with
  | key k =>
    cases h
    exact ⟨w, rfl, rfl, rfl, fun q => rfl, Iff.rfl⟩
  | touch fg fuel =>
    obtain ⟨-, -, rfl⟩ := stepTouch_ok h
    exact ⟨_, rfl, rfl, rfl, fun q => by cases q <;> rfl, Iff.rfl⟩
  | fgPublish =>
    obtain ⟨o, rest, hp, rfl⟩ := stepFgPublish_ok h
    have hqueue (q : Queue) :
        ({ w with fg := { w.fg with pending := rest } } : World).queue q = w.queue q := by
      cases q <;> rfl
    refine ⟨{ w with fg := { w.fg with pending := rest } }, ?_, rfl, rfl, hqueue,
      allDeliver_congr hqueue rfl rfl⟩
    simp [outsOf, hp, takenAddr, takenBy]
  | ui =>
    obtain ⟨m, rest, x, hq, hx, rfl⟩ := stepUi_ok h
    have hqueue (q : Queue) : ({ w with queueUi := rest, ui := x.1 } : World).queue q
        = (afterTake w .ui).queue q := by
      cases q <;> simp [World.queue, afterTake, hq]
    refine ⟨{ w with queueUi := rest, ui := x.1 }, ?_, rfl, rfl, hqueue,
      allDeliver_congr hqueue rfl rfl⟩
    simp [outsOf, hq, hx, Handled.outs, takenAddr, takenBy]
  | system =>
    obtain ⟨m, rest, x, hq, hx, rfl⟩ := stepSystem_ok h
    have hqueue (q : Queue) : ({ w with queueSystem := rest, kvdb := x.1 } : World).queue q
        = (afterTake w .system).queue q := by
      cases q <;> simp [World.queue, afterTake, hq]
    refine ⟨{ w with queueSystem := rest, kvdb := x.1 }, ?_, rfl, rfl, hqueue,
      allDeliver_congr hqueue rfl rfl⟩
    simp [outsOf, hq, hx, Handled.outs, takenAddr, takenBy]
  | systemTimeout curTime =>
    obtain ⟨-, ⟨-, rfl⟩ | ⟨-, u, -, rfl⟩⟩ := stepSystemTimeout_ok h
    · exact ⟨_, rfl, rfl, rfl, fun q => by cases q <;> rfl, Iff.rfl⟩
    · exact ⟨_, rfl, rfl, rfl, fun q => by cases q <;> rfl, Iff.rfl⟩
  | door =>
    obtain ⟨m, rest, x, hq, hx, rfl⟩ := stepDoor_ok h
    have hqueue (q : Queue) : ({ w with queueDoorlock := rest, door := x.1 } : World).queue q
        = (afterTake w .door).queue q := by
      cases q <;> simp [World.queue, afterTake, hq]
    refine ⟨{ w with queueDoorlock := rest, door := x.1 }, ?_, rfl, rfl, hqueue,
      allDeliver_congr hqueue rfl rfl⟩
    simp [outsOf, hq, hx, Handled.outs, takenAddr, takenBy]
  | doorTimeout =>
    obtain ⟨-, -, rfl⟩ := stepDoorTimeout_ok h
    exact ⟨_, rfl, rfl, rfl, fun q => by cases q <;> rfl,
      allDeliver_congr (fun q => by cases q <;> rfl) rfl rfl⟩

/-- Whether the task that takes a message releases it, and when. -/
theorem step_frees (h : step env w a = .ok w') (hm : takenBy w a = some m) :
    (Frees env w a m ∧ FreesLast (outsOf env w a)) ∨
      (¬Frees env w a m ∧ .free ∉ outsOf env w a) := by
  cases a with
  | ui =>
    obtain ⟨m', rest, x, hq, hx, rfl⟩ := stepUi_ok h
    obtain rfl : m' = m := by simpa [takenBy, hq] using hm
    simp only [outsOf, hq, hx, Handled.outs]
    exact (uiEventHandler_frees hx).symm.imp id (And.imp_left not_not.mpr)
  | system =>
    obtain ⟨m', rest, x, hq, hx, rfl⟩ := stepSystem_ok h
    simp only [outsOf, hq, hx, Handled.outs]
    exact .inl ⟨trivial, systemService_frees hx⟩
  | door =>
    obtain ⟨m', rest, x, hq, hx, rfl⟩ := stepDoor_ok h
    obtain rfl : m' = m := by simpa [takenBy, hq] using hm
    simp only [outsOf, hq, hx, Handled.outs]
    exact doorLockRecv_frees hx
  | key | touch | fgPublish | systemTimeout | doorTimeout => cases hm

theorem buffers_cons (m : EventMsg) (queue : List EventMsg) :
    buffers (m :: queue) = buffers [m] ++ buffers queue := by
  rw [buffers, List.map_cons, ← List.singleton_append, List.filter_append]
  rfl

/-- A message is taken off its queue with its buffer. -/
theorem queued_take (hm : takenBy w a = some m) :
    (buffers [m] ++ (afterTake w a).queued).Perm w.queued := by
  rw [queued_eq, queued_eq]
  cases a with
  | ui =>
    obtain ⟨rest, hq⟩ := List.head?_eq_some_iff.mp hm
    simp only [World.queue, afterTake, hq, List.tail_cons, buffers_cons m rest]
    simp only [List.append_assoc, List.Perm.refl]
  | system =>
    obtain ⟨rest, hq⟩ := List.head?_eq_some_iff.mp hm
    simp only [World.queue, afterTake, hq, List.tail_cons, buffers_cons m rest,
      List.append_assoc]
    exact List.perm_append_comm_assoc ..
  | door =>
    obtain ⟨rest, hq⟩ := List.head?_eq_some_iff.mp hm
    simp only [World.queue, afterTake, hq, List.tail_cons, buffers_cons m rest]
    exact List.perm_append_comm_assoc ..
  | key | touch | fgPublish | systemTimeout | doorTimeout => cases hm

theorem afterTake_of_none (hm : takenBy w a = none) (q : Queue) :
    (afterTake w a).queue q = w.queue q := by
  cases a with
  | ui | system | door => cases q <;> simp_all [takenBy, afterTake, World.queue]
  | key | touch | fgPublish | systemTimeout | doorTimeout => rfl

/-- The buffer of the message that is handled in a step. -/
def inHand (w : World) (a : Action) : List Nat :=
  if takenAddr w a = 0 then [] else [takenAddr w a]

theorem queued_inHand (w : World) (a : Action) :
    (inHand w a ++ (afterTake w a).queued).Perm w.queued := by
  cases hm : takenBy w a with
  | none =>
    have hnil : inHand w a = [] := by simp [inHand, takenAddr, hm]
    rw [hnil, List.nil_append, queued_congr fun q => congrArg _ (afterTake_of_none hm q)]
  | some m =>
    have hbuf : inHand w a = buffers [m] := by
      by_cases hz : m.addr = 0 <;> simp [inHand, takenAddr, hm, buffers, hz]
    rw [hbuf]
    exact queued_take hm

/-- What one step keeps of the ledger, and when the live buffers stay those that are queued. -/
structure Keeps (env : Env) (released : List Nat) (l : Label World BufferAction) : Prop where
  held : Held l.post []
  conserved : Conserved l.post.nextAddr (released ++ releasedBy env l) l.post.live
  accounted_iff : Accounted l.post ↔ Accounted l.pre ∧ LosesNone env l

/-- The world in which a step makes its calls: the message it takes, if any, is in hand. -/
structure Taken (env : Env) (w : World) (a : Action) (released : List Nat) (w₁ : World) :
    Prop where
  held : Held w₁ (inHand w a)
  conserved : Conserved w₁.nextAddr released w₁.live
  accounted_iff : AccountedWith w₁ (inHand w a) ↔ Accounted w
  deliver_iff : AllDeliver env (takenAddr w a) w₁ (outsOf env w a) ↔
    AllDeliver env (takenAddr w a) (afterTake w a) (outsOf env w a)

theorem step_taken {released : List Nat} (h : step env w a = .ok w') (hheld : Held w [])
    (hc : Conserved w.nextAddr released w.live) : ∃ w₁,
      w' = performAll env (takenAddr w a) w₁ (outsOf env w a) ∧ Taken env w a released w₁ := by
  obtain ⟨w₁, rfl, hn, hl, hq, hdeliver⟩ := step_parts h
  have hqueued : (inHand w a ++ w₁.queued).Perm w.queued := by
    rw [queued_congr fun q => congrArg _ (hq q)]
    exact queued_inHand w a
  refine ⟨w₁, rfl, ⟨hn ▸ hheld.pos, hl ▸ hheld.zero, ?_⟩, by rwa [hn, hl], ?_, hdeliver⟩
  · rw [hl]
    exact hqueued.subperm_right.mpr hheld.sub
  · rw [AccountedWith, hl]
    exact ⟨hqueued.symm.trans, hqueued.trans⟩

theorem frees_taken_iff (hm : takenBy w a = some m) (hne : m.addr ≠ 0) :
    (∀ m', takenBy w a = some m' → m'.addr ≠ 0 → Frees env w a m') ↔ Frees env w a m := by
  refine ⟨fun hall => hall m hm hne, fun hf m' hm' _ => ?_⟩
  obtain rfl : m = m' := Option.some.inj (hm.symm.trans hm')
  exact hf

namespace Taken

variable {released : List Nat} {w₁ : World}

/-- There is no content to release. -/
theorem keeps_null (h : Taken env w a released w₁) (hz : takenAddr w a = 0) :
    Keeps env released ⟨w, .step a, performAll env (takenAddr w a) w₁ (outsOf env w a)⟩ := by
  obtain ⟨hheld, hc, hacc, hdeliver⟩ := h
  rw [inHand, if_pos hz] at hheld hacc
  have hnull : ∀ m, takenBy w a = some m → m.addr ≠ 0 → Frees env w a m := by
    intro m hm hne
    simp only [takenAddr, hm, Option.map_some, Option.getD_some] at hz
    exact absurd hz hne
  obtain ⟨hheld', hacc'⟩ := held_performAll hheld fun _ => hz
  refine ⟨hheld', ?_, ?_⟩
  · dsimp only [releasedBy]
    rw [if_pos hz, List.append_nil]
    exact conserved_performAll hc hheld.pos fun _ => hz
  · exact (hacc'.trans (and_congr hacc hdeliver)).trans
      (and_congr_right fun _ => (and_iff_right hnull).symm)

/-- The content is released by the last call. -/
theorem keeps_released (h : Taken env w a released w₁) (hm : takenBy w a = some m)
    (hma : m.addr = takenAddr w a) (hz : takenAddr w a ≠ 0) (hf : Frees env w a m)
    (hlast : FreesLast (outsOf env w a)) :
    Keeps env released ⟨w, .step a, performAll env (takenAddr w a) w₁ (outsOf env w a)⟩ := by
  obtain ⟨hheld, hc, hacc, hdeliver⟩ := h
  obtain ⟨outs, houts, hnot⟩ := hlast
  rw [inHand, if_neg hz] at hheld hacc
  have hno : .free ∈ outs → takenAddr w a = 0 := fun hmem => absurd hmem hnot
  obtain ⟨hheld₂, hacc₂⟩ := held_performAll hheld hno
  obtain ⟨hheld', hacc'⟩ := held_free env hheld₂
  have hpost : performAll env (takenAddr w a) w₁ (outsOf env w a) =
      perform env (takenAddr w a) (performAll env (takenAddr w a) w₁ outs) .free := by
    rw [houts, performAll_concat]
  rw [houts, allDeliver_append_free, ← houts] at hdeliver
  rw [hpost]
  refine ⟨hheld', ?_, ?_⟩
  · have hcount : (outsOf env w a).count .free = 1 := by
      rw [houts, List.count_append, List.count_eq_zero.mpr hnot]
      rfl
    dsimp only [releasedBy]
    rw [if_neg hz, hcount]
    exact (conserved_performAll hc hheld.pos hno).release
      (hheld₂.sub.subset List.mem_cons_self)
  · have hiff := (hacc'.trans hacc₂).trans (and_congr hacc hdeliver)
    have hfrees := (frees_taken_iff hm (hma ▸ hz)).mpr hf
    exact hiff.trans (and_congr_right fun _ => (and_iff_right hfrees).symm)

/-- The content is not released. -/
theorem keeps_forgotten (h : Taken env w a released w₁) (hm : takenBy w a = some m)
    (hma : m.addr = takenAddr w a) (hz : takenAddr w a ≠ 0) (hf : ¬Frees env w a m)
    (hnot : .free ∉ outsOf env w a) :
    Keeps env released ⟨w, .step a, performAll env (takenAddr w a) w₁ (outsOf env w a)⟩ := by
  obtain ⟨hheld, hc, -, -⟩ := h
  rw [inHand, if_neg hz] at hheld
  obtain ⟨hheld₂, -⟩ := held_performAll hheld fun hmem => absurd hmem hnot
  obtain ⟨hheld', hlost⟩ := held_forget hheld₂
  refine ⟨hheld', ?_, ?_⟩
  · dsimp only [releasedBy]
    rw [if_neg hz, List.count_eq_zero.mpr hnot, List.replicate_zero, List.append_nil]
    exact conserved_performAll hc hheld.pos fun hmem => absurd hmem hnot
  · refine iff_of_false hlost fun hall => hf ?_
    exact (frees_taken_iff hm (hma ▸ hz)).mp hall.2.1

end Taken

theorem step_keeps {released : List Nat} (h : step env w a = .ok w') (hheld : Held w [])
    (hc : Conserved w.nextAddr released w.live) : Keeps env released ⟨w, .step a, w'⟩ := by
  obtain ⟨w₁, rfl, htaken⟩ := step_taken h hheld hc
  by_cases hz : takenAddr w a = 0
  · exact htaken.keeps_null hz
  obtain ⟨m, hm, hma⟩ : ∃ m, takenBy w a = some m ∧ m.addr = takenAddr w a := by
    cases hm : takenBy w a with
    | none => exact absurd (by simp [takenAddr, hm]) hz
    | some m => exact ⟨m, rfl, by simp [takenAddr, hm]⟩
  rcases step_frees h hm with ⟨hf, hlast⟩ | ⟨hf, hnot⟩
  · exact htaken.keeps_released hm hma hz hf hlast
  · exact htaken.keeps_forgotten hm hma hz hf hnot

theorem publish_keeps {released : List Nat} (s r : Component) (c : MsgContent) (t : EventStruct)
    (hheld : Held w []) (hc : Conserved w.nextAddr released w.live) :
    Keeps env released ⟨w, .publish s r c t, (eventPublish env w s r c t).1⟩ := by
  obtain ⟨hheld', hacc⟩ := held_eventPublish env hheld s c t
  refine ⟨hheld', ?_, hacc⟩
  dsimp only [releasedBy]
  rw [eventPublish_nextAddr, eventPublish_live, List.append_nil]
  exact hc.alloc hheld.pos

end

/-! ## Runs -/

section
variable {env : Env} {kv : Kvdb} {tr : List (Label World BufferAction)} {w : World}

/-- The buffers released in a run, in order. -/
def releasedIn (env : Env) (tr : List (Label World BufferAction)) : List Nat :=
  tr.flatMap (releasedBy env)

theorem bufferStep_keeps {released : List Nat} {w' : World} {a : BufferAction}
    (h : bufferStep env w a = .ok w') (hheld : Held w [])
    (hc : Conserved w.nextAddr released w.live) : Keeps env released ⟨w, a, w'⟩ := by
  cases a with
  | step a => exact step_keeps h hheld hc
  | publish s r c t =>
    cases h
    exact publish_keeps s r c t hheld hc

theorem ledger_run (h : Run (bufferStep env) (boot kv) tr w) :
    Held w [] ∧ Conserved w.nextAddr (releasedIn env tr) w.live := by
  induction h with
  | nil => exact ⟨⟨Nat.one_pos, List.not_mem_nil, List.Subperm.refl _⟩, .start⟩
  | snoc _ hstep ih =>
    have hkeeps := bufferStep_keeps hstep ih.1 ih.2
    refine ⟨hkeeps.held, ?_⟩
    rw [releasedIn, List.flatMap_append, List.flatMap_singleton]
    exact hkeeps.conserved

/-- In every run each buffer is released once or is live. The live buffers are always those of the
messages that are queued just when no step of the run loses one. -/
theorem buffers_iff (h : Run (bufferStep env) (boot kv) tr w) :
    (releasedIn env tr ++ w.live).Perm (List.range' 1 (w.nextAddr - 1)) ∧
      ((∀ l ∈ tr, Accounted l.post) ↔ ∀ l ∈ tr, LosesNone env l) := by
  refine ⟨(ledger_run h).2, (h.forall_iff (I := Accounted) (List.Perm.refl _)
    fun tr w a w' hrun hacc hstep => ?_).1⟩
  have hkeeps := bufferStep_keeps hstep (ledger_run hrun).1 (ledger_run hrun).2
  exact ⟨hkeeps.accounted_iff.trans (and_iff_right hacc), id⟩

end

/-- A wrong password on the home page, up to the popup. -/
def wrongPassword : List BufferAction :=
  (press [.k7, .dash] ++ [Action.system, Action.ui]).map .step

theorem buffers_iff_wrongPassword :
    (releasedIn quietEnv (trace (bufferStep quietEnv) (boot defaultKvdb) wrongPassword) ++
        (after (bufferStep quietEnv) (boot defaultKvdb) wrongPassword).live).Perm
      (List.range' 1
        ((after (bufferStep quietEnv) (boot defaultKvdb) wrongPassword).nextAddr - 1)) ∧
      ((∀ l ∈ trace (bufferStep quietEnv) (boot defaultKvdb) wrongPassword, Accounted l.post) ↔
        ∀ l ∈ trace (bufferStep quietEnv) (boot defaultKvdb) wrongPassword,
          LosesNone quietEnv l) :=
  buffers_iff (Run.of_isOk _ (by decide +kernel))

/-- The content of an `ENTER` on the home page is never released. -/
theorem enter_leaks : ∃ tr w, Run (bufferStep quietEnv) (boot defaultKvdb) tr w ∧
    ¬ ∀ l ∈ tr, Accounted l.post := by
  refine ⟨_, _, Run.replay [.step (.key .enter)] (.step .ui) (by decide +kernel)
    (by decide +kernel), fun h => ?_⟩
  have hacc := h _ (List.mem_append_right _ (List.mem_singleton_self _))
  exact absurd hacc.length_eq (by decide +kernel)

end DoorLock
