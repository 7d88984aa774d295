import DoorLock.World

/-!
# What a step of the system changes

The calls made in a step (`outsOf`) and the message it takes (`takenBy`), the components each
action leaves alone, and where a message found on a queue after a step comes from.
-/

namespace DoorLock

open Transition

/-- The queues of the system. -/
inductive Queue
  | ui | system | doorlock
  deriving DecidableEq

/-- The queue that serves a receiver. -/
def Component.queue : Component → Option Queue
  | .servUi => some .ui
  | .servAuth | .servInvoke | .servSysop => some .system
  | .hwDoorLock => some .doorlock
  | _ => none

def World.queue (w : World) : Queue → List EventMsg
  | .ui => w.queueUi
  | .system => w.queueSystem
  | .doorlock => w.queueDoorlock

/-- A message made by one of the calls in `outs`. -/
def Sent (outs : List Out) (m : EventMsg) : Prop :=
  .publish m.sender m.recver m.content m.eventStruct ∈ outs

/-! ## The calls made on the rest of the system -/

section
variable (env : Env) (addr : Nat) (w : World)

@[simp] theorem eventPublish_ui (s r c t) : (eventPublish env w s r c t).1.ui = w.ui := by
  cases r <;> rfl

@[simp] theorem eventPublish_kvdb (s r c t) : (eventPublish env w s r c t).1.kvdb = w.kvdb := by
  cases r <;> rfl

@[simp] theorem eventPublish_door (s r c t) : (eventPublish env w s r c t).1.door = w.door := by
  cases r <;> rfl

@[simp] theorem eventPublish_fg (s r c t) : (eventPublish env w s r c t).1.fg = w.fg := by
  cases r <;> rfl

@[simp] theorem eventPublish_invoker (s r c t) :
    (eventPublish env w s r c t).1.invoker = w.invoker := by
  cases r <;> rfl

@[simp] theorem eventPublish_nextAddr (s r c t) :
    (eventPublish env w s r c t).1.nextAddr = w.nextAddr + 1 := by
  cases r <;> rfl

@[simp] theorem perform_ui (o : Out) : (perform env addr w o).ui = w.ui := by
  cases o <;> simp [perform]

@[simp] theorem perform_kvdb (o : Out) : (perform env addr w o).kvdb = w.kvdb := by
  cases o <;> simp [perform]

@[simp] theorem perform_door (o : Out) : (perform env addr w o).door = w.door := by
  cases o <;> simp [perform]

@[simp] theorem perform_fg_pending (o : Out) :
    (perform env addr w o).fg.pending = w.fg.pending := by
  cases o <;> simp [perform]

@[simp] theorem performAll_nil : performAll env addr w [] = w := rfl

@[simp] theorem performAll_cons (o : Out) (outs : List Out) :
    performAll env addr w (o :: outs) = performAll env addr (perform env addr w o) outs := rfl

@[simp] theorem performAll_ui (outs : List Out) : (performAll env addr w outs).ui = w.ui := by
  induction outs generalizing w with
  | nil => rfl
  | cons o outs ih => simp [ih]

@[simp] theorem performAll_kvdb (outs : List Out) :
    (performAll env addr w outs).kvdb = w.kvdb := by
  induction outs generalizing w with
  | nil => rfl
  | cons o outs ih => simp [ih]

@[simp] theorem performAll_door (outs : List Out) :
    (performAll env addr w outs).door = w.door := by
  induction outs generalizing w with
  | nil => rfl
  | cons o outs ih => simp [ih]

@[simp] theorem performAll_fg_pending (outs : List Out) :
    (performAll env addr w outs).fg.pending = w.fg.pending := by
  induction outs generalizing w with
  | nil => rfl
  | cons o outs ih => simp [ih]

theorem nextAddr_le_perform (o : Out) : w.nextAddr ≤ (perform env addr w o).nextAddr := by
  cases o <;> simp [perform]

theorem nextAddr_le_performAll (outs : List Out) :
    w.nextAddr ≤ (performAll env addr w outs).nextAddr := by
  induction outs generalizing w with
  | nil => exact Nat.le_refl _
  | cons o outs ih => exact (nextAddr_le_perform env addr w o).trans (ih _)

end

section
variable {env : Env} {addr : Nat} {w w' : World} {q : Queue} {m : EventMsg} {outs : List Out}

theorem mem_xQueueSend {size : Nat} {room : Bool} {queue : List EventMsg} {x : EventMsg}
    (h : m ∈ (xQueueSend size room queue x).1) : m ∈ queue ∨ m = x := by
  unfold xQueueSend at h
  split at h
  · simpa using h
  · exact .inl h

theorem mem_queue_eventPublish {s r c t}
    (h : m ∈ (eventPublish env w s r c t).1.queue q) :
    m ∈ w.queue q ∨ (r.queue = some q ∧ m = ⟨s, r, t, w.nextAddr, c⟩) := by
  cases r <;> cases q <;> first
    | exact .inl h
    | exact (mem_xQueueSend h).imp_right fun hm => ⟨rfl, hm⟩

/-- Where a message comes from that is found on a queue after a call. -/
theorem mem_queue_perform {o : Out} (h : m ∈ (perform env addr w o).queue q) :
    m ∈ w.queue q ∨ m = wakeMsg ∨
      (Sent [o] m ∧ m.recver.queue = some q ∧ m.addr = w.nextAddr ∧
        m.addr < (perform env addr w o).nextAddr) := by
  cases o with
  | publish s r c t =>
    refine (mem_queue_eventPublish h).imp_right fun ⟨hr, hm⟩ => .inr ?_
    subst hm
    simp [Sent, perform, hr]
  | invoke delay call =>
    cases q with
    | ui | doorlock => exact .inl h
    | system =>
      simp only [perform, World.queue] at h
      split at h
      · exact (mem_xQueueSend h).imp_right .inl
      · exact .inl h
  | setFgNextState v => cases q <;> exact .inl h
  | free => cases q <;> exact .inl h

/-- A message made in the course of a list of calls: its content was allocated by one of them. -/
structure FreshSent (outs : List Out) (w w' : World) (q : Queue) (m : EventMsg) : Prop where
  sent : Sent outs m
  route : m.recver.queue = some q
  le_addr : w.nextAddr ≤ m.addr
  addr_lt : m.addr < w'.nextAddr

theorem mem_queue_performAll (h : m ∈ (performAll env addr w outs).queue q) :
    m ∈ w.queue q ∨ m = wakeMsg ∨ FreshSent outs w (performAll env addr w outs) q m := by
  induction outs generalizing w with
  | nil => exact .inl h
  | cons o outs ih =>
    have hle := nextAddr_le_perform env addr w o
    rcases ih h with hm | rfl | hf
    · rcases mem_queue_perform hm with hm | rfl | ⟨hs, hr, ha, hlt⟩
      · exact .inl hm
      · exact .inr (.inl rfl)
      · refine .inr (.inr ⟨?_, hr, ha.ge, hlt.trans_le (nextAddr_le_performAll ..)⟩)
        exact List.mem_cons.mpr (.inl (List.mem_singleton.mp hs))
    · exact .inr (.inl rfl)
    · exact .inr (.inr ⟨List.mem_cons_of_mem _ hf.sent, hf.route, hle.trans hf.le_addr, hf.addr_lt⟩)

end

/-! ## The steps -/

/-- The message a task takes in a step. -/
def takenBy (w : World) : Action → Option EventMsg
  | .ui => w.queueUi.head?
  | .system => w.queueSystem.head?
  | .door => w.queueDoorlock.head?
  | _ => none

/-- The calls made by a task that handled a message. -/
def Handled.outs {α : Type} (r : Except Fault (α × List Out)) : List Out :=
  match r with
  | .ok x => x.2
  | .error _ => []

/-- The calls made in a step. -/
def outsOf (env : Env) (w : World) : Action → List Out
  | .key k => [.publish .hwInpt .servUi (.inptEvent ⟨k.code⟩) .inptEvent]
  | .touch _ _ => []
  | .fgPublish => w.fg.pending.take 1
  | .ui => match w.queueUi with
    | [] => []
    | m :: _ => Handled.outs (uiEventHandler env w.ui m)
  | .system => match w.queueSystem with
    | [] => []
    | m :: _ => Handled.outs (systemService env w.kvdb m)
  | .systemTimeout _ => []
  | .door => match w.queueDoorlock with
    | [] => []
    | m :: _ => Handled.outs (doorLockRecv (env.pad m.addr) w.door m.content)
  | .doorTimeout => (doorLockTimeout w.door).2

section
variable {env : Env} {w w' : World} {a : Action}

theorem handled_ok {α : Type} {r : Except Fault α} {next : α → World} :
    handled r next = .ok w' ↔ ∃ x, r = .ok x ∧ w' = next x := by
  cases r <;> simp [handled, eq_comm]

theorem handled_fault {α : Type} {r : Except Fault α} {next : α → World} {f : Fault} :
    handled r next = .error (.fault f) ↔ r = .error f := by
  cases r <;> simp [handled]

theorem stepUi_ok (h : stepUi env w = .ok w') : ∃ m rest x, w.queueUi = m :: rest ∧
    uiEventHandler env w.ui m = .ok x ∧
      w' = performAll env m.addr { w with queueUi := rest, ui := x.1 } x.2 := by
  unfold stepUi at h
  cases hq : w.queueUi with
  | nil => simp [hq] at h
  | cons m rest =>
    simp only [hq] at h
    obtain ⟨x, hx, rfl⟩ := handled_ok.mp h
    exact ⟨m, rest, x, rfl, hx, rfl⟩

theorem stepSystem_ok (h : stepSystem env w = .ok w') : ∃ m rest x, w.queueSystem = m :: rest ∧
    systemService env w.kvdb m = .ok x ∧
      w' = performAll env m.addr { w with queueSystem := rest, kvdb := x.1 } x.2 := by
  unfold stepSystem at h
  cases hq : w.queueSystem with
  | nil => simp [hq] at h
  | cons m rest =>
    simp only [hq] at h
    obtain ⟨x, hx, rfl⟩ := handled_ok.mp h
    exact ⟨m, rest, x, rfl, hx, rfl⟩

theorem stepDoor_ok (h : stepDoor env w = .ok w') : ∃ m rest x, w.queueDoorlock = m :: rest ∧
    doorLockRecv (env.pad m.addr) w.door m.content = .ok x ∧
      w' = performAll env m.addr { w with queueDoorlock := rest, door := x.1 } x.2 := by
  unfold stepDoor at h
  cases hq : w.queueDoorlock with
  | nil => simp [hq] at h
  | cons m rest =>
    simp only [hq] at h
    obtain ⟨x, hx, rfl⟩ := handled_ok.mp h
    exact ⟨m, rest, x, rfl, hx, rfl⟩

theorem stepDoorTimeout_ok (h : stepDoorTimeout env w = .ok w') : w.queueDoorlock = [] ∧
    w.door.heartBeatFreq ≠ portMaxDelay ∧
      w' = performAll env 0 { w with door := (doorLockTimeout w.door).1 }
        (doorLockTimeout w.door).2 := by
  unfold stepDoorTimeout at h
  split at h
  · simp at h
  · rename_i hd
    simp only [ne_eq, not_or, not_not] at hd
    exact ⟨hd.1, hd.2, (Except.ok.inj h).symm⟩

/-- A pass of the time-out branch of `system_service`: it does without the mutex, or runs the
calls that are due. -/
theorem stepSystemTimeout_ok {curTime : TickType} (h : stepSystemTimeout w curTime = .ok w') :
    w.queueSystem = [] ∧
      ((w.invoker.mutexTaken = true ∧ w' = { w with invoker := w.invoker.retry curTime }) ∨
        (w.invoker.mutexTaken = false ∧ ∃ u, runCalls w.ui (w.invoker.dueCalls curTime) = .ok u ∧
          w' = { w with ui := u, invoker := w.invoker.pass curTime })) := by
  unfold stepSystemTimeout at h
  split at h
  · simp at h
  · rename_i hq
    refine ⟨not_not.mp hq, ?_⟩
    split at h
    · rename_i hm
      exact .inl ⟨hm, (Except.ok.inj h).symm⟩
    · rename_i hm
      exact .inr ⟨by simpa using hm, handled_ok.mp h⟩

theorem stepTouch_ok {fg : FgModule} {fuel : Nat} (h : stepTouch w fg fuel = .ok w') :
    w.fg.pending = [] ∧ w.fg.hung = false ∧
      w' = { w with fg :=
        { w.fg with
          reader := (fgServiceJob fg fuel w.fg.gFgNextState w.fg.reader).2
          pending := (fgServiceJob fg fuel w.fg.gFgNextState w.fg.reader).2.published
          hung := (fgServiceJob fg fuel w.fg.gFgNextState w.fg.reader).1.isNone } } := by
  unfold stepTouch at h
  split at h
  · simp at h
  · rename_i hd
    simp only [ne_eq, not_or, not_not, Bool.not_eq_true] at hd
    exact ⟨hd.1, hd.2, (Except.ok.inj h).symm⟩

theorem stepFgPublish_ok (h : stepFgPublish env w = .ok w') : ∃ o rest, w.fg.pending = o :: rest ∧
    w' = perform env 0 { w with fg := { w.fg with pending := rest } } o := by
  unfold stepFgPublish at h
  cases hp : w.fg.pending with
  | nil => simp [hp] at h
  | cons o rest =>
    simp only [hp, Except.ok.injEq] at h
    exact ⟨o, rest, rfl, h.symm⟩

/-- Every step takes at most one message off a queue and makes the calls of `outsOf`. -/
theorem step_eq_performAll (h : step env w a = .ok w') : ∃ addr w₁,
    w' = performAll env addr w₁ (outsOf env w a) ∧ w₁.nextAddr = w.nextAddr ∧
      ∀ q, w₁.queue q ⊆ w.queue q := by
  cases a with
  | key k =>
    cases h
    exact ⟨0, w, rfl, rfl, fun q => List.Subset.refl _⟩
  | touch fg fuel =>
    obtain ⟨-, -, rfl⟩ := stepTouch_ok h
    exact ⟨0, _, rfl, rfl, fun q => by cases q <;> exact List.Subset.refl _⟩
  | fgPublish =>
    obtain ⟨o, rest, hp, rfl⟩ := stepFgPublish_ok h
    refine ⟨0, { w with fg := { w.fg with pending := rest } }, ?_, rfl,
      fun q => by cases q <;> exact List.Subset.refl _⟩
    simp [outsOf, hp]
  | ui =>
    obtain ⟨m, rest, x, hq, hx, rfl⟩ := stepUi_ok h
    refine ⟨m.addr, { w with queueUi := rest, ui := x.1 }, ?_, rfl, fun q => ?_⟩
    · simp [outsOf, hq, hx, Handled.outs]
    · cases q <;> simp [World.queue, hq]
  | system =>
    obtain ⟨m, rest, x, hq, hx, rfl⟩ := stepSystem_ok h
    refine ⟨m.addr, { w with queueSystem := rest, kvdb := x.1 }, ?_, rfl, fun q => ?_⟩
    · simp [outsOf, hq, hx, Handled.outs]
    · cases q <;> simp [World.queue, hq]
  | systemTimeout curTime =>
    obtain ⟨-, ⟨-, rfl⟩ | ⟨-, u, -, rfl⟩⟩ := stepSystemTimeout_ok h
    · exact ⟨0, _, rfl, rfl, fun q => by cases q <;> exact List.Subset.refl _⟩
    · exact ⟨0, _, rfl, rfl, fun q => by cases q <;> exact List.Subset.refl _⟩
  | door =>
    obtain ⟨m, rest, x, hq, hx, rfl⟩ := stepDoor_ok h
    refine ⟨m.addr, { w with queueDoorlock := rest, door := x.1 }, ?_, rfl, fun q => ?_⟩
    · simp [outsOf, hq, hx, Handled.outs]
    · cases q <;> simp [World.queue, hq]
  | doorTimeout =>
    obtain ⟨-, -, rfl⟩ := stepDoorTimeout_ok h
    exact ⟨0, _, rfl, rfl, fun q => by cases q <;> exact List.Subset.refl _⟩

/-- A message found on a queue after a step was there before, wakes up `system_service`, or was
published in the step. -/
theorem mem_queue_step {q : Queue} {m : EventMsg} (h : step env w a = .ok w')
    (hm : m ∈ w'.queue q) :
    m ∈ w.queue q ∨ m = wakeMsg ∨ FreshSent (outsOf env w a) w w' q m := by
  obtain ⟨addr, w₁, rfl, hn, hq⟩ := step_eq_performAll h
  rcases mem_queue_performAll hm with hm | rfl | hf
  · exact .inl (hq q hm)
  · exact .inr (.inl rfl)
  · exact .inr (.inr ⟨hf.sent, hf.route, hn ▸ hf.le_addr, hf.addr_lt⟩)

/-! ## What each component depends on -/

/-- Only the UI task and the deferred calls work on the UI. -/
theorem ui_step (h : step env w a = .ok w') : w'.ui = w.ui ∨
    (a = .ui ∧ ∃ m x, w.queueUi.head? = some m ∧ uiEventHandler env w.ui m = .ok x ∧
      w'.ui = x.1) ∨
    ∃ curTime, a = .systemTimeout curTime ∧ w.queueSystem = [] ∧ w.invoker.mutexTaken = false ∧
      runCalls w.ui (w.invoker.dueCalls curTime) = .ok w'.ui := by
  cases a with
  | key k => cases h; exact .inl (by simp)
  | touch fg fuel => obtain ⟨-, -, rfl⟩ := stepTouch_ok h; exact .inl rfl
  | fgPublish => obtain ⟨o, rest, -, rfl⟩ := stepFgPublish_ok h; exact .inl (by simp)
  | ui =>
    obtain ⟨m, rest, x, hq, hx, rfl⟩ := stepUi_ok h
    exact .inr (.inl ⟨rfl, m, x, by simp [hq], hx, by simp⟩)
  | system => obtain ⟨m, rest, x, -, -, rfl⟩ := stepSystem_ok h; exact .inl (by simp)
  | systemTimeout curTime =>
    obtain ⟨hq, ⟨-, rfl⟩ | ⟨hm, u, hu, rfl⟩⟩ := stepSystemTimeout_ok h
    · exact .inl rfl
    · exact .inr (.inr ⟨curTime, rfl, hq, hm, hu⟩)
  | door => obtain ⟨m, rest, x, -, -, rfl⟩ := stepDoor_ok h; exact .inl (by simp)
  | doorTimeout => obtain ⟨-, -, rfl⟩ := stepDoorTimeout_ok h; exact .inl (by simp)

/-- Only `system_service` writes to the key-value store, on a message. -/
theorem kvdb_step (h : step env w a = .ok w') : w'.kvdb = w.kvdb ∨
    (a = .system ∧ ∃ m x, w.queueSystem.head? = some m ∧ systemService env w.kvdb m = .ok x ∧
      w'.kvdb = x.1) := by
  cases a with
  | key k => cases h; exact .inl (by simp)
  | touch fg fuel => obtain ⟨-, -, rfl⟩ := stepTouch_ok h; exact .inl rfl
  | fgPublish => obtain ⟨o, rest, -, rfl⟩ := stepFgPublish_ok h; exact .inl (by simp)
  | ui => obtain ⟨m, rest, x, -, -, rfl⟩ := stepUi_ok h; exact .inl (by simp)
  | system =>
    obtain ⟨m, rest, x, hq, hx, rfl⟩ := stepSystem_ok h
    exact .inr ⟨rfl, m, x, by simp [hq], hx, by simp⟩
  | systemTimeout curTime =>
    obtain ⟨-, ⟨-, rfl⟩ | ⟨-, u, -, rfl⟩⟩ := stepSystemTimeout_ok h <;> exact .inl rfl
  | door => obtain ⟨m, rest, x, -, -, rfl⟩ := stepDoor_ok h; exact .inl (by simp)
  | doorTimeout => obtain ⟨-, -, rfl⟩ := stepDoorTimeout_ok h; exact .inl (by simp)

/-- The lock is driven by `door_lock_task` alone. -/
theorem door_step (h : step env w a = .ok w') : w'.door = w.door ∨
    (a = .door ∧ ∃ m x, w.queueDoorlock.head? = some m ∧
      doorLockRecv (env.pad m.addr) w.door m.content = .ok x ∧ w'.door = x.1) ∨
    (a = .doorTimeout ∧ w'.door = (doorLockTimeout w.door).1) := by
  cases a with
  | key k => cases h; exact .inl (by simp)
  | touch fg fuel => obtain ⟨-, -, rfl⟩ := stepTouch_ok h; exact .inl rfl
  | fgPublish => obtain ⟨o, rest, -, rfl⟩ := stepFgPublish_ok h; exact .inl (by simp)
  | ui => obtain ⟨m, rest, x, -, -, rfl⟩ := stepUi_ok h; exact .inl (by simp)
  | system => obtain ⟨m, rest, x, -, -, rfl⟩ := stepSystem_ok h; exact .inl (by simp)
  | systemTimeout curTime =>
    obtain ⟨-, ⟨-, rfl⟩ | ⟨-, u, -, rfl⟩⟩ := stepSystemTimeout_ok h <;> exact .inl rfl
  | door =>
    obtain ⟨m, rest, x, hq, hx, rfl⟩ := stepDoor_ok h
    exact .inr (.inl ⟨rfl, m, x, by simp [hq], hx, by simp⟩)
  | doorTimeout =>
    obtain ⟨-, -, rfl⟩ := stepDoorTimeout_ok h
    exact .inr (.inr ⟨rfl, by simp⟩)

end

end DoorLock
