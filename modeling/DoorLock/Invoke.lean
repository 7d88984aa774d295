import DoorLock.Effect

/-!
# Deferred calls (`app.c`: `invoke` and the time-out branch of `system_service`)

The sixteen slots of `to_do_list`, the mutex that guards them and the tick at which
`system_service` is to wake up.
-/

namespace DoorLock

/-- `INVOKE_SLOT_SIZE` -/
def invokeSlotSize : Nat := 16

/-- `invoke_event_t`, for functions `F`. A slot is free when its delay is `portMAX_DELAY`; a
pointer argument is a number and `NULL` is `0`. -/
structure InvokeEvent (F : Type) where
  reqWhen : TickType
  funcCallDelay : TickType
  funcCall : Option F
  arg : List Nat
  argCnt : Nat

/-- The statics behind `invoke`. -/
structure Invoker (F : Type) where
  toDoList : List (InvokeEvent F)
  mutexTaken : Bool
  awakeCntdwn : TickType

variable {F : Type}

/-- A slot as `system_service` leaves it before its loop. -/
def InvokeEvent.vacant : InvokeEvent F where
  reqWhen := 0
  funcCallDelay := portMaxDelay
  funcCall := none
  arg := [0, 0, 0, 0]
  argCnt := 0

def Invoker.init : Invoker F where
  toDoList := List.replicate invokeSlotSize .vacant
  mutexTaken := false
  awakeCntdwn := portMaxDelay

/-- `func_call_delay != portMAX_DELAY` -/
def InvokeEvent.pending (e : InvokeEvent F) : Bool := e.funcCallDelay != portMaxDelay

/-- What a call of `invoke` did: its result, and whether it woke `system_service` up with a
message. -/
structure InvokeResult (F : Type) where
  state : Invoker F
  ret : Bool
  wake : Bool

/-- `invoke`, which reads the tick count for the slot and once more for the wake-up tick. With no
free slot the loop ends without giving the mutex back. -/
def invoke (s : Invoker F) (now wakeNow callDalayMs : TickType) (funcCall : F)
    (args : List Nat) : InvokeResult F :=
  if 4 < args.length then ⟨s, false, false⟩
  else if s.mutexTaken then ⟨s, false, false⟩
  else match s.toDoList.findIdx? (!·.pending) with
    | none => ⟨{ s with mutexTaken := true }, true, false⟩
    | some i =>
      let delay := pdMsToTicks callDalayMs
      let earliest := delay < s.awakeCntdwn
      ⟨{ s with
          toDoList := s.toDoList.modify i fun e =>
            { reqWhen := now, funcCallDelay := delay, funcCall := some funcCall
              arg := args ++ e.arg.drop args.length, argCnt := args.length }
          awakeCntdwn := if earliest then wakeNow + delay else s.awakeCntdwn },
        true, earliest⟩

/-- The arguments the pass hands to a call: the first `arg_cnt`, then `NULL`s. -/
def InvokeEvent.callArgs (e : InvokeEvent F) : List Nat :=
  e.arg.take e.argCnt ++ List.replicate (4 - e.argCnt) 0

/-- `cur_time - req_when <= func_call_delay`, the test for "when is time". -/
def InvokeEvent.due (e : InvokeEvent F) (curTime : TickType) : Bool :=
  e.pending && decide (curTime - e.reqWhen ≤ e.funcCallDelay)

/-- The wake-up tick after a slot that was not run. -/
def InvokeEvent.nextAwake (e : InvokeEvent F) (curTime awake : TickType) : TickType :=
  if e.pending && !e.due curTime && decide (e.reqWhen + e.funcCallDelay < awake) then
    e.reqWhen + e.funcCallDelay - curTime
  else awake

/-- The calls a pass of the time-out branch makes at `curTime`, in slot order. -/
def Invoker.dueCalls (s : Invoker F) (curTime : TickType) : List (Option F × List Nat) :=
  (s.toDoList.filter (·.due curTime)).map fun e => (e.funcCall, e.callArgs)

/-- The slots and the wake-up tick after a pass of the time-out branch that got the mutex. -/
def Invoker.pass (s : Invoker F) (curTime : TickType) : Invoker F :=
  { s with
    toDoList := s.toDoList.map fun e =>
      if e.due curTime then { e with funcCallDelay := portMaxDelay } else e
    awakeCntdwn := s.toDoList.foldl (fun awake e => e.nextAwake curTime awake) portMaxDelay }

/-- The wake-up tick after a pass that could not take the mutex. -/
def Invoker.retry (s : Invoker F) (curTime : TickType) : Invoker F :=
  { s with awakeCntdwn := curTime + 200 }

/-! ## Slots -/

/-- Every slot that is taken has a function to call. -/
def Invoker.Callable (s : Invoker F) : Prop :=
  ∀ e ∈ s.toDoList, e.pending = true → e.funcCall ≠ none

theorem Invoker.init_callable : (Invoker.init : Invoker F).Callable := by
  intro e he hp
  rw [List.eq_of_mem_replicate he] at hp
  simp [InvokeEvent.pending, InvokeEvent.vacant] at hp

theorem invoke_callable {s : Invoker F} (h : s.Callable) (now wakeNow callDalayMs : TickType)
    (funcCall : F) (args : List Nat) :
    (invoke s now wakeNow callDalayMs funcCall args).state.Callable := by
  unfold invoke
  split
  · exact h
  split
  · exact h
  split
  · exact h
  · intro e he hp
    obtain ⟨j, hj⟩ := List.mem_iff_getElem?.mp he
    rw [List.getElem?_modify] at hj
    obtain ⟨e', he', rfl⟩ := Option.map_eq_some_iff.mp hj
    split
    · exact nofun
    · rename_i hij
      rw [if_neg hij] at hp
      exact h e' (List.mem_of_getElem? he') hp

theorem Invoker.pass_callable {s : Invoker F} (h : s.Callable) (curTime : TickType) :
    (s.pass curTime).Callable := by
  intro e he hp
  obtain ⟨e', he', rfl⟩ := List.mem_map.mp he
  split
  · rename_i hdue
    rw [if_pos hdue] at hp
    simp [InvokeEvent.pending] at hp
  · rename_i hdue
    rw [if_neg hdue] at hp
    exact h e' he' hp

theorem Invoker.dueCalls_callable {s : Invoker F} (h : s.Callable) (curTime : TickType) :
    ∀ c ∈ s.dueCalls curTime, c.1 ≠ none := by
  intro c hc
  obtain ⟨e, he, rfl⟩ := List.mem_map.mp hc
  obtain ⟨he, hdue⟩ := List.mem_filter.mp he
  refine h e he ?_
  simp only [InvokeEvent.due, Bool.and_eq_true] at hdue
  exact hdue.1

end DoorLock
