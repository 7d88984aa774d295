import DoorLock.Invoke
import DoorLock.Lib.Run

/-!
# Deferred calls over time

`invoke` and the time-out branch of `system_service` on one clock: requests are recorded and passes
made at ticks that do not wrap. A pass runs the calls whose due tick has not gone by, where it
should run those whose due tick has come; the two agree on the calls that are due at the very tick
of the pass.
-/

namespace DoorLock

open Transition

variable {F : Type}

/-! ## Requests -/

/-- A call that was asked for and not made yet, with its ticks as natural numbers. -/
structure Request (F : Type) where
  reqWhen : Nat
  delay : Nat
  func : F
  args : List Nat
  deriving DecidableEq

namespace Request

/-- The tick at which the call is due. -/
def due (r : Request F) : Nat := r.reqWhen + r.delay

/-- The call itself, with `NULL` for the arguments that were not given. -/
def call (r : Request F) : Option F × List Nat :=
  (some r.func, r.args ++ List.replicate (4 - r.args.length) 0)

end Request

/-- The request a slot holds. -/
def InvokeEvent.request (e : InvokeEvent F) : Option (Request F) :=
  if e.pending then
    e.funcCall.map fun f => ⟨e.reqWhen.toNat, e.funcCallDelay.toNat, f, e.arg.take e.argCnt⟩
  else none

namespace Invoker

def slots (s : Invoker F) : List (Option (Request F)) := s.toDoList.map InvokeEvent.request

/-- The pending calls, in slot order. -/
def requests (s : Invoker F) : List (Request F) := s.slots.filterMap id

/-- `invoke` records a request: the arguments fit, the mutex can be taken and a slot is free. -/
def Accepts (s : Invoker F) (args : List Nat) : Prop :=
  args.length ≤ 4 ∧ s.mutexTaken = false ∧ ∃ e ∈ s.toDoList, e.pending = false

/-- What is kept of the slots: a slot that is taken has a function, room for the arguments it
counts, a request of the past and a due tick below `portMAX_DELAY`. -/
structure Sound (s : Invoker F) (now : Nat) : Prop where
  callable : s.Callable
  args : ∀ e ∈ s.toDoList, e.argCnt ≤ e.arg.length
  past : ∀ r ∈ s.requests, r.reqWhen ≤ now
  due_lt : ∀ r ∈ s.requests, r.due < portMaxDelay.toNat

end Invoker

/-! ## The clock -/

/-- The list of deferred calls and the tick count. -/
structure Clocked (F : Type) where
  now : Nat
  invoker : Invoker F

/-- `xTaskGetTickCount()` -/
def Clocked.tick (s : Clocked F) : TickType := UInt32.ofNat s.now

inductive ClockAction (F : Type)
  | advance (ticks : Nat)
  | invoke (callDalayMs : TickType) (funcCall : F) (args : List Nat) (between : Nat)
  | timeout

/-- The clock goes on, a task calls `invoke`, in which `between` ticks pass between its two readings
of the tick count, or the receive of `system_service` times out. A step that would bring a tick up
to `portMAX_DELAY` is not taken. -/
def clockStep (s : Clocked F) : ClockAction F → Except Unit (Clocked F)
  | .advance ticks =>
    if s.now + ticks < portMaxDelay.toNat then .ok { s with now := s.now + ticks } else .error ()
  | .invoke callDalayMs funcCall args between =>
    if s.now + between + (pdMsToTicks callDalayMs).toNat < portMaxDelay.toNat then
      .ok
        { now := s.now + between
          invoker := (invoke s.invoker s.tick (UInt32.ofNat (s.now + between)) callDalayMs funcCall
            args).state }
    else .error ()
  | .timeout =>
    if s.invoker.mutexTaken then
      if s.now + 200 < portMaxDelay.toNat then
        .ok { s with invoker := s.invoker.retry s.tick }
      else .error ()
    else .ok { s with invoker := s.invoker.pass s.tick }

/-- Start of the system, with the clock at 0. -/
def Clocked.init : Clocked F := ⟨0, .init⟩

/-! ## What the program does -/

theorem pdMsToTicks_ne (ms : TickType) : (pdMsToTicks ms != portMaxDelay) = true := by
  have hlt := ms.toNat_lt
  have hq : (pdMsToTicks ms).toNat = ms.toNat * 100 / 1000 := by
    rw [pdMsToTicks, UInt32.toNat_ofNat']
    exact Nat.mod_eq_of_lt (by omega)
  rw [bne_iff_ne]
  intro heq
  rw [heq] at hq
  have hmax : portMaxDelay.toNat = 4294967295 := rfl
  omega

section
variable {s : Invoker F} {e : InvokeEvent F} {r : Request F} {now : Nat}

theorem request_eq_some (h : e.request = some r) :
    e.pending = true ∧ e.funcCall = some r.func ∧ r.reqWhen = e.reqWhen.toNat ∧
      r.delay = e.funcCallDelay.toNat ∧ r.args = e.arg.take e.argCnt := by
  unfold InvokeEvent.request at h
  split at h
  · rename_i hp
    obtain ⟨f, hf, rfl⟩ := Option.map_eq_some_iff.mp h
    exact ⟨hp, hf, rfl, rfl, rfl⟩
  · cases h

theorem request_eq_none (hc : e.pending = true → e.funcCall ≠ none) :
    e.request = none ↔ e.pending = false := by
  unfold InvokeEvent.request
  cases hp : e.pending with
  | false => simp
  | true => simpa using hc hp

theorem mem_requests_slots : r ∈ s.requests ↔ some r ∈ s.slots := by
  simp [Invoker.requests]

theorem mem_requests : r ∈ s.requests ↔ ∃ e ∈ s.toDoList, e.request = some r := by
  simp [mem_requests_slots, Invoker.slots]

theorem toNat_tick (h : now < portMaxDelay.toNat) : (UInt32.ofNat now).toNat = now := by
  rw [UInt32.toNat_ofNat']
  exact Nat.mod_eq_of_lt (h.trans (by decide))

/-- The test of the time-out branch, on ticks that do not wrap. -/
theorem due_iff (hr : e.request = some r) (hpast : r.reqWhen ≤ now)
    (hnow : now < portMaxDelay.toNat) : e.due (UInt32.ofNat now) = true ↔ now ≤ r.due := by
  obtain ⟨hp, -, hwhen, hdelay, -⟩ := request_eq_some hr
  have hle : e.reqWhen ≤ UInt32.ofNat now := by
    rw [UInt32.le_iff_toNat_le, toNat_tick hnow, ← hwhen]
    exact hpast
  simp only [InvokeEvent.due, hp, Bool.true_and, decide_eq_true_eq, Request.due]
  rw [UInt32.le_iff_toNat_le, UInt32.toNat_sub_of_le _ _ hle, toNat_tick hnow, ← hwhen, ← hdelay]
  omega

theorem callArgs_eq (hr : e.request = some r) (ha : e.argCnt ≤ e.arg.length) :
    (e.funcCall, e.callArgs) = r.call := by
  obtain ⟨-, hf, -, -, hargs⟩ := request_eq_some hr
  rw [Request.call, hf, hargs, List.length_take, Nat.min_eq_left ha]
  rfl

/-- A slot after a pass: it keeps its request if the due tick has gone by. -/
theorem request_pass (hc : e.pending = true → e.funcCall ≠ none)
    (hpast : ∀ r, e.request = some r → r.reqWhen ≤ now) (hnow : now < portMaxDelay.toNat) :
    (if e.due (UInt32.ofNat now) then { e with funcCallDelay := portMaxDelay } else e).request =
      e.request.filter (·.due < now) := by
  cases hr : e.request with
  | none =>
    have hp := (request_eq_none hc).mp hr
    rw [if_neg (by simp [InvokeEvent.due, hp]), hr]
    rfl
  | some r =>
    by_cases hd : e.due (UInt32.ofNat now) = true
    · have hle := (due_iff hr (hpast r hr) hnow).mp hd
      rw [if_pos hd, Option.filter_some, if_neg (by simpa using hle)]
      simp [InvokeEvent.request, InvokeEvent.pending]
    · have hlt := mt (due_iff hr (hpast r hr) hnow).mpr hd
      rw [if_neg hd, hr, Option.filter_some, if_pos (by simpa using hlt)]

theorem pass_slots (h : s.Sound now) (hnow : now < portMaxDelay.toNat) :
    (s.pass (UInt32.ofNat now)).slots = s.slots.map (Option.filter (·.due < now)) := by
  simp only [Invoker.slots, Invoker.pass, List.map_map]
  refine List.map_congr_left fun e he => ?_
  exact request_pass (h.callable e he) (fun r hr => h.past r (mem_requests.mpr ⟨e, he, hr⟩)) hnow

theorem mem_requests_pass (h : s.Sound now) (hnow : now < portMaxDelay.toNat) :
    r ∈ (s.pass (UInt32.ofNat now)).requests ↔ r ∈ s.requests ∧ r.due < now := by
  simp only [mem_requests_slots, pass_slots h hnow, List.mem_map, Option.filter_eq_some_iff,
    decide_eq_true_eq]
  constructor
  · rintro ⟨o, ho, rfl, hlt⟩
    exact ⟨ho, hlt⟩
  · rintro ⟨hr, hlt⟩
    exact ⟨some r, hr, rfl, hlt⟩

/-- A pass runs the calls whose due tick has not gone by. -/
theorem dueCalls_eq (h : s.Sound now) (hnow : now < portMaxDelay.toNat) :
    s.dueCalls (UInt32.ofNat now) = (s.requests.filter (now ≤ ·.due)).map Request.call := by
  suffices hsub : ∀ l ⊆ s.toDoList,
      (l.filter (·.due (UInt32.ofNat now))).map (fun e => (e.funcCall, e.callArgs)) =
        (((l.map InvokeEvent.request).filterMap id).filter (now ≤ ·.due)).map Request.call from
    hsub _ (List.Subset.refl _)
  intro l hl
  induction l with
  | nil => rfl
  | cons e l ih =>
    obtain ⟨he, hl⟩ := List.cons_subset.mp hl
    cases hr : e.request with
    | none =>
      have hp := (request_eq_none (h.callable e he)).mp hr
      have hd : e.due (UInt32.ofNat now) = false := by simp [InvokeEvent.due, hp]
      simpa [hr, hd] using ih hl
    | some r =>
      have hiff := due_iff hr (h.past r (mem_requests.mpr ⟨e, he, hr⟩)) hnow
      have hcall := callArgs_eq hr (h.args e he)
      by_cases hle : now ≤ r.due
      · simpa [hr, hiff.mpr hle, hle, hcall] using ih hl
      · have hd : e.due (UInt32.ofNat now) = false := by simpa using mt hiff.mp hle
        simpa [hr, hd, hle] using ih hl

/-- A request that is accepted is recorded in a slot that was free. -/
theorem invoke_slots {args : List Nat} (h : s.Accepts args)
    (tick wakeTick callDalayMs : TickType) (funcCall : F) :
    ∃ i, s.slots[i]? = some none ∧ (invoke s tick wakeTick callDalayMs funcCall args).state.slots =
      s.slots.set i (some ⟨tick.toNat, (pdMsToTicks callDalayMs).toNat, funcCall, args⟩) := by
  obtain ⟨hargs, hmutex, e₀, he₀, hfree⟩ := h
  have hsome : (s.toDoList.findIdx? (!·.pending)).isSome := by
    rw [List.findIdx?_isSome]
    exact List.any_eq_true.mpr ⟨e₀, he₀, by simp [hfree]⟩
  obtain ⟨i, hi⟩ := Option.isSome_iff_exists.mp hsome
  obtain ⟨hlt, hp, -⟩ := List.findIdx?_eq_some_iff_getElem.mp hi
  have hp : (s.toDoList[i]).pending = false := by simpa using hp
  refine ⟨i, by simp [Invoker.slots, hlt, InvokeEvent.request, hp], ?_⟩
  have hdelay : (pdMsToTicks callDalayMs != portMaxDelay) = true := pdMsToTicks_ne callDalayMs
  simp only [invoke, if_neg (Nat.not_lt.mpr hargs), hmutex, Bool.false_eq_true, if_false, hi,
    Invoker.slots]
  rw [List.modify_eq_set_getElem?, List.getElem?_eq_getElem hlt]
  simp [List.map_set, InvokeEvent.request, InvokeEvent.pending, hdelay]

/-- A request that is not accepted leaves the slots and the wake-up tick alone. -/
theorem invoke_refused {args : List Nat} (h : ¬ s.Accepts args)
    (tick wakeTick callDalayMs : TickType) (funcCall : F) :
    (invoke s tick wakeTick callDalayMs funcCall args).state.toDoList = s.toDoList ∧
      (invoke s tick wakeTick callDalayMs funcCall args).state.awakeCntdwn = s.awakeCntdwn := by
  unfold invoke
  split
  · exact ⟨rfl, rfl⟩
  rename_i hargs
  split
  · exact ⟨rfl, rfl⟩
  rename_i hmutex
  cases hi : s.toDoList.findIdx? (!·.pending) with
  | none => exact ⟨rfl, rfl⟩
  | some i =>
    obtain ⟨hlt, hp, -⟩ := List.findIdx?_eq_some_iff_getElem.mp hi
    exact absurd ⟨Nat.le_of_not_lt hargs, by simpa using hmutex, _, List.getElem_mem hlt,
      by simpa using hp⟩ h

theorem mem_requests_invoke {args : List Nat} {tick wakeTick callDalayMs : TickType}
    {funcCall : F} (h : r ∈ (invoke s tick wakeTick callDalayMs funcCall args).state.requests) :
    r ∈ s.requests ∨ r = ⟨tick.toNat, (pdMsToTicks callDalayMs).toNat, funcCall, args⟩ := by
  by_cases hacc : s.Accepts args
  · obtain ⟨i, -, hslots⟩ := invoke_slots hacc tick wakeTick callDalayMs funcCall
    rw [mem_requests_slots, hslots] at h
    rcases List.mem_or_eq_of_mem_set h with h | h
    · exact .inl (mem_requests_slots.mpr h)
    · exact .inr (Option.some.inj h)
  · rw [mem_requests, (invoke_refused hacc ..).1] at h
    exact .inl (mem_requests.mpr h)

theorem invoke_args {args : List Nat} (h : ∀ e ∈ s.toDoList, e.argCnt ≤ e.arg.length)
    (tick wakeTick callDalayMs : TickType) (funcCall : F) :
    ∀ e ∈ (invoke s tick wakeTick callDalayMs funcCall args).state.toDoList,
      e.argCnt ≤ e.arg.length := by
  unfold invoke
  split
  · exact h
  split
  · exact h
  split
  · exact h
  · intro e he
    obtain ⟨j, hj⟩ := List.mem_iff_getElem?.mp he
    rw [List.getElem?_modify] at hj
    obtain ⟨e', he', rfl⟩ := Option.map_eq_some_iff.mp hj
    split
    · simp
    · exact h e' (List.mem_of_getElem? he')

end

/-! ## Runs -/

section
variable {s s' : Clocked F} {a : ClockAction F} {tr : List (Label (Clocked F) (ClockAction F))}

theorem init_requests : (Invoker.init : Invoker F).requests = [] := rfl

theorem Clocked.init_sound : (Clocked.init : Clocked F).invoker.Sound 0 := by
  refine ⟨Invoker.init_callable, fun e he => ?_, fun r hr => ?_, fun r hr => ?_⟩
  · rw [List.eq_of_mem_replicate he]
    exact Nat.zero_le _
  all_goals
    rw [Clocked.init, init_requests] at hr
    cases hr

/-- A pass of the time-out branch does without the mutex, or looks at every slot. -/
theorem timeout_ok (h : clockStep s .timeout = .ok s') :
    (s.invoker.mutexTaken = true ∧ s.now + 200 < portMaxDelay.toNat ∧
        s' = { s with invoker := s.invoker.retry s.tick }) ∨
      (s.invoker.mutexTaken = false ∧ s' = { s with invoker := s.invoker.pass s.tick }) := by
  simp only [clockStep] at h
  by_cases hm : s.invoker.mutexTaken = true
  · rw [if_pos hm] at h
    obtain ⟨hfit, rfl⟩ := ite_eq_ok.mp h
    exact .inl ⟨hm, hfit, rfl⟩
  · rw [if_neg hm] at h
    cases h
    exact .inr ⟨by simpa using hm, rfl⟩

theorem clockStep_now_lt (h : clockStep s a = .ok s') (hnow : s.now < portMaxDelay.toNat) :
    s'.now < portMaxDelay.toNat := by
  cases a with
  | advance ticks =>
    obtain ⟨hfit, rfl⟩ := ite_eq_ok.mp h
    exact hfit
  | invoke ms f args between =>
    obtain ⟨hfit, rfl⟩ := ite_eq_ok.mp h
    exact Nat.lt_of_le_of_lt (Nat.le_add_right ..) hfit
  | timeout =>
    obtain ⟨-, -, rfl⟩ | ⟨-, rfl⟩ := timeout_ok h <;> exact hnow

theorem clockStep_sound (h : clockStep s a = .ok s') (hnow : s.now < portMaxDelay.toNat)
    (hs : s.invoker.Sound s.now) : s'.invoker.Sound s'.now := by
  cases a with
  | advance ticks =>
    obtain ⟨-, rfl⟩ := ite_eq_ok.mp h
    exact ⟨hs.callable, hs.args, fun r hr => (hs.past r hr).trans (Nat.le_add_right ..), hs.due_lt⟩
  | invoke ms f args between =>
    obtain ⟨hfit, rfl⟩ := ite_eq_ok.mp h
    refine ⟨invoke_callable hs.callable _ _ _ _ _, invoke_args hs.args _ _ _ _, ?_, ?_⟩
    · intro r hr
      rcases mem_requests_invoke hr with hr | rfl
      · exact (hs.past r hr).trans (Nat.le_add_right ..)
      · exact (toNat_tick hnow).le.trans (Nat.le_add_right ..)
    · intro r hr
      rcases mem_requests_invoke hr with hr | rfl
      · exact hs.due_lt r hr
      · exact (congrArg (· + (pdMsToTicks ms).toNat) (toNat_tick hnow)).trans_lt (by omega)
  | timeout =>
    obtain ⟨-, -, rfl⟩ | ⟨-, rfl⟩ := timeout_ok h
    · exact ⟨hs.callable, hs.args, hs.past, hs.due_lt⟩
    · have hmem : ∀ r ∈ (s.invoker.pass s.tick).requests, r ∈ s.invoker.requests :=
        fun r hr => ((mem_requests_pass hs hnow).mp hr).1
      refine ⟨Invoker.pass_callable hs.callable _, fun e he => ?_,
        fun r hr => hs.past r (hmem r hr), fun r hr => hs.due_lt r (hmem r hr)⟩
      obtain ⟨e', he', rfl⟩ := List.mem_map.mp he
      split <;> exact hs.args e' he'

theorem clock_sound (h : Run clockStep (Clocked.init : Clocked F) tr s) :
    s.now < portMaxDelay.toNat ∧ s.invoker.Sound s.now :=
  h.invariant (I := fun s => s.now < portMaxDelay.toNat ∧ s.invoker.Sound s.now)
    ⟨(by decide : 0 < portMaxDelay.toNat), Clocked.init_sound⟩
    fun _ _ _ ⟨hnow, hs⟩ hstep => ⟨clockStep_now_lt hstep hnow, clockStep_sound hstep hnow hs⟩

end

end DoorLock
