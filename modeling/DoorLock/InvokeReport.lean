import DoorLock.Deferred

/-!
# What `invoke` reports

`invoke` with its count of arguments and the outcome of taking the mutex. It returns `true` whenever
it gets as far as the loop over the slots, and gives the mutex back only where the loop finds one.
-/

namespace DoorLock

open Transition

variable {F : Type}

/-- A call of `invoke`: whether it takes the mutex in time, the tick counts it reads, and its
arguments, the last ones as many as `arg_count` says. -/
structure InvokeReq (F : Type) where
  got : Bool
  now : TickType
  wakeNow : TickType
  callDalayMs : TickType
  funcCall : F
  argCount : Int
  args : List Nat

/-- A slot as `invoke` fills it in. It keeps the count as a `uint8_t`, and a negative one loads no
argument. -/
def InvokeEvent.fill (e : InvokeEvent F) (c : InvokeReq F) : InvokeEvent F :=
  let given := c.args.take c.argCount.toNat
  { reqWhen := c.now
    funcCallDelay := pdMsToTicks c.callDalayMs
    funcCall := some c.funcCall
    arg := given ++ e.arg.drop given.length
    argCnt := (c.argCount % 256).toNat }

/-- `invoke`, for any `arg_count`. -/
def invokeWith (s : Invoker F) (c : InvokeReq F) : InvokeResult F :=
  if 4 < c.argCount then ⟨s, false, false⟩
  else if c.got = false then ⟨s, false, false⟩
  else match s.toDoList.findIdx? (!·.pending) with
    | none => ⟨{ s with mutexTaken := true }, true, false⟩
    | some i =>
      let delay := pdMsToTicks c.callDalayMs
      let earliest := delay < s.awakeCntdwn
      ⟨{ toDoList := s.toDoList.modify i (·.fill c)
         mutexTaken := false
         awakeCntdwn := if earliest then c.wakeNow + delay else s.awakeCntdwn },
        true, earliest⟩

/-- `invoke` with its arguments counted, when the mutex is taken in time unless it is held. -/
theorem invoke_eq_invokeWith (s : Invoker F) (now wakeNow callDalayMs : TickType) (funcCall : F)
    (args : List Nat) : invoke s now wakeNow callDalayMs funcCall args =
      invokeWith s ⟨!s.mutexTaken, now, wakeNow, callDalayMs, funcCall, args.length, args⟩ := by
  obtain ⟨toDoList, mutexTaken, awakeCntdwn⟩ := s
  unfold invoke invokeWith
  by_cases hargs : 4 < args.length
  · have hcount : 4 < (args.length : Int) := by omega
    rw [if_pos hargs, if_pos hcount]
  · have hcount : ¬ 4 < (args.length : Int) := by omega
    have hmod : ((args.length : Int) % 256).toNat = args.length := by omega
    rw [if_neg hargs, if_neg hcount]
    cases mutexTaken with
    | true => rfl
    | false =>
      cases toDoList.findIdx? (!·.pending) <;> simp [hmod, InvokeEvent.fill]

/-- A slot holds what a call asks for. -/
structure InvokeEvent.Holds (e : InvokeEvent F) (c : InvokeReq F) : Prop where
  funcCall : e.funcCall = some c.funcCall
  arg : e.arg.take (c.args.take c.argCount.toNat).length = c.args.take c.argCount.toNat
  argCnt : e.argCnt = (c.argCount % 256).toNat
  reqWhen : e.reqWhen = c.now
  funcCallDelay : e.funcCallDelay = pdMsToTicks c.callDalayMs

/-- A call of `invoke`, or a pass of the time-out branch of `system_service` at a tick. -/
inductive InvokerAction (F : Type)
  | invoke (c : InvokeReq F)
  | timeout (curTime : TickType) (got : Bool)

/-- The mutex is taken only while it is free. -/
def invokerStep (s : Invoker F) : InvokerAction F → Except Unit (Invoker F)
  | .invoke c =>
    if c.got = true → s.mutexTaken = false then .ok (invokeWith s c).state else .error ()
  | .timeout curTime got =>
    if got = true → s.mutexTaken = false then
      .ok (if got then s.pass curTime else s.retry curTime)
    else .error ()

/-- The slots before and after a call: a slot that was free holds what is asked for, and no other
slot has changed. -/
def TakesSlot (s : Invoker F) (c : InvokeReq F) (s' : Invoker F) : Prop :=
  ∃ i e e', s.toDoList[i]? = some e ∧ e.pending = false ∧ e'.Holds c ∧
    s'.toDoList = s.toDoList.set i e'

/-- The result of a call says whether it was recorded, a call that was not leaves nothing behind,
and the mutex is given back. -/
structure ReportsRight (l : Label (Invoker F) (InvokerAction F)) : Prop where
  recorded : ∀ c, l.act = .invoke c →
    ((invokeWith l.pre c).ret = true ↔ TakesSlot l.pre c l.post)
  unchanged : ∀ c, l.act = .invoke c → (invokeWith l.pre c).ret = false →
    l.post.toDoList = l.pre.toDoList ∧ l.post.awakeCntdwn = l.pre.awakeCntdwn
  released : l.post.mutexTaken = l.pre.mutexTaken

/-- A call that gets to the loop finds a free slot. -/
def FindsSlot (l : Label (Invoker F) (InvokerAction F)) : Prop :=
  ∀ c, l.act = .invoke c → c.argCount ≤ 4 → c.got = true → ∃ e ∈ l.pre.toDoList, e.pending = false

section
variable {s s' s₀ : Invoker F} {c : InvokeReq F} {e : InvokeEvent F}
  {tr : List (Label (Invoker F) (InvokerAction F))} {a : InvokerAction F}

theorem InvokeEvent.Holds.pending (h : e.Holds c) : e.pending = true := by
  rw [InvokeEvent.pending, h.funcCallDelay]
  exact pdMsToTicks_ne _

theorem fill_holds (e : InvokeEvent F) (c : InvokeReq F) : (e.fill c).Holds c :=
  ⟨rfl, List.take_left, rfl, rfl, rfl⟩

/-- A slot that was free and holds a call has changed. -/
theorem not_takesSlot_self (h : s'.toDoList = s.toDoList) : ¬TakesSlot s c s' := by
  rintro ⟨i, e, e', hi, hfree, hholds, hset⟩
  have hlt : i < s.toDoList.length := (List.getElem?_eq_some_iff.mp hi).1
  have hi' : s.toDoList[i]? = some e' := by
    rw [← h, hset, List.getElem?_set_self hlt]
  cases hi.symm.trans hi'
  simp [hholds.pending] at hfree

/-- The call is refused. -/
theorem invokeWith_refused (h : 4 < c.argCount ∨ c.got = false) :
    invokeWith s c = ⟨s, false, false⟩ := by
  unfold invokeWith
  by_cases hcount : 4 < c.argCount
  · rw [if_pos hcount]
  · rw [if_neg hcount, if_pos (h.resolve_left hcount)]

/-- The loop finds no slot. -/
theorem invokeWith_full (hcount : c.argCount ≤ 4) (hgot : c.got = true)
    (hfull : ¬∃ e ∈ s.toDoList, e.pending = false) :
    invokeWith s c = ⟨{ s with mutexTaken := true }, true, false⟩ := by
  have hnone : s.toDoList.findIdx? (!·.pending) = none := by
    rw [List.findIdx?_eq_none_iff]
    intro e he
    cases hp : e.pending with
    | true => rfl
    | false => exact absurd ⟨e, he, hp⟩ hfull
  rw [invokeWith, if_neg (Int.not_lt.mpr hcount), if_neg (by simp [hgot]), hnone]

/-- The loop finds a slot. -/
theorem invokeWith_takesSlot (hcount : c.argCount ≤ 4) (hgot : c.got = true)
    (hfree : ∃ e ∈ s.toDoList, e.pending = false) :
    (invokeWith s c).ret = true ∧ TakesSlot s c (invokeWith s c).state ∧
      (invokeWith s c).state.mutexTaken = false := by
  obtain ⟨e₀, he₀, hfree⟩ := hfree
  have hsome : (s.toDoList.findIdx? (!·.pending)).isSome := by
    rw [List.findIdx?_isSome]
    exact List.any_eq_true.mpr ⟨e₀, he₀, by simp [hfree]⟩
  obtain ⟨i, hi⟩ := Option.isSome_iff_exists.mp hsome
  obtain ⟨hlt, hp, -⟩ := List.findIdx?_eq_some_iff_getElem.mp hi
  rw [invokeWith, if_neg (Int.not_lt.mpr hcount), if_neg (by simp [hgot]), hi]
  refine ⟨rfl, ⟨i, _, s.toDoList[i].fill c, List.getElem?_eq_getElem hlt, by simpa using hp,
    fill_holds _ c, ?_⟩, rfl⟩
  dsimp only
  rw [List.modify_eq_set_getElem?, List.getElem?_eq_getElem hlt]
  rfl

/-- What a call reports is right just when the loop, if it gets there, finds a slot. -/
theorem reportsRight_invoke_iff (h : invokerStep s (.invoke c) = .ok s') :
    ReportsRight ⟨s, .invoke c, s'⟩ ↔ FindsSlot ⟨s, .invoke c, s'⟩ := by
  obtain ⟨hmutex, rfl⟩ := ite_eq_ok.mp h
  constructor
  · rintro hright _ ⟨⟩ hcount hgot
    by_contra hfull
    have hreleased := hright.released
    rw [invokeWith_full hcount hgot hfull, hmutex hgot] at hreleased
    cases hreleased
  · intro hfinds
    by_cases href : 4 < c.argCount ∨ c.got = false
    · have heq := invokeWith_refused (s := s) href
      refine ⟨?_, ?_, ?_⟩
      · rintro _ ⟨⟩
        refine iff_of_false (by simp [heq]) (not_takesSlot_self ?_)
        exact congrArg (fun r => r.state.toDoList) heq
      · rintro _ ⟨⟩ -
        rw [heq]
        exact ⟨rfl, rfl⟩
      · rw [heq]
    · obtain ⟨hcount, hgot⟩ := not_or.mp href
      have hgot : c.got = true := by simpa using hgot
      obtain ⟨hret, htakes, hreleased⟩ := invokeWith_takesSlot (Int.not_lt.mp hcount) hgot
        (hfinds c rfl (Int.not_lt.mp hcount) hgot)
      refine ⟨?_, ?_, ?_⟩
      · rintro _ ⟨⟩
        exact iff_of_true hret htakes
      · rintro _ ⟨⟩ hfalse
        rw [hret] at hfalse
        cases hfalse
      · exact hreleased.trans (hmutex hgot).symm

theorem reportsRight_step_iff (h : invokerStep s a = .ok s') :
    ReportsRight ⟨s, a, s'⟩ ↔ FindsSlot ⟨s, a, s'⟩ := by
  cases a with
  | invoke c => exact reportsRight_invoke_iff h
  | timeout curTime got =>
    obtain ⟨-, rfl⟩ := ite_eq_ok.mp h
    refine iff_of_true ⟨nofun, nofun, ?_⟩ nofun
    cases got <;> rfl

/-- In every run, from any state of the slots, all calls report the truth and give the mutex back
just when none gets to the loop with every slot taken; the mutex is then never lost. -/
theorem reportsRight_iff (h : Run invokerStep s₀ tr s) :
    ((∀ l ∈ tr, ReportsRight l) ↔ ∀ l ∈ tr, FindsSlot l) ∧
      ((∀ l ∈ tr, FindsSlot l) → s.mutexTaken = s₀.mutexTaken) := by
  induction h with
  | nil => exact ⟨by simp, fun _ => rfl⟩
  | snoc _ hs ih =>
    have hstep := reportsRight_step_iff hs
    simp only [List.forall_mem_append, List.forall_mem_singleton]
    refine ⟨and_congr ih.1 hstep, fun ⟨hfinds, hlast⟩ => ?_⟩
    exact (hstep.mpr hlast).released.trans (ih.2 hfinds)

end

/-- A call with no arguments that takes the mutex. -/
def plainReq : InvokeReq Unit := ⟨true, 0, 0, 1000, (), 0, []⟩

theorem reportsRight_iff_plainReq :
    ((∀ l ∈ trace invokerStep .init [.invoke plainReq], ReportsRight l) ↔
      ∀ l ∈ trace invokerStep .init [.invoke plainReq], FindsSlot l) ∧
    ((∀ l ∈ trace invokerStep .init [.invoke plainReq], FindsSlot l) →
      (after invokerStep .init [.invoke plainReq]).mutexTaken =
        (Invoker.init : Invoker Unit).mutexTaken) :=
  reportsRight_iff (Run.of_isOk _ (by decide +kernel))

/-- The seventeenth call returns `true`, records nothing and keeps the mutex. -/
theorem full_list_keeps_mutex : ∃ tr s, Run invokerStep (Invoker.init : Invoker Unit) tr s ∧
    ¬ ∀ l ∈ tr, ReportsRight l := by
  refine ⟨_, _, Run.replay (List.replicate 16 (.invoke plainReq)) (.invoke plainReq)
    (by decide +kernel) (by decide +kernel), fun h => ?_⟩
  have hlast := (h _ (List.mem_append_right _ (List.mem_singleton_self _))).released
  exact absurd hlast (by decide +kernel)

end DoorLock
