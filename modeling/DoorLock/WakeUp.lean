import DoorLock.Deferred

/-!
# The wake-up tick

`s_awake_cntdwn` is to be no later than the earliest pending call. `invoke` compares a delay with
the tick that is stored and reads the clock twice, and a pass that leaves a call pending stores a
difference that wraps; the runs in which none of this does harm are described exactly.
-/

namespace DoorLock

open Transition

variable {F : Type}

/-- The time-out of the receive, `MAX(s_awake_cntdwn,cur_time)-cur_time`. -/
def Invoker.receiveTimeout (s : Invoker F) (curTime : TickType) : TickType :=
  (if curTime < s.awakeCntdwn then s.awakeCntdwn else curTime) - curTime

/-- `system_service` does not sleep past a deadline. -/
structure WakesInTime (s : Invoker F) : Prop where
  le_due : ∀ r ∈ s.requests, s.awakeCntdwn.toNat ≤ r.due
  idle : s.awakeCntdwn = portMaxDelay → s.requests = []
  timeout : ∀ r ∈ s.requests, ∀ curTime : TickType,
    (s.receiveTimeout curTime).toNat ≤ r.due - curTime.toNat

/-- The steps that are to set the wake-up tick leave one that is in time. -/
def SetsWakeUp (l : Label (Clocked F) (ClockAction F)) : Prop :=
  match l.act with
  | .advance _ => True
  | .invoke _ _ args _ => l.pre.invoker.Accepts args → WakesInTime l.post.invoker
  | .timeout => WakesInTime l.post.invoker

/-- No pending call is overtaken: a request with a delay below the stored wake-up tick reads the
same tick count twice and is due no later than any of them, no pass comes after its due tick, and
a pass that does not get the mutex comes two hundred ticks before. -/
def OvertakesNone (l : Label (Clocked F) (ClockAction F)) : Prop :=
  match l.act with
  | .advance _ => True
  | .invoke callDalayMs _ args between => l.pre.invoker.Accepts args →
    pdMsToTicks callDalayMs < l.pre.invoker.awakeCntdwn →
      between = 0 ∧
        ∀ r ∈ l.pre.invoker.requests, l.pre.now + (pdMsToTicks callDalayMs).toNat ≤ r.due
  | .timeout =>
    if l.pre.invoker.mutexTaken then ∀ r ∈ l.pre.invoker.requests, l.pre.now + 200 ≤ r.due
    else ∀ r ∈ l.pre.invoker.requests, l.pre.now ≤ r.due

section
variable {s s' : Invoker F} {now : Nat} {r : Request F}

theorem receiveTimeout_toNat (s : Invoker F) (curTime : TickType) :
    (s.receiveTimeout curTime).toNat = s.awakeCntdwn.toNat - curTime.toNat := by
  rw [Invoker.receiveTimeout]
  split
  · rename_i h
    have hlt := UInt32.lt_iff_toNat_lt.mp h
    exact UInt32.toNat_sub_of_le _ _ (UInt32.le_iff_toNat_le.mpr hlt.le)
  · rename_i h
    have hle := Nat.le_of_not_lt (mt UInt32.lt_iff_toNat_lt.mpr h)
    rw [UInt32.sub_self]
    exact (Nat.sub_eq_zero_of_le hle).symm

/-- It is enough to look at the stored tick. -/
theorem wakesInTime_iff : WakesInTime s ↔ (∀ r ∈ s.requests, s.awakeCntdwn.toNat ≤ r.due) ∧
    (s.awakeCntdwn = portMaxDelay → s.requests = []) := by
  refine ⟨fun h => ⟨h.le_due, h.idle⟩, fun ⟨hle, hidle⟩ => ⟨hle, hidle, ?_⟩⟩
  intro r hr curTime
  rw [receiveTimeout_toNat]
  exact Nat.sub_le_sub_right (hle r hr) _

/-- A wake-up tick below `portMAX_DELAY` need only be no later than the pending calls. -/
theorem wakesInTime_iff_of_lt (h : s.awakeCntdwn.toNat < portMaxDelay.toNat) :
    WakesInTime s ↔ ∀ r ∈ s.requests, s.awakeCntdwn.toNat ≤ r.due := by
  rw [wakesInTime_iff, and_iff_left]
  intro heq
  rw [heq] at h
  exact absurd h (Nat.lt_irrefl _)

/-! ## `invoke` -/

theorem invoke_awakeCntdwn {args : List Nat} (h : s.Accepts args)
    (tick wakeTick callDalayMs : TickType) (funcCall : F) :
    (invoke s tick wakeTick callDalayMs funcCall args).state.awakeCntdwn =
      if pdMsToTicks callDalayMs < s.awakeCntdwn then wakeTick + pdMsToTicks callDalayMs
      else s.awakeCntdwn := by
  obtain ⟨hargs, hmutex, e₀, he₀, hfree⟩ := h
  have hsome : (s.toDoList.findIdx? (!·.pending)).isSome := by
    rw [List.findIdx?_isSome]
    exact List.any_eq_true.mpr ⟨e₀, he₀, by simp [hfree]⟩
  obtain ⟨i, hi⟩ := Option.isSome_iff_exists.mp hsome
  simp only [invoke, if_neg (Nat.not_lt.mpr hargs), hmutex, Bool.false_eq_true, if_false, hi]

/-- The requests after one was accepted. -/
theorem mem_requests_accepted {args : List Nat} (h : s.Accepts args)
    (tick wakeTick callDalayMs : TickType) (funcCall : F) :
    r ∈ (invoke s tick wakeTick callDalayMs funcCall args).state.requests ↔
      r ∈ s.requests ∨ r = ⟨tick.toNat, (pdMsToTicks callDalayMs).toNat, funcCall, args⟩ := by
  refine ⟨mem_requests_invoke, ?_⟩
  obtain ⟨i, hi, hslots⟩ := invoke_slots h tick wakeTick callDalayMs funcCall
  have hlt : i < s.slots.length := (List.getElem?_eq_some_iff.mp hi).1
  simp only [mem_requests_slots, hslots]
  rintro (hr | rfl)
  · obtain ⟨j, hj⟩ := List.mem_iff_getElem?.mp hr
    have hij : i ≠ j := by
      rintro rfl
      rw [hi] at hj
      cases hj
    exact List.mem_iff_getElem?.mpr ⟨j, by rw [List.getElem?_set_ne hij, hj]⟩
  · exact List.mem_iff_getElem?.mpr ⟨i, by rw [List.getElem?_set_self hlt]⟩

/-- A request that is recorded keeps the wake-up tick in time just when it replaces the tick by one
that is no later than the calls that were pending and its own due tick. -/
theorem invoke_wakesInTime_iff {args : List Nat} {callDalayMs : TickType} {funcCall : F}
    {between : Nat} (hacc : s.Accepts args) (hnow : now < portMaxDelay.toNat)
    (hfit : now + between + (pdMsToTicks callDalayMs).toNat < portMaxDelay.toNat)
    (h : WakesInTime s) :
    WakesInTime (invoke s (UInt32.ofNat now) (UInt32.ofNat (now + between)) callDalayMs funcCall
        args).state ↔
      (pdMsToTicks callDalayMs < s.awakeCntdwn →
        between = 0 ∧ ∀ r ∈ s.requests, now + (pdMsToTicks callDalayMs).toNat ≤ r.due) := by
  have hnew : (⟨(UInt32.ofNat now).toNat, (pdMsToTicks callDalayMs).toNat, funcCall, args⟩ :
      Request F).due = now + (pdMsToTicks callDalayMs).toNat := by
    rw [Request.due, toNat_tick hnow]
  have hawake := invoke_awakeCntdwn hacc (UInt32.ofNat now) (UInt32.ofNat (now + between))
    callDalayMs funcCall
  by_cases hlt : pdMsToTicks callDalayMs < s.awakeCntdwn
  · have hsum : (UInt32.ofNat (now + between) + pdMsToTicks callDalayMs).toNat =
        now + between + (pdMsToTicks callDalayMs).toNat := by
      rw [UInt32.toNat_add, toNat_tick (by omega)]
      exact Nat.mod_eq_of_lt (hfit.trans (by decide))
    rw [if_pos hlt] at hawake
    rw [wakesInTime_iff_of_lt (by rw [hawake, hsum]; exact hfit), hawake, hsum]
    simp only [mem_requests_accepted hacc, hlt, forall_true_left]
    constructor
    · intro hle
      -- the new request is due at its own reading of the clock
      have hown := hle _ (.inr rfl)
      rw [hnew] at hown
      have hzero : between = 0 := by omega
      subst hzero
      exact ⟨rfl, fun r hr => hle r (.inl hr)⟩
    · rintro ⟨rfl, hle⟩ r (hr | rfl)
      · exact hle r hr
      · exact hnew.ge
  · -- the stored tick is at most the delay, and stays
    rw [if_neg hlt] at hawake
    have hge : s.awakeCntdwn.toNat ≤ (pdMsToTicks callDalayMs).toNat :=
      Nat.le_of_not_lt fun hl => hlt (UInt32.lt_iff_toNat_lt.mpr hl)
    refine iff_of_true ?_ fun hlt' => absurd hlt' hlt
    rw [wakesInTime_iff_of_lt (by rw [hawake]; omega), hawake]
    simp only [mem_requests_accepted hacc]
    rintro r (hr | rfl)
    · exact h.le_due r hr
    · rw [hnew]
      omega

/-! ## The time-out branch -/

/-- The difference stored for a call whose due tick has gone by wraps past the due tick. -/
theorem due_lt_wrapped {e : InvokeEvent F} (hr : e.request = some r)
    (hdue : r.due < portMaxDelay.toNat) (hnow : now < portMaxDelay.toNat) (hlt : r.due < now) :
    r.due < (e.reqWhen + e.funcCallDelay - UInt32.ofNat now).toNat := by
  obtain ⟨-, -, hwhen, hdelay, -⟩ := request_eq_some hr
  have hmax : portMaxDelay.toNat < 2 ^ 32 := by decide
  have hsum : (e.reqWhen + e.funcCallDelay).toNat = r.due := by
    rw [UInt32.toNat_add, ← hwhen, ← hdelay]
    exact Nat.mod_eq_of_lt (hdue.trans hmax)
  rw [UInt32.toNat_sub, hsum, toNat_tick hnow, Nat.mod_eq_of_lt (by omega)]
  omega

/-- A pass that leaves a call pending stores a tick behind the due tick of one of those it
leaves. -/
theorem pass_awakeCntdwn (h : s.Sound now) (hnow : now < portMaxDelay.toNat)
    (hlate : ∃ r ∈ s.requests, r.due < now) :
    ∃ r ∈ s.requests, r.due < now ∧
      r.due < (s.pass (UInt32.ofNat now)).awakeCntdwn.toNat := by
  have hfold : ∀ l ⊆ s.toDoList, ∀ awake : TickType,
      (awake = portMaxDelay ∨ ∃ r ∈ s.requests, r.due < now ∧ r.due < awake.toNat) →
      l.foldl (fun awake e => e.nextAwake (UInt32.ofNat now) awake) awake = portMaxDelay ∨
        ∃ r ∈ s.requests, r.due < now ∧
          r.due < (l.foldl (fun awake e => e.nextAwake (UInt32.ofNat now) awake) awake).toNat := by
    intro l hl
    induction l with
    | nil => exact fun _ ha => ha
    | cons e l ih =>
      intro awake ha
      obtain ⟨he, hl⟩ := List.cons_subset.mp hl
      refine ih hl _ ?_
      dsimp only [InvokeEvent.nextAwake]
      split
      · rename_i hc
        simp only [Bool.and_eq_true, Bool.not_eq_true'] at hc
        obtain ⟨⟨hp, hd⟩, -⟩ := hc
        obtain ⟨r, hr⟩ := Option.ne_none_iff_exists'.mp
          (mt (request_eq_none (h.callable e he)).mp (by simp [hp]))
        have hmem := mem_requests.mpr ⟨e, he, hr⟩
        have hlt : r.due < now :=
          Nat.lt_of_not_le (mt (due_iff hr (h.past r hmem) hnow).mpr (by simp [hd]))
        exact .inr ⟨r, hmem, hlt, due_lt_wrapped hr (h.due_lt r hmem) hnow hlt⟩
      · exact ha
  rcases hfold _ (List.Subset.refl _) portMaxDelay (.inl rfl) with hmax | hr
  · obtain ⟨r, hr, hlt⟩ := hlate
    refine ⟨r, hr, hlt, ?_⟩
    rw [Invoker.pass, hmax]
    exact h.due_lt r hr
  · exact hr

/-- A pass leaves the wake-up tick in time just when it leaves no call pending. -/
theorem pass_wakesInTime_iff (h : s.Sound now) (hnow : now < portMaxDelay.toNat) :
    WakesInTime (s.pass (UInt32.ofNat now)) ↔ ∀ r ∈ s.requests, now ≤ r.due := by
  constructor
  · intro hw
    by_contra hlate
    simp only [not_forall, Nat.not_le] at hlate
    obtain ⟨r, hr, hlt⟩ := hlate
    obtain ⟨r, hr, hlt, hawake⟩ := pass_awakeCntdwn h hnow ⟨r, hr, hlt⟩
    exact absurd (hw.le_due r ((mem_requests_pass h hnow).mpr ⟨hr, hlt⟩)) (Nat.not_le.mpr hawake)
  · intro hdue
    have hnone : (s.pass (UInt32.ofNat now)).requests = [] := by
      refine List.eq_nil_iff_forall_not_mem.mpr fun r hr => ?_
      obtain ⟨hr, hlt⟩ := (mem_requests_pass h hnow).mp hr
      exact absurd (hdue r hr) (Nat.not_le.mpr hlt)
    rw [wakesInTime_iff, hnone]
    exact ⟨nofun, fun _ => rfl⟩

theorem retry_wakesInTime_iff (hfit : now + 200 < portMaxDelay.toNat) :
    WakesInTime (s.retry (UInt32.ofNat now)) ↔ ∀ r ∈ s.requests, now + 200 ≤ r.due := by
  have hawake : (s.retry (UInt32.ofNat now)).awakeCntdwn.toNat = now + 200 := by
    rw [Invoker.retry, UInt32.toNat_add, toNat_tick (by omega)]
    exact Nat.mod_eq_of_lt (hfit.trans (by decide))
  rw [wakesInTime_iff_of_lt (by rw [hawake]; exact hfit), hawake]
  rfl

end

/-! ## Runs -/

section
variable {s s' : Clocked F} {a : ClockAction F} {tr : List (Label (Clocked F) (ClockAction F))}

theorem wakesInTime_congr {i i' : Invoker F} (hl : i'.toDoList = i.toDoList)
    (ha : i'.awakeCntdwn = i.awakeCntdwn) (h : WakesInTime i) : WakesInTime i' := by
  have hreq : i'.requests = i.requests := by rw [Invoker.requests, Invoker.slots, hl]; rfl
  rw [wakesInTime_iff] at h ⊢
  rwa [hreq, ha]

theorem setsWakeUp_step (h : clockStep s a = .ok s') (hnow : s.now < portMaxDelay.toNat)
    (hs : s.invoker.Sound s.now) (hw : WakesInTime s.invoker) :
    (SetsWakeUp ⟨s, a, s'⟩ ↔ OvertakesNone ⟨s, a, s'⟩) ∧
      (SetsWakeUp ⟨s, a, s'⟩ → WakesInTime s'.invoker) := by
  cases a with
  | advance ticks =>
    obtain ⟨-, rfl⟩ := ite_eq_ok.mp h
    exact ⟨.rfl, fun _ => hw⟩
  | invoke ms f args between =>
    obtain ⟨hfit, rfl⟩ := ite_eq_ok.mp h
    refine ⟨forall_congr' fun hacc => invoke_wakesInTime_iff hacc hnow hfit hw, fun hset => ?_⟩
    by_cases hacc : s.invoker.Accepts args
    · exact hset hacc
    · obtain ⟨hl, ha⟩ := invoke_refused hacc s.tick (UInt32.ofNat (s.now + between)) ms f
      exact wakesInTime_congr hl ha hw
  | timeout =>
    obtain ⟨hm, hfit, rfl⟩ | ⟨hm, rfl⟩ := timeout_ok h
    · simp only [SetsWakeUp, OvertakesNone, hm, if_true]
      exact ⟨retry_wakesInTime_iff hfit, id⟩
    · simp only [SetsWakeUp, OvertakesNone, hm, Bool.false_eq_true, if_false]
      exact ⟨pass_wakesInTime_iff hs hnow, id⟩

/-- In a run the wake-up tick is set in time at every step that sets it just when no pending call
is overtaken. -/
theorem setsWakeUp_iff (h : Run clockStep (Clocked.init : Clocked F) tr s) :
    (∀ l ∈ tr, SetsWakeUp l) ↔ ∀ l ∈ tr, OvertakesNone l := by
  refine (h.forall_iff (I := fun s => WakesInTime s.invoker) ?_ ?_).1
  · rw [wakesInTime_iff]
    exact ⟨nofun, fun _ => rfl⟩
  · intro _ _ _ _ hrun hw hs
    obtain ⟨hnow, hsound⟩ := clock_sound hrun
    exact setsWakeUp_step hs hnow hsound hw

end

/-- Calls after a second asked for at ticks 1000 and 1090, as by two popups. -/
def twoPopups : List (ClockAction Unit) :=
  [.advance 1000, .invoke 1000 () [] 0, .advance 90, .invoke 1000 () [] 0]

theorem setsWakeUp_iff_twoPopups :
    (∀ l ∈ trace clockStep Clocked.init twoPopups, SetsWakeUp l) ↔
      ∀ l ∈ trace clockStep Clocked.init twoPopups, OvertakesNone l :=
  setsWakeUp_iff (Run.of_isOk _ (by decide +kernel))

/-- The second request moves the wake-up tick to 1190, behind the first call, which is due
at 1100. -/
theorem twoPopups_oversleep :
    ∃ tr s, Run clockStep (Clocked.init : Clocked Unit) tr s ∧ ¬ ∀ l ∈ tr, SetsWakeUp l := by
  refine ⟨_, _, Run.replay twoPopups.dropLast (.invoke 1000 () [] 0) (by decide +kernel)
    (by decide +kernel), fun h => ?_⟩
  have hset := h _ (List.mem_append_right _ (List.mem_singleton_self _))
  have hacc : (after clockStep Clocked.init twoPopups.dropLast).invoker.Accepts [] :=
    ⟨by decide, by decide +kernel, by decide +kernel⟩
  exact absurd (hset hacc).le_due (by decide +kernel)

end DoorLock
