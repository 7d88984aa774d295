import DoorLock.TimedLock

/-!
# What the lock controller tells the UI

The LEDs, the time-out and the counter of `door_lock_task` go together, and its events form periods:
each begins with a message that unlocks, goes back to the full countdown with every further one, and
ends when a countdown is complete.
-/

namespace DoorLock

open Transition

/-- A message is received, or the receive times out. -/
inductive DoorAction
  | recv (pad : UInt8) (content : MsgContent)
  | timeout

/-- A receive with `portMAX_DELAY` returns with a message only. -/
def doorStep (d : DoorTask) : DoorAction → Except Unit DoorTask
  | .recv pad content =>
    match doorLockRecv pad d content with
    | .ok x => .ok x.1
    | .error _ => .error ()
  | .timeout =>
    if d.heartBeatFreq ≠ portMaxDelay then .ok (doorLockTimeout d).1 else .error ()

/-- The calls made in a step. -/
def doorOuts (l : Label DoorTask DoorAction) : List Out :=
  match l.act with
  | .recv pad content =>
    match doorLockRecv pad l.pre content with
    | .ok x => x.2
    | .error _ => []
  | .timeout => (doorLockTimeout l.pre).2

/-- The event that a call publishes to the UI. -/
def Out.doorlockEvent : Out → Option DoorlockEvent
  | .publish .hwDoorLock .servUi (.doorlockEvent e) .doorlockEvent => some e
  | _ => none

/-- The events published to the UI in a run. -/
def doorEvents (tr : List (Label DoorTask DoorAction)) : List DoorlockEvent :=
  tr.flatMap fun l => (doorOuts l).filterMap Out.doorlockEvent

/-! ## Periods -/

/-- `DOOR_UNLOCK`, and the first `n` seconds counted down after it from 9. -/
def countdown (n : Nat) : List DoorlockEvent :=
  ⟨.unlock, 0⟩ :: (List.range n).map fun i => ⟨.unlocked, UInt16.ofNat (9 - i)⟩

/-- The door has been unlocked once for each countdown in `ns`, and is open. -/
def openFor (ns : List Nat) : List DoorlockEvent := ns.flatMap countdown

/-- A period that is over: the last countdown is complete. -/
def period (ns : List Nat) : List DoorlockEvent := openFor ns ++ countdown 9 ++ [⟨.relock, 0⟩]

/-- No countdown goes below 1. -/
def Counted (ns : List Nat) : Prop := ∀ n ∈ ns, n ≤ 9

/-- The periods that are closed, and the countdowns of the one that is open, if one is. -/
structure Periods (es : List DoorlockEvent) (closed : List (List Nat)) (ns : List Nat) : Prop where
  eq : es = closed.flatMap period ++ openFor ns
  closed : ∀ ns' ∈ closed, Counted ns'
  counted : Counted ns

/-- The state of the lock and the countdown that runs. -/
inductive Counting : DoorTask → List Nat → Prop
  | locked : Counting ⟨0, portMaxDelay, false, true⟩ []
  | unlocked {n : Nat} (ns : List Nat) (h : n ≤ 9) :
      Counting ⟨10 - n, pdMsToTicks 1000, true, false⟩ (ns ++ [n])

section
variable {d d' : DoorTask} {es : List DoorlockEvent} {closed : List (List Nat)} {ns : List Nat}
  {n : Nat} {pad : UInt8} {content : MsgContent} {a : DoorAction}
  {tr : List (Label DoorTask DoorAction)}

theorem Counting.coherent (h : Counting d ns) : d.Coherent := by
  cases h with
  | locked => exact .locked
  | unlocked ns h => exact .unlocked (by omega) (by omega)

theorem Counting.eq_nil_iff (h : Counting d ns) : ns = [] ↔ ¬ d.Unlocked := by
  cases h with
  | locked => exact iff_of_true rfl (by decide)
  | unlocked ns _ => exact iff_of_false (by simp) (not_not.mpr ⟨rfl, rfl⟩)

theorem DoorTask.Coherent.countdownCnt_nonneg (h : d.Coherent) : 0 ≤ d.countdownCnt := by
  cases h with
  | locked => exact Int.le_refl 0
  | unlocked pos _ => exact Int.le_of_lt pos

theorem openFor_append (ns : List Nat) (n : Nat) :
    openFor (ns ++ [n]) = openFor ns ++ countdown n := by
  simp [openFor]

theorem countdown_succ (n : Nat) :
    countdown (n + 1) = countdown n ++ [⟨.unlocked, UInt16.ofNat (9 - n)⟩] := by
  simp [countdown, List.range_succ]

theorem counted_append : Counted (ns ++ [n]) ↔ Counted ns ∧ n ≤ 9 := by
  simp [Counted, or_imp, forall_and]

theorem Periods.unlock (h : Periods es closed ns) :
    Periods (es ++ [⟨.unlock, 0⟩]) closed (ns ++ [0]) where
  eq := by
    rw [h.eq, openFor_append, List.append_assoc]
    rfl
  closed := h.closed
  counted := counted_append.mpr ⟨h.counted, Nat.zero_le 9⟩

theorem Periods.unlocked (h : Periods es closed (ns ++ [n])) (hn : n < 9) :
    Periods (es ++ [⟨.unlocked, UInt16.ofNat (9 - n)⟩]) closed (ns ++ [n + 1]) where
  eq := by
    rw [h.eq, openFor_append, openFor_append, countdown_succ]
    simp only [List.append_assoc]
  closed := h.closed
  counted := counted_append.mpr ⟨(counted_append.mp h.counted).1, hn⟩

theorem Periods.relock (h : Periods es closed (ns ++ [9])) :
    Periods (es ++ [⟨.relock, 0⟩]) (closed ++ [ns]) [] where
  eq := by
    rw [h.eq, openFor_append]
    simp [period, openFor]
  closed := by
    intro ns' hns'
    rcases List.mem_append.mp hns' with hmem | hmem
    · exact h.closed ns' hmem
    · rw [List.mem_singleton.mp hmem]
      exact (counted_append.mp h.counted).1
  counted := nofun

/-! ## Runs -/

/-- What a message does. -/
theorem doorStep_recv (h : doorStep d (.recv pad content) = .ok d') :
    (content.Authenticates pad ∧ d' = unlockedFor10s ∧
        doorOuts ⟨d, .recv pad content, d'⟩ = [doorEventOut .unlock 0, .free]) ∨
      (¬ content.Authenticates pad ∧ d' = d ∧ doorOuts ⟨d, .recv pad content, d'⟩ = []) := by
  simp only [doorStep, doorOuts, doorLockRecv, MsgContent.Authenticates] at h ⊢
  cases hv : content.asPaswValid pad with
  | none => simp [hv] at h
  | some v =>
    by_cases hone : v = 1
    · simp only [hv, hone, if_true, Except.ok.injEq] at h ⊢
      exact .inl ⟨trivial, h.symm, trivial⟩
    · simp only [hv, hone, if_false, Except.ok.injEq, Option.some.injEq] at h ⊢
      exact .inr ⟨not_false, h.symm, trivial⟩

/-- A heart beat of an open door: one second less, or the lock closes. -/
theorem doorLockTimeout_counting (hn : n ≤ 9) (ns : List Nat)
    (h : Periods es closed (ns ++ [n])) :
    ∃ closed' ns', Counting (doorLockTimeout ⟨10 - n, pdMsToTicks 1000, true, false⟩).1 ns' ∧
      Periods (es ++ (doorLockTimeout ⟨10 - n, pdMsToTicks 1000, true, false⟩).2.filterMap
        Out.doorlockEvent) closed' ns' := by
  rcases Nat.lt_or_eq_of_le hn with hlt | rfl
  · have hcnt : (10 - n : Int) - 1 ≠ 0 := by omega
    have hnext : (10 - n : Int) - 1 = 10 - (n + 1 : Nat) := by omega
    have hdetail : UInt16.ofInt ((10 - n : Int) - 1) = UInt16.ofNat (9 - n) := by
      have hnat : (10 - n : Int) - 1 = ((9 - n : Nat) : Int) := by omega
      have hmod : (((9 - n : Nat) : Int) % 2 ^ 16).toNat = 9 - n := by omega
      rw [hnat]
      exact congrArg UInt16.ofNat hmod
    refine ⟨closed, ns ++ [n + 1], ?_, ?_⟩
    · simp only [doorLockTimeout, if_neg hcnt]
      rw [hnext]
      exact .unlocked ns hlt
    · simp only [doorLockTimeout, if_neg hcnt, if_pos hcnt, hdetail]
      exact h.unlocked hlt
  · exact ⟨closed ++ [ns], [], .locked, h.relock⟩

/-- What one step preserves. -/
theorem counting_step (hs : doorStep d a = .ok d') (hd : Counting d ns)
    (h : Periods es closed ns) : ∃ closed' ns', Counting d' ns' ∧
      Periods (es ++ (doorOuts ⟨d, a, d'⟩).filterMap Out.doorlockEvent) closed' ns' := by
  cases a with
  | recv pad content =>
    rcases doorStep_recv hs with ⟨-, rfl, houts⟩ | ⟨-, rfl, houts⟩
    · rw [houts]
      exact ⟨closed, ns ++ [0], .unlocked ns (Nat.zero_le 9), h.unlock⟩
    · rw [houts, List.filterMap_nil, List.append_nil]
      exact ⟨closed, ns, hd, h⟩
  | timeout =>
    obtain ⟨hbeat, rfl⟩ := ite_eq_ok.mp hs
    cases hd with
    | locked => exact absurd rfl hbeat
    | unlocked ns hn => exact doorLockTimeout_counting hn ns h

theorem counting_run (h : Run doorStep .init tr d) :
    ∃ closed ns, Counting d ns ∧ Periods (doorEvents tr) closed ns := by
  induction h with
  | nil => exact ⟨[], [], .locked, rfl, nofun, nofun⟩
  | snoc _ hs ih =>
    obtain ⟨closed, ns, hd, hes⟩ := ih
    rw [doorEvents, List.flatMap_append, List.flatMap_singleton]
    exact counting_step hs hd hes

/-- What a step does to the lock and tells the UI. A message opens it for ten seconds or changes
nothing; a heart beat takes a second off and says how many are left, and the last one locks. -/
structure StepsRight (l : Label DoorTask DoorAction) : Prop where
  opens : ∀ pad content, l.act = .recv pad content → content.Authenticates pad →
    l.post = unlockedFor10s ∧ doorOuts l = [doorEventOut .unlock 0, .free]
  refuses : ∀ pad content, l.act = .recv pad content → ¬ content.Authenticates pad →
    l.post = l.pre ∧ doorOuts l = []
  counts : l.act = .timeout → 1 < l.pre.countdownCnt →
    l.post = { l.pre with countdownCnt := l.pre.countdownCnt - 1 } ∧
      doorOuts l = [doorEventOut .unlocked (UInt16.ofInt (l.pre.countdownCnt - 1))]
  relocks : l.act = .timeout → l.pre.countdownCnt ≤ 1 →
    l.pre.countdownCnt = 1 ∧ l.post = .init ∧ doorOuts l = [doorEventOut .relock 0]

/-- A heart beat of a coherent lock that is open. -/
theorem timeout_stepsRight (hd : Counting d ns) (hs : doorStep d .timeout = .ok d') :
    StepsRight ⟨d, .timeout, d'⟩ := by
  obtain ⟨hbeat, rfl⟩ := ite_eq_ok.mp hs
  refine ⟨nofun, nofun, fun _ hlt => ?_, fun _ hle => ?_⟩
  · dsimp only at hlt ⊢
    have hcnt : d.countdownCnt - 1 ≠ 0 := by omega
    simp only [doorOuts, doorLockTimeout, if_neg hcnt, if_pos hcnt]
    exact ⟨trivial, trivial⟩
  · cases hd with
    | locked => exact absurd rfl hbeat
    | @unlocked n ns hn =>
      have hone : (10 - n : Int) = 1 := by
        dsimp only at hle
        omega
      rw [hone]
      exact ⟨rfl, rfl, rfl⟩

theorem stepsRight_step (hd : Counting d ns) (hs : doorStep d a = .ok d') :
    StepsRight ⟨d, a, d'⟩ := by
  cases a with
  | timeout => exact timeout_stepsRight hd hs
  | recv pad content =>
    refine ⟨?_, ?_, nofun, nofun⟩
    · rintro _ _ ⟨⟩ hauth
      rcases doorStep_recv hs with ⟨-, hopen⟩ | ⟨hnot, -⟩
      · exact hopen
      · exact absurd hauth hnot
    · rintro _ _ ⟨⟩ hnot
      rcases doorStep_recv hs with ⟨hauth, -⟩ | ⟨-, hsame⟩
      · exact absurd hauth hnot
      · exact hsame

/-- After every step the lock is in one of its two states, and the step did what it should. The
events told to the UI form periods, the last of which is open just when the door is; the counter is
then ten less the seconds told since the last `DOOR_UNLOCK`. -/
theorem door_coherent (h : Run doorStep .init tr d) :
    d.Coherent ∧ 0 ≤ d.countdownCnt ∧ (∀ l ∈ tr, StepsRight l) ∧
      ∃ closed ns, Periods (doorEvents tr) closed ns ∧ Counting d ns ∧
        (ns = [] ↔ ¬ d.Unlocked) := by
  obtain ⟨closed, ns, hd, hes⟩ := counting_run h
  refine ⟨hd.coherent, hd.coherent.countdownCnt_nonneg, ?_, closed, ns, hes, hd, hd.eq_nil_iff⟩
  intro l hl
  obtain ⟨p, q, htr⟩ := List.append_of_mem hl
  obtain ⟨hpre, hs, -⟩ := h.split htr
  obtain ⟨_, _, hcount, -⟩ := counting_run hpre
  exact stepsRight_step hcount hs

end

/-- The door is unlocked, a second passes, and a wrong password changes nothing. -/
def openedOnce : List DoorAction :=
  [.recv 0 (.authResult ⟨1, 0, List.replicate 16 0, .doorUnlock⟩), .timeout,
    .recv 0 (.authResult ⟨0, 0, List.replicate 16 0, .doorUnlock⟩)]

theorem door_coherent_openedOnce :
    (after doorStep .init openedOnce).Coherent ∧
      0 ≤ (after doorStep .init openedOnce).countdownCnt ∧
      (∀ l ∈ trace doorStep .init openedOnce, StepsRight l) ∧
      ∃ closed ns, Periods (doorEvents (trace doorStep .init openedOnce)) closed ns ∧
        Counting (after doorStep .init openedOnce) ns ∧
        (ns = [] ↔ ¬ (after doorStep .init openedOnce).Unlocked) :=
  door_coherent (Run.of_isOk _ (by decide +kernel))

end DoorLock
