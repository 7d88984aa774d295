import DoorLock.DoorTask
import DoorLock.Lib.Run

/-!
# The lock controller over time

`door_lock_task` with the time it has waited in `xQueueReceive`. The countdown goes down when a
receive times out and every message starts a new receive, so the part of a heart beat that had
passed when a message came is lost.
-/

namespace DoorLock

open Transition

/-- The lock, the ticks the running receive has waited, and the ticks since the last message that
authenticated. -/
structure LockClock where
  door : DoorTask
  waited : Nat
  sinceAuth : Nat

inductive LockAction
  | wait (ticks : Nat)
  | recv (pad : UInt8) (content : MsgContent)
  | timeout

/-- `pasw_valid` is 1. -/
def MsgContent.Authenticates (pad : UInt8) (c : MsgContent) : Prop := c.asPaswValid pad = some 1

instance (pad : UInt8) (c : MsgContent) : Decidable (c.Authenticates pad) :=
  inferInstanceAs (Decidable (_ = _))

/-- The heart beat of an open lock, `pdMS_TO_TICKS(1000)`. -/
def heartBeat : Nat := (pdMsToTicks 1000).toNat

namespace LockClock

/-- The receive waits for a message alone. -/
def Blocked (s : LockClock) : Prop := s.door.heartBeatFreq = portMaxDelay

instance (s : LockClock) : Decidable s.Blocked := inferInstanceAs (Decidable (_ = _))

def init : LockClock := ⟨.init, 0, 0⟩

/-- The ticks until the door is locked, if no message comes. -/
def relockIn (s : LockClock) : Int := s.door.countdownCnt * heartBeat - s.waited

end LockClock

/-- Time passes while the receive waits, a message is delivered before its time-out, or it times
out. -/
def lockStep (s : LockClock) : LockAction → Except Unit LockClock
  | .wait ticks =>
    if s.Blocked ∨ s.waited + ticks ≤ s.door.heartBeatFreq.toNat then
      .ok { s with waited := s.waited + ticks, sinceAuth := s.sinceAuth + ticks }
    else .error ()
  | .recv pad content =>
    if s.Blocked ∨ s.waited < s.door.heartBeatFreq.toNat then
      match doorLockRecv pad s.door content with
      | .ok x =>
        .ok ⟨x.1, 0, if content.Authenticates pad then 0 else s.sinceAuth⟩
      | .error _ => .error ()
    else .error ()
  | .timeout =>
    if ¬ s.Blocked ∧ s.waited = s.door.heartBeatFreq.toNat then
      .ok { s with door := (doorLockTimeout s.door).1, waited := 0 }
    else .error ()

/-! ## The promise -/

/-- After a step the lock has not been open for longer than ten heart beats since it was last
authenticated for, and a message that does not authenticate has not put off the relock. -/
structure KeepsPromise (l : Label LockClock LockAction) : Prop where
  bounded : l.post.door.Unlocked → l.post.sinceAuth ≤ 10 * heartBeat
  notPostponed : ∀ pad content, l.act = .recv pad content → l.pre.door.Unlocked →
    ¬ content.Authenticates pad → l.post.relockIn ≤ l.pre.relockIn

/-- A message that does not authenticate and finds the door unlocked is there when the receive
begins. -/
def ArrivesAtOnce (l : Label LockClock LockAction) : Prop :=
  ∀ pad content, l.act = .recv pad content → l.pre.door.Unlocked →
    ¬ content.Authenticates pad → l.pre.waited = 0

/-- The two states of the lock. -/
inductive DoorTask.Coherent : DoorTask → Prop
  | locked : Coherent ⟨0, portMaxDelay, false, true⟩
  | unlocked {cnt : Int} (pos : 1 ≤ cnt) (le : cnt ≤ 10) :
      Coherent ⟨cnt, pdMsToTicks 1000, true, false⟩

/-- While the door is open, the time since the authentication and the time until the relock make
up ten heart beats. -/
structure LockClock.Punctual (s : LockClock) : Prop where
  coherent : s.door.Coherent
  waited_le : s.door.Unlocked → s.waited ≤ heartBeat
  total : s.door.Unlocked → s.sinceAuth + s.relockIn = 10 * heartBeat

section
variable {d : DoorTask} {s s' : LockClock} {a : LockAction} {pad : UInt8} {content : MsgContent}
  {tr : List (Label LockClock LockAction)}

theorem unlocked_iff (h : d.Coherent) : d.Unlocked ↔ d.heartBeatFreq ≠ portMaxDelay := by
  cases h with
  | locked => decide
  | unlocked _ _ => exact iff_of_true ⟨rfl, rfl⟩ (by decide : pdMsToTicks 1000 ≠ portMaxDelay)

theorem heartBeatFreq_of_unlocked (h : d.Coherent) (hopen : d.Unlocked) :
    d.heartBeatFreq.toNat = heartBeat ∧ 1 ≤ d.countdownCnt := by
  cases h with
  | locked => exact absurd hopen (by decide)
  | unlocked pos _ => exact ⟨rfl, pos⟩

theorem doorLockTimeout_coherent (h : d.Coherent) (hopen : d.Unlocked) :
    (doorLockTimeout d).1.Coherent ∧ ((doorLockTimeout d).1.Unlocked →
      (doorLockTimeout d).1.countdownCnt = d.countdownCnt - 1) := by
  cases h with
  | locked => exact absurd hopen (by decide)
  | @unlocked cnt pos le =>
    by_cases hlast : cnt - 1 = 0
    · simp only [doorLockTimeout, hlast, if_true]
      exact ⟨.locked, fun h => absurd h (by simp [DoorTask.Unlocked])⟩
    · simp only [doorLockTimeout, hlast, if_false]
      exact ⟨.unlocked (by omega) (by omega), fun _ => True.intro⟩

/-- A message that authenticates opens the lock for ten heart beats, any other leaves it as
it is. -/
theorem recv_ok (h : lockStep s (.recv pad content) = .ok s') :
    (content.Authenticates pad ∧ s' = ⟨unlockedFor10s, 0, 0⟩) ∨
      (¬ content.Authenticates pad ∧ s' = { s with waited := 0 }) := by
  simp only [lockStep] at h
  split at h
  · unfold doorLockRecv at h
    cases hv : content.asPaswValid pad with
    | none => simp [hv] at h
    | some v =>
      by_cases hone : v = 1
      · subst hone
        have hauth : content.Authenticates pad := hv
        simp only [hv, if_true, if_pos hauth, Except.ok.injEq] at h
        exact .inl ⟨hauth, h.symm⟩
      · have hauth : ¬ content.Authenticates pad := by simp [MsgContent.Authenticates, hv, hone]
        simp only [hv, if_neg hone, if_neg hauth, Except.ok.injEq] at h
        exact .inr ⟨hauth, h.symm⟩
  · cases h

theorem init_punctual : LockClock.init.Punctual :=
  ⟨.locked, fun h => absurd h (by decide), fun h => absurd h (by decide)⟩

theorem punctual_step (h : lockStep s a = .ok s') (hs : s.Punctual)
    (hat : ArrivesAtOnce ⟨s, a, s'⟩) : s'.Punctual := by
  cases a with
  | wait ticks =>
    obtain ⟨hfit, rfl⟩ := ite_eq_ok.mp h
    refine ⟨hs.coherent, fun hopen => ?_, fun hopen => ?_⟩
    · have hle := hfit.resolve_left ((unlocked_iff hs.coherent).mp hopen)
      rwa [(heartBeatFreq_of_unlocked hs.coherent hopen).1] at hle
    · have htotal := hs.total hopen
      simp only [LockClock.relockIn] at htotal ⊢
      omega
  | recv pad content =>
    rcases recv_ok h with ⟨-, rfl⟩ | ⟨hauth, rfl⟩
    · refine ⟨.unlocked (by decide) (by decide), fun _ => Nat.zero_le _, fun _ => by decide⟩
    · refine ⟨hs.coherent, fun _ => Nat.zero_le _, fun hopen => ?_⟩
      have hzero := hat pad content rfl hopen hauth
      have htotal := hs.total hopen
      simp only [LockClock.relockIn] at htotal hzero ⊢
      omega
  | timeout =>
    obtain ⟨⟨hblocked, hwaited⟩, rfl⟩ := ite_eq_ok.mp h
    have hopen := (unlocked_iff hs.coherent).mpr hblocked
    obtain ⟨hcoh, hcnt⟩ := doorLockTimeout_coherent hs.coherent hopen
    refine ⟨hcoh, fun _ => Nat.zero_le _, fun hopen' => ?_⟩
    have htotal := hs.total hopen
    rw [(heartBeatFreq_of_unlocked hs.coherent hopen).1] at hwaited
    simp only [LockClock.relockIn, hcnt hopen'] at htotal ⊢
    rw [Int.sub_mul]
    omega

/-- The time that is left is what the ten heart beats leave of it. -/
theorem LockClock.Punctual.bounded (h : s.Punctual) (hopen : s.door.Unlocked) :
    s.sinceAuth ≤ 10 * heartBeat := by
  have htotal := h.total hopen
  have hwaited := h.waited_le hopen
  obtain ⟨-, hpos⟩ := heartBeatFreq_of_unlocked h.coherent hopen
  have hle := Int.mul_le_mul_of_nonneg_right hpos (Int.natCast_nonneg heartBeat)
  rw [Int.one_mul] at hle
  simp only [LockClock.relockIn] at htotal
  omega

theorem keepsPromise_step (h : lockStep s a = .ok s') (hs : s.Punctual) :
    (KeepsPromise ⟨s, a, s'⟩ ↔ ArrivesAtOnce ⟨s, a, s'⟩) ∧
      (KeepsPromise ⟨s, a, s'⟩ → s'.Punctual) := by
  have hiff : KeepsPromise ⟨s, a, s'⟩ ↔ ArrivesAtOnce ⟨s, a, s'⟩ := by
    constructor
    · rintro hkeep pad content rfl hopen hauth
      have hle := hkeep.notPostponed pad content rfl hopen hauth
      rcases recv_ok h with ⟨hauth', -⟩ | ⟨-, rfl⟩
      · exact absurd hauth' hauth
      · simp only [LockClock.relockIn] at hle
        show s.waited = 0
        omega
    · intro hat
      refine ⟨(punctual_step h hs hat).bounded, ?_⟩
      rintro pad content rfl hopen hauth
      have hzero := hat pad content rfl hopen hauth
      rcases recv_ok h with ⟨hauth', -⟩ | ⟨-, rfl⟩
      · exact absurd hauth' hauth
      · simp only [LockClock.relockIn] at hzero ⊢
        omega
  exact ⟨hiff, fun hkeep => punctual_step h hs (hiff.mp hkeep)⟩

/-- In a run the lock keeps its promise at every step just when every message that does not
authenticate and finds the door unlocked is there when the receive begins. -/
theorem keepsPromise_iff (h : Run lockStep .init tr s) :
    (∀ l ∈ tr, KeepsPromise l) ↔ ∀ l ∈ tr, ArrivesAtOnce l :=
  (h.forall_iff init_punctual fun _ _ _ _ _ hs hstep => keepsPromise_step hstep hs).1

end

/-- A result of an authentication, as `door_lock_task` receives it. -/
def resultMsg (paswValid : UInt8) : LockAction :=
  .recv 0 (.authResult ⟨paswValid, 0, List.replicate 16 0, .doorUnlock⟩)

theorem keepsPromise_iff_quiet :
    (∀ l ∈ trace lockStep .init [resultMsg 1, .wait 100, .timeout], KeepsPromise l) ↔
      ∀ l ∈ trace lockStep .init [resultMsg 1, .wait 100, .timeout], ArrivesAtOnce l :=
  keepsPromise_iff (Run.of_isOk _ (by decide +kernel))

/-- The right password, and then a wrong one at the end of every heart beat. -/
def keptOpen : List LockAction :=
  resultMsg 1 :: (List.replicate 11 [.wait 99, resultMsg 0]).flatten

/-- 10.89 s after the right password the door is still unlocked. -/
theorem keptOpen_unlocked : ∃ tr s, Run lockStep .init tr s ∧ ¬ ∀ l ∈ tr, KeepsPromise l := by
  refine ⟨_, _, Run.replay keptOpen.dropLast (resultMsg 0) (by decide +kernel)
    (by decide +kernel), fun h => ?_⟩
  have hkeep := h _ (List.mem_append_right _ (List.mem_singleton_self _))
  exact absurd (hkeep.bounded (by decide +kernel)) (by decide +kernel)

end DoorLock
