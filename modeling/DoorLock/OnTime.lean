import DoorLock.Deferred

/-!
# Deferred calls on time

What a pass of the time-out branch is to do with the pending calls, and the runs in which it does:
those in which every pass comes at the due tick of every call that is pending then.
-/

namespace DoorLock

open Transition

variable {F : Type}

/-- A pass at `now` that ran `calls`: those whose due tick had come, each once and with its own
arguments. Their slots are free, the others are as they were. -/
structure RunsDue (s : Invoker F) (now : Nat) (calls : List (Option F × List Nat))
    (s' : Invoker F) : Prop where
  calls : calls = (s.requests.filter (·.due ≤ now)).map Request.call
  slots : s'.slots = s.slots.map (Option.filter (now < ·.due))

/-- A request was recorded: in one slot, which was free, and with its own arguments. -/
def Records (s : Invoker F) (r : Request F) (s' : Invoker F) : Prop :=
  ∃ i, s.slots[i]? = some none ∧ s'.slots = s.slots.set i (some r)

/-- A step does with the pending calls what it should. -/
def OnTime (l : Label (Clocked F) (ClockAction F)) : Prop :=
  match l.act with
  | .advance _ => l.post.invoker.slots = l.pre.invoker.slots
  | .invoke callDalayMs funcCall args _ => l.pre.invoker.Accepts args →
    Records l.pre.invoker ⟨l.pre.now, (pdMsToTicks callDalayMs).toNat, funcCall, args⟩
      l.post.invoker
  | .timeout => l.pre.invoker.mutexTaken = false →
    RunsDue l.pre.invoker l.pre.now (l.pre.invoker.dueCalls l.pre.tick) l.post.invoker

/-- A pass that gets the mutex comes at the due tick of every pending call. -/
def PassesDue (l : Label (Clocked F) (ClockAction F)) : Prop :=
  match l.act with
  | .timeout => l.pre.invoker.mutexTaken = false →
    ∀ r ∈ l.pre.invoker.requests, r.due = l.pre.now
  | _ => True

section
variable {s : Invoker F} {now : Nat}

theorem runsDue_iff (h : s.Sound now) (hnow : now < portMaxDelay.toNat) :
    RunsDue s now (s.dueCalls (UInt32.ofNat now)) (s.pass (UInt32.ofNat now)) ↔
      ∀ r ∈ s.requests, r.due = now := by
  constructor
  · rintro ⟨-, hslots⟩ r hr
    rw [pass_slots h hnow] at hslots
    have hfilter := List.map_inj_left.mp hslots _ (mem_requests_slots.mp hr)
    rw [Option.filter_some, Option.filter_some] at hfilter
    by_cases hlt : r.due < now
    · rw [if_pos (by simpa using hlt), if_neg (by simpa using hlt.le)] at hfilter
      cases hfilter
    · by_cases hgt : now < r.due
      · rw [if_neg (by simpa using hlt), if_pos (by simpa using hgt)] at hfilter
        cases hfilter
      · omega
  · intro hdue
    refine ⟨?_, ?_⟩
    · rw [dueCalls_eq h hnow]
      refine congrArg _ (List.filter_congr fun r hr => ?_)
      simp [hdue r hr]
    · rw [pass_slots h hnow]
      refine List.map_congr_left fun o ho => ?_
      cases o with
      | none => rfl
      | some r => simp [Option.filter_some, hdue r (mem_requests_slots.mpr ho)]

end

section
variable {s s' : Clocked F} {a : ClockAction F} {tr : List (Label (Clocked F) (ClockAction F))}

theorem onTime_step_iff (h : clockStep s a = .ok s') (hnow : s.now < portMaxDelay.toNat)
    (hs : s.invoker.Sound s.now) : OnTime ⟨s, a, s'⟩ ↔ PassesDue ⟨s, a, s'⟩ := by
  cases a with
  | advance ticks =>
    obtain ⟨-, rfl⟩ := ite_eq_ok.mp h
    exact iff_of_true rfl trivial
  | invoke ms f args between =>
    obtain ⟨-, rfl⟩ := ite_eq_ok.mp h
    refine iff_of_true (fun hacc => ?_) trivial
    obtain ⟨i, hi, hslots⟩ := invoke_slots hacc s.tick (UInt32.ofNat (s.now + between)) ms f
    rw [Clocked.tick, toNat_tick hnow] at hslots
    exact ⟨i, hi, hslots⟩
  | timeout =>
    obtain ⟨hm, -, -⟩ | ⟨hm, rfl⟩ := timeout_ok h
    · exact iff_of_true (fun hfree => nomatch hm.symm.trans hfree)
        fun hfree => nomatch hm.symm.trans hfree
    · exact imp_congr_right fun _ => runsDue_iff hs hnow

/-- Every pass of a run makes the calls it should, and no others, just when every pass comes at the
due tick of all the calls that are pending. -/
theorem onTime_iff (h : Run clockStep (Clocked.init : Clocked F) tr s) :
    (∀ l ∈ tr, OnTime l) ↔ ∀ l ∈ tr, PassesDue l :=
  (h.forall_iff (I := fun _ => True) trivial fun _ _ _ _ hrun _ hs =>
    ⟨onTime_step_iff hs (clock_sound hrun).1 (clock_sound hrun).2, fun _ => trivial⟩).1

end

/-- One call, due after a second. -/
def oneCall : List (ClockAction Unit) := [.invoke 1000 () [] 0]

theorem onTime_iff_punctual :
    (∀ l ∈ trace clockStep Clocked.init (oneCall ++ [.advance 100, .timeout]), OnTime l) ↔
      ∀ l ∈ trace clockStep Clocked.init (oneCall ++ [.advance 100, .timeout]), PassesDue l :=
  onTime_iff (Run.of_isOk _ (by decide +kernel))

/-- A pass that comes one tick late does not run the call. -/
theorem late_pass_skips :
    ∃ tr s, Run clockStep (Clocked.init : Clocked Unit) tr s ∧ ¬ ∀ l ∈ tr, OnTime l := by
  refine ⟨_, _, Run.replay (oneCall ++ [.advance 101]) .timeout (by decide +kernel)
    (by decide +kernel), fun h => ?_⟩
  have hlast := h _ (List.mem_append_right _ (List.mem_singleton_self _)) (by decide +kernel)
  exact absurd hlast.calls (by decide +kernel)

end DoorLock
