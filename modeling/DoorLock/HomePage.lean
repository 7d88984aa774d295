import DoorLock.UiRun

/-!
# The home page

The home page stays at the bottom of the stack; what is not protected is the step that would
return from it.
-/

namespace DoorLock

open Transition

variable {env : Env} {kv : Kvdb} {tr : List (Label World Action)} {w w' : World} {a : Action}

/-- The step does not return from the last page: a message that closes a page finds two of them,
and a pass of the deferred calls has fewer calls due than there are pages. -/
def KeepsPage (w : World) : Action → Prop
  | .ui => ∀ m, w.queueUi.head? = some m → uiPageOp w.ui m = .back → 2 ≤ w.ui.stack.depth
  | .systemTimeout curTime => w.queueSystem = [] → w.invoker.mutexTaken = false →
      (w.invoker.dueCalls curTime).length < w.ui.stack.depth
  | _ => True

/-! ## Invariants -/

theorem perform_callable {addr : Nat} {o : Out} (h : w.invoker.Callable) :
    (perform env addr w o).invoker.Callable := by
  cases o with
  | publish s r c t => simpa [perform] using h
  | invoke delay call => exact invoke_callable h _ _ _ _ _
  | setFgNextState v => exact h
  | free => exact h

theorem performAll_callable {addr : Nat} {outs : List Out} (h : w.invoker.Callable) :
    (performAll env addr w outs).invoker.Callable := by
  induction outs generalizing w with
  | nil => exact h
  | cons o outs ih => exact ih (perform_callable h)

theorem callable_step (hs : step env w a = .ok w') (h : w.invoker.Callable) :
    w'.invoker.Callable := by
  cases a with
  | key k =>
    cases hs
    simpa using h
  | touch fg fuel =>
    obtain ⟨-, -, rfl⟩ := stepTouch_ok hs
    exact h
  | fgPublish =>
    obtain ⟨o, rest, -, rfl⟩ := stepFgPublish_ok hs
    exact perform_callable h
  | ui =>
    obtain ⟨m, rest, x, -, -, rfl⟩ := stepUi_ok hs
    exact performAll_callable h
  | system =>
    obtain ⟨m, rest, x, -, -, rfl⟩ := stepSystem_ok hs
    exact performAll_callable h
  | systemTimeout curTime =>
    obtain ⟨-, ⟨-, rfl⟩ | ⟨-, u, -, rfl⟩⟩ := stepSystemTimeout_ok hs
    · exact h
    · exact Invoker.pass_callable h curTime
  | door =>
    obtain ⟨m, rest, x, -, -, rfl⟩ := stepDoor_ok hs
    exact performAll_callable h
  | doorTimeout =>
    obtain ⟨-, -, rfl⟩ := stepDoorTimeout_ok hs
    exact performAll_callable h

theorem callable_run (h : RunFrom env kv tr w) : w.invoker.Callable :=
  Run.invariant (I := fun w => w.invoker.Callable) h Invoker.init_callable
    fun _ _ _ hi hs => callable_step hs hi

theorem getLast?_apply {d d' : Display} {op : PageOp} (h : op.apply d = .ok d')
    (hne : d.stack.activities ≠ []) :
    d'.stack.activities.getLast? = d.stack.activities.getLast? := by
  obtain ⟨q, qs, hd⟩ := List.exists_cons_of_ne_nil hne
  rcases PageOp.apply_ok h with heq | ⟨p, rfl, heq⟩ | ⟨p, q, rest, -, hd, heq⟩
  · rw [heq]
  · rw [heq, hd, List.getLast?_cons_cons]
  · rw [heq, hd, List.getLast?_cons_cons]

theorem home_step (hs : step env w a = .ok w') (hne : w.ui.stack.activities ≠ [])
    (h : w.ui.stack.activities.getLast? = some .home) :
    w'.ui.stack.activities.getLast? = some .home := by
  rcases display_step hs hne with heq | ⟨m, -, -, hop⟩ | ⟨_, -, -, -, hb⟩
  · rw [heq]
    exact h
  · rw [getLast?_apply hop hne]
    exact h
  · obtain ⟨heq, hne'⟩ := backs_ok hb
    have hdrop : w.ui.stack.activities.drop _ ≠ [] := heq ▸ hne' hne
    rw [heq, List.getLast?_drop, if_neg, h]
    intro hle
    exact hdrop (List.drop_of_length_le hle)

theorem home_run (h : RunFrom env kv tr w) :
    w.ui.stack.activities.getLast? = some .home := by
  induction h with
  | nil => rfl
  | snoc hrun hs ih => exact home_step hs (stack_ne_nil hrun) ih

/-! ## The steps that find no page -/

theorem apply_nullPage_iff {d : Display} {op : PageOp} (hne : d.stack.activities ≠ []) :
    op.apply d = .error .nullPage ↔ op = .back ∧ d.stack.depth ≤ 1 := by
  cases op with
  | run p => simp [PageOp.apply]
  | refresh => simp [refresh_ne_error hne]
  | back => simp [PageOp.apply, activityBack_error_iff]
  | keep => simp [PageOp.apply]

theorem stepUi_nullPage_iff (hne : w.ui.stack.activities ≠ []) :
    step env w .ui = .error (.fault .nullPage) ↔ ¬ KeepsPage w .ui := by
  simp only [step, stepUi, KeepsPage]
  cases hq : w.queueUi with
  | nil => simp
  | cons m rest =>
    simp only [List.head?_cons, Option.some.injEq, forall_eq', Classical.not_imp, Nat.not_le]
    rw [handled_fault, (uiEventHandler_follows env m hne).fault, apply_nullPage_iff hne]
    exact and_congr_right fun _ => by omega

theorem stepTimeout_nullPage_iff (hne : w.ui.stack.activities ≠ [])
    (hcall : w.invoker.Callable) (curTime : TickType) :
    step env w (.systemTimeout curTime) = .error (.fault .nullPage) ↔
      ¬ KeepsPage w (.systemTimeout curTime) := by
  simp only [step, stepSystemTimeout, KeepsPage]
  by_cases hq : w.queueSystem = []
  · cases hm : w.invoker.mutexTaken with
    | true => simp [hq]
    | false =>
      have hruns : runCalls w.ui (w.invoker.dueCalls curTime) = .error .nullPage ↔
          backs (w.invoker.dueCalls curTime).length w.ui.toDisplay = .error .nullPage := by
        rw [← runCalls_display (Invoker.dueCalls_callable hcall curTime)]
        cases runCalls w.ui (w.invoker.dueCalls curTime) <;> simp [Except.map]
      simp only [hq, ne_eq, not_true_eq_false, if_false, Bool.false_eq_true, forall_true_left,
        Nat.not_lt]
      rw [handled_fault, hruns, backs_error_iff hne]
      simp
  · simp [hq]

/-- In every run the home page is at the bottom of the stack, and the next step dereferences the
`NULL` of a missing page just when it would return from the last one. -/
theorem home_kept (h : RunFrom env kv tr w) :
    w.ui.stack.activities.getLast? = some .home ∧ 1 ≤ w.ui.stack.depth ∧
      ∀ a, step env w a = .error (.fault .nullPage) ↔ ¬ KeepsPage w a := by
  have hne := stack_ne_nil h
  refine ⟨home_run h, List.length_pos_iff.mpr hne, ?_⟩
  intro a
  cases a with
  | key k => simp [step, KeepsPage]
  | touch fg fuel =>
    simp only [step, stepTouch, KeepsPage, not_true_eq_false, iff_false]
    split <;> exact nofun
  | fgPublish =>
    simp only [step, stepFgPublish, KeepsPage, not_true_eq_false, iff_false]
    split <;> exact nofun
  | ui => exact stepUi_nullPage_iff hne
  | system =>
    simp only [step, stepSystem, KeepsPage, not_true_eq_false, iff_false]
    split
    · exact nofun
    · rw [handled_fault]
      intro herr
      rcases systemService_error herr with ⟨hf, -⟩ | hf <;> cases hf
  | systemTimeout curTime => exact stepTimeout_nullPage_iff hne (callable_run h) curTime
  | door =>
    simp only [step, stepDoor, KeepsPage, not_true_eq_false, iff_false]
    split
    · exact nofun
    · rw [handled_fault]
      intro herr
      cases doorLockRecv_error herr
  | doorTimeout =>
    simp only [step, stepDoorTimeout, KeepsPage, not_true_eq_false, iff_false]
    split <;> exact nofun

theorem home_kept_menu :
    ∃ w, RunFrom quietEnv defaultKvdb
        (trace (step quietEnv) (boot defaultKvdb) (press [.enter])) w ∧
      w.ui.stack.activities.getLast? = some .home ∧ 1 ≤ w.ui.stack.depth ∧
        ∀ a, step quietEnv w a = .error (.fault .nullPage) ↔ ¬ KeepsPage w a := by
  have hrun : RunFrom quietEnv defaultKvdb _ _ := Run.of_isOk (press [.enter]) (by decide +kernel)
  exact ⟨_, hrun, home_kept hrun⟩

/-- RETURN on the home page. -/
theorem return_on_home : ∃ tr w, RunFrom quietEnv defaultKvdb tr w ∧
    step quietEnv w .ui = .error (.fault .nullPage) :=
  ⟨_, after (step quietEnv) (boot defaultKvdb) [.key .return],
    Run.of_isOk _ (by decide +kernel), refused_eq_some.mp (by decide +kernel)⟩

end DoorLock
