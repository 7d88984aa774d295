import DoorLock.UiRun

/-!
# What is shown is what receives keys

The page drawn last is the one on top of the stack until a page is opened that the full stack does
not take.
-/

namespace DoorLock

open Transition

variable {env : Env} {kv : Kvdb} {tr : List (Label World Action)} {w w' : World} {a : Action}

/-- The page drawn last is on top. -/
def Display.Shown (d : Display) : Prop := d.screen = activityStackPeek d.stack

instance (d : Display) : Decidable d.Shown := inferInstanceAs (Decidable (_ = _))

/-- A page that is opened finds room on the stack, or is on top already. -/
def PageOp.Fits (d : Display) : PageOp → Prop
  | .run p => d.stack.depth < activityStackDepthMax ∨ activityStackPeek d.stack = some p
  | _ => True

instance (d : Display) : (op : PageOp) → Decidable (op.Fits d)
  | .run _ => inferInstanceAs (Decidable (_ ∨ _))
  | .refresh | .back | .keep => inferInstanceAs (Decidable True)

/-- The step does not open a page that the stack refuses, unless that page is on top already. -/
def OpensFit (w : World) : Action → Prop
  | .ui => ∀ m ∈ w.queueUi.head?, (uiPageOp w.ui m).Fits w.ui.toDisplay
  | _ => True

instance (w : World) : (a : Action) → Decidable (OpensFit w a)
  | .ui => inferInstanceAs (Decidable (∀ m ∈ w.queueUi.head?, _))
  | .key _ | .touch _ _ | .fgPublish | .system | .systemTimeout _ | .door | .doorTimeout =>
    inferInstanceAs (Decidable True)

theorem shown_apply_iff {d d' : Display} {op : PageOp} (h : op.apply d = .ok d')
    (hd : d.Shown) : d'.Shown ↔ op.Fits d := by
  cases op with
  | run p =>
    cases h
    rw [PageOp.Fits, Display.Shown, activityRun_screen, activityRun]
    by_cases hlt : d.stack.depth < activityStackDepthMax
    · simp [activityStackPeek, activityStackPush_of_lt hlt, hlt]
    · simp [activityStackPush_of_full hlt, hlt, eq_comm]
  | refresh =>
    obtain ⟨hstack, hscreen, -⟩ := activityScreenRefresh_eq h
    refine iff_of_true ?_ trivial
    rw [Display.Shown, hscreen, hstack]
    rfl
  | back =>
    obtain ⟨p, q, rest, -, hd', hscreen⟩ := activityBack_ok h
    refine iff_of_true ?_ trivial
    rw [Display.Shown, hscreen, activityStackPeek, hd']
    rfl
  | keep =>
    cases h
    exact iff_of_true hd trivial

theorem shown_backs {d d' : Display} {n : Nat} (h : backs n d = .ok d') (hd : d.Shown) :
    d'.Shown := by
  induction n generalizing d with
  | zero =>
    cases h
    exact hd
  | succ n ih =>
    obtain ⟨d₁, hb, h⟩ := bind_eq_ok.mp h
    have hop : PageOp.back.apply d = .ok d₁ := hb
    exact ih h ((shown_apply_iff hop hd).mpr trivial)

theorem shown_step_iff (hs : step env w a = .ok w') (hne : w.ui.stack.activities ≠ [])
    (hd : w.ui.Shown) : w'.ui.Shown ↔ OpensFit w a := by
  rcases display_step hs hne with heq | ⟨m, rfl, hm, hop⟩ | ⟨_, rfl, -, -, hb⟩
  · rw [heq]
    refine iff_of_true hd ?_
    cases a with
    | ui =>
      -- a step of the UI task that leaves the display as it is
      intro m hm
      obtain ⟨m', rest, x, hq, hx, rfl⟩ := stepUi_ok hs
      obtain rfl : m' = m := by simpa [hq] using hm
      have hop := (uiEventHandler_follows env m' hne).ok hx
      rw [performAll_ui] at heq
      rw [heq] at hop
      exact (shown_apply_iff hop hd).mp hd
    | _ => trivial
  · rw [shown_apply_iff hop hd]
    simp [OpensFit, hm]
  · exact iff_of_true (shown_backs hb hd) trivial

/-- In every run whose steps all find room for the pages they open, the page drawn last is on top;
and the next step keeps it so just when it finds room as well. -/
theorem shown_kept (h : RunFrom env kv tr w) (hC : ∀ l ∈ tr, OpensFit l.pre l.act) :
    w.ui.Shown ∧ ∀ a w', step env w a = .ok w' → (w'.ui.Shown ↔ OpensFit w a) := by
  have hshown : w.ui.Shown := by
    induction h with
    | nil => rfl
    | @snoc tr w a w' hrun hs ih =>
      have hd := ih fun l hl => hC l (List.mem_append_left _ hl)
      refine (shown_step_iff hs (stack_ne_nil hrun) hd).mpr ?_
      exact hC ⟨w, a, w'⟩ (List.mem_append_right _ (List.mem_singleton_self _))
  exact ⟨hshown, fun a w' hs => shown_step_iff hs (stack_ne_nil h) hshown⟩

theorem shown_kept_menu :
    (after (step quietEnv) (boot defaultKvdb) (press [.enter, .down])).ui.Shown := by
  have hrun : RunFrom quietEnv defaultKvdb _ _ :=
    Run.of_isOk (press [.enter, .down]) (by decide +kernel)
  exact (shown_kept hrun (by decide +kernel)).1

/-! ## A run that fills the stack -/

/-- A fingerprint module that never answers; every driver call takes a second. -/
def silentFg : FgModule where
  reply _ := []
  arrived _ := 0
  tick n := UInt32.ofNat (100 * n)

/-- A finger on the sensor of a silent module: the fingerprint page is opened and never closed. -/
def silentTouch : List Action := [.touch silentFg 4, .fgPublish, .ui]

/-- A wrong password is confirmed, and before it is checked the fingerprint pages fill the stack. -/
def fillStack : List Action :=
  press [.k1, .dash] ++ (List.replicate 23 silentTouch).flatten ++ [.system, .ui]

/-- The popup for the wrong password is drawn, and the fingerprint page receives the keys. -/
theorem fillStack_not_shown : ∃ tr w, RunFrom quietEnv defaultKvdb tr w ∧ ¬ w.ui.Shown :=
  ⟨_, _, Run.of_isOk fillStack (by decide +kernel), by decide +kernel⟩

end DoorLock
