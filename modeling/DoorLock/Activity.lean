import DoorLock.View

/-!
# Activities (`activity.c`)

The activity stack and the calls that open, redraw and close a page. `screen` is the activity
that `activity_print` drew last.
-/

namespace DoorLock

/-- `ACTIVITY_STACK_DEPTH_MAX` -/
def activityStackDepthMax : Nat := 24

/-- `activity_stack_t`: the activities on the stack, newest first. The depth is their number. -/
structure ActivityStack where
  activities : List Page
  depth_le : activities.length ≤ activityStackDepthMax

namespace ActivityStack

@[ext] theorem ext {s t : ActivityStack} (h : s.activities = t.activities) : s = t := by
  cases s; cases t; cases h; rfl

/-- The zero-initialised global. -/
def empty : ActivityStack := ⟨[], Nat.zero_le _⟩

/-- `cur_activity_depth` -/
def depth (s : ActivityStack) : Nat := s.activities.length

end ActivityStack

/-- `activity_stack_push`, with its result. -/
def activityStackPush (s : ActivityStack) (activityNew : Page) : ActivityStack × Bool :=
  if h : s.depth < activityStackDepthMax then (⟨activityNew :: s.activities, h⟩, true)
  else (s, false)

/-- `activity_stack_peek` -/
def activityStackPeek (s : ActivityStack) : Option Page := s.activities.head?

/-- `activity_stack_pop`, with its result. -/
def activityStackPop (s : ActivityStack) : ActivityStack × Option Page :=
  (⟨s.activities.tail, by have := s.depth_le; simp; omega⟩, s.activities.head?)

/-- The part of the state that `activity.c` works on. -/
structure Display where
  stack : ActivityStack
  screen : Option Page

/-- `activity_print`: dereferences the activity it is given. -/
def activityPrint (d : Display) (activityToload : Option Page) : Except Fault Display :=
  match activityToload with
  | none => .error .nullPage
  | some p => .ok { d with screen := some p }

/-- `activity_run` does not look at what `activity_stack_push` returned. -/
def activityRun (d : Display) (toRun : Page) : Display :=
  { stack := (activityStackPush d.stack toRun).1, screen := some toRun }

/-- `activity_screen_refresh` -/
def activityScreenRefresh (d : Display) : Except Fault Display :=
  activityPrint d (activityStackPeek d.stack)

/-- `activity_back`: the log line dereferences the activity it pops. -/
def activityBack (d : Display) : Except Fault Display :=
  let popped := activityStackPop d.stack
  match popped.2 with
  | none => .error .nullPage
  | some _ => activityPrint { d with stack := popped.1 } (activityStackPeek popped.1)

section
variable {d d' : Display} {p : Page}

theorem activityStackPush_of_lt {s : ActivityStack} (h : s.depth < activityStackDepthMax)
    (p : Page) : (activityStackPush s p).1.activities = p :: s.activities := by
  simp [activityStackPush, h]

theorem activityStackPush_of_full {s : ActivityStack} (h : ¬ s.depth < activityStackDepthMax)
    (p : Page) : (activityStackPush s p).1 = s := by
  simp [activityStackPush, h]

@[simp] theorem activityStackPop_activities (s : ActivityStack) :
    (activityStackPop s).1.activities = s.activities.tail := rfl

@[simp] theorem activityStackPop_snd (s : ActivityStack) :
    (activityStackPop s).2 = s.activities.head? := rfl

@[simp] theorem activityRun_screen : (activityRun d p).screen = some p := rfl

theorem activityScreenRefresh_eq (h : activityScreenRefresh d = .ok d') :
    d'.stack = d.stack ∧ d'.screen = d.stack.activities.head? ∧ d.stack.activities ≠ [] := by
  unfold activityScreenRefresh activityPrint activityStackPeek at h
  cases hs : d.stack.activities with
  | nil => simp [hs] at h
  | cons q qs =>
    simp only [hs, List.head?_cons, Except.ok.injEq] at h
    subst h
    simp

theorem activityBack_eq : activityBack d =
    match d.stack.activities with
    | _ :: q :: _ => .ok { stack := (activityStackPop d.stack).1, screen := some q }
    | _ => .error .nullPage := by
  simp only [activityBack, activityPrint, activityStackPeek, activityStackPop_activities,
    activityStackPop_snd]
  match d.stack.activities with
  | [] | [_] | _ :: _ :: _ => rfl

/-- What `activity_back` needs, and what it does. -/
theorem activityBack_ok (h : activityBack d = .ok d') :
    ∃ p q rest, d.stack.activities = p :: q :: rest ∧
      d'.stack.activities = q :: rest ∧ d'.screen = some q := by
  rw [activityBack_eq] at h
  match hs : d.stack.activities with
  | [] | [_] => simp [hs] at h
  | p :: q :: rest =>
    simp only [hs, Except.ok.injEq] at h
    subst h
    exact ⟨p, q, rest, rfl, by simp [hs], rfl⟩

/-- `activity_back` dereferences `NULL` exactly when it leaves no page. -/
theorem activityBack_error_iff {e : Fault} :
    activityBack d = .error e ↔ e = .nullPage ∧ d.stack.depth ≤ 1 := by
  rw [activityBack_eq, ActivityStack.depth]
  match d.stack.activities with
  | [] | [_] => simp [eq_comm]
  | p :: q :: rest => simp

end

end DoorLock
