import DoorLock.Ui
import DoorLock.Lib.Run
import Mathlib.Algebra.Group.Nat.Even

/-!
# The buttons (`button.c`: `btn_gpio_isr_handler`)

The handler does not trust the level of the pin to tell a press from a release: it takes an edge
for a release when the button is the one in `last_btn_press`. Edges that come within 100 ms of the
one before do not count, and leave that variable as it is.
-/

namespace DoorLock

open Transition

/-- The four buttons. -/
inductive Button
  | up | down | return | enter
  deriving DecidableEq, Repr

/-- `GPIO_BTN_UP` and the others, the argument the handler is installed with. -/
def Button.gpio : Button → UInt32
  | .return => 38
  | .up => 39
  | .down => 40
  | .enter => 41

/-- `INPT_BTN_UP` and the others. -/
def Button.code : Button → UInt16
  | .up => inptBtnUp
  | .down => inptBtnDown
  | .return => inptBtnReturn
  | .enter => inptBtnEnter

/-- The statics of `button.c`, with the time in microseconds. -/
structure BtnIsr where
  lastPressTime : Int
  gpioStatusInstant : UInt8
  lastBtnPress : UInt16

def BtnIsr.init : BtnIsr := ⟨0, 0, 0⟩

def btnEventOut (content : UInt16) : Out :=
  .publish .hwInpt .servUi (.inptEvent ⟨content⟩) .inptEvent

/-- `btn_gpio_isr_handler(arg)`, with the level of the pin and the time it reads. -/
def btnGpioIsrHandler (s : BtnIsr) (arg : UInt32) (level : UInt8) (time : Int) :
    BtnIsr × List Out :=
  let s := { s with gpioStatusInstant := level }
  if 100000 < time - s.lastPressTime then
    if s.lastBtnPress.toUInt32 = arg then
      ({ s with lastBtnPress := 0, lastPressTime := time }, [])
    else
      let outs :=
        if arg = Button.up.gpio ∧ s.gpioStatusInstant = 0 then [btnEventOut inptBtnUp]
        else if arg = Button.down.gpio ∧ s.gpioStatusInstant = 0 then [btnEventOut inptBtnDown]
        else if arg = Button.return.gpio ∧ s.gpioStatusInstant = 0 then [btnEventOut inptBtnReturn]
        else if arg = Button.enter.gpio ∧ s.gpioStatusInstant = 0 then [btnEventOut inptBtnEnter]
        else []
      ({ s with lastBtnPress := arg.toUInt16, lastPressTime := time }, outs)
  else ({ s with lastPressTime := time }, [])

/-- An edge on the pin of a button: a press pulls it to level 0. -/
structure Edge where
  btn : Button
  level : UInt8
  time : Int

/-- An edge is handled; times do not decrease. -/
def isrStep (s : BtnIsr) (e : Edge) : Except Unit BtnIsr :=
  if s.lastPressTime ≤ e.time then .ok (btnGpioIsrHandler s e.btn.gpio e.level e.time).1
  else .error ()

/-- The events published on an edge. -/
def edgeOuts (l : Label BtnIsr Edge) : List Out :=
  (btnGpioIsrHandler l.pre l.act.btn.gpio l.act.level l.act.time).2

/-- An edge that comes more than 100 ms after the one before, or after the start of the timer. -/
def Counts (l : Label BtnIsr Edge) : Prop := 100000 < l.act.time - l.pre.lastPressTime

instance (l : Label BtnIsr Edge) : Decidable (Counts l) := inferInstanceAs (Decidable (_ < _))

/-- A press that counts publishes one event, of its button; a release publishes none. -/
structure RightEdge (l : Label BtnIsr Edge) : Prop where
  press : l.act.level = 0 → Counts l → edgeOuts l = [btnEventOut l.act.btn.code]
  release : l.act.level ≠ 0 → edgeOuts l = []

/-- The buttons of the edges that count, in the order in which they came. -/
def countedBtns (tr : List (Label BtnIsr Edge)) : List Button :=
  (tr.filter fun l => decide (Counts l)).map fun l => l.act.btn

/-- How many entries at the end of the list are `b`. -/
def inARow (b : Button) (bs : List Button) : Nat := (bs.reverse.takeWhile (· == b)).length

section
variable {b c : Button} {s s' : BtnIsr} {e : Edge} {tr : List (Label BtnIsr Edge)}

theorem gpio_toUInt16 (b : Button) : b.gpio.toUInt16.toUInt32 = b.gpio := by cases b <;> rfl

theorem gpio_ne_zero (b : Button) : (0 : UInt16).toUInt32 ≠ b.gpio := by cases b <;> decide

theorem gpio_inj : c.gpio = b.gpio ↔ c = b := by cases b <;> cases c <;> decide

theorem inARow_snoc (b c : Button) (bs : List Button) :
    inARow b (bs ++ [c]) = if c = b then inARow b bs + 1 else 0 := by
  by_cases h : c = b <;> simp [inARow, h]

/-- What the handler publishes: an edge that counts and is not taken for a release is looked up
by its button and its level. -/
theorem btnGpioIsrHandler_outs (s : BtnIsr) (b : Button) (level : UInt8) (time : Int) :
    (btnGpioIsrHandler s b.gpio level time).2 =
      if 100000 < time - s.lastPressTime ∧ s.lastBtnPress.toUInt32 ≠ b.gpio ∧ level = 0 then
        [btnEventOut b.code] else [] := by
  by_cases hgap : 100000 < time - s.lastPressTime
  · by_cases hlast : s.lastBtnPress.toUInt32 = b.gpio
    · simp [btnGpioIsrHandler, hgap, hlast]
    · by_cases hlevel : level = 0
      · cases b <;> simp_all [btnGpioIsrHandler, Button.gpio, Button.code]
      · simp [btnGpioIsrHandler, hgap, hlast, hlevel]
  · simp [btnGpioIsrHandler, hgap]

/-- An edge is handled right unless it is a press that counts and is taken for a release. -/
theorem rightEdge_iff (l : Label BtnIsr Edge) : RightEdge l ↔
    (l.act.level = 0 → Counts l → l.pre.lastBtnPress.toUInt32 ≠ l.act.btn.gpio) := by
  have houts := btnGpioIsrHandler_outs l.pre l.act.btn l.act.level l.act.time
  constructor
  · intro h hlevel hcount hlast
    have hpress := h.press hlevel hcount
    rw [edgeOuts, houts, if_neg fun hc => hc.2.1 hlast] at hpress
    cases hpress
  · intro h
    refine ⟨fun hlevel hcount => ?_, fun hlevel => ?_⟩
    · rw [edgeOuts, houts]
      exact if_pos ⟨hcount, h hlevel hcount, hlevel⟩
    · rw [edgeOuts, houts]
      exact if_neg fun hc => hlevel hc.2.2

/-- The button that an edge of `c` leaves in the variable, if it counts. -/
theorem toggled_iff {last : UInt16} :
    (if last.toUInt32 = c.gpio then 0 else c.gpio.toUInt16).toUInt32 = b.gpio ↔
      c = b ∧ last.toUInt32 ≠ b.gpio := by
  split
  · rename_i hlast
    refine iff_of_false (gpio_ne_zero b) ?_
    rintro ⟨rfl, hne⟩
    exact hne hlast
  · rename_i hlast
    rw [gpio_toUInt16, gpio_inj]
    refine ⟨?_, And.left⟩
    rintro rfl
    exact ⟨rfl, hlast⟩

/-- `last_btn_press` after an edge. -/
theorem isrStep_lastBtnPress (h : isrStep s e = .ok s') :
    s'.lastBtnPress =
      if Counts ⟨s, e, s'⟩ then
        if s.lastBtnPress.toUInt32 = e.btn.gpio then 0 else e.btn.gpio.toUInt16
      else s.lastBtnPress := by
  obtain ⟨-, rfl⟩ := ite_eq_ok.mp h
  by_cases hgap : 100000 < e.time - s.lastPressTime
  · by_cases hlast : s.lastBtnPress.toUInt32 = e.btn.gpio <;>
      simp [btnGpioIsrHandler, Counts, hgap, hlast]
  · simp [btnGpioIsrHandler, Counts, hgap]

/-- The time of an edge is what the next one is measured from, whether it counts or not. -/
theorem isrStep_lastPressTime (h : isrStep s e = .ok s') : s'.lastPressTime = e.time := by
  obtain ⟨-, rfl⟩ := ite_eq_ok.mp h
  by_cases hgap : 100000 < e.time - s.lastPressTime
  · by_cases hlast : s.lastBtnPress.toUInt32 = e.btn.gpio <;>
      simp [btnGpioIsrHandler, hgap, hlast]
  · simp [btnGpioIsrHandler, hgap]

theorem lastPressTime_run (h : Run isrStep .init tr s) :
    s.lastPressTime = (tr.getLast?.map fun l => l.act.time).getD 0 := by
  induction h with
  | nil => rfl
  | snoc _ hs _ => simp [isrStep_lastPressTime hs]

/-- The variable holds a button just when an odd number of edges of that button were the last ones
that counted. -/
theorem lastBtnPress_iff (h : Run isrStep .init tr s) (b : Button) :
    s.lastBtnPress.toUInt32 = b.gpio ↔ ¬ Even (inARow b (countedBtns tr)) := by
  induction h with
  | nil => simpa [countedBtns, inARow, BtnIsr.init] using gpio_ne_zero b
  | @snoc tr s e s' hrun hs ih =>
    rw [isrStep_lastBtnPress hs]
    by_cases hcount : Counts ⟨s, e, s'⟩
    · have hbtns : countedBtns (tr ++ [⟨s, e, s'⟩]) = countedBtns tr ++ [e.btn] := by
        simp [countedBtns, hcount]
      rw [if_pos hcount, hbtns, inARow_snoc, toggled_iff]
      by_cases hb : e.btn = b
      · rw [if_pos hb, Nat.even_add_one, ← ih]
        exact and_iff_right hb
      · rw [if_neg hb]
        exact iff_of_false (fun h => hb h.1) (not_not.mpr Even.zero)
    · have hbtns : countedBtns (tr ++ [⟨s, e, s'⟩]) = countedBtns tr := by
        simp [countedBtns, hcount]
      rw [if_neg hcount, hbtns, ih]

/-- In a run every edge is handled right just when, before each press that counts, the edges of its
button that were the last to count come in pairs. -/
theorem rightEdge_run_iff (h : Run isrStep .init tr s) :
    (∀ l ∈ tr, RightEdge l) ↔ ∀ p l q, tr = p ++ l :: q → l.act.level = 0 → Counts l →
      Even (inARow l.act.btn (countedBtns p)) := by
  have hiff {p l q} (htr : tr = p ++ l :: q) : RightEdge l ↔ (l.act.level = 0 → Counts l →
      Even (inARow l.act.btn (countedBtns p))) := by
    rw [rightEdge_iff, ne_eq, lastBtnPress_iff (h.split htr).1, not_not]
  constructor
  · intro hright p l q htr
    exact (hiff htr).mp (hright l (htr ▸ by simp))
  · intro heven l hl
    obtain ⟨p, q, htr⟩ := List.append_of_mem hl
    exact (hiff htr).mpr (heven p l q htr)

end

/-- A tap of `ENTER` that is released within 100 ms, and a second press. -/
def shortTap : List Edge :=
  [⟨.enter, 0, 1000000⟩, ⟨.enter, 1, 1050000⟩, ⟨.enter, 0, 2000000⟩]

theorem rightEdge_run_iff_tap :
    (∀ l ∈ trace isrStep .init (shortTap.take 2), RightEdge l) ↔
      ∀ p l q, trace isrStep .init (shortTap.take 2) = p ++ l :: q → l.act.level = 0 → Counts l →
        Even (inARow l.act.btn (countedBtns p)) :=
  rightEdge_run_iff (Run.of_isOk _ (by decide +kernel))

/-- The second press is lost. -/
theorem shortTap_loses_press :
    ∃ tr s, Run isrStep .init tr s ∧ ¬ ∀ l ∈ tr, RightEdge l := by
  refine ⟨_, _, Run.replay (shortTap.take 2) ⟨.enter, 0, 2000000⟩ (by decide +kernel)
    (by decide +kernel), fun h => ?_⟩
  have hright := h _ (List.mem_append_right _ (List.mem_singleton_self _))
  exact absurd (hright.press rfl (by decide +kernel)) (by decide +kernel)

end DoorLock
