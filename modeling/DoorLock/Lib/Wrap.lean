import Mathlib.Algebra.GroupWithZero.Nat
import Mathlib.Data.List.Basic
import Mathlib.Tactic.Common

/-!
# Greedy line filling

A line takes characters as long as the next one fits behind those it has, up to a character that
breaks the line; the next line goes on with the character that was not taken. The characters, their
widths and what fits are parameters.
-/

/-- How lines are filled: whether a character fits behind what is `x` wide, how wide it is, and
whether the line ends with it. -/
structure Wrap (α : Type) where
  fits : Nat → α → Bool
  width : α → Nat
  breaks : α → Bool

namespace Wrap

variable {α : Type} (r : Wrap α)

/-- The characters a line takes that is already `x` wide. -/
def line : Nat → List α → List α
  | _, [] => []
  | x, c :: cs =>
    if r.fits x c then
      if r.breaks c then [c] else c :: line (x + r.width c) cs
    else []

/-- The first line of a text. -/
def first (cs : List α) : List α := r.line 0 cs

/-- What is left for the lines after the first. -/
def rest (cs : List α) : List α := cs.drop (r.first cs).length

/-- The width of the characters of a line. -/
def total (cs : List α) : Nat := (cs.map r.width).sum

/-- A line that ends with a break. -/
def broken (cs : List α) : Bool := cs.getLast?.any r.breaks

/-- At most `n` lines of a text; with `more`, something follows the text that no line gets past. -/
def lines (more : Bool) : Nat → List α → List (List α)
  | 0, _ => []
  | n + 1, cs => if cs = [] ∧ !more then [] else r.first cs :: lines more n (r.rest cs)

/-- Some of the first `n` lines takes the last character of the text and has room left. -/
def overruns (room : Nat → Bool) : Nat → List α → Bool
  | 0, _ => false
  | n + 1, cs =>
    ((r.rest cs).isEmpty && !r.broken (r.first cs) && room (r.total (r.first cs))) ||
      overruns room n (r.rest cs)

variable {r} {x n : Nat} {c : α} {cs : List α} {more : Bool}

/-! ## One line -/

theorem line_of_not_fits (h : r.fits x c = false) : r.line x (c :: cs) = [] := by
  rw [line, h, if_neg Bool.false_ne_true]

theorem line_of_breaks (hf : r.fits x c = true) (hb : r.breaks c = true) :
    r.line x (c :: cs) = [c] := by
  rw [line, if_pos hf, if_pos hb]

theorem line_of_fits (hf : r.fits x c = true) (hb : r.breaks c = false) :
    r.line x (c :: cs) = c :: r.line (x + r.width c) cs := by
  rw [line, if_pos hf, hb, if_neg Bool.false_ne_true]

@[simp] theorem total_nil : r.total [] = 0 := rfl

theorem total_cons : r.total (c :: cs) = r.width c + r.total cs := by simp [total]

theorem total_append (as bs : List α) : r.total (as ++ bs) = r.total as + r.total bs := by
  simp [total]

@[simp] theorem broken_nil : r.broken [] = false := rfl

theorem broken_singleton : r.broken [c] = r.breaks c := rfl

theorem broken_cons (hb : r.breaks c = false) : r.broken (c :: cs) = r.broken cs := by
  cases cs with
  | nil => exact hb
  | cons d ds => rw [broken, broken, List.getLast?_cons_cons]

/-- A line is a prefix of the text. -/
theorem line_append_drop (x : Nat) (cs : List α) :
    r.line x cs ++ cs.drop (r.line x cs).length = cs := by
  induction cs generalizing x with
  | nil => rfl
  | cons c cs ih =>
    cases hf : r.fits x c with
    | false => rw [line_of_not_fits hf]; rfl
    | true =>
      cases hb : r.breaks c with
      | true => rw [line_of_breaks hf hb]; rfl
      | false =>
        rw [line_of_fits hf hb]
        exact congrArg (c :: ·) (ih (x + r.width c))

theorem first_append_rest (cs : List α) : r.first cs ++ r.rest cs = cs := line_append_drop 0 cs

theorem length_line_le (x : Nat) (cs : List α) : (r.line x cs).length ≤ cs.length := by
  have h := congrArg List.length (r.line_append_drop x cs)
  rw [List.length_append] at h
  omega

theorem length_rest_le (cs : List α) : (r.rest cs).length ≤ cs.length := by
  rw [rest, List.length_drop]
  exact Nat.sub_le _ _

theorem rest_eq_nil_iff : r.rest cs = [] ↔ r.first cs = cs := by
  have h := r.first_append_rest cs
  constructor
  · intro hrest
    rwa [hrest, List.append_nil] at h
  · intro hfirst
    rw [hfirst] at h
    exact List.append_right_eq_self.mp h

/-- A line ends with its first break. -/
theorem eq_nil_of_breaks {as bs : List α} (h : r.line x cs = as ++ c :: bs)
    (hc : r.breaks c = true) : bs = [] := by
  induction cs generalizing x as with
  | nil => simp [line] at h
  | cons d cs ih =>
    cases hf : r.fits x d with
    | false => simp [line_of_not_fits hf] at h
    | true =>
      cases hb : r.breaks d with
      | true =>
        rw [line_of_breaks hf hb] at h
        cases as with
        | nil => exact (List.cons.inj h).2.symm
        | cons a as => simp at h
      | false =>
        rw [line_of_fits hf hb] at h
        cases as with
        | nil =>
          obtain ⟨rfl, -⟩ := List.cons.inj h
          rw [hc] at hb
          cases hb
        | cons a as => exact ih (List.cons.inj h).2

/-- A line is no wider than the room its characters fit in. -/
theorem total_line_le {room : Nat} (h : ∀ x c, r.fits x c = true → x + r.width c ≤ room)
    (hx : x ≤ room) : x + r.total (r.line x cs) ≤ room := by
  induction cs generalizing x with
  | nil => exact hx
  | cons c cs ih =>
    cases hf : r.fits x c with
    | false =>
      rw [line_of_not_fits hf]
      exact hx
    | true =>
      have hc := h x c hf
      cases hb : r.breaks c with
      | true =>
        rw [line_of_breaks hf hb, total_cons]
        exact hc
      | false =>
        rw [line_of_fits hf hb, total_cons, ← Nat.add_assoc]
        exact ih hc

/-! ## Many lines -/

/-- The first line takes the last character of the text and has room left. -/
structure FirstOverruns (r : Wrap α) (room : Nat → Bool) (cs : List α) : Prop where
  line : r.first cs = cs
  broken : r.broken cs = false
  room : room (r.total cs) = true

theorem overruns_succ {room : Nat → Bool} :
    r.overruns room (n + 1) cs = true ↔
      r.FirstOverruns room cs ∨ r.overruns room n (r.rest cs) = true := by
  rw [overruns, Bool.or_eq_true, Bool.and_eq_true, Bool.and_eq_true, List.isEmpty_iff,
    rest_eq_nil_iff, Bool.not_eq_true']
  refine or_congr_left ⟨fun ⟨⟨hline, hbroken⟩, hroom⟩ => ?_, fun h => ?_⟩
  · rw [hline] at hbroken hroom
    exact ⟨hline, hbroken, hroom⟩
  · rw [h.line]
    exact ⟨⟨rfl, h.broken⟩, h.room⟩

theorem length_lines_le (n : Nat) (cs : List α) : (r.lines more n cs).length ≤ n := by
  induction n generalizing cs with
  | zero => exact Nat.le_refl 0
  | succ n ih =>
    rw [lines]
    split
    case isTrue => exact Nat.zero_le _
    case isFalse => exact Nat.succ_le_succ (ih _)

end Wrap
