import Mathlib.Logic.Relation
import Mathlib.Tactic.Common

/-!
# Doubly linked chains

Cells are numbered, and `prev` and `next` give the number of the cell a link leads to. In a chain
of `n` cells the links of cell `i` lead to `i - 1` and `i + 1` and stop at the two ends, so that a
walk along the links from any cell visits all of them.
-/

namespace LinkedChain

/-- The cell before cell `i`. -/
def cellBefore : Nat → Option Nat
  | 0 => none
  | i + 1 => some i

/-- The cell after cell `i` among `n` cells. -/
def cellAfter (n i : Nat) : Option Nat := if i + 1 < n then some (i + 1) else none

/-- Cells `0` to `n - 1` are linked in order. -/
structure Chain (prev next : Nat → Option Nat) (n : Nat) : Prop where
  prev_eq : ∀ i < n, prev i = cellBefore i
  next_eq : ∀ i < n, next i = cellAfter n i

/-- One link followed, in either direction. -/
def Link (prev next : Nat → Option Nat) (i j : Nat) : Prop := prev i = some j ∨ next i = some j

/-- A walk along the links. -/
def Reach (prev next : Nat → Option Nat) : Nat → Nat → Prop :=
  Relation.ReflTransGen (Link prev next)

variable {prev next prev' next' : Nat → Option Nat} {n i j : Nat}

theorem cellBefore_eq_some : cellBefore i = some j ↔ i = j + 1 := by
  cases i with
  | zero => simp [cellBefore]
  | succ i => simp [cellBefore]

theorem cellAfter_eq_some : cellAfter n i = some j ↔ j = i + 1 ∧ j < n := by
  unfold cellAfter
  split <;> simp <;> omega

/-- A cell appended: its `prev` and the `next` of the last cell before it are set. -/
theorem Chain.snoc (h : Chain prev next n) (hprev : ∀ i < n, prev' i = prev i)
    (hnext : ∀ i, i + 1 < n → next' i = next i) (hlast : ∀ i, i + 1 = n → next' i = some n)
    (hprevn : prev' n = cellBefore n) (hnextn : next' n = none) : Chain prev' next' (n + 1) := by
  refine ⟨fun i hi => ?_, fun i hi => ?_⟩
  · rcases Nat.lt_succ_iff_lt_or_eq.mp hi with hi | rfl
    · rw [hprev i hi, h.prev_eq i hi]
    · exact hprevn
  · rcases Nat.lt_succ_iff_lt_or_eq.mp hi with hi | rfl
    · rcases Nat.lt_or_eq_of_le (Nat.succ_le_of_lt hi) with hlt | heq
      · have hafter : cellAfter n i = cellAfter (n + 1) i := by
          rw [cellAfter, cellAfter, if_pos hlt, if_pos (by omega)]
        rw [hnext i hlt, h.next_eq i hi, hafter]
      · rw [hlast i heq, cellAfter, if_pos (by omega)]
        exact congrArg some heq.symm
    · rw [hnextn, cellAfter, if_neg (by omega)]

theorem Chain.prev_eq_some (h : Chain prev next n) (hi : i < n) :
    prev i = some j ↔ i = j + 1 := by
  rw [h.prev_eq i hi, cellBefore_eq_some]

theorem Chain.next_eq_some (h : Chain prev next n) (hi : i < n) :
    next i = some j ↔ j = i + 1 ∧ j < n := by
  rw [h.next_eq i hi, cellAfter_eq_some]

/-- The two links are inverse to each other. -/
theorem Chain.inverse (h : Chain prev next n) (hi : i < n) (hj : j < n) :
    next i = some j ↔ prev j = some i := by
  rw [h.next_eq_some hi, h.prev_eq_some hj]
  exact and_iff_left hj

theorem Chain.lt_of_link (h : Chain prev next n) (hi : i < n) (hij : Link prev next i j) :
    j < n := by
  rcases hij with hij | hij
  · have := (h.prev_eq_some hi).mp hij
    omega
  · exact ((h.next_eq_some hi).mp hij).2

/-- The first cell is reached from every cell. -/
theorem Chain.reach_zero (h : Chain prev next n) : ∀ i < n, Reach prev next i 0
  | 0, _ => .refl
  | i + 1, hi =>
    .head (.inl ((h.prev_eq_some hi).mpr rfl)) (h.reach_zero i (Nat.lt_of_succ_lt hi))

/-- Every cell is reached from the first. -/
theorem Chain.zero_reach (h : Chain prev next n) : ∀ j < n, Reach prev next 0 j
  | 0, _ => .refl
  | j + 1, hj =>
    .tail (h.zero_reach j (Nat.lt_of_succ_lt hj))
      (.inr ((h.next_eq_some (Nat.lt_of_succ_lt hj)).mpr ⟨rfl, hj⟩))

/-- What a walk from a cell of the chain reaches is the chain. -/
theorem Chain.reach_iff (h : Chain prev next n) (hi : i < n) :
    Reach prev next i j ↔ j < n := by
  constructor
  · intro hij
    induction hij with
    | refl => exact hi
    | tail _ hlink ih => exact h.lt_of_link ih hlink
  · exact fun hj => (h.reach_zero i hi).trans (h.zero_reach j hj)

end LinkedChain
