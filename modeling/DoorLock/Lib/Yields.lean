import Mathlib.Tactic.Common

/-!
# Results of partial computations

`Yields x P` says that `x` has a result and that the result meets `P`. The rules follow the shape of
the computation: a sequence needs the specification of its first part, whose results are then the
inputs of the second.
-/

variable {α β : Type}

/-- `x` has a result, and it meets `P`. -/
def Yields (x : Option α) (P : α → Prop) : Prop := ∃ a, x = some a ∧ P a

namespace Yields

variable {x : Option α} {f : α → Option β} {P Q : α → Prop} {R : β → Prop} {a : α}

theorem pure (h : P a) : Yields (some a) P := ⟨a, rfl, h⟩

theorem bind (hx : Yields x P) (hf : ∀ a, P a → Yields (f a) R) : Yields (x >>= f) R := by
  obtain ⟨a, rfl, ha⟩ := hx
  exact hf a ha

theorem mono (hx : Yields x P) (h : ∀ a, P a → Q a) : Yields x Q := by
  obtain ⟨a, rfl, ha⟩ := hx
  exact ⟨a, rfl, h a ha⟩

theorem ite {c : Prop} [Decidable c] {y : Option α} (hx : c → Yields x P) (hy : ¬c → Yields y P) :
    Yields (if c then x else y) P := by
  split
  case isTrue hc => exact hx hc
  case isFalse hc => exact hy hc

end Yields
