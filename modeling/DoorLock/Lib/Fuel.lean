import Mathlib.Tactic.Common

/-!
# Computations with fuel

A recursion that need not end is a function of its fuel: the result is `none` when the fuel did
not do, and the state is the one reached so far. `Ends f a s` says that `f` has the result `a` and
leaves `s` for some amount of fuel. It is used of functions that are `Stable`, where more fuel
does not change a result; these are closed under sequencing.
-/

namespace Fuel

variable {α β σ : Type} {f : Nat → Option α × σ} {k : α → σ → Nat → Option β × σ}
variable {a a' : α} {b : β} {s s' t : σ} {n m : Nat}

/-- One more unit of fuel leaves a result as it is. -/
def Stable (f : Nat → Option α × σ) : Prop :=
  ∀ ⦃n a s⦄, f n = (some a, s) → f (n + 1) = (some a, s)

/-- Some amount of fuel gives the result `a` and the state `s`. -/
def Ends (f : Nat → Option α × σ) (a : α) (s : σ) : Prop := ∃ n, f n = (some a, s)

theorem Stable.le (hf : Stable f) (h : f n = (some a, s)) (hle : n ≤ m) :
    f m = (some a, s) := by
  induction hle with
  | refl => exact h
  | step _ ih => exact hf ih

/-- The same of a function that keeps no state. -/
theorem eq_some_of_le {g : Nat → Option α} (hg : ∀ ⦃n a⦄, g n = some a → g (n + 1) = some a)
    (h : g n = some a) (hle : n ≤ m) : g m = some a := by
  induction hle with
  | refl => exact h
  | step _ ih => exact hg ih

theorem Ends.unique (hf : Stable f) (h : Ends f a s) (h' : Ends f a' s') : a = a' ∧ s = s' := by
  obtain ⟨n, hn⟩ := h
  obtain ⟨m, hm⟩ := h'
  have hn' := hf.le hn (Nat.le_max_left n m)
  have hm' := hf.le hm (Nat.le_max_right n m)
  simpa using hn'.symm.trans hm'

theorem Stable.const (x : Option α × σ) : Stable fun _ => x := fun _ _ _ h => h

theorem ends_const {x : Option α × σ} : Ends (fun _ => x) a s ↔ x = (some a, s) :=
  ⟨fun ⟨_, h⟩ => h, fun h => ⟨0, h⟩⟩

/-! ## One computation after another -/

/-- Run `k` on the result of `f`, with the same fuel. -/
def bind (f : Nat → Option α × σ) (k : α → σ → Nat → Option β × σ) : Nat → Option β × σ := fun n =>
  match f n with
  | (none, s) => (none, s)
  | (some a, s) => k a s n

theorem bind_eq_some :
    bind f k n = (some b, t) ↔ ∃ a s, f n = (some a, s) ∧ k a s n = (some b, t) := by
  unfold bind
  obtain ⟨_ | a, s⟩ := f n
  · simp
  · simp

theorem Stable.bind (hf : Stable f) (hk : ∀ a s, Stable (k a s)) : Stable (bind f k) := by
  intro n b t h
  obtain ⟨a, s, hfn, hkn⟩ := bind_eq_some.mp h
  exact bind_eq_some.mpr ⟨a, s, hf hfn, hk a s hkn⟩

theorem ends_bind (hf : Stable f) (hk : ∀ a s, Stable (k a s)) :
    Ends (bind f k) b t ↔ ∃ a s, Ends f a s ∧ Ends (k a s) b t := by
  constructor
  · rintro ⟨n, hn⟩
    obtain ⟨a, s, hfn, hkn⟩ := bind_eq_some.mp hn
    exact ⟨a, s, ⟨n, hfn⟩, ⟨n, hkn⟩⟩
  · rintro ⟨a, s, ⟨n, hfn⟩, ⟨m, hkm⟩⟩
    exact ⟨max n m, bind_eq_some.mpr
      ⟨a, s, hf.le hfn (Nat.le_max_left n m), (hk a s).le hkm (Nat.le_max_right n m)⟩⟩

end Fuel
