import Mathlib.Data.List.Basic
import Mathlib.Tactic.Common

/-!
# Runs of a partial deterministic transition system

A step function `step : σ → α → Except ε σ` fires an action in a state or refuses it. A run is
recorded as the list of its labels, oldest first; each label keeps the state before the action,
the action and the state after it, so that a property of a run can speak of what an earlier step
saw. Invariants come in two forms: of the state (`Run.invariant`) and of the state together with
the history that led to it (`Run.history`).
-/

namespace Transition

variable {σ α ε : Type}

/-- One step of a run: the state it was taken in, the action, the state it led to. -/
structure Label (σ α : Type) where
  pre : σ
  act : α
  post : σ

section
variable (step : σ → α → Except ε σ)

/-- The runs from `s₀`, with their labels in the order in which they were taken. -/
inductive Run (s₀ : σ) : List (Label σ α) → σ → Prop
  | nil : Run s₀ [] s₀
  | snoc {tr s a s'} : Run s₀ tr s → step s a = .ok s' → Run s₀ (tr ++ [⟨s, a, s'⟩]) s'

/-- Fire a list of actions in order. -/
def exec : σ → List α → Except ε σ
  | s, [] => .ok s
  | s, a :: as => (step s a).bind fun s' => exec s' as

/-- The labels of `exec`, up to the first action that is refused. -/
def trace : σ → List α → List (Label σ α)
  | _, [] => []
  | s, a :: as =>
    match step s a with
    | .ok s' => ⟨s, a, s'⟩ :: trace s' as
    | .error _ => []

end

variable {step : σ → α → Except ε σ} {s₀ s s' s'' : σ} {a : α} {tr tr' : List (Label σ α)}

/-- A step with a guard. -/
theorem ite_eq_ok {p : Prop} [Decidable p] {e : ε} :
    (if p then Except.ok s else .error e) = .ok s' ↔ p ∧ s = s' := by
  by_cases hp : p <;> simp [hp]

theorem exists_ok {β : Type} {x : Except ε β} (h : x.isOk = true) : ∃ b, x = .ok b := by
  cases x with
  | ok b => exact ⟨b, rfl⟩
  | error e => cases h

/-- A step followed by a function of what it leaves. -/
theorem map_eq_ok {β γ : Type} {x : Except ε β} {f : β → γ} {c : γ} :
    x.map f = .ok c ↔ ∃ b, x = .ok b ∧ f b = c := by
  cases x <;> simp [Except.map]

theorem map_eq_error {β γ : Type} {x : Except ε β} {f : β → γ} {e : ε} :
    x.map f = .error e ↔ x = .error e := by
  cases x <;> simp [Except.map]

/-- A step followed by another one. -/
theorem bind_eq_ok {β γ : Type} {x : Except ε β} {f : β → Except ε γ} {c : γ} :
    x.bind f = .ok c ↔ ∃ b, x = .ok b ∧ f b = .ok c := by
  cases x <;> simp [Except.bind]

theorem Run.append (h : Run step s₀ tr s) (h' : Run step s tr' s') :
    Run step s₀ (tr ++ tr') s' := by
  induction h' with
  | nil => simpa using h
  | snoc _ hs ih => simpa using ih.snoc hs

theorem Run.single (h : step s a = .ok s') : Run step s [⟨s, a, s'⟩] s' :=
  Run.snoc (.nil) h

theorem Run.of_exec {as : List α} (h : exec step s as = .ok s') :
    Run step s (trace step s as) s' := by
  induction as generalizing s with
  | nil =>
    cases h
    exact .nil
  | cons a as ih =>
    obtain ⟨s₁, hs, h⟩ := bind_eq_ok.mp h
    simp only [trace, hs]
    exact (Run.single hs).append (ih h)

/-- The state `exec` ends in; the state it starts from if an action is refused. -/
def after (step : σ → α → Except ε σ) (s : σ) (as : List α) : σ :=
  match exec step s as with
  | .ok s' => s'
  | .error _ => s

theorem exec_eq_after {as : List α} (h : (exec step s as).isOk = true) :
    exec step s as = .ok (after step s as) := by
  obtain ⟨s', hx⟩ := exists_ok h
  rw [after, hx]

/-- The reason for which an action was refused. -/
def refused : Except ε σ → Option ε
  | .ok _ => none
  | .error e => some e

theorem refused_eq_some {x : Except ε σ} {e : ε} : refused x = some e ↔ x = .error e := by
  cases x <;> simp [refused]

theorem step_eq_after (h : (step s a).isOk = true) : step s a = .ok (after step s [a]) := by
  obtain ⟨s', hx⟩ := exists_ok h
  simp [after, exec, hx, Except.bind]

theorem trace_cons (as : List α) (h : (step s a).isOk = true) :
    trace step s (a :: as) = ⟨s, a, after step s [a]⟩ :: trace step (after step s [a]) as := by
  rw [trace, step_eq_after h]

/-- A list of actions none of which is refused makes a run. -/
theorem Run.of_isOk (as : List α) (h : (exec step s as).isOk = true) :
    Run step s (trace step s as) (after step s as) :=
  Run.of_exec (exec_eq_after h)

/-- A run that is replayed, with the action it ends in set apart. -/
theorem Run.replay (as : List α) (a : α) (h : (exec step s as).isOk = true)
    (ha : (step (after step s as) a).isOk = true) :
    Run step s (trace step s as ++ [⟨after step s as, a, after step (after step s as) [a]⟩])
      (after step (after step s as) [a]) :=
  (Run.of_isOk as h).snoc (step_eq_after ha)

/-- An invariant that every step keeps holds at the end of every run. -/
theorem Run.invariant {I : σ → Prop} (h : Run step s₀ tr s) (h0 : I s₀)
    (hstep : ∀ s a s', I s → step s a = .ok s' → I s') : I s := by
  induction h with
  | nil => exact h0
  | snoc _ hs ih => exact hstep _ _ _ ih hs

/-- The rule for invariants of the state together with its history. -/
theorem Run.history {I : List (Label σ α) → σ → Prop} (h : Run step s₀ tr s) (h0 : I [] s₀)
    (hstep : ∀ tr s a s', I tr s → step s a = .ok s' → I (tr ++ [⟨s, a, s'⟩]) s') : I tr s := by
  induction h with
  | nil => exact h0
  | snoc _ hs ih => exact hstep _ _ _ _ ih hs

/-- The rule for a property of the steps that comes down to a condition on them. The invariant may
rest on the property holding of the steps taken so far. -/
theorem Run.forall_iff {I : σ → Prop} {P C : Label σ α → Prop} (h : Run step s₀ tr s) (h0 : I s₀)
    (hstep : ∀ tr s a s', Run step s₀ tr s → I s → step s a = .ok s' →
      (P ⟨s, a, s'⟩ ↔ C ⟨s, a, s'⟩) ∧ (P ⟨s, a, s'⟩ → I s')) :
    ((∀ l ∈ tr, P l) ↔ ∀ l ∈ tr, C l) ∧ ((∀ l ∈ tr, P l) → I s) := by
  induction h with
  | nil => exact ⟨by simp, fun _ => h0⟩
  | @snoc tr s a s' hrun hs ih =>
    simp only [List.forall_mem_append, List.forall_mem_singleton]
    refine ⟨?_, fun ⟨hP, hl⟩ => (hstep tr s a s' hrun (ih.2 hP) hs).2 hl⟩
    constructor
    · rintro ⟨hP, hl⟩
      exact ⟨ih.1.mp hP, (hstep tr s a s' hrun (ih.2 hP) hs).1.mp hl⟩
    · rintro ⟨hC, hl⟩
      have hP := ih.1.mpr hC
      exact ⟨hP, (hstep tr s a s' hrun (ih.2 hP) hs).1.mpr hl⟩

/-- Where a label can sit in a list that ends in `x`: at the end, or in what comes before. -/
theorem snoc_eq_append_cons {β : Type} {xs p q : List β} {x l : β}
    (h : xs ++ [x] = p ++ l :: q) :
    (xs = p ∧ x = l ∧ q = []) ∨ ∃ q', q = q' ++ [x] ∧ xs = p ++ l :: q' := by
  rcases List.eq_nil_or_concat q with rfl | ⟨q', y, rfl⟩
  · obtain ⟨hp, hl⟩ := List.append_inj' h rfl
    exact .inl ⟨hp, List.singleton_inj.mp hl, rfl⟩
  · rw [List.concat_eq_append] at h ⊢
    rw [← List.cons_append, ← List.append_assoc] at h
    obtain ⟨hp, hl⟩ := List.append_inj' h rfl
    cases List.singleton_inj.mp hl
    exact .inr ⟨q', rfl, hp⟩

/-- A run stopped before one of its labels is a run, the label is the step that follows, and
the labels after it are a run from where it led. -/
theorem Run.split {p q : List (Label σ α)} {l : Label σ α} (h : Run step s₀ tr s)
    (htr : tr = p ++ l :: q) :
    Run step s₀ p l.pre ∧ step l.pre l.act = .ok l.post ∧ Run step l.post q s := by
  induction h generalizing q with
  | nil => simp at htr
  | snoc hr hs ih =>
    rcases snoc_eq_append_cons htr with ⟨rfl, rfl, rfl⟩ | ⟨q', rfl, htr'⟩
    · exact ⟨hr, hs, .nil⟩
    · obtain ⟨hp, hl, hq⟩ := ih htr'
      exact ⟨hp, hl, hq.snoc hs⟩

/-! ## Earlier steps of a run -/

/-- Some label of the run satisfies `P` together with the labels before it. -/
def Before (tr : List (Label σ α)) (P : List (Label σ α) → Label σ α → Prop) : Prop :=
  ∃ p l q, tr = p ++ l :: q ∧ P p l

variable {P Q : List (Label σ α) → Label σ α → Prop} {l : Label σ α}

theorem Before.snoc (h : Before tr P) (l : Label σ α) : Before (tr ++ [l]) P := by
  obtain ⟨p, l', q, rfl, hP⟩ := h
  exact ⟨p, l', q ++ [l], by simp, hP⟩

theorem Before.last (h : P tr l) : Before (tr ++ [l]) P := ⟨tr, l, [], rfl, h⟩

theorem Before.mono (h : Before tr P) (hPQ : ∀ p l, P p l → Q p l) : Before tr Q := by
  obtain ⟨p, l, q, htr, hP⟩ := h
  exact ⟨p, l, q, htr, hPQ p l hP⟩

end Transition
