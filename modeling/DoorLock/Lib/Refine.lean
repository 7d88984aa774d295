import DoorLock.Lib.Yields

/-!
# Refinement of calls

An implementation answers calls one after the other and keeps a state. A specification says which
answers it may give, and what its own state is then. When every call refines the specification, so
does every run of calls.
-/

namespace Refine

variable {σ τ α β : Type}

/-- The answers to calls that are made one after the other. -/
def calls (call : σ → α → Option (β × σ)) : σ → List α → Option (List β × σ)
  | s, [] => some ([], s)
  | s, a :: as => do
    let (b, s) ← call s a
    let (bs, s) ← calls call s as
    some (b :: bs, s)

/-- Answers that the specification allows. -/
inductive Behaves (spec : τ → α → β → τ → Prop) : τ → List α → List β → τ → Prop
  | nil {t : τ} : Behaves spec t [] [] t
  | cons {t t' t'' : τ} {a : α} {b : β} {as : List α} {bs : List β} (h : spec t a b t')
    (hs : Behaves spec t' as bs t'') : Behaves spec t (a :: as) (b :: bs) t''

/-- Calls that meet `P` are answered as the specification allows, and states related by `R` stay
related. -/
def Refines (call : σ → α → Option (β × σ)) (spec : τ → α → β → τ → Prop) (R : σ → τ → Prop)
    (P : α → Prop) : Prop :=
  ∀ s t a, R s t → P a → Yields (call s a) fun x => ∃ t', spec t a x.1 t' ∧ R x.2 t'

variable {call : σ → α → Option (β × σ)} {spec : τ → α → β → τ → Prop} {R : σ → τ → Prop}
  {P : α → Prop} {f : τ → α → β × τ} {s : σ} {t t' : τ} {as : List α} {bs : List β}

/-- Runs refine when calls do. -/
theorem Refines.run (h : Refines call spec R P) (hR : R s t) (hP : ∀ a ∈ as, P a) :
    Yields (calls call s as) fun x => ∃ t', Behaves spec t as x.1 t' ∧ R x.2 t' := by
  induction as generalizing s t with
  | nil => exact .pure ⟨t, .nil, hR⟩
  | cons a as ih =>
    refine (h s t a hR (hP a List.mem_cons_self)).bind ?_
    rintro ⟨b, s₁⟩ ⟨t₁, hspec, hR₁⟩
    refine (ih hR₁ fun a' ha' => hP a' (List.mem_cons_of_mem a ha')).bind ?_
    rintro ⟨bs, s₂⟩ ⟨t₂, hs, hR₂⟩
    exact .pure ⟨t₂, .cons hspec hs, hR₂⟩

end Refine
