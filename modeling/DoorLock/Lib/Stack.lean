import Mathlib.Data.List.Infix
import Mathlib.Tactic.Common

/-!
# Whose entry a bounded stack pops

The moves made on a stack of at most `cap` entries are numbered in order. `Stack.entries` replays
them with each entry marked by the number of its push; a push on a full stack is lost. An entry is
on top again at a later time exactly when the moves since its push are nested: the stack was never
lower than with that entry, and is as high as with it (`head_owner_iff`).
-/

namespace Stack

variable {π : Type}

inductive Move (π : Type)
  | push (p : π)
  | pop
  | stay

/-- The stack after one more move, with number `i`. -/
def Move.apply (cap i : Nat) (st : List (Nat × π)) : Move π → List (Nat × π)
  | .push p => if st.length < cap then (i, p) :: st else st
  | .pop => st.tail
  | .stay => st

/-- The stack after the moves `ms`, the first of which has number `i`. -/
def replay (cap i : Nat) (st : List (Nat × π)) : List (Move π) → List (Nat × π)
  | [] => st
  | m :: ms => replay cap (i + 1) (m.apply cap i st) ms

/-- The stack after the moves `ms` on an empty one. -/
def entries (cap : Nat) (ms : List (Move π)) : List (Nat × π) := replay cap 0 [] ms

variable {cap i n : Nat} {st us base : List (Nat × π)} {ms ms' ws : List (Move π)} {m : Move π}
variable {p : π} {x : Nat × π}

theorem replay_append (cap i : Nat) (st : List (Nat × π)) (ms ms' : List (Move π)) :
    replay cap i st (ms ++ ms') = replay cap (i + ms.length) (replay cap i st ms) ms' := by
  induction ms generalizing i st with
  | nil => rfl
  | cons m ms ih =>
    rw [List.cons_append, replay, ih, replay, List.length_cons]
    congr 1
    omega

theorem entries_append (cap : Nat) (ms ms' : List (Move π)) :
    entries cap (ms ++ ms') = replay cap ms.length (entries cap ms) ms' := by
  rw [entries, replay_append, Nat.zero_add, entries]

theorem entries_snoc (cap : Nat) (ms : List (Move π)) (m : Move π) :
    entries cap (ms ++ [m]) = m.apply cap ms.length (entries cap ms) :=
  entries_append cap ms [m]

theorem replay_stay (h : ∀ m ∈ ms, m = .stay) : replay cap i st ms = st := by
  induction ms generalizing i with
  | nil => rfl
  | cons m ms ih =>
    obtain rfl := h m List.mem_cons_self
    exact ih fun m hm => h m (List.mem_cons_of_mem _ hm)

theorem replay_pops (h : ∀ m ∈ ms, m = .pop) : replay cap i st ms = st.drop ms.length := by
  induction ms generalizing i st with
  | nil => rfl
  | cons m ms ih =>
    obtain rfl := h m List.mem_cons_self
    rw [replay, Move.apply, ih fun m hm => h m (List.mem_cons_of_mem _ hm), List.length_cons,
      List.drop_tail]

/-- A move adds an entry with its own number, or none. -/
theorem mem_apply (h : x ∈ m.apply cap i st) : x ∈ st ∨ x.1 = i := by
  cases m with
  | push p =>
    rw [Move.apply] at h
    split at h
    · rcases List.mem_cons.mp h with rfl | h
      · exact .inr rfl
      · exact .inl h
    · exact .inl h
  | pop => exact .inl (List.mem_of_mem_tail h)
  | stay => exact .inl h

theorem mem_replay (h : x ∈ replay cap i st ms) : x ∈ st ∨ i ≤ x.1 := by
  induction ms generalizing i st with
  | nil => exact .inl h
  | cons m ms ih =>
    rcases ih h with h | hi
    · rcases mem_apply h with h | rfl
      · exact .inl h
      · exact .inr (Nat.le_refl _)
    · exact .inr (by omega)

theorem owner_lt (h : x ∈ entries cap ms) : x.1 < ms.length := by
  induction ms using List.reverseRecOn with
  | nil => cases h
  | append_singleton ms m ih =>
    rw [entries_snoc] at h
    rw [List.length_append, List.length_singleton]
    rcases mem_apply h with h | h
    · exact (ih h).trans (Nat.lt_succ_self _)
    · exact h ▸ Nat.lt_succ_self _

/-- Along the moves the stack stays higher than `b`. -/
def Above (cap i : Nat) (st : List (Nat × π)) (b : Nat) (ms : List (Move π)) : Prop :=
  ∀ ms', ms' <+: ms → b < (replay cap i st ms').length

theorem above_cons {b : Nat} :
    Above cap i st b (m :: ms) ↔ b < st.length ∧ Above cap (i + 1) (m.apply cap i st) b ms := by
  constructor
  · intro h
    exact ⟨h [] List.nil_prefix,
      fun ms' hms' => h (m :: ms') (List.cons_prefix_cons.mpr ⟨rfl, hms'⟩)⟩
  · rintro ⟨hst, h⟩ ms' hms'
    cases ms' with
    | nil => exact hst
    | cons m' ms' =>
      obtain ⟨rfl, htail⟩ := List.cons_prefix_cons.mp hms'
      exact h ms' htail

/-- The entry `(n, p)` is on the stack, over `base` and under `us`, as long as the stack stays
higher than `base`; once it does not, no entry has its number again. -/
theorem replay_entry (hn : n < i) (hus : ∀ x ∈ us, n < x.1) (hbase : ∀ x ∈ base, x.1 < n) :
    (Above cap i (us ++ (n, p) :: base) base.length ms ∧
      ∃ us', replay cap i (us ++ (n, p) :: base) ms = us' ++ (n, p) :: base ∧
        ∀ x ∈ us', n < x.1) ∨
      (¬ Above cap i (us ++ (n, p) :: base) base.length ms ∧
        ∀ x ∈ replay cap i (us ++ (n, p) :: base) ms, x.1 ≠ n) := by
  induction ms generalizing i us with
  | nil =>
    refine .inl ⟨?_, us, rfl, hus⟩
    intro ms' hms'
    rw [List.prefix_nil.mp hms']
    simp only [replay, List.length_append, List.length_cons]
    omega
  | cons m ms ih =>
    have hhigh : base.length < (us ++ (n, p) :: base).length := by
      rw [List.length_append, List.length_cons]
      omega
    rw [above_cons, and_iff_right hhigh]
    -- the entry survives the move `m` with `us'` over it
    have hlive (us' : List (Nat × π)) (hm : m.apply cap i (us ++ (n, p) :: base) =
        us' ++ (n, p) :: base) (hus' : ∀ x ∈ us', n < x.1) := by
      have h := ih (i := i + 1) (by omega) hus'
      rw [← hm] at h
      exact h
    cases m with
    | push q =>
      by_cases hfull : (us ++ (n, p) :: base).length < cap
      · refine hlive ((i, q) :: us) (if_pos hfull) fun x hx => ?_
        rcases List.mem_cons.mp hx with rfl | hx
        · exact hn
        · exact hus x hx
      · exact hlive us (if_neg hfull) hus
    | pop =>
      cases us with
      | nil =>
        refine .inr ⟨fun h => ?_, fun x hx => ?_⟩
        · exact Nat.lt_irrefl _ (h [] List.nil_prefix)
        · change x ∈ replay cap (i + 1) base ms at hx
          rcases mem_replay hx with hx | hx
          · exact Nat.ne_of_lt (hbase x hx)
          · omega
      | cons y us => exact hlive us rfl fun x hx => hus x (List.mem_cons_of_mem _ hx)
    | stay => exact hlive us rfl hus

/-- The push after `ms` was accepted, and the moves `ws` since then are nested: the stack was never
lower than with its entry, and is as high as with it. -/
structure Nested (cap : Nat) (ms : List (Move π)) (p : π) (ws : List (Move π)) : Prop where
  accepted : (entries cap ms).length < cap
  above : Above cap (ms.length + 1) ((ms.length, p) :: entries cap ms) (entries cap ms).length ws
  level : (entries cap (ms ++ .push p :: ws)).length = (entries cap ms).length + 1

theorem entries_push (haccepted : (entries cap ms).length < cap) (p : π) (ws : List (Move π)) :
    entries cap (ms ++ .push p :: ws) =
      replay cap (ms.length + 1) ((ms.length, p) :: entries cap ms) ws := by
  rw [entries_append, replay, Move.apply, if_pos haccepted]

/-- The entry of a push that was accepted, along the moves since. -/
theorem replay_push (cap : Nat) (ms : List (Move π)) (p : π) (ws : List (Move π)) :
    (Above cap (ms.length + 1) ((ms.length, p) :: entries cap ms) (entries cap ms).length ws ∧
      ∃ us, replay cap (ms.length + 1) ((ms.length, p) :: entries cap ms) ws =
        us ++ (ms.length, p) :: entries cap ms ∧ ∀ x ∈ us, ms.length < x.1) ∨
      (¬ Above cap (ms.length + 1) ((ms.length, p) :: entries cap ms) (entries cap ms).length ws ∧
        ∀ x ∈ replay cap (ms.length + 1) ((ms.length, p) :: entries cap ms) ws,
          x.1 ≠ ms.length) := by
  have hbase : ∀ x ∈ entries cap ms, x.1 < ms.length := fun _ hx => owner_lt hx
  have hnone : ∀ x ∈ ([] : List (Nat × π)), ms.length < x.1 := fun _ hx => nomatch hx
  exact replay_entry (Nat.lt_succ_self _) hnone hbase

/-- Behind nested moves the stack is as it was right after the push. -/
theorem Nested.entries_eq (h : Nested cap ms p ws) :
    entries cap (ms ++ .push p :: ws) = (ms.length, p) :: entries cap ms := by
  have hlevel := h.level
  have habove := h.above
  rw [entries_push h.accepted] at hlevel ⊢
  rcases replay_push cap ms p ws with ⟨-, us, hus, -⟩ | ⟨hnot, -⟩
  · rw [hus, List.length_append, List.length_cons] at hlevel
    have hnil : us = [] := List.length_eq_zero_iff.mp (by omega)
    rw [hus, hnil, List.nil_append]
  · exact absurd habove hnot

/-- The entry on top is that of the push after `ms` exactly when the moves since are nested. -/
theorem head_owner_iff (cap : Nat) (ms : List (Move π)) (p : π) (ws : List (Move π)) :
    (entries cap (ms ++ .push p :: ws)).head?.map Prod.fst = some ms.length ↔
      Nested cap ms p ws := by
  constructor
  · intro h
    obtain ⟨x, hx, hxn⟩ := Option.map_eq_some_iff.mp h
    by_cases hacc : (entries cap ms).length < cap
    · rw [entries_push hacc] at hx
      rcases replay_push cap ms p ws with ⟨habove, us, hus, hown⟩ | ⟨-, hnone⟩
      · refine ⟨hacc, habove, ?_⟩
        cases us with
        | nil => rw [entries_push hacc, hus]; rfl
        | cons y us =>
          rw [hus, List.cons_append, List.head?_cons, Option.some_inj] at hx
          have hy := hown y List.mem_cons_self
          rw [hx, hxn] at hy
          exact absurd hy (Nat.lt_irrefl _)
      · exact absurd hxn (hnone x (List.mem_of_mem_head? hx))
    · rw [entries_append, replay, Move.apply, if_neg hacc] at hx
      rcases mem_replay (List.mem_of_mem_head? hx) with hx | hx
      · exact absurd hxn (Nat.ne_of_lt (owner_lt hx))
      · omega
  · intro h
    rw [h.entries_eq]
    rfl

end Stack
