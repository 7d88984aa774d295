import Mathlib.Data.List.Perm.Subperm
import Mathlib.Tactic.Common

/-!
# Ledgers of numbered blocks

Blocks are numbered from 1 in the order in which they are allocated. `Conserved` says that each
block allocated so far was either released, once, or is live. The blocks somebody holds are live;
when a block is released, the others are still held (`Subperm.release`), and if all live blocks
were held they still are (`perm_release_iff`).
-/

namespace Ledger

variable {next a : Nat} {released live held : List Nat}

/-- The blocks below `next` are those released and those live, each once. -/
def Conserved (next : Nat) (released live : List Nat) : Prop :=
  (released ++ live).Perm (List.range' 1 (next - 1))

theorem Conserved.start : Conserved 1 [] [] := .refl _

/-- The next block is allocated. -/
theorem Conserved.alloc (h : Conserved next released live) (hpos : 0 < next) :
    Conserved (next + 1) released (next :: live) := by
  have hrange : List.range' 1 (next + 1 - 1) = List.range' 1 (next - 1) ++ [next] := by
    obtain ⟨n, rfl⟩ := Nat.exists_eq_add_of_lt hpos
    rw [Nat.zero_add, Nat.add_sub_cancel, Nat.add_sub_cancel, List.range'_1_concat, Nat.add_comm]
  rw [Conserved, hrange]
  exact List.perm_middle.trans ((h.cons next).trans (List.perm_append_singleton next _).symm)

/-- A live block is released. -/
theorem Conserved.release (h : Conserved next released live) (ha : a ∈ live) :
    Conserved next (released ++ [a]) (live.erase a) := by
  rw [Conserved, List.append_assoc]
  exact ((List.perm_cons_erase ha).symm.append_left released).trans h

/-- Block 0 is never allocated. -/
theorem Conserved.zero_notMem (h : Conserved next released live) : 0 ∉ live := by
  intro hmem
  have hrange := h.subset (List.mem_append_right released hmem)
  simp at hrange

/-! ## Blocks that are held -/

theorem subperm_release (h : (a :: held).Subperm live) : held.Subperm (live.erase a) := by
  simpa using h.erase a

theorem perm_release_iff (ha : a ∈ live) : held.Perm (live.erase a) ↔ (a :: held).Perm live :=
  ⟨fun h => (h.cons a).trans (List.perm_cons_erase ha).symm,
    fun h => by simpa using h.erase a⟩

/-- A block that is live and not held is lost. -/
theorem not_perm_of_cons (h : (a :: held).Subperm live) : ¬held.Perm live := by
  intro hperm
  have hle := h.length_le
  rw [← hperm.length_eq, List.length_cons] at hle
  omega

end Ledger
