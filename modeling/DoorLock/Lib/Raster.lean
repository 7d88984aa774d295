import Mathlib.Data.Nat.Bitwise
import Mathlib.Logic.Function.Basic
import Mathlib.Tactic.Common

/-!
# Painting in a picture

A picture is anything whose points have a value, read by `px`. A drawing operation paints an area
in one colour, or changes points of an area only; both compose. The pictures in the second part
are memory: point `p` is bit `p % 8` of byte `p / 8`.
-/

namespace Raster

variable {M P V ι : Type}

section
variable (px : M → P → V)

/-- The points of `A` have colour `c` after the drawing, all others keep theirs. -/
def Paints (A : P → Prop) (c : V) (m m' : M) : Prop :=
  ∀ p, (A p → px m' p = c) ∧ (¬A p → px m' p = px m p)

/-- Points outside of `A` keep their colour. -/
def ChangesOnly (A : P → Prop) (m m' : M) : Prop := ∀ p, ¬A p → px m' p = px m p

end

variable {px : M → P → V} {A B : P → Prop} {c : V} {m m' m'' : M}

theorem Paints.nil (h : ∀ p, ¬A p) : Paints px A c m m :=
  fun p => ⟨fun hA => absurd hA (h p), fun _ => rfl⟩

theorem Paints.congr (h : Paints px A c m m') (hAB : ∀ p, A p ↔ B p) : Paints px B c m m' :=
  fun p => ⟨fun hB => (h p).1 ((hAB p).mpr hB), fun hB => (h p).2 (mt (hAB p).mp hB)⟩

/-- One area after another, in the same colour. -/
theorem Paints.trans (h : Paints px A c m m') (h' : Paints px B c m' m'') :
    Paints px (fun p => A p ∨ B p) c m m'' := by
  intro p
  constructor
  · intro hAB
    by_cases hB : B p
    · exact (h' p).1 hB
    · rw [(h' p).2 hB]
      exact (h p).1 (hAB.resolve_right hB)
  · intro hAB
    rw [(h' p).2 fun hB => hAB (.inr hB), (h p).2 fun hA => hAB (.inl hA)]

/-- A loop whose passes paint. -/
theorem Paints.foldl {f : M → ι → M} {A : ι → P → Prop} {is : List ι}
    (h : ∀ i ∈ is, ∀ m, Paints px (A i) c m (f m i)) (m : M) :
    Paints px (fun p => ∃ i ∈ is, A i p) c m (is.foldl f m) := by
  induction is generalizing m with
  | nil => exact .nil fun p ⟨i, hi, _⟩ => absurd hi List.not_mem_nil
  | cons i is ih =>
    have hi := h i List.mem_cons_self m
    have hrest := ih (fun j hj => h j (List.mem_cons_of_mem i hj)) (f m i)
    exact (hi.trans hrest).congr fun p => by simp

/-- The area and the colour leave no choice. -/
theorem Paints.px_eq (h : Paints px A c m m') (h' : Paints px A c m m'') : px m' = px m'' := by
  funext p
  by_cases hA : A p
  · rw [(h p).1 hA, (h' p).1 hA]
  · rw [(h p).2 hA, (h' p).2 hA]

theorem Paints.changesOnly (h : Paints px A c m m') (hAB : ∀ p, A p → B p) :
    ChangesOnly px B m m' :=
  fun p hB => (h p).2 fun hA => hB (hAB p hA)

theorem ChangesOnly.mono (h : ChangesOnly px A m m') (hAB : ∀ p, A p → B p) :
    ChangesOnly px B m m' :=
  fun p hB => h p fun hA => hB (hAB p hA)

theorem ChangesOnly.refl (m : M) : ChangesOnly px A m m := fun _ _ => rfl

theorem ChangesOnly.trans (h : ChangesOnly px A m m') (h' : ChangesOnly px A m' m'') :
    ChangesOnly px A m m'' :=
  fun p hA => (h' p hA).trans (h p hA)

/-- Points where `m` and `m'` agree are points where `n` and `n'` do. -/
def KeepsAgreement (px : M → P → V) (m m' n n' : M) : Prop :=
  ∀ p, px m p = px m' p → px n p = px n' p

namespace KeepsAgreement

variable {n n' k k' : M}

theorem refl (m m' : M) : KeepsAgreement px m m' m m' := fun _ => id

theorem trans (h : KeepsAgreement px m m' n n') (h' : KeepsAgreement px n n' k k') :
    KeepsAgreement px m m' k k' :=
  fun p hp => h' p (h p hp)

end KeepsAgreement

/-- The same area is painted in both pictures. -/
theorem Paints.keepsAgreement {n n' : M} (h : Paints px A c m n) (h' : Paints px A c m' n') :
    KeepsAgreement px m m' n n' := by
  intro p hp
  by_cases hA : A p
  · rw [(h p).1 hA, (h' p).1 hA]
  · rw [(h p).2 hA, (h' p).2 hA, hp]

/-! ## Bits of byte memory -/

/-- Bit `p` of the memory, counted from the lowest bit of byte 0. -/
def bit (mem : Nat → UInt8) (p : Nat) : Bool := (mem (p / 8)).toBitVec.getLsbD (p % 8)

/-- Memory is given by its bits. -/
theorem bit_injective : Function.Injective bit := by
  intro mem mem' h
  funext a
  refine UInt8.toBitVec_inj.mp (BitVec.eq_of_getLsbD_eq fun k hk => ?_)
  have hbit := congrFun h (8 * a + k)
  rwa [bit, bit, Nat.mul_add_div (by decide), Nat.div_eq_of_lt hk, Nat.add_zero,
    Nat.mul_add_mod, Nat.mod_eq_of_lt hk] at hbit

/-- A byte written at address `a`. -/
def setByte (mem : Nat → UInt8) (a : Nat) (v : UInt8) : Nat → UInt8 :=
  fun a' => if a' = a then v else mem a'

/-- `memset(mem + a, v, n)` -/
def memset (mem : Nat → UInt8) (a n : Nat) (v : UInt8) : Nat → UInt8 :=
  fun a' => if a ≤ a' ∧ a' < a + n then v else mem a'

theorem bit_setByte (mem : Nat → UInt8) (a : Nat) (v : UInt8) (p : Nat) :
    bit (setByte mem a v) p = if p / 8 = a then v.toBitVec.getLsbD (p % 8) else bit mem p := by
  unfold bit setByte
  split <;> rfl

/-- The lowest bit, tested with `& 0x01`. -/
theorem and_one_ne_zero_iff (v : UInt8) : v &&& 1 ≠ 0 ↔ v.toBitVec.getLsbD 0 = true := by
  have hbit : v.toBitVec.getLsbD 0 = v.toNat.testBit 0 := rfl
  have hone : (1 : UInt8).toNat = 1 := rfl
  rw [ne_eq, ← UInt8.toNat_inj, UInt8.toNat_and, hbit, hone, Nat.and_one_is_mod, Nat.testBit_zero,
    decide_eq_true_iff, UInt8.toNat_zero]
  omega

theorem getLsbD_shiftRight_one (v : UInt8) (k : Nat) :
    (v >>> 1).toBitVec.getLsbD k = v.toBitVec.getLsbD (k + 1) := by
  have hone : (1 : UInt8).toBitVec % 8#8 = 1#8 := by decide
  rw [UInt8.toBitVec_shiftRight]
  simp [Nat.add_comm]

/-- The mask of one bit. -/
theorem getLsbD_one_shiftLeft :
    ∀ k < 8, ∀ j < 8, ((1 : UInt8) <<< UInt8.ofNat k).toBitVec.getLsbD j = decide (j = k) := by
  decide

/-- A bit set by `|=` with its mask. -/
theorem paints_or_mask (mem : Nat → UInt8) (a : Nat) {k : Nat} (hk : k < 8) :
    Paints bit (· = 8 * a + k) true mem (setByte mem a (mem a ||| 1 <<< UInt8.ofNat k)) := by
  intro p
  have hmask := getLsbD_one_shiftLeft k hk (p % 8) (Nat.mod_lt p (by decide))
  rw [bit_setByte, UInt8.toBitVec_or, BitVec.getLsbD_or, hmask]
  constructor
  · rintro rfl
    rw [if_pos (by omega), decide_eq_true (by omega), Bool.or_true]
  · intro hp
    split
    case isTrue ha =>
      rw [decide_eq_false (by omega), Bool.or_false, bit, ha]
    case isFalse => rfl

/-- A bit cleared by `&= ~` with its mask. -/
theorem paints_and_not_mask (mem : Nat → UInt8) (a : Nat) {k : Nat} (hk : k < 8) :
    Paints bit (· = 8 * a + k) false mem
      (setByte mem a (mem a &&& ~~~(1 <<< UInt8.ofNat k))) := by
  intro p
  have hlt : p % 8 < 8 := Nat.mod_lt p (by decide)
  have hmask := getLsbD_one_shiftLeft k hk (p % 8) hlt
  rw [bit_setByte, UInt8.toBitVec_and, BitVec.getLsbD_and, UInt8.toBitVec_not,
    BitVec.getLsbD_not, hmask, decide_eq_true hlt, Bool.true_and]
  constructor
  · rintro rfl
    rw [if_pos (by omega), decide_eq_true (by omega), Bool.not_true, Bool.and_false]
  · intro hp
    split
    case isTrue ha =>
      rw [decide_eq_false (by omega), Bool.not_false, Bool.and_true, bit, ha]
    case isFalse => rfl

/-- The byte a picture of one colour is made of. -/
def fillByte (c : Bool) : UInt8 := if c then 0xFF else 0

theorem getLsbD_fillByte (c : Bool) : ∀ j < 8, (fillByte c).toBitVec.getLsbD j = c := by
  cases c <;> decide

/-- Whole bytes filled. -/
theorem paints_memset (mem : Nat → UInt8) (a n : Nat) (c : Bool) :
    Paints bit (fun p => 8 * a ≤ p ∧ p < 8 * (a + n)) c mem (memset mem a n (fillByte c)) := by
  intro p
  unfold bit memset
  constructor
  · intro hp
    rw [if_pos (by omega)]
    exact getLsbD_fillByte c (p % 8) (Nat.mod_lt p (by decide))
  · intro hp
    rw [if_neg (by omega)]

end Raster
