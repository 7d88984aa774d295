import Mathlib.Data.List.Basic
import Mathlib.Tactic.Common

/-!
# NOR flash memory

Erasing sets all bits of a range; programming clears bits and sets none. `At m a bytes` says what
the memory holds from an address on; it splits along the bytes, and a range that is not touched
keeps what it holds.
-/

namespace Nor

/-- The bytes of a memory by address. -/
abbrev Memory := Nat → UInt8

/-- The `n` bytes from `a` on. -/
def read (m : Memory) (a n : Nat) : List UInt8 := (List.range' a n).map m

/-- Clear the bits that are 0 in `bytes`. -/
def program (m : Memory) (a : Nat) (bytes : List UInt8) : Memory := fun p =>
  if a ≤ p then
    match bytes[p - a]? with
    | some b => m p &&& b
    | none => m p
  else m p

/-- Set all bits of the `n` bytes from `a` on. -/
def erase (m : Memory) (a n : Nat) : Memory := fun p => if a ≤ p ∧ p < a + n then 0xFF else m p

/-- The memory holds `bytes` from `a` on. -/
def At (m : Memory) (a : Nat) (bytes : List UInt8) : Prop := read m a bytes.length = bytes

variable {m m' : Memory} {a b n k : Nat} {xs ys mid new bytes : List UInt8}

@[simp] theorem length_read : (read m a n).length = n := by
  unfold read
  rw [List.length_map, List.length_range']

theorem read_add : read m a (n + k) = read m a n ++ read m (a + n) k := by
  unfold read
  rw [← List.range'_append_1, List.map_append]

theorem read_congr (h : ∀ p, a ≤ p → p < a + n → m' p = m p) : read m' a n = read m a n :=
  List.map_congr_left fun p hp => by
    obtain ⟨hle, hlt⟩ := List.mem_range'_1.mp hp
    exact h p hle hlt

theorem at_nil : At m a [] := rfl

theorem at_append : At m a (xs ++ ys) ↔ At m a xs ∧ At m (a + xs.length) ys := by
  unfold At
  rw [List.length_append, read_add]
  constructor
  · exact fun h => List.append_inj h length_read
  · rintro ⟨hxs, hys⟩
    rw [hxs, hys]

theorem at_cons {x : UInt8} : At m a (x :: xs) ↔ m a = x ∧ At m (a + 1) xs := by
  unfold At read
  rw [List.length_cons, List.range'_succ, List.map_cons, List.cons.injEq]

theorem At.read_eq (h : At m a bytes) (hn : bytes.length = n) : read m a n = bytes := by
  subst hn
  exact h

theorem at_replicate {x : UInt8} :
    At m a (List.replicate n x) ↔ ∀ p, a ≤ p → p < a + n → m p = x := by
  induction n generalizing a with
  | zero => exact ⟨fun _ p hle hlt => absurd hlt (by omega), fun _ => at_nil⟩
  | succ n ih =>
    rw [List.replicate_succ, at_cons, ih]
    constructor
    · rintro ⟨h0, h⟩ p hle hlt
      rcases Nat.eq_or_lt_of_le hle with rfl | hlt'
      · exact h0
      · exact h p hlt' (by omega)
    · intro h
      exact ⟨h a (Nat.le_refl a) (by omega), fun p hle hlt => h p (by omega) (by omega)⟩

/-- A part of a range. -/
theorem At.read_drop_take (h : At m a bytes) (hn : k + n ≤ bytes.length) :
    read m (a + k) n = (bytes.drop k).take n := by
  have hsplit : At m a (bytes.take k ++ ((bytes.drop k).take n ++ (bytes.drop k).drop n)) := by
    rwa [List.take_append_drop, List.take_append_drop]
  have hmid := (at_append.mp (at_append.mp hsplit).2).1
  rw [List.length_take_of_le (by omega)] at hmid
  exact hmid.read_eq (List.length_take_of_le (by rw [List.length_drop]; omega))

/-- A memory that agrees on the range holds the same there. -/
theorem At.congr (h : At m a bytes) (hm : ∀ p, a ≤ p → p < a + bytes.length → m' p = m p) :
    At m' a bytes := (read_congr hm).trans h

/-! ## Programming and erasing -/

theorem program_apply_of_lt (h : b < a) : program m a new b = m b := if_neg (Nat.not_le_of_lt h)

theorem program_apply_of_ge (h : a + new.length ≤ b) : program m a new b = m b := by
  unfold program
  rw [List.getElem?_eq_none (by omega)]
  exact ite_self _

theorem At.program_disjoint (h : At m b bytes)
    (hd : b + bytes.length ≤ a ∨ a + new.length ≤ b) : At (program m a new) b bytes := by
  refine h.congr fun p hle hlt => ?_
  rcases hd with hd | hd
  · exact program_apply_of_lt (by omega)
  · exact program_apply_of_ge (by omega)

theorem program_nil : program m a [] = m := by
  funext p
  unfold program
  split <;> rfl

theorem program_cons {x : UInt8} :
    program m a (x :: new) = program (program m a [x]) (a + 1) new := by
  funext p
  rcases Nat.lt_trichotomy p a with hlt | rfl | hgt
  · rw [program_apply_of_lt hlt, program_apply_of_lt (by omega), program_apply_of_lt hlt]
  · rw [program_apply_of_lt (b := p) (a := p + 1) (by omega)]
    simp [program]
  · obtain ⟨q, rfl⟩ : ∃ q, p = a + 1 + q := ⟨p - (a + 1), by omega⟩
    have hsub : a + 1 + q - a = q + 1 := by omega
    have hle : a ≤ a + 1 + q := by omega
    have hone : program m a [x] (a + 1 + q) = m (a + 1 + q) :=
      program_apply_of_ge (by rw [List.length_singleton]; omega)
    simp only [program, hsub, hle, if_true, List.getElem?_cons_succ, Nat.le_add_right,
      Nat.add_sub_cancel_left] at hone ⊢
    rw [hone]

/-- The programmed bytes hold the bits that are 1 in both. -/
theorem At.program (h : At m a bytes) (hn : new.length = bytes.length) :
    At (program m a new) a (List.zipWith (· &&& ·) bytes new) := by
  induction new generalizing m a bytes with
  | nil =>
    rw [List.length_nil] at hn
    rw [List.eq_nil_of_length_eq_zero hn.symm]
    exact at_nil
  | cons x new ih =>
    cases bytes with
    | nil => cases hn
    | cons y bytes =>
      obtain ⟨hy, hrest⟩ := at_cons.mp h
      have hone : Nor.program m a [x] a = y &&& x := by
        simp [Nor.program, hy]
      have hrest' : At (Nor.program m a [x]) (a + 1) bytes :=
        hrest.program_disjoint (.inr (Nat.le_refl _))
      rw [List.zipWith_cons_cons, at_cons, program_cons]
      exact ⟨(program_apply_of_lt (by omega)).trans hone, ih hrest' (Nat.succ.inj hn)⟩

/-- Bytes programmed in the middle of a range. -/
theorem At.program_mid (h : At m a (xs ++ mid ++ ys)) (hb : b = a + xs.length)
    (hn : new.length = mid.length) :
    At (Nor.program m b new) a (xs ++ List.zipWith (· &&& ·) mid new ++ ys) := by
  subst hb
  obtain ⟨⟨hxs, hmid⟩, hys⟩ := (at_append.mp h).imp_left at_append.mp
  have hlen : (List.zipWith (· &&& ·) mid new).length = mid.length := by
    rw [List.length_zipWith, hn, Nat.min_self]
  rw [at_append, at_append, List.length_append, hlen]
  rw [List.length_append] at hys
  exact ⟨⟨hxs.program_disjoint (.inl (Nat.le_refl _)), hmid.program hn⟩,
    hys.program_disjoint (.inr (by omega))⟩

theorem zipWith_erased (bytes : List UInt8) :
    List.zipWith (· &&& ·) (List.replicate bytes.length 0xFF) bytes = bytes := by
  induction bytes with
  | nil => rfl
  | cons x bytes ih =>
    rw [List.length_cons, List.replicate_succ, List.zipWith_cons_cons, ih]
    congr 1
    exact UInt8.eq_of_toBitVec_eq (BitVec.allOnes_and)

/-- What is programmed into erased bytes is what they hold. -/
theorem At.program_erased (h : At m a (List.replicate bytes.length 0xFF)) :
    At (Nor.program m a bytes) a bytes := by
  have := h.program (List.length_replicate (n := bytes.length)).symm
  rwa [zipWith_erased] at this

/-- Bytes that are programmed behind others, into erased ones. -/
theorem At.program_next (h : At m a xs) (hb : b = a + xs.length)
    (hfree : ∀ p, b ≤ p → p < b + ys.length → m p = 0xFF) :
    At (Nor.program m b ys) a (xs ++ ys) := by
  subst hb
  exact at_append.mpr ⟨h.program_disjoint (.inl (Nat.le_refl _)),
    (at_replicate.mpr hfree).program_erased⟩

theorem at_erase : At (erase m a n) a (List.replicate n 0xFF) :=
  at_replicate.mpr fun _ hle hlt => if_pos ⟨hle, hlt⟩

end Nor
