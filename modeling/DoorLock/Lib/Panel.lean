import Mathlib.Data.UInt
import Mathlib.Tactic.IntervalCases

/-!
# A display controller with page addressing

The memory of the controller has pages of bytes, one byte for each column. What is sent to it
starts with a control byte: either commands follow, which set the page and the two halves of the
column, or data, which is stored from the current column on.
-/

structure Panel where
  page : Nat
  column : Nat
  ram : Nat → Nat → UInt8

namespace Panel

/-- A command byte; the commands that do not address the memory are left out. -/
def command (p : Panel) (c : UInt8) : Panel :=
  if c < 0x10 then { p with column := p.column / 16 * 16 + c.toNat }
  else if c < 0x20 then { p with column := (c.toNat - 0x10) * 16 + p.column % 16 }
  else if 0xB0 ≤ c ∧ c < 0xC0 then { p with page := c.toNat - 0xB0 }
  else p

/-- A data byte. -/
def write (p : Panel) (v : UInt8) : Panel where
  page := p.page
  column := p.column + 1
  ram i j := if i = p.page ∧ j = p.column then v else p.ram i j

/-- One transmission. -/
def receive (p : Panel) : List UInt8 → Panel
  | [] => p
  | control :: bytes =>
    if control = 0x00 then bytes.foldl command p
    else if control = 0x40 then bytes.foldl write p
    else p

/-- The point in column `x` and row `y`, where the first column that is seen is column `c`. -/
def pixel (p : Panel) (c x y : Nat) : Bool := (p.ram (y / 8) (c + x)).toBitVec.getLsbD (y % 8)

variable {p : Panel} {i j : Nat}

theorem receive_command (p : Panel) (c : UInt8) : p.receive [0x00, c] = p.command c := rfl

theorem receive_data (p : Panel) (bytes : List UInt8) :
    p.receive (0x40 :: bytes) = bytes.foldl write p := rfl

theorem command_page (p : Panel) (hi : i < 16) :
    p.command (0xB0 + UInt8.ofNat i) = { p with page := i } := by
  interval_cases i <;> rfl

/-- The column is set by its two halves. -/
theorem command_column (p : Panel) (lo hi : UInt8) (hlo : lo < 0x10) (hhi : hi < 0x10) :
    (p.command lo).command (0x10 + hi) = { p with column := hi.toNat * 16 + lo.toNat } := by
  have hlo' : lo.toNat < 16 := UInt8.lt_iff_toNat_lt.mp hlo
  have hhi' : hi.toNat < 16 := UInt8.lt_iff_toNat_lt.mp hhi
  have hsum : (0x10 + hi).toNat = 16 + hi.toNat := by
    rw [UInt8.toNat_add]
    exact Nat.mod_eq_of_lt (by simp; omega)
  have hnot : ¬0x10 + hi < 0x10 := by
    rw [UInt8.lt_iff_toNat_lt, hsum]
    simp
  have hlt : 0x10 + hi < 0x20 := by
    rw [UInt8.lt_iff_toNat_lt, hsum]
    exact Nat.add_lt_add_left hhi' 16
  have hset : p.command lo = { p with column := p.column / 16 * 16 + lo.toNat } := if_pos hlo
  have hmod : (p.column / 16 * 16 + lo.toNat) % 16 = lo.toNat := by omega
  rw [hset, command, if_neg hnot, if_pos hlt, hsum]
  dsimp only
  rw [hmod, Nat.add_sub_cancel_left]

/-- Data is stored one byte after the other. -/
theorem foldl_write_ram (bytes : List UInt8) (p : Panel) (i j : Nat) :
    (bytes.foldl write p).ram i j =
      if i = p.page ∧ p.column ≤ j then bytes[j - p.column]?.getD (p.ram i j) else p.ram i j := by
  induction bytes generalizing p with
  | nil => simp
  | cons v bytes ih =>
    have hpage : (p.write v).page = p.page := rfl
    have hcolumn : (p.write v).column = p.column + 1 := rfl
    have hram : (p.write v).ram i j = if i = p.page ∧ j = p.column then v else p.ram i j := rfl
    rw [List.foldl_cons, ih, hpage, hcolumn, hram]
    by_cases hi : i = p.page
    · rcases Nat.lt_trichotomy j p.column with hlt | rfl | hgt
      · simp [hi, Nat.not_le_of_lt hlt, Nat.ne_of_lt hlt, Nat.not_le_of_lt (Nat.lt_succ_of_lt hlt)]
      · simp [hi]
      · obtain ⟨k, rfl⟩ := Nat.exists_eq_add_of_lt hgt
        have hk : p.column + k + 1 - p.column = k + 1 := by omega
        have hk' : p.column + k + 1 - (p.column + 1) = k := by omega
        have hafter : i = p.page ∧ p.column + 1 ≤ p.column + k + 1 := ⟨hi, by omega⟩
        have hnow : ¬(i = p.page ∧ p.column + k + 1 = p.column) := fun h => by omega
        rw [if_pos hafter, if_neg hnow, if_pos ⟨hi, Nat.le_of_lt hgt⟩, hk, hk',
          List.getElem?_cons_succ]
    · simp [hi]

end Panel
