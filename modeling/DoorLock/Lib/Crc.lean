import Mathlib.Tactic.Common

/-!
# Table-driven CRC

The reflected CRC with 32 bits of state: a byte is added by one look-up in a table of 256 entries.
The value is passed inverted, so that the sum of a text can be taken piece by piece.
-/

namespace Crc

variable (table : UInt8 → UInt32)

/-- The state after one more byte. -/
def step (crc : UInt32) (b : UInt8) : UInt32 := table (crc ^^^ b.toUInt32).toUInt8 ^^^ (crc >>> 8)

/-- The sum of `bytes`, going on from the sum `crc` of what is in front of them. -/
def sum (crc : UInt32) (bytes : List UInt8) : UInt32 := ~~~(bytes.foldl (step table) (~~~crc))

variable {table : UInt8 → UInt32} {crc : UInt32} {as bs : List UInt8}

@[simp] theorem sum_nil : sum table crc [] = crc := UInt32.not_not

theorem sum_append : sum table crc (as ++ bs) = sum table (sum table crc as) bs := by
  unfold sum
  rw [List.foldl_append, UInt32.not_not]

end Crc
