import DoorLock.LabelDraw

/-!
# Where a character paints (`widget.c`)

A byte of a mask draws the next columns of a row. The loops of `oled_print_char` stay in the cell of
the character, whatever its mask.
-/

namespace DoorLock

open Raster

/-- The bits of the pixels in columns `x1` to `x2 - 1` and rows `y1` to `y2 - 1`. -/
def InCell (x1 y1 x2 y2 p : Nat) : Prop :=
  ∃ x y, (x1 ≤ x ∧ x < x2) ∧ (y1 ≤ y ∧ y < y2) ∧ p = pixelAt x y

variable {x y width size n m : Nat} {txtClr : Bool} {b : OledBuff} {cur : UInt8}
variable {s s' : PrintState}

/-! ## One byte -/

/-- The loop over the bits has drawn the next `m` columns of a row. -/
structure PrintsBits (x y width m n : Nat) (txtClr : Bool) (cur : UInt8) (s s' : PrintState) :
    Prop where
  xShift : s'.xShift = s.xShift + m
  yShift : s'.yShift = s.yShift
  mskDropBit : s'.mskDropBit =
    if s.xShift + m = width then u8 (s.mskDropBit + (n + 1 - m) : Nat) else s.mskDropBit
  paints : Paints bit (fun p => ∃ i < m, cur.toBitVec.getLsbD i = true ∧
    p = pixelAt (x + (s.xShift + i)) (y + s.yShift)) txtClr s.buf s'.buf

/-- The first bit is drawn where it is 1. -/
theorem paints_firstBit (b : OledBuff) (cur : UInt8) (c : Bool) (hx : x < 256) (hy : y < 256) :
    Paints bit (fun p => cur.toBitVec.getLsbD 0 = true ∧ p = pixelAt x y) c b
      (if cur &&& 1 ≠ 0 then oledDrawPx b (UInt8.ofNat x) (UInt8.ofNat y) c else b) := by
  have hbit := and_one_ne_zero_iff cur
  split
  case isTrue h =>
    have hdraw := paints_oledDrawPx b (UInt8.ofNat x) (UInt8.ofNat y) c
    rw [UInt8.toNat_ofNat_of_lt' hx, UInt8.toNat_ofNat_of_lt' hy] at hdraw
    exact hdraw.congr fun p => (and_iff_right (hbit.mp h)).symm
  case isFalse h => exact .nil fun p hp => h (hbit.mpr hp.1)

/-- The next bit is drawn, then those behind it. -/
theorem PrintsBits.cons
    (hfirst : Paints bit (fun p => cur.toBitVec.getLsbD 0 = true ∧
      p = pixelAt (x + s.xShift) (y + s.yShift)) txtClr s.buf b)
    (hrest : PrintsBits x y width m n txtClr (cur >>> 1)
      { s with buf := b, xShift := s.xShift + 1 } s') :
    PrintsBits x y width (m + 1) (n + 1) txtClr cur s s' where
  xShift := by rw [hrest.xShift, Nat.add_assoc, Nat.add_comm 1 m]
  yShift := hrest.yShift
  mskDropBit := by
    rw [hrest.mskDropBit, Nat.add_sub_add_right, Nat.add_assoc, Nat.add_comm 1 m]
  paints := by
    refine (hfirst.trans hrest.paints).congr fun p => ?_
    constructor
    · rintro (⟨hbit, rfl⟩ | ⟨i, hi, hbit, rfl⟩)
      · exact ⟨0, Nat.succ_pos m, hbit, rfl⟩
      · rw [getLsbD_shiftRight_one] at hbit
        exact ⟨i + 1, Nat.succ_lt_succ hi, hbit, by rw [Nat.add_assoc, Nat.add_comm 1 i]⟩
    · rintro ⟨i, hi, hbit, rfl⟩
      cases i with
      | zero => exact .inl ⟨hbit, rfl⟩
      | succ i =>
        rw [← getLsbD_shiftRight_one] at hbit
        exact .inr ⟨i, Nat.lt_of_succ_lt_succ hi, hbit, by rw [Nat.add_assoc, Nat.add_comm 1 i]⟩

/-- The loop over the bits of a byte draws them up to the end of the row. -/
theorem printBits_printsBits (hx : x + width ≤ 256) (hy : y + s.yShift < 256) (hw : width < 256)
    (hxs : s.xShift < width) :
    PrintsBits x y width (min n (width - s.xShift)) n txtClr cur s
      (printBits x y width txtClr n cur s) := by
  induction n generalizing cur s with
  | zero =>
    rw [Nat.zero_min]
    refine ⟨rfl, rfl, (if_neg (by omega)).symm, .nil ?_⟩
    rintro p ⟨i, hi, -⟩
    exact Nat.not_lt_zero i hi
  | succ n ih =>
    have hfirst := paints_firstBit (x := x + s.xShift) s.buf cur txtClr (by omega) hy
    rw [printBits, u8_of_lt (by omega)]
    split
    case isTrue hend =>
      have hm : min (n + 1) (width - s.xShift) = 1 := by omega
      rw [hm]
      refine ⟨rfl, rfl, (if_pos (by omega)).symm, hfirst.congr fun p => ?_⟩
      simp
    case isFalse hend =>
      have hm : min (n + 1) (width - s.xShift) = min n (width - (s.xShift + 1)) + 1 := by omega
      rw [hm]
      have hnext : s.xShift + 1 < width := Nat.lt_of_not_le hend
      exact .cons hfirst (ih (s := { s with buf := _, xShift := s.xShift + 1 }) hy hnext)

/-! ## A character -/

/-- The columns of one row are drawn in the cell. -/
theorem PrintsBits.changesOnly (hbits : PrintsBits x y width m n txtClr cur s s')
    (hm : s.xShift + m ≤ width) (hys : s.yShift < size) :
    ChangesOnly bit (InCell x y (x + width) (y + size)) s.buf s'.buf := by
  refine hbits.paints.changesOnly ?_
  rintro p ⟨i, hi, -, hp⟩
  exact ⟨x + (s.xShift + i), y + s.yShift, by omega, by omega, hp⟩

theorem printBytes_changesOnly {msk : Nat → UInt8} {mskSize byte : Nat} (hx : x + width ≤ 256)
    (hy : y + size ≤ 256) (hw : width < 256) (hxs : s.xShift < width) (hys : s.yShift < size) :
    ChangesOnly bit (InCell x y (x + width) (y + size)) s.buf
      (printBytes msk x y width size mskSize txtClr n byte s).buf := by
  induction n generalizing byte s with
  | zero => exact .refl _
  | succ n ih =>
    have hbits : PrintsBits x y width (min 8 (width - s.xShift)) 8 txtClr (msk byte) s
        (printBits x y width txtClr 8 (msk byte) s) :=
      printBits_printsBits hx (by omega) hw hxs
    have hcell := hbits.changesOnly (by omega) hys
    have hrow := hbits.yShift
    rw [printBytes]
    dsimp only
    split
    case isFalse => exact .refl _
    case isTrue =>
      rw [hrow]
      split
      case isFalse hlt =>
        exact hcell.trans (ih (Nat.lt_of_not_le hlt) (hrow.symm ▸ hys))
      case isTrue =>
        split
        case isTrue => exact hcell
        case isFalse hlt =>
          exact hcell.trans (ih (Nat.zero_lt_of_lt hxs) (Nat.lt_of_not_le hlt))

/-- A character paints in its cell only. -/
theorem oledPrintChar_changesOnly (fonts : Fonts) (b : OledBuff) (lang : Option LanguageE)
    (chr : List UInt8) (hwidth : 0 < charWidth lang size) (hsize : 0 < size)
    (hx : x + charWidth lang size ≤ 256) (hy : y + size ≤ 256) (hlt : charWidth lang size < 256) :
    ChangesOnly bit (InCell x y (x + charWidth lang size) (y + size)) b
      (oledPrintChar fonts b x y lang chr size txtClr) := by
  unfold oledPrintChar
  cases getCharMsk fonts lang size chr with
  | none => exact .refl b
  | some msk =>
    dsimp only
    rw [u8_of_lt hlt]
    exact printBytes_changesOnly (s := ⟨b, 0, 0, 0⟩) hx hy hlt hwidth hsize

/-- The tables have no newline. -/
theorem getCharMsk_newline (fonts : Fonts) (size : Nat) :
    getCharMsk fonts (some .eng) size [0x0A] = none := by
  have hnone : fontEnIndex.findIdx? (CString.strcmpEq · [0x0A]) = none := by decide +kernel
  unfold getCharMsk
  dsimp only
  rw [hnone]
  split
  · rfl
  · split <;> rfl

end DoorLock
