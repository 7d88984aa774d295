import DoorLock.Lib.Raster
import Mathlib.Data.UInt

/-!
# Drawing in the frame buffer (`oled.c`)

`g_oled_buff` holds a column of 64 pixels in 8 bytes, pixel `y` of a column in bit `y % 8` of its
byte `y / 8`. The rectangle fills whole bytes where it can and paints the same pixels as one call
of `oled_draw_px` for each of them.
-/

namespace DoorLock

open Raster

/-- `g_oled_buff` and the memory behind it, as bytes; column `x` starts at byte `8 * x`. -/
abbrev OledBuff := Nat → UInt8

/-- The bit of the pixel in column `x` and row `y`. -/
def pixelAt (x y : Nat) : Nat := 64 * x + y

/-- The value of a pixel of the screen. -/
def OledBuff.pixel (b : OledBuff) (x y : Nat) : Bool := bit b (pixelAt x y)

def oledDrawPx (b : OledBuff) (x y : UInt8) (invClr : Bool) : OledBuff :=
  let i := y / 8
  let m := y % 8
  let n : UInt8 := 1 <<< m
  let addr := 8 * x.toNat + i.toNat
  if invClr then setByte b addr (b addr ||| n) else setByte b addr (b addr &&& ~~~n)

/-- The values of `i` in `for (int i = lo; i < hi; i++)`. -/
def forRange (lo hi : Nat) : List Nat := List.range' lo (hi - lo)

/-- `oled_draw_px` in rows `lo` to `hi - 1` of column `x`. -/
def drawPxColumn (b : OledBuff) (x lo hi : Nat) (mode : Bool) : OledBuff :=
  (forRange lo hi).foldl (fun b y => oledDrawPx b (UInt8.ofNat x) (UInt8.ofNat y) mode) b

def oledDrawRect (b : OledBuff) (x1 y1 x2 y2 mode _isWrapped : UInt8) : OledBuff :=
  let memsetFromy := y1 + (8 - y1 % 8) % 8
  let memsetToy := y2 - y2 % 8
  (forRange x1.toNat (x2.toNat + 1)).foldl
    (fun b x =>
      if memsetToy > memsetFromy then
        -- the pixels up to the next whole byte, the whole bytes, the pixels that are left
        let b := drawPxColumn b x y1.toNat memsetFromy.toNat (mode != 0)
        let b := memset b (8 * x + memsetFromy.toNat / 8)
          ((memsetToy.toNat - memsetFromy.toNat) / 8) (fillByte (mode != 0))
        drawPxColumn b x memsetToy.toNat (y2.toNat + 1) (mode != 0)
      else
        drawPxColumn b x y1.toNat (y2.toNat + 1) (mode != 0))
    b

/-! ## What is painted -/

theorem mem_forRange {lo hi i : Nat} : i ∈ forRange lo hi ↔ lo ≤ i ∧ i < hi := by
  rw [forRange, List.mem_range'_1]
  omega

theorem paints_oledDrawPx (b : OledBuff) (x y : UInt8) (c : Bool) :
    Paints bit (· = pixelAt x.toNat y.toNat) c b (oledDrawPx b x y c) := by
  have hk : (y % 8).toNat < 8 := by
    rw [UInt8.toNat_mod]
    exact Nat.mod_lt _ (by decide)
  have haddr : ∀ p, p = 8 * (8 * x.toNat + (y / 8).toNat) + (y % 8).toNat ↔
      p = pixelAt x.toNat y.toNat := by
    intro p
    have hdiv : (y / 8).toNat = y.toNat / 8 := UInt8.toNat_div y 8
    have hmod : (y % 8).toNat = y.toNat % 8 := UInt8.toNat_mod y 8
    rw [hdiv, hmod, pixelAt]
    omega
  cases c with
  | true =>
    have h := paints_or_mask b (8 * x.toNat + (y / 8).toNat) hk
    rw [UInt8.ofNat_toNat] at h
    exact h.congr haddr
  | false =>
    have h := paints_and_not_mask b (8 * x.toNat + (y / 8).toNat) hk
    rw [UInt8.ofNat_toNat] at h
    exact h.congr haddr

theorem paints_drawPxColumn (b : OledBuff) (x lo hi : Nat) (c : Bool) (hx : x < 256)
    (hhi : hi ≤ 256) :
    Paints bit (fun p => pixelAt x lo ≤ p ∧ p < pixelAt x hi) c b (drawPxColumn b x lo hi c) := by
  have hpass : ∀ y ∈ forRange lo hi, ∀ b : OledBuff,
      Paints bit (· = pixelAt x y) c b (oledDrawPx b (UInt8.ofNat x) (UInt8.ofNat y) c) := by
    intro y hy b
    have hy := mem_forRange.mp hy
    have h := paints_oledDrawPx b (UInt8.ofNat x) (UInt8.ofNat y) c
    rwa [UInt8.toNat_ofNat_of_lt' hx, UInt8.toNat_ofNat_of_lt' (Nat.lt_of_lt_of_le hy.2 hhi)] at h
  refine (Paints.foldl hpass b).congr fun p => ?_
  simp only [mem_forRange, pixelAt]
  constructor
  · rintro ⟨y, hy, rfl⟩
    omega
  · intro hp
    exact ⟨p - 64 * x, by omega, by omega⟩

/-- The rows where the whole bytes begin and end: `y1` rounded up and `y2` rounded down. -/
theorem memset_rows (y1 y2 : UInt8) (hy1 : y1.toNat ≤ 63) :
    (y1 + (8 - y1 % 8) % 8).toNat = (y1.toNat + 7) / 8 * 8 ∧
      (y2 - y2 % 8).toNat = y2.toNat / 8 * 8 := by
  have h8 : (8 : UInt8).toNat = 8 := rfl
  have hy2 : y2.toNat < 256 := y2.toNat_lt
  rw [UInt8.toNat_add, UInt8.toNat_sub, UInt8.toNat_mod, UInt8.toNat_mod, UInt8.toNat_sub,
    UInt8.toNat_mod, h8]
  omega

/-- A column painted pixel by pixel up to a whole byte, then by whole bytes, then by pixels. -/
theorem paints_byteColumn (b : OledBuff) {x y1 from8 to8 y2 : Nat} (c : Bool) (hx : x < 256)
    (hy2 : y2 < 256) (hfrom : from8 % 8 = 0) (hto : to8 % 8 = 0) (h1 : y1 ≤ from8)
    (h2 : from8 ≤ to8) (h3 : to8 ≤ y2) :
    Paints bit (fun p => pixelAt x y1 ≤ p ∧ p ≤ pixelAt x y2) c b
      (drawPxColumn (memset (drawPxColumn b x y1 from8 c) (8 * x + from8 / 8) ((to8 - from8) / 8)
        (fillByte c)) x to8 (y2 + 1) c) := by
  have hlead := paints_drawPxColumn b x y1 from8 c hx (by omega)
  have hfill := paints_memset (drawPxColumn b x y1 from8 c) (8 * x + from8 / 8)
    ((to8 - from8) / 8) c
  have htrail := paints_drawPxColumn (memset (drawPxColumn b x y1 from8 c) (8 * x + from8 / 8)
    ((to8 - from8) / 8) (fillByte c)) x to8 (y2 + 1) c hx (by omega)
  refine ((hlead.trans hfill).trans htrail).congr fun p => ?_
  unfold pixelAt
  omega

/-- The points of the rectangle between two corners. -/
def InRect (x1 y1 x2 y2 p : Nat) : Prop :=
  ∃ x, (x1 ≤ x ∧ x ≤ x2) ∧ pixelAt x y1 ≤ p ∧ p ≤ pixelAt x y2

/-- `oled_draw_rect` paints the rectangle between its corners. -/
theorem paints_oledDrawRect (b : OledBuff) (x1 y1 x2 y2 mode w : UInt8) (hy1 : y1.toNat ≤ 63) :
    Paints bit (InRect x1.toNat y1.toNat x2.toNat y2.toNat) (mode != 0) b
      (oledDrawRect b x1 y1 x2 y2 mode w) := by
  obtain ⟨hfrom, hto⟩ := memset_rows y1 y2 hy1
  have hx2 : x2.toNat < 256 := x2.toNat_lt
  have hy2 : y2.toNat < 256 := y2.toNat_lt
  unfold oledDrawRect
  refine (Paints.foldl (A := fun x p => pixelAt x y1.toNat ≤ p ∧ p ≤ pixelAt x y2.toNat)
    (fun x hx b => ?_) b).congr fun p => exists_congr fun x => ?_
  · have hx := mem_forRange.mp hx
    have hxlt : x < 256 := by omega
    simp only [gt_iff_lt, UInt8.lt_iff_toNat_lt, hfrom, hto]
    split
    case isTrue hbytes =>
      exact paints_byteColumn b (mode != 0) hxlt hy2 (Nat.mul_mod_left _ 8)
        (Nat.mul_mod_left _ 8) (by omega) (Nat.le_of_lt hbytes) (Nat.div_mul_le_self _ 8)
    case isFalse =>
      refine (paints_drawPxColumn b x y1.toNat (y2.toNat + 1) (mode != 0) hxlt
        (by omega)).congr fun p => ?_
      rw [pixelAt, pixelAt, pixelAt, ← Nat.add_assoc, Nat.lt_succ_iff]
  · rw [mem_forRange, Nat.lt_succ_iff]

/-! ## The same pixel by pixel -/

/-- `oled_draw_px` for every pixel of the rectangle. -/
def drawPxRect (b : OledBuff) (x1 y1 x2 y2 : Nat) (mode : Bool) : OledBuff :=
  (forRange x1 (x2 + 1)).foldl (fun b x => drawPxColumn b x y1 (y2 + 1) mode) b

theorem paints_drawPxRect (b : OledBuff) {x1 y1 x2 y2 : Nat} (mode : Bool) (hx2 : x2 < 256)
    (hy2 : y2 < 256) : Paints bit (InRect x1 y1 x2 y2) mode b (drawPxRect b x1 y1 x2 y2 mode) := by
  refine (Paints.foldl (A := fun x p => pixelAt x y1 ≤ p ∧ p < pixelAt x (y2 + 1))
    (fun x hx b => ?_) b).congr fun p => exists_congr fun x => ?_
  · have hx := mem_forRange.mp hx
    exact paints_drawPxColumn b x y1 (y2 + 1) mode (by omega) (by omega)
  · rw [mem_forRange, Nat.lt_succ_iff, pixelAt, pixelAt, pixelAt, ← Nat.add_assoc, Nat.lt_succ_iff]

/-- The rectangle filled byte by byte is the one drawn pixel by pixel, no other pixel changes, and
corners in the wrong order change nothing. -/
theorem oledDrawRect_eq_drawPxRect (b : OledBuff) (x1 y1 x2 y2 mode w : UInt8)
    (hy1 : y1.toNat ≤ 63) (hy2 : y2.toNat ≤ 63) :
    oledDrawRect b x1 y1 x2 y2 mode w
        = drawPxRect b x1.toNat y1.toNat x2.toNat y2.toNat (mode != 0) ∧
      (∀ x y, y ≤ 63 → ¬((x1.toNat ≤ x ∧ x ≤ x2.toNat) ∧ y1.toNat ≤ y ∧ y ≤ y2.toNat) →
        (oledDrawRect b x1 y1 x2 y2 mode w).pixel x y = b.pixel x y) ∧
      (x2 < x1 ∨ y2 < y1 → oledDrawRect b x1 y1 x2 y2 mode w = b) := by
  have hrect := paints_oledDrawRect b x1 y1 x2 y2 mode w hy1
  refine ⟨?_, fun x y hy hout => ?_, fun hempty => ?_⟩
  · exact bit_injective (hrect.px_eq (paints_drawPxRect b (mode != 0) x2.toNat_lt y2.toNat_lt))
  · refine (hrect (pixelAt x y)).2 fun ⟨x', hx', hp⟩ => hout ?_
    unfold pixelAt at hp
    omega
  · rw [UInt8.lt_iff_toNat_lt, UInt8.lt_iff_toNat_lt] at hempty
    refine bit_injective (hrect.px_eq (.nil fun p ⟨x, hx, hp⟩ => ?_))
    unfold pixelAt at hp
    omega

theorem oledDrawRect_eq_drawPxRect_blank :
    oledDrawRect (fun _ => 0) 3 5 4 30 1 0 = drawPxRect (fun _ => 0) 3 5 4 30 true :=
  (oledDrawRect_eq_drawPxRect (fun _ => 0) 3 5 4 30 1 0 (by decide) (by decide)).1

end DoorLock
