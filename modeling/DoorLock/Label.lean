import DoorLock.OledLine
import DoorLock.View

/-!
# Drawing a label (`widget.c`, `uni_font.c`)

`wdg_lable_draw` fills the background, cuts the text into rows, draws the rows from a start that
depends on the vertical alignment, and draws the box. Pointers into the text are offsets from
`widget_content[0]`. The loops that follow such a pointer are given fuel, and keep the highest
offset they have read.
-/

namespace DoorLock

open Raster CString

/-- `align_e` -/
inductive AlignE
  | topLeft | topMid | topRight | midLeft | midMid | midRight | bottomLeft | bottomMid | bottomRight
  deriving DecidableEq, Repr

def AlignE.val : AlignE → UInt8
  | .topLeft => 0x00
  | .topMid => 0x01
  | .topRight => 0x02
  | .midLeft => 0x04
  | .midMid => 0x05
  | .midRight => 0x06
  | .bottomLeft => 0x08
  | .bottomMid => 0x09
  | .bottomRight => 0x0A

/-- `wdg_label_style_t` -/
structure WdgLabelStyle where
  fontSize : UInt8
  align : AlignE
  txtClr : Bool
  bgClr : Bool
  boxed : Bool

/-- `widget_id_t` of a label. `widgetContent` is the memory from `widget_content[0]` on. -/
structure WidgetId where
  ulX : UInt16
  ulY : UInt16
  drX : UInt16
  drY : UInt16
  style : WdgLabelStyle
  widgetContent : Nat → UInt8

/-- A label as `wdg_lable_setup` creates it, whatever is in its memory. -/
def wdgLable (ulX ulY drX drY : UInt16) (fontSize : UInt8) (align : AlignE)
    (txtClr bgClr boxed : Bool) (mem : Nat → UInt8) : WidgetId where
  ulX := ulX
  ulY := ulY
  drX := drX
  drY := drY
  style := { fontSize, align, txtClr, bgClr, boxed }
  widgetContent := mem

/-- `wdg_lable_setup`; `after` is the memory behind the widget. -/
def wdgLableSetup (ulX ulY drX drY : UInt16) (content : List UInt8) (fontSize : UInt8)
    (align : AlignE) (txtClr bgClr boxed : Bool) (after : Nat → UInt8) : WidgetId :=
  wdgLable ulX ulY drX drY fontSize align txtClr bgClr boxed fun i =>
    (wdgLableContent content)[i]?.getD (after i)

/-- An `int` stored in a `uint8_t`. -/
def u8 (i : Int) : Nat := (i % 256).toNat

theorem u8_lt (i : Int) : u8 i < 256 := by
  unfold u8
  omega

theorem u8_of_lt {n : Nat} (h : n < 256) : u8 n = n := by
  unfold u8
  omega

namespace WidgetId

def fontSize (w : WidgetId) : Nat := w.style.fontSize.toNat

/-- `free_x_space` -/
def freeXSpace (w : WidgetId) : Nat := u8 (min (w.drX.toNat - w.ulX.toNat : Int) 127)

/-- `free_y_space` -/
def freeYSpace (w : WidgetId) : Nat := u8 (min (w.drY.toNat - w.ulY.toNat : Int) 63)

/-- `max_col_hold` -/
def maxColHold (w : WidgetId) : Nat := u8 (w.freeYSpace / w.fontSize)

end WidgetId

/-! ## The layout loop -/

/-- `column_start_end_t`, all of it assigned. -/
structure Column where
  start : Nat
  stop : Nat
  xSizePx : Nat
  deriving DecidableEq, Repr

/-- The variables of the loop over the characters of a row. `end` and `x_size_px` of the row are
assigned together, and are `NULL` and not assigned to begin with. -/
structure RowState where
  strPtr : Nat
  xShift : Nat
  divider : Option (Nat × Nat)
  breakLoopFlag : Bool
  highest : Nat

/-- The ASCII characters at which a row may end. -/
def isDivider (c : UInt8) : Bool :=
  (c ≥ 0x20 && c ≤ 0x2F) || (c ≥ 0x3A && c ≤ 0x40) || (c ≥ 0x5B && c ≤ 0x60)

section
variable (mem : Nat → UInt8) (f fx : Nat)

/-- `*str_ptr` -/
def RowState.read (s : RowState) : RowState := { s with highest := max s.highest s.strPtr }

/-- The condition of the loop over the characters of a row. -/
def rowCond (s : RowState) : Bool :=
  mem s.strPtr != 0 &&
    (decide (s.xShift + f < fx) || (mem s.strPtr < 0x80 && decide (s.xShift + f / 2 < fx))) &&
    !s.breakLoopFlag

/-- Its body. -/
def rowBody (s : RowState) : RowState :=
  let c := mem s.strPtr
  if c < 0x80 then
    let s := if isDivider c then { s with divider := some (s.strPtr, s.xShift) } else s
    if c = 0x0A then
      { s with
        divider := some (s.strPtr, s.xShift)
        strPtr := s.strPtr + 1
        breakLoopFlag := true }
    else
      { s with strPtr := s.strPtr + 1, xShift := u8 (s.xShift + f / 2 : Nat) }
  else if 0xC0 ≤ c ∧ c < 0xD0 then
    { s with strPtr := s.strPtr + 2, xShift := u8 (s.xShift + f : Nat) }
  else if 0xE0 ≤ c ∧ c < 0xF0 then
    { s with
      strPtr := s.strPtr + 3
      xShift := u8 (s.xShift + f : Nat)
      divider := some (s.strPtr + 3, u8 (s.xShift + f : Nat)) }
  else s

def rowLoop : Nat → RowState → Option RowState
  | 0, _ => none
  | n + 1, s => if rowCond mem f fx s then rowLoop n (rowBody mem f s.read) else some s.read

/-- What a row is assigned once its characters are found. -/
def finishRow (start : Nat) (s : RowState) : Column :=
  let divider := if mem s.strPtr = 0 then some (s.strPtr, s.xShift) else s.divider
  let (stop, xSizePx) := divider.getD (s.strPtr, s.xShift)
  { start, stop, xSizePx }

/-- The variables of the loop over the rows; `rows` are the entries of `column_start_end` it has
filled. -/
structure LayoutState where
  rows : List Column
  strPtr : Nat
  contentYSize : Nat
  highest : Nat

/-- The loop over the rows, with the number of rows that may still be filled. -/
def layoutLoop (fy fuel : Nat) : Nat → LayoutState → Option LayoutState
  | 0, s => some s
  | n + 1, s =>
    if mem s.strPtr ≠ 0 ∧ s.contentYSize ≤ fy then do
      let r ← rowLoop mem f fx fuel ⟨s.strPtr, 0, none, false, max s.highest s.strPtr⟩
      layoutLoop fy fuel n
        { rows := s.rows ++ [finishRow mem s.strPtr r]
          strPtr := r.strPtr
          contentYSize := u8 (s.contentYSize + f : Nat)
          highest := r.highest }
    else some { s with highest := max s.highest s.strPtr }

end

/-- The layout of a label: what the loop over the rows leaves. -/
def layout (w : WidgetId) (fuel : Nat) : Option LayoutState :=
  layoutLoop w.widgetContent w.fontSize w.freeXSpace w.freeYSpace fuel w.maxColHold
    ⟨[], 0, w.fontSize, 0⟩

/-- The entries of `column_start_end` whose `start` and `end` are assigned in this call: entry 0
is the empty text before the loop fills it, with an `x_size_px` that is not assigned. -/
def LayoutState.assigned (l : LayoutState) (xSizePx : Nat) : List Column :=
  if l.rows = [] then [⟨0, 0, xSizePx⟩] else l.rows

/-- The first value of `y_shift`. -/
def startYShift (w : WidgetId) (l : LayoutState) : Nat :=
  let contentYSize := u8 (l.contentYSize - w.fontSize)
  if w.style.align.val &&& 0x0C = 0x00 then 0
  else if w.style.align.val &&& 0x0C = 0x04 then u8 (w.freeYSpace / 2 - contentYSize / 2 : Int)
  else u8 (w.freeYSpace - contentYSize)

/-- The values of `column_cnt` and `y_shift` in the passes of the loop that draws the rows. Each
pass moves down, so that there are fewer passes than rows of pixels. -/
def renderPasses (w : WidgetId) : Nat → Nat → Nat → List (Nat × Nat)
  | 0, _, _ => []
  | n + 1, columnCnt, yShift =>
    if w.ulY.toNat + yShift + w.fontSize ≤ min 63 w.drY.toNat then
      (columnCnt, yShift) :: renderPasses w n (columnCnt + 1) (u8 (yShift + w.fontSize : Nat))
    else []

/-- The passes of the loop that draws the rows of a laid-out text. -/
def columnsRead (w : WidgetId) (l : LayoutState) : List (Nat × Nat) :=
  renderPasses w 64 0 (startYShift w l)

end DoorLock
