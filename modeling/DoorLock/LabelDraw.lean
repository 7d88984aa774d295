import DoorLock.Label

/-!
# The characters of a label (`widget.c`, `uni_font.c`)

A character is looked up in the font tables by its bytes; only the masks of the tables are left
open. The loop that draws the rows takes the entries of `column_start_end` as they are in memory,
whether the layout has filled them or not.
-/

namespace DoorLock

open Raster CString

/-- `language_e`; where it may have another value, such as -1, that is `none`. -/
inductive LanguageE
  | hans | hant | eng | symbo | emoji
  deriving DecidableEq, Repr

/-- The `index` strings of `font16_en` and `font24_en`. -/
def fontEnIndex : List (List UInt8) :=
  ("ABCDEFGHIJKLMNOPQRSTUVWXYZabcdefghijklmnopqrstuvwxyz" ++
    "!#$%^&*(),.<>/?:;\"'\x7b\x7d[]1234567890").toList.map fun c => lit (String.singleton c)

/-- The `index` strings of `font24_zh`. -/
def fontZhIndex : List (List UInt8) :=
  "一二三四五六七八九十你好倒计时门已上锁开锁还剩".toList.map fun c => lit (String.singleton c)

/-- The `msk` arrays of the font tables, by the number of the entry. -/
structure Fonts where
  font16En : Nat → Nat → UInt8
  font24En : Nat → Nat → UInt8
  font24Zh : Nat → Nat → UInt8

/-- `get_char_msk` -/
def getCharMsk (fonts : Fonts) (lang : Option LanguageE) (size : Nat) (chr : List UInt8) :
    Option (Nat → UInt8) :=
  let look (index : List (List UInt8)) (msk : Nat → Nat → UInt8) :=
    (index.findIdx? (strcmpEq · chr)).map msk
  match lang with
  | some .eng =>
    if size = 24 then look fontEnIndex fonts.font24En
    else if size = 16 then look fontEnIndex fonts.font16En
    else none
  | some .hans | some .hant => if size = 24 then look fontZhIndex fonts.font24Zh else none
  | _ => none

/-! ## One character -/

/-- The variables of the loops of `oled_print_char`. -/
structure PrintState where
  buf : OledBuff
  xShift : Nat
  yShift : Nat
  mskDropBit : Nat

/-- The loop over the bits of a byte, `n` of which are left. -/
def printBits (x y width : Nat) (txtClr : Bool) : Nat → UInt8 → PrintState → PrintState
  | 0, _, s => s
  | n + 1, curByteCont, s =>
    let buf :=
      if curByteCont &&& 1 ≠ 0 then
        oledDrawPx s.buf (UInt8.ofNat (x + s.xShift)) (UInt8.ofNat (y + s.yShift)) txtClr
      else s.buf
    let xShift := u8 (s.xShift + 1 : Nat)
    -- the rest of the byte is dropped at the end of a row of the mask
    if xShift ≥ width then
      { s with buf, xShift, mskDropBit := u8 (s.mskDropBit + (n + 1) : Nat) }
    else printBits x y width txtClr n (curByteCont >>> 1) { s with buf, xShift }

/-- The loop over the bytes of a mask from byte number `byte` on. -/
def printBytes (msk : Nat → UInt8) (x y width size mskSize : Nat) (txtClr : Bool) :
    Nat → Nat → PrintState → PrintState
  | 0, _, s => s
  | n + 1, byte, s =>
    if byte < mskSize + s.mskDropBit / 8 then
      let s := printBits x y width txtClr 8 (msk byte) s
      if s.xShift ≥ width then
        let s := { s with xShift := 0, yShift := u8 (s.yShift + 1 : Nat) }
        if s.yShift ≥ size then s
        else printBytes msk x y width size mskSize txtClr n (byte + 1) s
      else printBytes msk x y width size mskSize txtClr n (byte + 1) s
    else s

/-- The width of a character: an English one is half as wide. -/
def charWidth (lang : Option LanguageE) (size : Nat) : Nat :=
  size / (if lang = some .eng then 2 else 1)

/-- `oled_print_char`; `byte` is a `uint8_t`. -/
def oledPrintChar (fonts : Fonts) (b : OledBuff) (x y : Nat) (lang : Option LanguageE)
    (chr : List UInt8) (size : Nat) (txtClr : Bool) : OledBuff :=
  match getCharMsk fonts lang size chr with
  | none => b
  | some msk =>
    let width := u8 (charWidth lang size)
    let mskSize := u8 (width * size / 8 : Nat)
    (printBytes msk x y width size mskSize txtClr 256 0 ⟨b, 0, 0, 0⟩).buf

/-! ## The rows -/

/-- The variables of the loop over the characters of a row. -/
structure RenderState where
  buf : OledBuff
  curLang : Option LanguageE
  strPtr : Nat
  xShift : Nat
  highest : Nat

section
variable (fonts : Fonts) (w : WidgetId)

/-- The first value of `x_shift` in a row. -/
def startXShift (c : Column) : Nat :=
  if w.style.align.val &&& 0x03 = 0x00 then 0
  else if w.style.align.val &&& 0x03 = 0x01 then u8 (w.freeXSpace / 2 - c.xSizePx / 2 : Int)
  else u8 (w.freeXSpace - c.xSizePx)

/-- The condition of the loop over the characters of a row. -/
def renderCond (stop : Nat) (s : RenderState) : Bool :=
  w.widgetContent s.strPtr != 0 && decide (s.strPtr < stop) &&
    decide (w.ulX.toNat + s.xShift ≤ min 127 w.drX.toNat)

/-- A character taken from the text: its bytes, the pointer behind it and its language. -/
def takeChr (s : RenderState) : List UInt8 × Nat × Option LanguageE :=
  let mem := w.widgetContent
  let p := s.strPtr
  if mem p < 0x80 then ([mem p], p + 1, some .eng)
  else if 0xC0 ≤ mem p ∧ mem p < 0xD0 then ([mem p, mem (p + 1)], p + 2, s.curLang)
  else if 0xE0 ≤ mem p ∧ mem p < 0xF0 then
    ([mem p, mem (p + 1), mem (p + 2)], p + 3, some .hans)
  else ([], p, s.curLang)

/-- The body of that loop. -/
def renderBody (yShift : Nat) (s : RenderState) : RenderState :=
  let (chr, strPtr, curLang) := takeChr w s
  { buf := oledPrintChar fonts s.buf (u8 (w.ulX.toNat + s.xShift : Nat))
      (u8 (w.ulY.toNat + yShift : Nat)) curLang chr w.fontSize w.style.txtClr
    curLang
    strPtr
    xShift := u8 (s.xShift + charWidth curLang w.fontSize : Nat)
    highest := max s.highest (s.strPtr + (chr.length - 1)) }

/-- `*str_ptr` -/
def RenderState.read (s : RenderState) : RenderState :=
  { s with highest := max s.highest s.strPtr }

def renderRow (stop yShift : Nat) : Nat → RenderState → Option RenderState
  | 0, _ => none
  | n + 1, s =>
    if renderCond w stop s then renderRow stop yShift n (renderBody fonts w yShift s.read)
    else some s.read

/-- The loop over the rows, for the passes it makes. -/
def renderRows (column : Nat → Column) (fuel : Nat) :
    List (Nat × Nat) → RenderState → Option RenderState
  | [], s => some s
  | (columnCnt, yShift) :: passes, s => do
    let c := column columnCnt
    let s ← renderRow fonts w c.stop yShift fuel
      { s with strPtr := c.start, xShift := startXShift w c }
    renderRows column fuel passes s

end

/-- The entries of `column_start_end` as the loop over the rows finds them: `junk` is what is in
memory where nothing was assigned. -/
def LayoutState.column (l : LayoutState) (junk : Nat → Column) (k : Nat) : Column :=
  (l.assigned (junk 0).xSizePx)[k]?.getD (junk k)

/-- The four lines of the box. -/
def drawBox (w : WidgetId) (b : OledBuff) : OledBuff :=
  let ulX := w.ulX.toUInt8
  let ulY := w.ulY.toUInt8
  let drX := w.drX.toUInt8
  let drY := w.drY.toUInt8
  let mode : UInt8 := if w.style.txtClr then 1 else 0
  let b := oledDrawLine b ulX ulY drX ulY mode
  let b := oledDrawLine b ulX drY drX drY mode
  let b := oledDrawLine b ulX ulY ulX drY mode
  oledDrawLine b drX ulY drX drY mode

/-- The screen after a label is drawn, and the highest offset of its text that was read. -/
structure Drawn where
  buf : OledBuff
  highest : Nat

/-- `wdg_lable_draw` -/
def wdgLableDraw (fonts : Fonts) (junk : Nat → Column) (w : WidgetId) (b : OledBuff)
    (fuel : Nat) : Option Drawn := do
  let b :=
    if w.style.bgClr then
      oledDrawRect b w.ulX.toUInt8 w.ulY.toUInt8 w.drX.toUInt8 w.drY.toUInt8 1 0
    else b
  let l ← layout w fuel
  let s ← renderRows fonts w (l.column junk) fuel (columnsRead w l) ⟨b, none, 0, 0, l.highest⟩
  some { buf := if w.style.boxed then drawBox w s.buf else s.buf, highest := s.highest }

end DoorLock
