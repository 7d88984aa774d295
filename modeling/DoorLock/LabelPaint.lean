import DoorLock.GlyphPaint
import DoorLock.LabelEnds

/-!
# A label paints its own box (`widget.c`, `view.c`)

The layout loop counts the width of every character it puts in a row, so that a row is no wider
than the label, wherever its alignment starts it. The rows that are drawn end above the lower edge.
-/

namespace DoorLock

open Raster

/-- A label on the screen, with a font that is not too small to have half a width. -/
structure OnScreen (w : WidgetId) : Prop where
  ulX_le : w.ulX.toNat ≤ w.drX.toNat
  drX_le : w.drX.toNat ≤ 127
  ulY_le : w.ulY.toNat ≤ w.drY.toNat
  drY_le : w.drY.toNat ≤ 63
  font : 2 ≤ w.fontSize

/-- The bits of the pixels of a label: columns `ul_x` to `dr_x`, rows `ul_y` to `dr_y`. -/
def InBox (w : WidgetId) (p : Nat) : Prop :=
  InCell w.ulX.toNat w.ulY.toNat (w.drX.toNat + 1) (w.drY.toNat + 1) p

/-- A character of two bytes is drawn in the language of the one before it. -/
def Chr.isTwo : Chr → Bool
  | .two .. => true
  | _ => false

variable {w : WidgetId} {fonts : Fonts} {stop yShift f fx n x : Nat} {r r' : RenderState}
variable {c : Chr} {cs : List Chr}

theorem InCell.mono {x1 y1 x2 y2 x1' y1' x2' y2' p : Nat} (h : InCell x1 y1 x2 y2 p)
    (hx1 : x1' ≤ x1) (hx2 : x2 ≤ x2') (hy1 : y1' ≤ y1) (hy2 : y2 ≤ y2') :
    InCell x1' y1' x2' y2' p := by
  obtain ⟨x, y, hx, hy, rfl⟩ := h
  exact ⟨x, y, by omega, by omega, rfl⟩

/-! ## The characters of a row -/

theorem charWidth_lang (f fx : Nat) (lang : Option LanguageE) (htwo : c.isTwo = false)
    (hnl : c.isNewline = false) : charWidth (c.lang lang) f = (textWrap f fx).width c := by
  cases c with
  | ascii a ha =>
    unfold textWrap
    dsimp only
    rw [hnl]
    rfl
  | two a b ha => cases htwo
  | three a b c ha => exact Nat.div_one f

/-- A newline draws nothing. -/
theorem renderBody_newline (fonts : Fonts) (yShift : Nat) (h : w.widgetContent r.strPtr = c.lead)
    (hnl : c.isNewline = true) : (renderBody fonts w yShift r).buf = r.buf := by
  rw [renderBody_chr fonts yShift h]
  cases c with
  | ascii a ha =>
    have ha' : a = 0x0A := by simpa [Chr.isNewline] using hnl
    have hchr : (List.range (Chr.ascii a ha).len).map (fun i => w.widgetContent (r.strPtr + i))
        = [0x0A] := congrArg (fun b => [b]) (h.trans ha')
    dsimp only [Chr.lang]
    rw [hchr, oledPrintChar, getCharMsk_newline]
  | two a b ha => cases hnl
  | three a b c ha => cases hnl

/-- A character is drawn in the box where it fits in the width of the label, and the characters
behind it fit in what is left. -/
theorem renderBody_fits (fonts : Fonts) (fx : Nat) (hw : OnScreen w)
    (h : w.widgetContent r.strPtr = c.lead) (htwo : c.isTwo = false)
    (hnl : c.isNewline = true → cs = [])
    (hfit : w.ulX.toNat + r.xShift + (textWrap w.fontSize fx).total (c :: cs) ≤ w.drX.toNat)
    (hy : w.ulY.toNat + yShift + w.fontSize ≤ w.drY.toNat) :
    ChangesOnly bit (InBox w) r.buf (renderBody fonts w yShift r).buf ∧
      (cs ≠ [] → w.ulX.toNat + (renderBody fonts w yShift r).xShift +
        (textWrap w.fontSize fx).total cs ≤ w.drX.toNat) := by
  rw [Wrap.total_cons] at hfit
  cases hc : c.isNewline with
  | true =>
    rw [renderBody_newline fonts yShift h hc]
    exact ⟨.refl _, fun hne => absurd (hnl hc) hne⟩
  | false =>
    have hdrX := hw.drX_le
    have hdrY := hw.drY_le
    have hfont := hw.font
    have hwidth := charWidth_lang w.fontSize fx r.curLang htwo hc
    have hpos : 0 < charWidth (c.lang r.curLang) w.fontSize := by
      unfold charWidth
      split
      · exact Nat.div_pos hfont (by decide)
      · rw [Nat.div_one]
        omega
    rw [renderBody_chr fonts yShift h, u8_of_lt (by omega), u8_of_lt (by omega)]
    dsimp only
    constructor
    · refine ChangesOnly.mono (oledPrintChar_changesOnly fonts r.buf _ _ hpos (by omega)
        (by omega) (by omega) (by omega)) fun p hp => ?_
      exact hp.mono (by omega) (by omega) (by omega) (by omega)
    · intro _
      rw [u8_of_lt (by omega)]
      omega

/-! ## The rows -/

/-- A newline can only be the last character. -/
def NewlineLast (cs : List Chr) : Prop :=
  ∀ as c bs, cs = as ++ c :: bs → c.isNewline = true → bs = []

theorem renderRow_changesOnly (fx : Nat) (hw : OnScreen w)
    (htext : TextAt w.widgetContent r.strPtr cs stop)
    (htwo : ∀ c ∈ cs, c.isTwo = false) (hnl : NewlineLast cs)
    (hfit : cs ≠ [] →
      w.ulX.toNat + r.xShift + (textWrap w.fontSize fx).total cs ≤ w.drX.toNat)
    (hy : w.ulY.toNat + yShift + w.fontSize ≤ w.drY.toNat)
    (h : renderRow fonts w stop yShift n r = some r') :
    ChangesOnly bit (InBox w) r.buf r'.buf := by
  induction cs generalizing n r with
  | nil =>
    cases n with
    | zero => cases h
    | succ n =>
      cases (renderRow_nil htext).symm.trans h
      exact .refl _
  | cons c cs ih =>
    obtain ⟨hlead, hrest⟩ := htext
    obtain ⟨htwo, htwos⟩ := List.forall_mem_cons.mp htwo
    cases n with
    | zero => cases h
    | succ n =>
      rw [renderRow] at h
      split at h
      case isFalse =>
        cases h
        exact .refl _
      case isTrue =>
        obtain ⟨hbody, hfits⟩ := renderBody_fits (r := r.read) fonts fx hw hlead htwo
          (hnl [] c cs rfl) (hfit (List.cons_ne_nil c cs)) hy
        have hnl' : NewlineLast cs := fun as d bs hcs => hnl (c :: as) d bs (congrArg (c :: ·) hcs)
        have hrest' : TextAt w.widgetContent (renderBody fonts w yShift r.read).strPtr cs stop := by
          rw [renderBody_chr (r := r.read) fonts yShift hlead]
          exact hrest
        exact hbody.trans (ih hrest' htwos hnl' hfits h)

/-- What the loop over the rows needs to know of a pass. -/
structure PassFits (w : WidgetId) (c : Column) (yShift : Nat) : Prop where
  text : ∃ as, TextAt w.widgetContent c.start as c.stop ∧ (∀ c ∈ as, c.isTwo = false) ∧
    NewlineLast as ∧ (as ≠ [] → w.ulX.toNat + startXShift w c +
      (textWrap w.fontSize w.freeXSpace).total as ≤ w.drX.toNat)
  below : w.ulY.toNat + yShift + w.fontSize ≤ w.drY.toNat

theorem renderRows_changesOnly {column : Nat → Column} {fuel : Nat} {passes : List (Nat × Nat)}
    (hw : OnScreen w) (hpasses : ∀ pass ∈ passes, PassFits w (column pass.1) pass.2)
    (h : renderRows fonts w column fuel passes r = some r') :
    ChangesOnly bit (InBox w) r.buf r'.buf := by
  induction passes generalizing r with
  | nil =>
    cases h
    exact .refl _
  | cons pass passes ih =>
    obtain ⟨⟨⟨as, htext, htwo, hnl, hfit⟩, hy⟩, hrest⟩ := List.forall_mem_cons.mp hpasses
    obtain ⟨r₁, hrow, h⟩ := Option.bind_eq_some_iff.mp h
    have hfirst := renderRow_changesOnly w.freeXSpace hw htext htwo hnl hfit hy hrow
    exact ChangesOnly.trans hfirst (ih hrest h)

/-! ## The rows of a text -/

theorem OnScreen.freeXSpace_eq (hw : OnScreen w) : w.freeXSpace = w.drX.toNat - w.ulX.toNat := by
  have hle := hw.ulX_le
  have hdrX := hw.drX_le
  unfold WidgetId.freeXSpace u8
  omega

/-- Every alignment leaves room for the width of the row. -/
theorem startXShift_add_le {c : Column} (h : c.xSizePx ≤ w.freeXSpace) :
    startXShift w c + c.xSizePx ≤ w.freeXSpace := by
  have hfx : w.freeXSpace < 256 := u8_lt _
  unfold startXShift
  split
  case isTrue => omega
  case isFalse =>
    split
    case isTrue =>
      unfold u8
      omega
    case isFalse =>
      unfold u8
      omega

theorem fits_le (f fx x : Nat) (c : Chr) (h : (textWrap f fx).fits x c = true) :
    x + (textWrap f fx).width c ≤ fx := by
  cases c with
  | ascii a ha =>
    simp only [textWrap, Bool.or_eq_true, decide_eq_true_eq] at h
    unfold textWrap
    dsimp only
    split <;> omega
  | two a b ha =>
    have hlt := of_decide_eq_true h
    exact Nat.le_of_lt hlt
  | three a b c ha =>
    have hlt := of_decide_eq_true h
    exact Nat.le_of_lt hlt

/-- A row of the text is drawn inside of the label. -/
theorem RowOf.passFits {e : Nat} {c : Column} {pre : List Chr} (hw : OnScreen w)
    (htwo : ∀ c ∈ cs, c.isTwo = false)
    (h : RowOf w.widgetContent w.fontSize w.freeXSpace e cs c pre)
    (hy : w.ulY.toNat + yShift + w.fontSize ≤ w.drY.toNat) : PassFits w c yShift := by
  obtain ⟨ds, post, hline⟩ := h.line
  have htotal : 0 + (textWrap w.fontSize w.freeXSpace).total
      ((textWrap w.fontSize w.freeXSpace).line 0 ds) ≤ w.freeXSpace :=
    Wrap.total_line_le (fits_le w.fontSize w.freeXSpace) (Nat.zero_le _)
  have hfirst : (textWrap w.fontSize w.freeXSpace).line 0 ds = pre ++ post := hline.symm
  rw [hfirst, Wrap.total_append] at htotal
  have hwidth : c.xSizePx ≤ w.freeXSpace := by
    rw [h.width]
    omega
  have hstart := startXShift_add_le hwidth
  have hfx := hw.freeXSpace_eq
  have hle := hw.ulX_le
  have hsize := h.width
  refine ⟨⟨pre, h.text, fun d hd => htwo d (h.part.mem hd), fun as d bs hpre hd => ?_, fun _ => ?_⟩,
    hy⟩
  · have hsplit : (textWrap w.fontSize w.freeXSpace).line 0 ds = as ++ d :: (bs ++ post) := by
      rw [hfirst, hpre, List.append_assoc, List.cons_append]
    exact (List.append_eq_nil_iff.mp (Wrap.eq_nil_of_breaks hsplit hd)).1
  · omega

/-! ## Background and box -/

theorem toUInt8_toNat {a : UInt16} (h : a.toNat < 256) : a.toUInt8.toNat = a.toNat := by
  rw [UInt16.toNat_toUInt8]
  exact Nat.mod_eq_of_lt h

/-- The background fills the box. -/
theorem background_paints (hw : OnScreen w) (b : OledBuff) : Paints bit (InBox w) true b
    (oledDrawRect b w.ulX.toUInt8 w.ulY.toUInt8 w.drX.toUInt8 w.drY.toUInt8 1 0) := by
  have hulX := hw.ulX_le
  have hdrX := hw.drX_le
  have hulY := hw.ulY_le
  have hdrY := hw.drY_le
  have hrect := paints_oledDrawRect b w.ulX.toUInt8 w.ulY.toUInt8 w.drX.toUInt8 w.drY.toUInt8 1 0
    (by rw [toUInt8_toNat (by omega)]; omega)
  rw [toUInt8_toNat (by omega), toUInt8_toNat (by omega), toUInt8_toNat (by omega),
    toUInt8_toNat (by omega)] at hrect
  refine hrect.congr fun p => ⟨fun ⟨x, hx, hp⟩ => ⟨x, p - 64 * x, by omega, ?_, ?_⟩,
    fun ⟨x, y, hx, hy, hp⟩ => ⟨x, by omega, ?_⟩⟩
  · unfold pixelAt at hp
    omega
  · unfold pixelAt at hp ⊢
    omega
  · unfold pixelAt at hp ⊢
    omega

theorem background_changesOnly (hw : OnScreen w) (b : OledBuff) :
    ChangesOnly bit (InBox w) b
      (oledDrawRect b w.ulX.toUInt8 w.ulY.toUInt8 w.drX.toUInt8 w.drY.toUInt8 1 0) :=
  (background_paints hw b).changesOnly fun _ => id

/-- A line between two points of the box. -/
theorem line_changesOnly (b : OledBuff) (x1 y1 x2 y2 mode : UInt8)
    (hx1 : w.ulX.toNat ≤ x1.toNat ∧ x1.toNat ≤ w.drX.toNat)
    (hx2 : w.ulX.toNat ≤ x2.toNat ∧ x2.toNat ≤ w.drX.toNat)
    (hy1 : w.ulY.toNat ≤ y1.toNat ∧ y1.toNat ≤ w.drY.toNat)
    (hy2 : w.ulY.toNat ≤ y2.toNat ∧ y2.toNat ≤ w.drY.toNat) :
    ChangesOnly bit (InBox w) b (oledDrawLine b x1 y1 x2 y2 mode) := by
  refine (paints_oledDrawLine b x1 y1 x2 y2 mode).changesOnly fun p ⟨q, hq, hp⟩ => ?_
  obtain ⟨hrow, hcol⟩ := (oledLinePixels_shortOf x1 y1 x2 y2 q hq).spanned
  exact ⟨q.1.toNat, q.2.toNat, by omega, by omega, hp⟩

theorem drawBox_changesOnly (hw : OnScreen w) (b : OledBuff) :
    ChangesOnly bit (InBox w) b (drawBox w b) := by
  have hulX := hw.ulX_le
  have hdrX := hw.drX_le
  have hulY := hw.ulY_le
  have hdrY := hw.drY_le
  have h1 : w.ulX.toUInt8.toNat = w.ulX.toNat := toUInt8_toNat (by omega)
  have h2 : w.ulY.toUInt8.toNat = w.ulY.toNat := toUInt8_toNat (by omega)
  have h3 : w.drX.toUInt8.toNat = w.drX.toNat := toUInt8_toNat (by omega)
  have h4 : w.drY.toUInt8.toNat = w.drY.toNat := toUInt8_toNat (by omega)
  unfold drawBox
  dsimp only
  generalize w.ulX.toUInt8 = ulX at h1 ⊢
  generalize w.ulY.toUInt8 = ulY at h2 ⊢
  generalize w.drX.toUInt8 = drX at h3 ⊢
  generalize w.drY.toUInt8 = drY at h4 ⊢
  refine (((line_changesOnly b ulX ulY drX ulY _ ?_ ?_ ?_ ?_).trans
    (line_changesOnly _ ulX drY drX drY _ ?_ ?_ ?_ ?_)).trans
    (line_changesOnly _ ulX ulY ulX drY _ ?_ ?_ ?_ ?_)).trans
    (line_changesOnly _ drX ulY drX drY _ ?_ ?_ ?_ ?_) <;> omega

/-! ## The whole label -/

theorem IsRow.passFits {e : Nat} {c : Column} (h : IsRow w e cs c) (hw : OnScreen w)
    (htwo : ∀ c ∈ cs, c.isTwo = false)
    (hy : w.ulY.toNat + yShift + w.fontSize ≤ w.drY.toNat) : PassFits w c yShift := by
  rcases h with ⟨pre, hpre⟩ | ⟨hzero, hzero'⟩
  · exact hpre.passFits hw htwo hy
  · refine ⟨⟨[], ?_, List.forall_mem_nil _, fun as c bs h => ?_, fun h => absurd rfl h⟩, hy⟩
    · rw [hzero, hzero']
      rfl
    · exact absurd h.symm (by simp)

/-- The rows that are drawn fit the label. -/
theorem columnsRead_passFits {e rows : Nat} {l : LayoutState} {column : Nat → Column}
    (hw : OnScreen w) (htwo : ∀ c ∈ cs, c.isTwo = false)
    (hstart : startYShift w l = rowStart w rows)
    (hcols : ∀ pass ∈ columnsRead w l, IsRow w e cs (column pass.1)) :
    ∀ pass ∈ columnsRead w l, PassFits w (column pass.1) pass.2 := by
  have hf : 0 < w.fontSize := Nat.lt_of_lt_of_le (by decide) hw.font
  have hdrY := hw.drY_le
  rintro ⟨k, y⟩ hpass
  refine (hcols _ hpass).passFits hw htwo ?_
  obtain ⟨rfl, hk⟩ := (mem_columnsRead hf hstart).mp hpass
  rw [Nat.succ_mul] at hk
  omega

/-- A label on the screen that has no room below its text draws in its box. -/
theorem wdgLableDraw_changesOnly (hw : OnScreen w) (htwo : ∀ c ∈ cs, c.isTwo = false)
    (hmem : Contains w.widgetContent (textBytes cs ++ [0]))
    (hroom : NoRoomBelow w (labelLines w false cs).length) (fonts : Fonts) (junk : Nat → Column)
    (b : OledBuff) {fuel : Nat} (hfuel : cs.length < fuel) :
    ∃ d, wdgLableDraw fonts junk w b fuel = some d ∧ ChangesOnly bit (InBox w) b d.buf := by
  have hf : 0 < w.fontSize := Nat.lt_of_lt_of_le (by decide) hw.font
  obtain ⟨htext, htail⟩ := textAt_of_terminated hmem
  obtain ⟨l, hl, hrows, hcount, hstart, -⟩ := layout_rows htext htail nofun hfuel
  have hcols := columns_rowOf hf htext hrows hcount hstart hroom junk
  obtain ⟨d, hd, -⟩ := wdgLableDraw_ends fonts junk b hfuel hl hcols
  refine ⟨d, hd, ?_⟩
  obtain ⟨l', r, hl', hr, rfl⟩ := wdgLableDraw_eq_some.mp hd
  cases hl.symm.trans hl'
  have hbody := renderRows_changesOnly hw (columnsRead_passFits hw htwo hstart hcols) hr
  have hback : ChangesOnly bit (InBox w) b (if w.style.bgClr then
      oledDrawRect b w.ulX.toUInt8 w.ulY.toUInt8 w.drX.toUInt8 w.drY.toUInt8 1 0 else b) := by
    split
    case isTrue => exact background_changesOnly hw b
    case isFalse => exact .refl b
  have hbox : ChangesOnly bit (InBox w) r.buf
      (if w.style.boxed then drawBox w r.buf else r.buf) := by
    split
    case isTrue => exact drawBox_changesOnly hw r.buf
    case isFalse => exact .refl r.buf
  exact (hback.trans hbody).trans hbox

/-! ## The labels of the views -/

/-- The labels of `view_title_content_setup`, with the memory of their texts. -/
def viewTitleContentLabels (title content : Nat → UInt8) : List WidgetId :=
  [wdgLable 0 0 127 24 24 .topMid false true false title,
    wdgLable 0 25 127 63 16 .midLeft true false false content]

/-- The labels of `view_input_page_setup`. -/
def viewInputPageLabels (title defualtInpt tips : Nat → UInt8) : List WidgetId :=
  [wdgLable 0 0 127 16 16 .topMid true false false title,
    wdgLable 20 18 107 45 24 .midMid false true false defualtInpt,
    wdgLable 0 46 127 63 16 .topLeft true false false tips]

/-- The labels of `view_list_setup`: the title, and three rows of which the one in the middle is
the selected one. -/
def viewListLabels (title content : Nat → UInt8) : List WidgetId :=
  wdgLable 0 0 127 16 16 .topMid true false true title ::
    [15, 31, 47].map fun i =>
      wdgLable 0 i 127 (i + 16) 16 .topLeft (i != 31) (i == 31) false content

/-- Every label that the views have, with the same memory for its text. -/
def viewLabels (mem : Nat → UInt8) : List WidgetId :=
  viewTitleContentLabels mem mem ++ viewInputPageLabels mem mem mem ++ viewListLabels mem mem

/-- A label with other memory for its text. -/
def WidgetId.holding (w : WidgetId) (mem : Nat → UInt8) : WidgetId :=
  { w with widgetContent := mem }

theorem viewLabels_eq (mem : Nat → UInt8) :
    viewLabels mem = (viewLabels fun _ => 0).map (·.holding mem) := rfl

instance : Decidable (OnScreen w) :=
  decidable_of_iff (w.ulX.toNat ≤ w.drX.toNat ∧ w.drX.toNat ≤ 127 ∧ w.ulY.toNat ≤ w.drY.toNat ∧
      w.drY.toNat ≤ 63 ∧ 2 ≤ w.fontSize)
    ⟨fun ⟨hx, hx', hy, hy', hf⟩ => ⟨hx, hx', hy, hy', hf⟩,
      fun h => ⟨h.ulX_le, h.drX_le, h.ulY_le, h.drY_le, h.font⟩⟩

instance : Decidable (NoRoomBelow w n) := inferInstanceAs (Decidable (_ < _))

/-- Whatever rows a text has, none fits below them. -/
theorem viewLabels_fit {mem : Nat → UInt8} (hw : w ∈ viewLabels mem) :
    OnScreen w ∧ ∀ n ≤ w.maxColHold, NoRoomBelow w n := by
  have hblank : ∀ w ∈ viewLabels fun _ => 0, OnScreen w ∧ ∀ n ≤ w.maxColHold, NoRoomBelow w n := by
    decide +kernel
  rw [viewLabels_eq] at hw
  obtain ⟨w₀, hw₀, rfl⟩ := List.mem_map.mp hw
  obtain ⟨hscreen, hroom⟩ := hblank w₀ hw₀
  exact ⟨⟨hscreen.ulX_le, hscreen.drX_le, hscreen.ulY_le, hscreen.drY_le, hscreen.font⟩, hroom⟩

/-- A label of the views that holds a text of ASCII and 3-byte characters is drawn, and every pixel
outside of its columns `ul_x` to `dr_x` and rows `ul_y` to `dr_y` keeps its value. -/
theorem viewLabels_paint_own_box (fonts : Fonts) (junk : Nat → Column) (b : OledBuff)
    (mem : Nat → UInt8) (cs : List Chr) (htwo : ∀ c ∈ cs, c.isTwo = false)
    (hmem : Contains mem (textBytes cs ++ [0])) (fuel : Nat) (hfuel : cs.length < fuel) :
    ∀ w ∈ viewLabels mem, w.drX.toNat ≤ 127 ∧ w.drY.toNat ≤ 63 ∧
      ∃ d, wdgLableDraw fonts junk w b fuel = some d ∧
        ∀ x y, y ≤ 63 → ¬((w.ulX.toNat ≤ x ∧ x ≤ w.drX.toNat) ∧ w.ulY.toNat ≤ y ∧ y ≤ w.drY.toNat) →
          d.buf.pixel x y = b.pixel x y := by
  intro w hw
  obtain ⟨hscreen, hroom⟩ := viewLabels_fit hw
  have hcontent : w.widgetContent = mem := by
    rw [viewLabels_eq] at hw
    obtain ⟨w, -, rfl⟩ := List.mem_map.mp hw
    rfl
  refine ⟨hscreen.drX_le, hscreen.drY_le, ?_⟩
  obtain ⟨d, hd, hchanges⟩ := wdgLableDraw_changesOnly hscreen htwo (hcontent ▸ hmem)
    (hroom _ (Wrap.length_lines_le _ _)) fonts junk b hfuel
  refine ⟨d, hd, fun x y hy hout => hchanges _ fun ⟨x', y', hx', hy', hp⟩ => hout ?_⟩
  have hdrY := hscreen.drY_le
  unfold pixelAt at hp
  omega

/-- A short text in every label of the views. -/
theorem viewLabels_paint_own_box_hi :
    (viewLabels (contentLabel 127 "Hi").widgetContent).length = 9 ∧
    ∀ w ∈ viewLabels (contentLabel 127 "Hi").widgetContent, w.drX.toNat ≤ 127 ∧ w.drY.toNat ≤ 63 ∧
      ∃ d, wdgLableDraw blankFonts (fun _ => ⟨0, 0, 0⟩) w (fun _ => 0) 64 = some d ∧
        ∀ x y, y ≤ 63 → ¬((w.ulX.toNat ≤ x ∧ x ≤ w.drX.toNat) ∧ w.ulY.toNat ≤ y ∧ y ≤ w.drY.toNat) →
          d.buf.pixel x y = OledBuff.pixel (fun _ => 0) x y :=
  ⟨rfl, viewLabels_paint_own_box blankFonts _ _ _ (scan (CString.lit "Hi")).1 (by decide +kernel)
    (contains_contentLabel 127 "Hi" _ (by decide +kernel) (by decide +kernel)) 64
    (by decide +kernel)⟩

end DoorLock
