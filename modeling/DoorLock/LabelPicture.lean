import DoorLock.GlyphMask
import DoorLock.LabelPaint

/-!
# The picture of a label (`widget.c`)

What a label draws is given by its text: neither the memory behind the text nor the entries of
`column_start_end` that the layout does not fill are seen, and pixels that agreed before agree
after.
-/

namespace DoorLock

open Raster

variable {w : WidgetId} {fonts : Fonts} {stop yShift fx n n' e : Nat} {r r' s s' : RenderState}
  {c : Chr} {cs : List Chr} {mem : Nat → UInt8} {l l' : LayoutState} {b b' : OledBuff}

/-! ## The characters of a row -/

theorem oledPrintChar_keeps (fonts : Fonts) (b b' : OledBuff) {x y size : Nat}
    {lang : Option LanguageE} (chr : List UInt8) (c : Bool) (hx : x + charWidth lang size ≤ 256)
    (hy : y + size ≤ 256) : KeepsAgreement bit b b' (oledPrintChar fonts b x y lang chr size c)
      (oledPrintChar fonts b' x y lang chr size c) := by
  cases hmsk : getCharMsk fonts lang size chr with
  | none =>
    rw [oledPrintChar, oledPrintChar, hmsk]
    exact .refl b b'
  | some msk =>
    exact (oledPrintChar_paints hmsk hx hy b c).1.keepsAgreement
      (oledPrintChar_paints hmsk hx hy b' c).1

/-- The loop over the characters of a row is at the same point in both. -/
structure RenderState.Like (r r' : RenderState) : Prop where
  curLang : r'.curLang = r.curLang
  strPtr : r'.strPtr = r.strPtr
  xShift : r'.xShift = r.xShift

theorem renderBody_keeps (fonts : Fonts) (fx : Nat) (hw : OnScreen w)
    (hsame : ∀ i < c.len, mem (r.strPtr + i) = w.widgetContent (r.strPtr + i))
    (h : w.widgetContent r.strPtr = c.lead) (htwo : c.isTwo = false)
    (hfit : w.ulX.toNat + r.xShift + (textWrap w.fontSize fx).width c ≤ w.drX.toNat)
    (hy : w.ulY.toNat + yShift + w.fontSize ≤ w.drY.toNat) (hlike : r.Like r') :
    (renderBody fonts w yShift r).Like (renderBody fonts (w.holding mem) yShift r') ∧
      KeepsAgreement bit r.buf r'.buf (renderBody fonts w yShift r).buf
        (renderBody fonts (w.holding mem) yShift r').buf := by
  have hlen := c.len_pos
  have h' : (w.holding mem).widgetContent r'.strPtr = c.lead := by
    rw [hlike.strPtr]
    exact (hsame 0 hlen).trans h
  have hchr : (List.range c.len).map (fun i => (w.holding mem).widgetContent (r'.strPtr + i)) =
      (List.range c.len).map fun i => w.widgetContent (r.strPtr + i) := by
    rw [hlike.strPtr]
    exact List.map_congr_left fun i hi => hsame i (List.mem_range.mp hi)
  cases hc : c.isNewline with
  | true =>
    rw [renderBody_newline fonts yShift h hc, renderBody_newline fonts yShift h' hc,
      renderBody_chr fonts yShift h, renderBody_chr fonts yShift h', hlike.curLang, hlike.strPtr,
      hlike.xShift]
    exact ⟨⟨rfl, rfl, rfl⟩, .refl _ _⟩
  | false =>
    have hdrX := hw.drX_le
    have hdrY := hw.drY_le
    have hwidth := charWidth_lang w.fontSize fx r.curLang htwo hc
    rw [renderBody_chr fonts yShift h, renderBody_chr fonts yShift h', hchr, hlike.curLang,
      hlike.strPtr, hlike.xShift]
    refine ⟨⟨rfl, rfl, rfl⟩, ?_⟩
    dsimp only [WidgetId.holding]
    rw [u8_of_lt (by omega), u8_of_lt (by omega)]
    exact oledPrintChar_keeps fonts _ _ _ _ (by omega) (by omega)

/-! ## The rows -/

theorem renderCond_keeps (hsame : mem r.strPtr = w.widgetContent r.strPtr) (hlike : r.Like r') :
    renderCond (w.holding mem) stop r' = renderCond w stop r := by
  unfold renderCond
  rw [hlike.strPtr, hlike.xShift]
  dsimp only [WidgetId.holding]
  rw [hsame]
  rfl

theorem RenderState.Like.read (h : r.Like r') : r.read.Like r'.read :=
  ⟨h.curLang, h.strPtr, h.xShift⟩

theorem renderRow_empty (hstop : r.strPtr = stop)
    (h : renderRow fonts w stop yShift n r = some s) : s = r.read := by
  cases n with
  | zero => cases h
  | succ n => exact (Option.some.inj ((renderRow_nil hstop).symm.trans h)).symm

theorem renderRow_keeps (fx : Nat) (hw : OnScreen w)
    (hsame : ∀ i < e, mem i = w.widgetContent i)
    (htext : TextAt w.widgetContent r.strPtr cs stop) (hstop : stop ≤ e)
    (htwo : ∀ c ∈ cs, c.isTwo = false) (hnl : NewlineLast cs)
    (hfit : cs ≠ [] →
      w.ulX.toNat + r.xShift + (textWrap w.fontSize fx).total cs ≤ w.drX.toNat)
    (hy : w.ulY.toNat + yShift + w.fontSize ≤ w.drY.toNat) (hlike : r.Like r')
    (h : renderRow fonts w stop yShift n r = some s)
    (h' : renderRow fonts (w.holding mem) stop yShift n' r' = some s') :
    s'.curLang = s.curLang ∧ KeepsAgreement bit r.buf r'.buf s.buf s'.buf := by
  induction cs generalizing n n' r r' with
  | nil =>
    rw [renderRow_empty htext h, renderRow_empty (hlike.strPtr.trans htext) h']
    exact ⟨hlike.curLang, .refl _ _⟩
  | cons c cs ih =>
    have hend := htext.end_eq
    obtain ⟨hlead, hrest⟩ := htext
    obtain ⟨htwo, htwos⟩ := List.forall_mem_cons.mp htwo
    have hlen := c.len_pos
    rw [byteLen_cons] at hend
    cases n with
    | zero => cases h
    | succ n =>
      cases n' with
      | zero => cases h'
      | succ n' =>
        rw [renderRow] at h h'
        rw [renderCond_keeps (hsame _ (by omega)) hlike] at h'
        split at h
        case isFalse hcond =>
          rw [if_neg hcond] at h'
          cases h
          cases h'
          exact ⟨hlike.curLang, .refl _ _⟩
        case isTrue hcond =>
          rw [if_pos hcond] at h'
          have hfits := hfit (List.cons_ne_nil c cs)
          have hwidth :
              w.ulX.toNat + r.xShift + (textWrap w.fontSize fx).width c ≤ w.drX.toNat := by
            rw [Wrap.total_cons] at hfits
            omega
          obtain ⟨hlike₁, hkeeps⟩ := renderBody_keeps (r := r.read) fonts fx hw
            (fun i hi => hsame _ (show r.strPtr + i < e by omega)) hlead htwo hwidth hy hlike.read
          obtain ⟨-, hfits⟩ := renderBody_fits (r := r.read) fonts fx hw hlead htwo
            (hnl [] c cs rfl) hfits hy
          have hnl' : NewlineLast cs := fun as d bs hcs =>
            hnl (c :: as) d bs (congrArg (c :: ·) hcs)
          have hrest' :
              TextAt w.widgetContent (renderBody fonts w yShift r.read).strPtr cs stop := by
            rw [renderBody_chr (r := r.read) fonts yShift hlead]
            exact hrest
          obtain ⟨hlang, hkeeps'⟩ := ih hrest' htwos hnl' hfits hlike₁ h h'
          exact ⟨hlang, KeepsAgreement.trans hkeeps hkeeps'⟩

/-- Rows drawn from two arrays of entries that stand for the same texts. -/
theorem renderRows_keeps {column column' : Nat → Column} {passes : List (Nat × Nat)}
    (hw : OnScreen w) (hsame : ∀ i < e, mem i = w.widgetContent i)
    (hpasses : ∀ pass ∈ passes, PassFits w (column pass.1) pass.2 ∧ (column pass.1).stop ≤ e)
    (hcols : ∀ pass ∈ passes, column' pass.1 = column pass.1 ∨
      (column pass.1).start = 0 ∧ (column pass.1).stop = 0 ∧
        (column' pass.1).start = 0 ∧ (column' pass.1).stop = 0)
    (hlang : r'.curLang = r.curLang)
    (h : renderRows fonts w column n passes r = some s)
    (h' : renderRows fonts (w.holding mem) column' n' passes r' = some s') :
    KeepsAgreement bit r.buf r'.buf s.buf s'.buf := by
  induction passes generalizing r r' with
  | nil =>
    cases h
    cases h'
    exact .refl _ _
  | cons pass passes ih =>
    obtain ⟨⟨⟨⟨as, htext, htwo, hnl, hfit⟩, hy⟩, hstop⟩, hrest⟩ := List.forall_mem_cons.mp hpasses
    obtain ⟨hcol, hcols⟩ := List.forall_mem_cons.mp hcols
    obtain ⟨r₁, hrow, h⟩ := Option.bind_eq_some_iff.mp h
    obtain ⟨r₁', hrow', h'⟩ := Option.bind_eq_some_iff.mp h'
    have hfirst : r₁'.curLang = r₁.curLang ∧ KeepsAgreement bit r.buf r'.buf r₁.buf r₁'.buf := by
      rcases hcol with heq | ⟨hstart, hend, hstart', hend'⟩
      · rw [heq] at hrow'
        have hlike : RenderState.Like
            { r with strPtr := (column pass.1).start, xShift := startXShift w (column pass.1) }
            { r' with strPtr := (column pass.1).start, xShift := startXShift w (column pass.1) } :=
          ⟨hlang, rfl, rfl⟩
        have hkeeps := renderRow_keeps
          (r := { r with strPtr := (column pass.1).start, xShift := startXShift w (column pass.1) })
          w.freeXSpace hw hsame htext hstop htwo hnl hfit hy hlike hrow hrow'
        exact hkeeps
      · rw [renderRow_empty (hstart.trans hend.symm) hrow,
          renderRow_empty (hstart'.trans hend'.symm) hrow']
        exact ⟨hlang, .refl _ _⟩
    obtain ⟨hlang₁, hkeeps⟩ := hfirst
    exact hkeeps.trans (ih hrest hcols hlang₁ h h')

/-! ## The whole label -/

theorem drawBox_keeps (w : WidgetId) (b b' : OledBuff) :
    KeepsAgreement bit b b' (drawBox w b) (drawBox w b') := by
  have hline (b b' : OledBuff) (x1 y1 x2 y2 mode : UInt8) : KeepsAgreement bit b b'
      (oledDrawLine b x1 y1 x2 y2 mode) (oledDrawLine b' x1 y1 x2 y2 mode) :=
    (paints_oledDrawLine b x1 y1 x2 y2 mode).keepsAgreement
      (paints_oledDrawLine b' x1 y1 x2 y2 mode)
  unfold drawBox
  dsimp only
  exact (((hline _ _ _ _ _ _ _).trans (hline _ _ _ _ _ _ _)).trans (hline _ _ _ _ _ _ _)).trans
    (hline _ _ _ _ _ _ _)

theorem boxed_keeps (w : WidgetId) (b b' : OledBuff) : KeepsAgreement bit b b'
    (if w.style.boxed then drawBox w b else b) (if w.style.boxed then drawBox w b' else b') := by
  split
  case isTrue => exact drawBox_keeps w b b'
  case isFalse => exact .refl b b'

theorem background_keeps (hw : OnScreen w) (b b' : OledBuff) : KeepsAgreement bit b b'
    (if w.style.bgClr then
      oledDrawRect b w.ulX.toUInt8 w.ulY.toUInt8 w.drX.toUInt8 w.drY.toUInt8 1 0 else b)
    (if w.style.bgClr then
      oledDrawRect b' w.ulX.toUInt8 w.ulY.toUInt8 w.drX.toUInt8 w.drY.toUInt8 1 0 else b') := by
  split
  case isTrue => exact (background_paints hw b).keepsAgreement (background_paints hw b')
  case isFalse => exact .refl b b'

/-- Two arrays of entries that the same rows were assigned in. -/
theorem column_keeps (junk junk' : Nat → Column) {k : Nat} (hrows : l'.rows = l.rows)
    (hk : k < max l.rows.length 1) : l'.column junk' k = l.column junk k ∨
      (l.column junk k).start = 0 ∧ (l.column junk k).stop = 0 ∧
        (l'.column junk' k).start = 0 ∧ (l'.column junk' k).stop = 0 := by
  rcases Decidable.em (l.rows = []) with hnil | hnil
  · right
    have hk : k = 0 := by
      rw [hnil, List.length_nil] at hk
      omega
    subst hk
    have hnil' := hrows.trans hnil
    unfold LayoutState.column LayoutState.assigned
    rw [if_pos hnil, if_pos hnil']
    exact ⟨rfl, rfl, rfl, rfl⟩
  · left
    have hnil' : l'.rows ≠ [] := hrows ▸ hnil
    have hlen : k < l.rows.length := by
      have := List.length_pos_iff.mpr hnil
      omega
    unfold LayoutState.column LayoutState.assigned
    rw [if_neg hnil, if_neg hnil', hrows, List.getElem?_eq_getElem hlen]
    rfl

theorem OnScreen.holding (hw : OnScreen w) : OnScreen (w.holding mem) :=
  ⟨hw.ulX_le, hw.drX_le, hw.ulY_le, hw.drY_le, hw.font⟩

theorem renderPasses_holding (w : WidgetId) (mem : Nat → UInt8) (n k y : Nat) :
    renderPasses (w.holding mem) n k y = renderPasses w n k y := by
  induction n generalizing k y with
  | zero => rfl
  | succ n ih =>
    rw [renderPasses, renderPasses, ih]
    rfl

/-- A label draws the picture of its text. -/
theorem wdgLableDraw_keeps (hw : OnScreen w) (htwo : ∀ c ∈ cs, c.isTwo = false)
    (hmem : Contains w.widgetContent (textBytes cs ++ [0]))
    (hmem' : Contains mem (textBytes cs ++ [0]))
    (hroom : NoRoomBelow w (labelLines w false cs).length) (fonts : Fonts)
    (junk junk' : Nat → Column) (b b' : OledBuff) (hfuel : cs.length < n)
    (hfuel' : cs.length < n') :
    ∃ d d', wdgLableDraw fonts junk w b n = some d ∧
      wdgLableDraw fonts junk' (w.holding mem) b' n' = some d' ∧
        KeepsAgreement bit b b' d.buf d'.buf := by
  have hf : 0 < w.fontSize := Nat.lt_of_lt_of_le (by decide) hw.font
  have hsame : ∀ i < byteLen cs, mem i = w.widgetContent i := by
    intro i hi
    have hlt : i < (textBytes cs ++ [0]).length := by
      rw [List.length_append, length_textBytes]
      exact Nat.lt_succ_of_lt hi
    have hget := List.getElem?_eq_getElem hlt
    exact (hmem' i _ hget).trans (hmem i _ hget).symm
  obtain ⟨htext, htail⟩ := textAt_of_terminated hmem
  obtain ⟨htext', htail'⟩ := textAt_of_terminated hmem'
  obtain ⟨l, hl, hrows, hcount, hstart, -⟩ := layout_rows htext htail nofun hfuel
  obtain ⟨l', hl', hrows', -, hstart', -⟩ :=
    layout_rows (w := w.holding mem) htext' htail' nofun hfuel'
  have hpasses : columnsRead (w.holding mem) l' = columnsRead w l := by
    rw [columnsRead, columnsRead, renderPasses_holding, hstart', hstart]
    rfl
  have hcols := columns_rowOf hf htext hrows hcount hstart hroom junk
  have hfits : ∀ pass ∈ columnsRead w l,
      PassFits w (l.column junk pass.1) pass.2 ∧ (l.column junk pass.1).stop ≤ byteLen cs := by
    intro pass hpass
    obtain ⟨-, -, -, hstop⟩ := (hcols pass hpass).text hfuel
    exact ⟨columnsRead_passFits hw htwo hstart hcols pass hpass, hstop⟩
  have hsameCols : ∀ pass ∈ columnsRead w l, l'.column junk' pass.1 = l.column junk pass.1 ∨
      (l.column junk pass.1).start = 0 ∧ (l.column junk pass.1).stop = 0 ∧
        (l'.column junk' pass.1).start = 0 ∧ (l'.column junk' pass.1).stop = 0 := by
    intro pass hpass
    have hlt := (columnsRead_lt_iff hf hstart).mpr hroom pass hpass
    exact column_keeps junk junk' (hrows'.trans hrows.symm) (hcount.symm ▸ hlt)
  obtain ⟨d, hd, -⟩ := wdgLableDraw_changesOnly hw htwo hmem hroom fonts junk b hfuel
  obtain ⟨d', hd', -⟩ := wdgLableDraw_changesOnly (w := w.holding mem) hw.holding htwo hmem' hroom
    fonts junk' b' hfuel'
  refine ⟨d, d', hd, hd', ?_⟩
  obtain ⟨_, s, hl₁, hs, rfl⟩ := wdgLableDraw_eq_some.mp hd
  cases hl.symm.trans hl₁
  obtain ⟨_, s', hl₁', hs', rfl⟩ := wdgLableDraw_eq_some.mp hd'
  cases hl'.symm.trans hl₁'
  rw [hpasses] at hs'
  have hrowsKeep := renderRows_keeps hw hsame hfits hsameCols (by rfl) hs hs'
  exact ((background_keeps hw b b').trans hrowsKeep).trans (boxed_keeps w s.buf s'.buf)

end DoorLock
