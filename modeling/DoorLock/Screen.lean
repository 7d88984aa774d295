import DoorLock.LabelPicture
import DoorLock.PageTextsRun
import DoorLock.Lib.Panel

/-!
# The picture on the panel (`oled.c`, `view.c`, `activity.c`)

A page is printed label by label in the frame buffer, and the frame buffer is sent to the panel.
What is seen then are the texts of the page, each drawn in its box, and nothing else.
-/

namespace DoorLock

open CString Raster Transition

variable {fonts : Fonts} {b b' d d' : OledBuff} {u : Ui} {p : Page} {env : Env}
variable {w : WidgetId} {buf text : List UInt8} {n : Nat}

/-! ## The frame buffer (`oled.c`) -/

/-- `OLED_CMD` -/
def oledCmd : UInt8 := 0x00

/-- What `oled_write_byte` sends. -/
def oledWriteByte (dat mode : UInt8) : List UInt8 := [mode, dat]

/-- What a pass of the loop of `oled_screen_update` sends: the address of eight rows, then a byte
for each column. -/
def oledPage (b : OledBuff) (i : Nat) : List (List UInt8) :=
  [oledWriteByte (0xB0 + UInt8.ofNat i) oledCmd, oledWriteByte 0x02 oledCmd,
    oledWriteByte 0x10 oledCmd, 0x40 :: (forRange 0 128).map fun n => b (8 * n + i)]

/-- What `oled_screen_update` sends. -/
def oledScreenUpdate (b : OledBuff) : List (List UInt8) := (forRange 0 8).flatMap (oledPage b)

/-- `oled_screen_clear`: the frame buffer it leaves, and what it sends. -/
def oledScreenClear (b : OledBuff) : OledBuff × List (List UInt8) :=
  let cleared : OledBuff := fun a => if a < 128 * 8 then 0 else b a
  (cleared, oledScreenUpdate cleared)

/-- The pixel of the panel in column `x` and row `y`; the panel starts at column 2 of its
controller. -/
def panelPixel (panel : Panel) (x y : Nat) : Bool := panel.pixel 2 x y

theorem oledBuff_pixel (b : OledBuff) (x y : Nat) :
    b.pixel x y = (b (8 * x + y / 8)).toBitVec.getLsbD (y % 8) := by
  have hdiv : (64 * x + y) / 8 = 8 * x + y / 8 := by omega
  have hmod : (64 * x + y) % 8 = y % 8 := by omega
  rw [OledBuff.pixel, pixelAt, bit, hdiv, hmod]

/-- Eight rows are sent. -/
theorem receive_page (b : OledBuff) (panel : Panel) {i : Nat} (hi : i < 16) (k j : Nat) :
    ((oledPage b i).foldl Panel.receive panel).ram k j =
      if k = i ∧ 2 ≤ j ∧ j < 130 then b (8 * (j - 2) + i) else panel.ram k j := by
  have hcolumn : ((panel.command (0xB0 + UInt8.ofNat i)).command 0x02).command 0x10 =
      { panel with page := i, column := 2 } := by
    have hcolumn := Panel.command_column (panel.command (0xB0 + UInt8.ofNat i)) 0x02 0 (by decide)
      (by decide)
    rw [Panel.command_page panel hi] at hcolumn ⊢
    exact hcolumn
  unfold oledPage oledWriteByte oledCmd
  rw [List.foldl_cons, List.foldl_cons, List.foldl_cons, List.foldl_cons, List.foldl_nil,
    Panel.receive_command, Panel.receive_command, Panel.receive_command, Panel.receive_data,
    hcolumn, Panel.foldl_write_ram]
  by_cases hlo : 2 ≤ j
  · rcases Nat.lt_or_ge j 130 with hhi | hhi
    · have hlt : j - 2 < 128 := by omega
      simp [forRange, hlo, hhi, hlt]
    · have hge : 128 ≤ j - 2 := by omega
      simp [forRange, hlo, Nat.not_lt_of_le hhi, Nat.not_lt_of_le hge]
  · simp [hlo]

theorem receive_pages (b : OledBuff) (panel : Panel) {is : List Nat} (his : ∀ i ∈ is, i < 16)
    (k j : Nat) : ((is.flatMap (oledPage b)).foldl Panel.receive panel).ram k j =
      if k ∈ is ∧ 2 ≤ j ∧ j < 130 then b (8 * (j - 2) + k) else panel.ram k j := by
  induction is generalizing panel with
  | nil => simp
  | cons i is ih =>
    obtain ⟨hi, his⟩ := List.forall_mem_cons.mp his
    rw [List.flatMap_cons, List.foldl_append, ih _ his, receive_page b _ hi]
    by_cases hj : 2 ≤ j ∧ j < 130
    · by_cases hk : k = i
      · subst hk
        simp [hj]
      · simp [hk]
    · simp [hj]

/-- The panel shows the frame buffer, whatever its memory and its address were. -/
theorem update_shows (b : OledBuff) (panel : Panel) {x y : Nat} (hx : x < 128) (hy : y < 64) :
    panelPixel ((oledScreenUpdate b).foldl Panel.receive panel) x y = b.pixel x y := by
  have hrows : ∀ i ∈ forRange 0 8, i < 16 := fun i hi =>
    Nat.lt_trans (mem_forRange.mp hi).2 (by decide)
  have hcell : y / 8 ∈ forRange 0 8 ∧ 2 ≤ 2 + x ∧ 2 + x < 130 := by
    rw [mem_forRange]
    omega
  rw [panelPixel, Panel.pixel, oledScreenUpdate, receive_pages b panel hrows, if_pos hcell,
    Nat.add_sub_cancel_left, oledBuff_pixel]

/-! ## Views (`view.c`) -/

/-- `MAX_WIDGET_PER_VIEW` -/
def maxWidgetPerView : Nat := 24

/-- `view_state_widget`: a label is put in the first slot that is `NULL`. -/
def viewStateWidget (view : List (Option WidgetId)) (widgetId : WidgetId) :
    List (Option WidgetId) × Bool :=
  match view.findIdx? Option.isNone with
  | some i => (view.set i (some widgetId), true)
  | none => (view, false)

/-- `stated_widget` of a view that is set up with labels one after the other. -/
def statedWidget (ws : List WidgetId) : List (Option WidgetId) :=
  ws.foldl (fun view w => (viewStateWidget view w).1) (List.replicate maxWidgetPerView none)

/-- `view_print_widget`; `junk i` is what `column_start_end` holds before it is filled for the label
in slot `i`. -/
def viewPrintWidget (fonts : Fonts) (fuel : Nat) (junk : Nat → Nat → Column) :
    List (Option WidgetId) → OledBuff → Option OledBuff
  | [], b => some b
  | none :: view, b => viewPrintWidget fonts fuel (fun i => junk (i + 1)) view b
  | some w :: view, b => do
    let d ← wdgLableDraw fonts (junk 0) w b fuel
    viewPrintWidget fonts fuel (fun i => junk (i + 1)) view d.buf

/-- The memory that starts with a text buffer. -/
def textMem (buf : List UInt8) (behind : Nat → UInt8) : Nat → UInt8 :=
  fun i => buf[i]?.getD (behind i)

/-- The labels of a page in the order in which its view states them, without their texts, and the
buffers of the texts. -/
def Ui.labels (u : Ui) (p : Page) : List (WidgetId × List UInt8) :=
  match p.viewType with
  | .titleContent =>
    (viewTitleContentLabels (fun _ => 0) fun _ => 0).zip
      [(u.titleContent p).tcTitle, (u.titleContent p).tcContent]
  | .inptPage =>
    (viewInputPageLabels (fun _ => 0) (fun _ => 0) fun _ => 0).zip
      [(u.inputPage p).ipgTitle, (u.inputPage p).ipgInptContent, (u.inputPage p).ipgTips]
  | .list =>
    (viewListLabels (fun _ => 0) fun _ => 0).zip
      [(u.viewList p).listTitle, (u.viewList p).rowPrev, (u.viewList p).rowSelect,
        (u.viewList p).rowNext]

/-- Labels with their texts in memory; `behind i` is what lies behind the `i`-th text. -/
def holdTexts : (Nat → Nat → UInt8) → List (WidgetId × List UInt8) → List WidgetId
  | _, [] => []
  | behind, (w, buf) :: ls =>
    w.holding (textMem buf (behind 0)) :: holdTexts (fun i => behind (i + 1)) ls

/-- `activity_print`: the frame buffer it leaves, and what it sends. -/
def activityPrintOled (fonts : Fonts) (fuel : Nat) (junk : Nat → Nat → Column)
    (behind : Nat → Nat → UInt8) (u : Ui) (p : Page) (b : OledBuff) :
    Option (OledBuff × List (List UInt8)) := do
  let x := oledScreenClear b
  let b ← viewPrintWidget fonts fuel junk (statedWidget (holdTexts behind (u.labels p))) x.1
  some (b, x.2 ++ oledScreenUpdate b)

/-! ## What a page says -/

/-- The labels of a page with their texts. -/
def Ui.texts (u : Ui) (p : Page) : List (WidgetId × List UInt8) :=
  (u.labels p).map fun l => (l.1, cstr l.2)

/-- Texts drawn one after the other, each alone in a memory of zeros. -/
def drawTexts (fonts : Fonts) : List (WidgetId × List UInt8) → OledBuff → Option OledBuff
  | [], b => some b
  | (w, text) :: ls, b => do
    let d ← wdgLableDraw fonts (fun _ => ⟨0, 0, 0⟩) (w.holding (textMem text fun _ => 0)) b
      widgetContentMaxsize
    drawTexts fonts ls d.buf

/-- The pixels of a label. -/
def WidgetId.Covers (w : WidgetId) (x y : Nat) : Prop :=
  (w.ulX.toNat ≤ x ∧ x ≤ w.drX.toNat) ∧ w.ulY.toNat ≤ y ∧ y ≤ w.drY.toNat

instance (w : WidgetId) (x y : Nat) : Decidable (w.Covers x y) :=
  inferInstanceAs (Decidable (_ ∧ _))

/-! ## The slots -/

theorem viewStateWidget_map (vs : List WidgetId) (k : Nat) (w : WidgetId) :
    viewStateWidget (vs.map some ++ List.replicate (k + 1) none) w =
      ((vs ++ [w]).map some ++ List.replicate k none, true) := by
  have hfind : (vs.map some ++ List.replicate (k + 1) none).findIdx? Option.isNone =
      some vs.length := by
    induction vs with
    | nil => rfl
    | cons v vs ih =>
      rw [List.map_cons, List.cons_append, List.findIdx?_cons, ih]
      rfl
  unfold viewStateWidget
  rw [hfind]
  simp [List.replicate_succ]

theorem statedWidget_eq (ws : List WidgetId) (h : ws.length ≤ maxWidgetPerView) :
    statedWidget ws = ws.map some ++ List.replicate (maxWidgetPerView - ws.length) none := by
  suffices hs : ∀ (vs : List WidgetId) (k : Nat), ws.length ≤ k →
      ws.foldl (fun view w => (viewStateWidget view w).1) (vs.map some ++ List.replicate k none) =
        (vs ++ ws).map some ++ List.replicate (k - ws.length) none from
    hs [] maxWidgetPerView h
  clear h
  induction ws with
  | nil => simp
  | cons w ws ih =>
    intro vs k hk
    obtain ⟨k, rfl⟩ := Nat.exists_eq_add_of_lt (Nat.lt_of_lt_of_le ws.length.lt_succ_self hk)
    have hle : ws.length ≤ ws.length + k := Nat.le_add_right _ _
    rw [List.foldl_cons, viewStateWidget_map, ih _ _ hle]
    simp

theorem viewPrintWidget_null (fonts : Fonts) (fuel : Nat) (junk : Nat → Nat → Column) (k : Nat)
    (b : OledBuff) : viewPrintWidget fonts fuel junk (List.replicate k none) b = some b := by
  induction k generalizing junk with
  | zero => rfl
  | succ k ih => exact ih fun i => junk (i + 1)

/-! ## A label -/

theorem contains_textMem (text rest : List UInt8) (behind : Nat → UInt8) :
    Contains (textMem (text ++ rest) behind) text := by
  intro i c hi
  have hlt : i < text.length := (List.getElem?_eq_some_iff.mp hi).1
  rw [textMem, List.getElem?_append_left hlt, hi]
  rfl

theorem contains_textMem_zero (text : List UInt8) :
    Contains (textMem text fun _ => 0) (text ++ [0]) := by
  intro i c hi
  rcases Nat.lt_or_ge i text.length with hlt | hge
  · rw [List.getElem?_append_left hlt] at hi
    rw [textMem, hi]
    rfl
  · rw [List.getElem?_append_right hge, List.getElem?_singleton] at hi
    split at hi
    · cases hi
      rw [textMem, List.getElem?_eq_none hge]
      rfl
    · cases hi

/-- A label draws the picture of its text, in its box. -/
theorem label_keeps (hw : w ∈ viewLabels fun _ => 0) (hbuf : Legible buf) (fonts : Fonts)
    (junk : Nat → Column) (behind : Nat → UInt8) (b b' : OledBuff) (hn : widgetContentMaxsize ≤ n) :
    ∃ d d', wdgLableDraw fonts (fun _ => ⟨0, 0, 0⟩) (w.holding (textMem (cstr buf) fun _ => 0)) b
        widgetContentMaxsize = some d ∧
      wdgLableDraw fonts junk (w.holding (textMem buf behind)) b' n = some d' ∧
      KeepsAgreement bit b b' d.buf d'.buf ∧ ChangesOnly bit (InBox w) b d.buf ∧
        ChangesOnly bit (InBox w) b' d'.buf := by
  obtain ⟨s, rest, ⟨cs, htwo, rfl⟩, rfl, hlen⟩ := hbuf.split
  obtain ⟨hscreen, hroom⟩ := viewLabels_fit hw
  have hfuel : cs.length < widgetContentMaxsize := by
    have hle := length_le_byteLen cs
    rw [length_textBytes] at hlen
    omega
  rw [cstr_terminated (noNul_textBytes cs)]
  have hmem := contains_textMem_zero (textBytes cs)
  have hmem' : Contains (textMem (textBytes cs ++ 0 :: rest) behind) (textBytes cs ++ [0]) := by
    rw [List.append_cons]
    exact contains_textMem _ rest behind
  have hfit : NoRoomBelow w (labelLines w false cs).length := hroom _ (Wrap.length_lines_le _ _)
  obtain ⟨d, d', hd, hd', hkeeps⟩ :=
    wdgLableDraw_keeps (w := w.holding (textMem (textBytes cs) fun _ => 0)) hscreen.holding htwo
      hmem hmem' hfit fonts (fun _ => ⟨0, 0, 0⟩) junk b b' hfuel (Nat.lt_of_lt_of_le hfuel hn)
  obtain ⟨d₁, hd₁, hchanges⟩ :=
    wdgLableDraw_changesOnly (w := w.holding (textMem (textBytes cs) fun _ => 0)) hscreen.holding
      htwo hmem hfit fonts (fun _ => ⟨0, 0, 0⟩) b hfuel
  obtain ⟨d₁', hd₁', hchanges'⟩ :=
    wdgLableDraw_changesOnly (w := w.holding _) hscreen.holding htwo hmem' hfit fonts junk b'
      (Nat.lt_of_lt_of_le hfuel hn)
  cases hd.symm.trans hd₁
  cases hd'.symm.trans hd₁'
  exact ⟨d, d', hd, hd', hkeeps, hchanges, hchanges'⟩

/-! ## A page -/

/-- Labels of the views whose texts can be drawn. -/
def Printable (ls : List (WidgetId × List UInt8)) : Prop :=
  ∀ l ∈ ls, (l.1 ∈ viewLabels fun _ => 0) ∧ Legible l.2

theorem Ui.AllLegible.printable (h : u.AllLegible) (p : Page) : Printable (u.labels p) := by
  rintro ⟨w, buf⟩ hl
  unfold Ui.labels at hl
  cases hp : p.viewType with
  | titleContent =>
    rw [hp] at hl
    obtain ⟨hw, hbuf⟩ := List.of_mem_zip hl
    refine ⟨List.mem_append_left _ (List.mem_append_left _ hw), ?_⟩
    have hpage := h.titleContent p
    simp only [List.mem_cons, List.not_mem_nil, or_false] at hbuf
    rcases hbuf with rfl | rfl
    · exact hpage.tcTitle
    · exact hpage.tcContent
  | inptPage =>
    rw [hp] at hl
    obtain ⟨hw, hbuf⟩ := List.of_mem_zip hl
    refine ⟨List.mem_append_left _ (List.mem_append_right _ hw), ?_⟩
    have hpage := h.inputPage p
    simp only [List.mem_cons, List.not_mem_nil, or_false] at hbuf
    rcases hbuf with rfl | rfl | rfl
    · exact hpage.ipgTitle
    · exact hpage.ipgInptContent
    · exact hpage.ipgTips
  | list =>
    rw [hp] at hl
    obtain ⟨hw, hbuf⟩ := List.of_mem_zip hl
    refine ⟨List.mem_append_right _ hw, ?_⟩
    have hpage := h.viewList p
    simp only [List.mem_cons, List.not_mem_nil, or_false] at hbuf
    rcases hbuf with rfl | rfl | rfl | rfl
    · exact hpage.listTitle
    · exact hpage.rowPrev
    · exact hpage.rowSelect
    · exact hpage.rowNext

/-- Pictures of the same texts, from screens that agree, agree. -/
theorem viewPrintWidget_keeps {ls : List (WidgetId × List UInt8)} (hls : Printable ls)
    (fonts : Fonts) (junk : Nat → Nat → Column) (behind : Nat → Nat → UInt8) (b b' : OledBuff)
    (k : Nat) (hn : widgetContentMaxsize ≤ n) :
    ∃ d d', drawTexts fonts (ls.map fun l => (l.1, cstr l.2)) b = some d ∧
      viewPrintWidget fonts n junk ((holdTexts behind ls).map some ++ List.replicate k none) b' =
        some d' ∧
      KeepsAgreement bit b b' d d' ∧ ChangesOnly bit (fun q => ∃ l ∈ ls, InBox l.1 q) b d := by
  induction ls generalizing junk behind b b' with
  | nil => exact ⟨b, b', rfl, viewPrintWidget_null fonts n junk k b', .refl b b', .refl b⟩
  | cons l ls ih =>
    obtain ⟨⟨hw, hbuf⟩, hrest⟩ := List.forall_mem_cons.mp hls
    obtain ⟨w, buf⟩ := l
    obtain ⟨d₁, d₁', hd₁, hd₁', hkeeps₁, hchanges₁, -⟩ :=
      label_keeps hw hbuf fonts (junk 0) (behind 0) b b' hn
    obtain ⟨d, d', hd, hd', hkeeps, hchanges⟩ :=
      ih hrest (fun i => junk (i + 1)) (fun i => behind (i + 1)) d₁.buf d₁'.buf
    refine ⟨d, d', ?_, ?_, hkeeps₁.trans hkeeps, ?_⟩
    · rw [List.map_cons, drawTexts, hd₁]
      exact hd
    · rw [holdTexts, List.map_cons, List.cons_append, viewPrintWidget, hd₁']
      exact hd'
    · exact (hchanges₁.mono fun q hq => ⟨_, List.mem_cons_self, hq⟩).trans
        (hchanges.mono fun q ⟨l, hl, hq⟩ => ⟨l, List.mem_cons_of_mem _ hl, hq⟩)

theorem Ui.length_labels_le (u : Ui) (p : Page) : (u.labels p).length ≤ maxWidgetPerView := by
  unfold Ui.labels
  cases p.viewType <;> exact Nat.le_of_ble_eq_true rfl

theorem length_holdTexts (behind : Nat → Nat → UInt8) (ls : List (WidgetId × List UInt8)) :
    (holdTexts behind ls).length = ls.length := by
  induction ls generalizing behind with
  | nil => rfl
  | cons l ls ih => exact congrArg (· + 1) (ih fun i => behind (i + 1))

/-- The pixels of a box are on the screen. -/
theorem inBox_pixelAt {x y : Nat} (hw : w ∈ viewLabels fun _ => 0) (hy : y < 64)
    (h : InBox w (pixelAt x y)) : w.Covers x y := by
  obtain ⟨x', y', hx', hy', hp⟩ := h
  have hdrY := (viewLabels_fit hw).1.drY_le
  unfold pixelAt at hp
  unfold WidgetId.Covers
  omega

/-- After `oled_screen_clear` every pixel is dark. -/
theorem pixel_oledScreenClear (b : OledBuff) {x y : Nat} (hx : x < 128) (hy : y < 64) :
    (oledScreenClear b).1.pixel x y = false := by
  have hlt : 8 * x + y / 8 < 128 * 8 := by omega
  rw [oledBuff_pixel, oledScreenClear]
  dsimp only
  rw [if_pos hlt]
  exact BitVec.getLsbD_zero

/-- Printing a page, in a UI whose texts can be drawn. -/
theorem activityPrintOled_shows (h : u.AllLegible) (fonts : Fonts) (p : Page) :
    ∃ picture, drawTexts fonts (u.texts p) (fun _ => 0) = some picture ∧
      (∀ x y, y < 64 → (∀ l ∈ u.texts p, ¬l.1.Covers x y) → picture.pixel x y = false) ∧
      ∀ fuel junk behind b, widgetContentMaxsize ≤ fuel → ∃ b' sent,
        activityPrintOled fonts fuel junk behind u p b = some (b', sent) ∧
        ∀ x y, x < 128 → y < 64 → b'.pixel x y = picture.pixel x y ∧
          ∀ panel, panelPixel (sent.foldl Panel.receive panel) x y = picture.pixel x y := by
  have hls := h.printable p
  obtain ⟨picture, -, hpic, -, -, hchanges⟩ := viewPrintWidget_keeps hls fonts
    (fun _ _ => ⟨0, 0, 0⟩) (fun _ _ => 0) (fun _ => 0) (fun _ => 0) 0 (Nat.le_refl _)
  refine ⟨picture, hpic, fun x y hy hout => ?_, fun fuel junk behind b hfuel => ?_⟩
  · have hdark : bit (fun _ => 0) (pixelAt x y) = false := BitVec.getLsbD_zero
    refine (hchanges _ fun ⟨l, hl, hbox⟩ => ?_).trans hdark
    exact hout (l.1, cstr l.2) (List.mem_map_of_mem hl) (inBox_pixelAt (hls l hl).1 hy hbox)
  · have hlen : (holdTexts behind (u.labels p)).length ≤ maxWidgetPerView :=
      (length_holdTexts _ _).trans_le (u.length_labels_le p)
    obtain ⟨d, d', hd, hd', hkeeps, -⟩ := viewPrintWidget_keeps hls fonts junk behind
      (fun _ => 0) (oledScreenClear b).1 (maxWidgetPerView - (holdTexts behind (u.labels p)).length)
      hfuel
    cases hpic.symm.trans hd
    rw [← statedWidget_eq _ hlen] at hd'
    refine ⟨d', (oledScreenClear b).2 ++ oledScreenUpdate d', ?_, fun x y hx hy => ?_⟩
    · rw [activityPrintOled, hd']
      rfl
    · have hdark : bit (fun _ => 0) (pixelAt x y) = (oledScreenClear b).1.pixel x y := by
        rw [pixel_oledScreenClear b hx hy]
        exact BitVec.getLsbD_zero
      have hpixel : d'.pixel x y = picture.pixel x y := (hkeeps _ hdark).symm
      refine ⟨hpixel, fun panel => ?_⟩
      rw [List.foldl_append, update_shows d' _ hx hy, hpixel]

/-- In every state of every run every page can be printed, and the panel then shows the picture of
its texts: whatever lies behind the texts in memory, whatever `column_start_end`, the frame buffer
and the panel held before. Outside of the labels the picture is dark. -/
theorem activityPrint_shows_texts {kv : Kvdb} {tr : List (Label World Action)} {v : World}
    (h : RunFrom env kv tr v) (fonts : Fonts) (p : Page) :
    ∃ picture, drawTexts fonts (v.ui.texts p) (fun _ => 0) = some picture ∧
      (∀ x y, y < 64 → (∀ l ∈ v.ui.texts p, ¬l.1.Covers x y) → picture.pixel x y = false) ∧
      ∀ fuel junk behind b, widgetContentMaxsize ≤ fuel → ∃ b' sent,
        activityPrintOled fonts fuel junk behind v.ui p b = some (b', sent) ∧
        ∀ x y, x < 128 → y < 64 → ∀ panel,
          panelPixel (sent.foldl Panel.receive panel) x y = picture.pixel x y := by
  obtain ⟨picture, hpic, hdark, hprints⟩ := activityPrintOled_shows (legible_run h) fonts p
  refine ⟨picture, hpic, hdark, fun fuel junk behind b hfuel => ?_⟩
  obtain ⟨b', sent, hprint, hpixel⟩ := hprints fuel junk behind b hfuel
  exact ⟨b', sent, hprint, fun x y hx hy => (hpixel x y hx hy).2⟩

/-- The password page after one key, printed on a panel that is lit; a pixel beside the text box
is dark. -/
theorem activityPrint_shows_texts_one :
    ((after (step quietEnv) (boot defaultKvdb) (press [.k1])).ui.texts .pswAuth).map Prod.snd =
        [lit "Password:", lit "1", lit "[#] to Confirm:"] ∧
      ∃ picture : OledBuff, picture.pixel 0 30 = false ∧ ∃ b' sent,
        activityPrintOled blankFonts widgetContentMaxsize (fun _ _ => ⟨0, 0, 0⟩) (fun _ _ => 0)
          (after (step quietEnv) (boot defaultKvdb) (press [.k1])).ui .pswAuth (fun _ => 0) =
          some (b', sent) ∧
        ∀ x y, x < 128 → y < 64 →
          panelPixel (sent.foldl Panel.receive ⟨0, 0, fun _ _ => 0xFF⟩) x y =
            picture.pixel x y := by
  have hrun : RunFrom quietEnv defaultKvdb _ _ := Run.of_isOk (press [.k1]) (by decide +kernel)
  obtain ⟨picture, -, hdark, hprints⟩ := activityPrint_shows_texts hrun blankFonts .pswAuth
  obtain ⟨b', sent, hprint, hpixel⟩ := hprints widgetContentMaxsize (fun _ _ => ⟨0, 0, 0⟩)
    (fun _ _ => 0) (fun _ => 0) (Nat.le_refl _)
  exact ⟨by decide +kernel, picture, hdark 0 30 (by decide) (by decide +kernel), b', sent, hprint,
    fun x y hx hy => hpixel x y hx hy _⟩

end DoorLock
