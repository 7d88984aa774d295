import DoorLock.Screen

/-!
# The input box printed again (`app.c`)

A character that is typed on an input page makes the UI task draw the label of the text alone, over
what the frame buffer holds. The panel shows the whole page with its new text all the same: the
label fills its box before it draws, and the boxes of the page do not overlap.
-/

namespace DoorLock

open CString Raster Transition

variable {fonts : Fonts} {b b' d d' picture : OledBuff} {u : Ui} {p : Page} {env : Env}
variable {w : WidgetId} {buf buf' : List UInt8} {n : Nat}
variable {ls ls₁ ls₂ : List (WidgetId × List UInt8)}

/-- The label that `ipg_inpt_wdg_id` points to, with its text in memory. -/
def ipgInptWdgId (buf : List UInt8) (behind : Nat → UInt8) : WidgetId :=
  wdgLable 20 18 107 45 24 .midMid false true false (textMem buf behind)

/-- `wdg_lable_draw(ipg_inpt_wdg_id)` and `oled_screen_update()`. -/
def reprintInpt (fonts : Fonts) (fuel : Nat) (junk : Nat → Column) (behind : Nat → UInt8) (u : Ui)
    (p : Page) (b : OledBuff) : Option (OledBuff × List (List UInt8)) := do
  let d ← wdgLableDraw fonts junk (ipgInptWdgId (u.inputPage p).ipgInptContent behind) b fuel
  some (d.buf, oledScreenUpdate d.buf)

/-- The UI task handles the message of a character while the input page `p` is on top. -/
structure TypedKey (env : Env) (u : Ui) (p : Page) (m : EventMsg) (content : UInt16) (u' : Ui)
    (outs : List Out) : Prop where
  peek : u.peek = some p
  inptPage : p.viewType = .inptPage
  key : m.IsKey content
  char : content ≠ keyHash ∧ 0x20 < content ∧ content < 0x80
  handled : uiEventHandler env u m = .ok (u', outs)

/-- The frame buffer and the last transmission after a page was printed in a state of a run and any
number of characters were typed on it. -/
inductive Painted (fonts : Fonts) (env : Env) (kv : Kvdb) (p : Page) :
    Ui → OledBuff → List (List UInt8) → Prop
  | print {tr : List (Label World Action)} {v : World} {fuel : Nat} {junk : Nat → Nat → Column}
      {behind : Nat → Nat → UInt8} {b b' : OledBuff} {sent : List (List UInt8)}
      (h : RunFrom env kv tr v) (hfuel : widgetContentMaxsize ≤ fuel)
      (hprint : activityPrintOled fonts fuel junk behind v.ui p b = some (b', sent)) :
      Painted fonts env kv p v.ui b' sent
  | key {u u' : Ui} {m : EventMsg} {content : UInt16} {outs : List Out} {fuel : Nat}
      {junk : Nat → Column} {behind : Nat → UInt8} {b b' : OledBuff}
      {sent sent' : List (List UInt8)}
      (h : Painted fonts env kv p u b sent) (hkey : TypedKey env u p m content u' outs)
      (hfuel : widgetContentMaxsize ≤ fuel)
      (hreprint : reprintInpt fonts fuel junk behind u' p b = some (b', sent')) :
      Painted fonts env kv p u' b' sent'

/-! ## A label over another picture -/

/-- The background is filled once. -/
theorem wdgLableDraw_background (hw : OnScreen w) (hbg : w.style.bgClr = true) (fonts : Fonts)
    (junk : Nat → Column) (b : OledBuff) (n : Nat) :
    wdgLableDraw fonts junk w
        (oledDrawRect b w.ulX.toUInt8 w.ulY.toUInt8 w.drX.toUInt8 w.drY.toUInt8 1 0) n =
      wdgLableDraw fonts junk w b n := by
  have honce := background_paints hw b
  have htwice := (honce.trans (background_paints hw _)).congr fun q => or_self_iff
  have heq := bit_injective (htwice.px_eq honce)
  unfold wdgLableDraw
  rw [if_pos hbg, if_pos hbg, heq]

/-- A label with a background draws the same picture in its box over any other. -/
theorem label_redraws (hw : w ∈ viewLabels fun _ => 0) (hbg : w.style.bgClr = true)
    (hbuf : Legible buf) (fonts : Fonts) (junk : Nat → Column) (behind : Nat → UInt8)
    (b b' : OledBuff) (hn : widgetContentMaxsize ≤ n) :
    ∃ d d', wdgLableDraw fonts (fun _ => ⟨0, 0, 0⟩) (w.holding (textMem (cstr buf) fun _ => 0)) b
        widgetContentMaxsize = some d ∧
      wdgLableDraw fonts junk (w.holding (textMem buf behind)) b' n = some d' ∧
      ∀ q, InBox w q → bit d.buf q = bit d'.buf q := by
  have hscreen := (viewLabels_fit hw).1
  obtain ⟨d, d', hd, hd', hkeeps, -⟩ := label_keeps hw hbuf fonts junk behind
    (oledDrawRect b w.ulX.toUInt8 w.ulY.toUInt8 w.drX.toUInt8 w.drY.toUInt8 1 0)
    (oledDrawRect b' w.ulX.toUInt8 w.ulY.toUInt8 w.drX.toUInt8 w.drY.toUInt8 1 0) hn
  refine ⟨d, d', ?_, ?_, fun q hq => hkeeps q ?_⟩
  · have heq := wdgLableDraw_background (w := w.holding (textMem (cstr buf) fun _ => 0))
      hscreen.holding hbg fonts (fun _ => ⟨0, 0, 0⟩) b widgetContentMaxsize
    exact heq.symm.trans hd
  · have heq := wdgLableDraw_background (w := w.holding (textMem buf behind)) hscreen.holding hbg
      fonts junk b' n
    exact heq.symm.trans hd'
  · rw [((background_paints hscreen b) q).1 hq, ((background_paints hscreen b') q).1 hq]

/-! ## One text of a page changed -/

theorem drawTexts_append (fonts : Fonts) (ls₁ ls₂ : List (WidgetId × List UInt8)) (b : OledBuff) :
    drawTexts fonts (ls₁ ++ ls₂) b = (drawTexts fonts ls₁ b).bind (drawTexts fonts ls₂) := by
  induction ls₁ generalizing b with
  | nil => rfl
  | cons l ls₁ ih =>
    obtain ⟨w, text⟩ := l
    rw [List.cons_append, drawTexts, drawTexts]
    cases wdgLableDraw fonts (fun _ => ⟨0, 0, 0⟩) (w.holding (textMem text fun _ => 0)) b
      widgetContentMaxsize with
    | none => rfl
    | some d => exact ih d.buf

theorem drawTexts_keeps (hls : Printable ls) (fonts : Fonts) (b b' : OledBuff) :
    ∃ d d', drawTexts fonts (ls.map fun l => (l.1, cstr l.2)) b = some d ∧
      drawTexts fonts (ls.map fun l => (l.1, cstr l.2)) b' = some d' ∧
      KeepsAgreement bit b b' d d' ∧ ChangesOnly bit (fun q => ∃ l ∈ ls, InBox l.1 q) b d ∧
      ChangesOnly bit (fun q => ∃ l ∈ ls, InBox l.1 q) b' d' := by
  -- both are compared with one print of the labels over `b'`
  have hprint (b : OledBuff) := viewPrintWidget_keeps hls fonts (fun _ _ => ⟨0, 0, 0⟩)
    (fun _ _ => 0) b b' 0 (Nat.le_refl _)
  obtain ⟨d, e, hd, he, hkeeps, hchanges⟩ := hprint b
  obtain ⟨d', e', hd', he', hkeeps', hchanges'⟩ := hprint b'
  cases he.symm.trans he'
  exact ⟨d, d', hd, hd', fun q hq => (hkeeps q hq).trans (hkeeps' q rfl).symm, hchanges, hchanges'⟩

/-- Drawing the new text over the picture of the page gives the picture with the new text. -/
theorem redraw_shows (hls : Printable (ls₁ ++ (w, buf) :: ls₂)) (hbg : w.style.bgClr = true)
    (hdisjoint : ∀ l ∈ ls₂, ∀ q, InBox w q → ¬InBox l.1 q) (hbuf' : Legible buf') (fonts : Fonts)
    (hpic : drawTexts fonts ((ls₁ ++ (w, buf) :: ls₂).map fun l => (l.1, cstr l.2)) (fun _ => 0) =
      some picture) :
    ∃ picture', drawTexts fonts ((ls₁ ++ (w, buf') :: ls₂).map fun l => (l.1, cstr l.2))
        (fun _ => 0) = some picture' ∧
      ∀ junk behind b n, widgetContentMaxsize ≤ n → ∃ d,
        wdgLableDraw fonts junk (w.holding (textMem buf' behind)) b n = some d ∧
        ∀ q, bit b q = bit picture q → bit d.buf q = bit picture' q := by
  obtain ⟨hls₁, hrest⟩ := List.forall_mem_append.mp hls
  obtain ⟨⟨hw, hbuf⟩, hls₂⟩ := List.forall_mem_cons.mp hrest
  obtain ⟨t, -, ht, -⟩ := drawTexts_keeps hls₁ fonts (fun _ => 0) (fun _ => 0)
  obtain ⟨e, -, he, -, -, heOnly, -⟩ := label_keeps (n := widgetContentMaxsize) hw hbuf fonts
    (fun _ => ⟨0, 0, 0⟩) (fun _ => 0) t t (Nat.le_refl _)
  obtain ⟨e', -, he', -, -, heOnly', -⟩ := label_keeps (n := widgetContentMaxsize) hw hbuf' fonts
    (fun _ => ⟨0, 0, 0⟩) (fun _ => 0) t t (Nat.le_refl _)
  obtain ⟨f, f', hf, hf', hkeeps, -, hchanges'⟩ := drawTexts_keeps hls₂ fonts e.buf e'.buf
  have hdraw {buf : List UInt8} {e : Drawn} {f : OledBuff}
      (he : wdgLableDraw fonts (fun _ => ⟨0, 0, 0⟩) (w.holding (textMem (cstr buf) fun _ => 0)) t
        widgetContentMaxsize = some e)
      (hf : drawTexts fonts (ls₂.map fun l => (l.1, cstr l.2)) e.buf = some f) :
      drawTexts fonts ((ls₁ ++ (w, buf) :: ls₂).map fun l => (l.1, cstr l.2)) (fun _ => 0) =
        some f := by
    rw [List.map_append, drawTexts_append, ht, List.map_cons, Option.bind_some, drawTexts, he]
    exact hf
  cases hpic.symm.trans (hdraw he hf)
  refine ⟨f', hdraw he' hf', fun junk behind b n hn => ?_⟩
  obtain ⟨_, d, -, hd, -, -, hdOnly⟩ := label_keeps hw hbuf' fonts junk behind b b hn
  obtain ⟨e₁, d₁, he₁, hd₁, hbox⟩ := label_redraws hw hbg hbuf' fonts junk behind t b hn
  cases he'.symm.trans he₁
  cases hd.symm.trans hd₁
  refine ⟨d, hd, fun q hq => ?_⟩
  by_cases hin : InBox w q
  · -- the labels after it do not touch the box
    have hout : ¬∃ l ∈ ls₂, InBox l.1 q := by
      rintro ⟨l, hl, hql⟩
      exact hdisjoint l hl q hin hql
    rw [hchanges' q hout, hbox q hin]
  · have hbefore : bit e.buf q = bit e'.buf q := (heOnly q hin).trans (heOnly' q hin).symm
    rw [hdOnly q hin, hq, hkeeps q hbefore]

/-! ## The input pages -/

theorem Ui.labels_inptPage (u : Ui) (hp : p.viewType = .inptPage) :
    u.labels p = [(wdgLable 0 0 127 16 16 .topMid true false false fun _ => 0,
        (u.inputPage p).ipgTitle)] ++
      (wdgLable 20 18 107 45 24 .midMid false true false fun _ => 0,
        (u.inputPage p).ipgInptContent) ::
      [(wdgLable 0 46 127 63 16 .topLeft true false false fun _ => 0,
        (u.inputPage p).ipgTips)] := by
  unfold Ui.labels
  rw [hp]
  rfl

/-- The box of the text ends above the box of the tips. -/
theorem inptBox_disjoint {q : Nat}
    (h : InBox (wdgLable 20 18 107 45 24 .midMid false true false fun _ => 0) q) :
    ¬InBox (wdgLable 0 46 127 63 16 .topLeft true false false fun _ => 0) q := by
  obtain ⟨x, y, hx, hy, rfl⟩ := h
  rintro ⟨x', y', hx', hy', hp⟩
  have hy45 : y < 46 := hy.2
  have hy46 : 46 ≤ y' := hy'.1
  have hy63 : y' < 64 := hy'.2
  unfold pixelAt at hp
  omega

theorem TypedKey.eq {m : EventMsg} {content : UInt16} {u' : Ui} {outs : List Out}
    (h : TypedKey env u p m content u' outs) : u' = typed u p content := by
  obtain ⟨-, outs', hchar⟩ := uiEventHandler_char h.key h.char.2.2 h.handled
  rcases uiChar_typed m.addr h.char.1 hchar with ⟨hhome, -⟩ | ⟨-, q, hq, hu⟩
  · cases h.peek.symm.trans hhome
    cases h.inptPage
  · cases h.peek.symm.trans hq
    exact hu.trans (if_pos ⟨h.inptPage, h.char.2⟩)

/-- A character typed on a page that is shown. -/
theorem reprintInpt_shows {content : UInt16} (h : u.AllLegible) (hp : p.viewType = .inptPage)
    (hlo : 0x20 < content) (hhi : content < 0x80)
    (hpic : drawTexts fonts (u.texts p) (fun _ => 0) = some picture) :
    ∃ picture', drawTexts fonts ((typed u p content).texts p) (fun _ => 0) = some picture' ∧
      ∀ fuel junk behind b, widgetContentMaxsize ≤ fuel → ∃ b',
        reprintInpt fonts fuel junk behind (typed u p content) p b =
          some (b', oledScreenUpdate b') ∧
        ∀ x y, b.pixel x y = picture.pixel x y → b'.pixel x y = picture'.pixel x y := by
  have h' := h.typed p hlo hhi
  have hls := h.printable p
  have htitle : ((typed u p content).inputPage p).ipgTitle = (u.inputPage p).ipgTitle := by
    simp [typed, Ui.setInputPage]
  have htips : ((typed u p content).inputPage p).ipgTips = (u.inputPage p).ipgTips := by
    simp [typed, Ui.setInputPage]
  unfold Ui.texts at hpic ⊢
  rw [u.labels_inptPage hp] at hls hpic
  rw [(typed u p content).labels_inptPage hp, htitle, htips]
  obtain ⟨picture', hpic', hredraw⟩ := redraw_shows hls rfl
    (List.forall_mem_singleton.mpr fun q hq => inptBox_disjoint hq) (h'.inputPage p).ipgInptContent
    fonts hpic
  refine ⟨picture', hpic', fun fuel junk behind b hfuel => ?_⟩
  obtain ⟨d, hd, hpixel⟩ := hredraw junk behind b fuel hfuel
  have hdraw : wdgLableDraw fonts junk
      (ipgInptWdgId ((typed u p content).inputPage p).ipgInptContent behind) b fuel = some d := hd
  refine ⟨d.buf, ?_, fun x y hxy => hpixel _ hxy⟩
  rw [reprintInpt, hdraw]
  rfl

/-- What is known of the frame buffer while characters are typed. -/
structure Painted.Shows (fonts : Fonts) (u : Ui) (p : Page) (b : OledBuff)
    (sent : List (List UInt8)) (picture : OledBuff) : Prop where
  legible : u.AllLegible
  texts : drawTexts fonts (u.texts p) (fun _ => 0) = some picture
  pixel : ∀ x y, x < 128 → y < 64 → b.pixel x y = picture.pixel x y
  panel : ∀ x y, x < 128 → y < 64 → ∀ panel,
    panelPixel (sent.foldl Panel.receive panel) x y = picture.pixel x y

theorem Painted.shows {kv : Kvdb} {sent : List (List UInt8)}
    (h : Painted fonts env kv p u b sent) : ∃ picture, Painted.Shows fonts u p b sent picture := by
  induction h with
  | print h hfuel hprint =>
    have hlegible := legible_run h
    obtain ⟨picture, hpic, -, hprints⟩ := activityPrintOled_shows hlegible fonts p
    obtain ⟨b₁, sent₁, hprint₁, hpixel⟩ := hprints _ _ _ _ hfuel
    cases hprint.symm.trans hprint₁
    exact ⟨picture, hlegible, hpic, fun x y hx hy => (hpixel x y hx hy).1,
      fun x y hx hy => (hpixel x y hx hy).2⟩
  | key h hkey hfuel hreprint ih =>
    obtain ⟨picture, hshows⟩ := ih
    obtain ⟨-, hlo, hhi⟩ := hkey.char
    obtain ⟨picture', hpic', hreprints⟩ :=
      reprintInpt_shows hshows.legible hkey.inptPage hlo hhi hshows.texts
    obtain rfl := hkey.eq
    obtain ⟨b₁, hreprint₁, hpixel⟩ := hreprints _ _ _ _ hfuel
    cases hreprint.symm.trans hreprint₁
    have hpixel' x y (hx : x < 128) (hy : y < 64) := hpixel x y (hshows.pixel x y hx hy)
    exact ⟨picture', hshows.legible.typed p hlo hhi, hpic', hpixel',
      fun x y hx hy panel => (update_shows _ panel hx hy).trans (hpixel' x y hx hy)⟩

/-- While characters are typed on a page that was printed in a state of a run, the panel shows the
texts of the page, the new one too; and the next character can be shown as well. -/
theorem typed_page_shown {kv : Kvdb} {sent : List (List UInt8)}
    (h : Painted fonts env kv p u b sent) :
    ∃ picture, drawTexts fonts (u.texts p) (fun _ => 0) = some picture ∧
      (∀ x y, x < 128 → y < 64 → ∀ panel,
        panelPixel (sent.foldl Panel.receive panel) x y = picture.pixel x y) ∧
      ∀ m content u' outs, TypedKey env u p m content u' outs →
        ∀ fuel junk behind, widgetContentMaxsize ≤ fuel → ∃ b' sent',
          reprintInpt fonts fuel junk behind u' p b = some (b', sent') ∧
          Painted fonts env kv p u' b' sent' := by
  obtain ⟨picture, hshows⟩ := h.shows
  refine ⟨picture, hshows.texts, hshows.panel, ?_⟩
  intro m content u' outs hkey fuel junk behind hfuel
  obtain ⟨_, -, hreprints⟩ :=
    reprintInpt_shows hshows.legible hkey.inptPage hkey.char.2.1 hkey.char.2.2 hshows.texts
  obtain ⟨b', hreprint, -⟩ := hreprints fuel junk behind b hfuel
  rw [← hkey.eq] at hreprint
  exact ⟨b', _, hreprint, .key h hkey hfuel hreprint⟩

/-- The message of the key 2. -/
def keyTwo : EventMsg := ⟨.hwInpt, .servUi, .inptEvent, 0, .inptEvent ⟨0x32⟩⟩

/-- The password page printed after one key, and the next one typed. -/
theorem typed_page_shown_two : ∃ u' outs b' sent' picture,
    TypedKey quietEnv (after (step quietEnv) (boot defaultKvdb) (press [.k1])).ui .pswAuth keyTwo
      0x32 u' outs ∧
    (u'.texts .pswAuth).map Prod.snd = [lit "Password:", lit "12", lit "[#] to Confirm:"] ∧
    Painted blankFonts quietEnv defaultKvdb .pswAuth u' b' sent' ∧
    drawTexts blankFonts (u'.texts .pswAuth) (fun _ => 0) = some picture ∧
    ∀ x y, x < 128 → y < 64 →
      panelPixel (sent'.foldl Panel.receive ⟨0, 0, fun _ _ => 0xFF⟩) x y = picture.pixel x y := by
  have hrun : RunFrom quietEnv defaultKvdb _ _ := Run.of_isOk (press [.k1]) (by decide +kernel)
  obtain ⟨_, -, -, hprints⟩ := activityPrintOled_shows (legible_run hrun) blankFonts .pswAuth
  obtain ⟨b, sent, hprint, -⟩ := hprints widgetContentMaxsize (fun _ _ => ⟨0, 0, 0⟩)
    (fun _ _ => 0) (fun _ => 0) (Nat.le_refl _)
  have hpainted := Painted.print hrun (Nat.le_refl _) hprint
  obtain ⟨⟨u', outs⟩, hhandled⟩ : ∃ x, uiEventHandler quietEnv
      (after (step quietEnv) (boot defaultKvdb) (press [.k1])).ui keyTwo = .ok x :=
    exists_ok (by decide +kernel)
  have hkey : TypedKey quietEnv _ .pswAuth keyTwo 0x32 u' outs :=
    ⟨by decide +kernel, rfl, ⟨rfl, rfl⟩, by decide, hhandled⟩
  obtain ⟨_, -, -, hnext⟩ := typed_page_shown hpainted
  obtain ⟨b', sent', -, hpainted'⟩ := hnext keyTwo 0x32 u' outs hkey widgetContentMaxsize
    (fun _ => ⟨0, 0, 0⟩) (fun _ => 0) (Nat.le_refl _)
  obtain ⟨picture, hpic, hpanel, -⟩ := typed_page_shown hpainted'
  refine ⟨u', outs, b', sent', picture, hkey, ?_, hpainted', hpic,
    fun x y hx hy => hpanel x y hx hy _⟩
  rw [hkey.eq]
  decide +kernel

end DoorLock
