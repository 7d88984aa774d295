import DoorLock.LabelDraw
import DoorLock.LabelRows
import DoorLock.Lib.Fuel

/-!
# Where drawing a label ends (`widget.c`)

The layout loop does not move on at a first byte it does not know, and steps over the terminator at
a character that is cut off. The loop that draws the rows follows the pointers of whatever rows it
reads. Apart from that both loops end and stay in the text.
-/

namespace DoorLock

/-- Bytes a text can go on with behind the characters that are known: none, a first byte that is
not known, or a character that is cut off. -/
def TailBytes : List UInt8 → Prop
  | [] => True
  | a :: r => ¬a < 0x80 ∧ (0xC0 ≤ a ∧ a < 0xD0 → r.length < 1) ∧
      (0xE0 ≤ a ∧ a < 0xF0 → r.length < 2)

theorem not_ascii_of_scan {a : UInt8} {r : List UInt8} (hnul : CString.NoNul (a :: r))
    (h : ¬(a ≠ 0 ∧ a < 0x80)) : ¬a < 0x80 :=
  fun hlt => h ⟨hnul a List.mem_cons_self, hlt⟩

theorem noNul_tail {a : UInt8} {r : List UInt8} (h : CString.NoNul (a :: r)) : CString.NoNul r :=
  fun b hb => h b (List.mem_cons_of_mem a hb)

/-- A text is the characters `scan` finds and what they leave. -/
theorem scan_spec (bs : List UInt8) (hnul : CString.NoNul bs) :
    bs = textBytes (scan bs).1 ++ (scan bs).2 ∧ TailBytes (scan bs).2 := by
  induction bs using scan.induct with
  | case1 => exact ⟨rfl, trivial⟩
  | case2 a r h ih =>
    obtain ⟨hbytes, htail⟩ := ih (noNul_tail hnul)
    rw [scan.eq_def]
    dsimp only
    rw [dif_pos h]
    exact ⟨congrArg (a :: ·) hbytes, htail⟩
  | case3 a h =>
    rw [scan.eq_def]
    dsimp only
    rw [dif_neg h]
    exact ⟨rfl, not_ascii_of_scan hnul h, fun _ => Nat.zero_lt_one, fun _ => Nat.zero_lt_two⟩
  | case4 a h b r h' ih =>
    obtain ⟨hbytes, htail⟩ := ih (noNul_tail (noNul_tail hnul))
    rw [scan.eq_def]
    dsimp only
    rw [dif_neg h, dif_pos h']
    exact ⟨congrArg (a :: b :: ·) hbytes, htail⟩
  | case5 a h b h' =>
    have hb : b ≠ 0 := noNul_tail hnul b List.mem_cons_self
    rw [scan.eq_def]
    dsimp only
    rw [dif_neg h, dif_neg h']
    exact ⟨rfl, not_ascii_of_scan hnul h, fun ha => absurd ⟨ha, hb⟩ h', fun _ => Nat.one_lt_two⟩
  | case6 a h b h' c r h'' ih =>
    obtain ⟨hbytes, htail⟩ := ih (noNul_tail (noNul_tail (noNul_tail hnul)))
    rw [scan.eq_def]
    dsimp only
    rw [dif_neg h, dif_neg h', dif_pos h'']
    exact ⟨congrArg (a :: b :: c :: ·) hbytes, htail⟩
  | case7 a h b h' c r h'' =>
    have hb : b ≠ 0 := noNul_tail hnul b List.mem_cons_self
    have hc : c ≠ 0 := noNul_tail (noNul_tail hnul) c List.mem_cons_self
    rw [scan.eq_def]
    dsimp only
    rw [dif_neg h, dif_neg h', dif_neg h'']
    exact ⟨rfl, not_ascii_of_scan hnul h, fun ha => absurd ⟨ha, hb⟩ h',
      fun ha => absurd ⟨ha, hb, hc⟩ h''⟩

variable {mem : Nat → UInt8} {w : WidgetId} {f fx fy p e n : Nat} {cs : List Chr}
variable {s s' : RowState} {l l' : LayoutState}

/-! ## The layout loop gets past the text -/

theorem rowBody_highest (s : RowState) : (rowBody mem f s).highest = s.highest := by
  unfold rowBody
  dsimp only
  split_ifs <;> rfl

/-- What the loop over the characters of a row has read, and that more fuel does not change it. -/
theorem rowLoop_highest (h : rowLoop mem f fx n s = some s') :
    max s.highest s.strPtr ≤ s'.highest := by
  induction n generalizing s with
  | zero => cases h
  | succ n ih =>
    rw [rowLoop] at h
    split at h
    case isTrue =>
      have hle := ih h
      rw [rowBody_highest] at hle
      exact (Nat.le_max_left _ _).trans hle
    case isFalse =>
      cases h
      exact Nat.le_refl _

theorem rowLoop_succ (h : rowLoop mem f fx n s = some s') :
    rowLoop mem f fx (n + 1) s = some s' := by
  induction n generalizing s with
  | zero => cases h
  | succ n ih =>
    rw [rowLoop] at h ⊢
    split at h
    case isTrue hcond => rw [if_pos hcond, ih h]
    case isFalse hcond => rw [if_neg hcond, h]

theorem layoutLoop_highest {fuel : Nat} (h : layoutLoop mem f fx fy fuel n l = some l') :
    l.highest ≤ l'.highest := by
  induction n generalizing l with
  | zero =>
    cases h
    exact Nat.le_refl _
  | succ n ih =>
    rw [layoutLoop] at h
    split at h
    case isTrue =>
      obtain ⟨r, hr, h⟩ := Option.bind_eq_some_iff.mp h
      have hrow := rowLoop_highest hr
      have hrest := ih h
      dsimp only at hrow hrest
      omega
    case isFalse =>
      cases h
      exact Nat.le_max_left _ _

theorem layoutLoop_succ {fuel : Nat} (h : layoutLoop mem f fx fy fuel n l = some l') :
    layoutLoop mem f fx fy (fuel + 1) n l = some l' := by
  induction n generalizing l with
  | zero => exact h
  | succ n ih =>
    rw [layoutLoop] at h ⊢
    split at h
    case isTrue hcond =>
      obtain ⟨r, hr, h⟩ := Option.bind_eq_some_iff.mp h
      rw [if_pos hcond]
      exact Option.bind_eq_some_iff.mpr ⟨r, rowLoop_succ hr, ih h⟩
    case isFalse hcond => rw [if_neg hcond, h]

theorem layout_le {fuel fuel' : Nat} (h : layout w fuel = some l) (hle : fuel ≤ fuel') :
    layout w fuel' = some l :=
  Fuel.eq_some_of_le (g := layout w) (fun _ _ h => layoutLoop_succ h) h hle

/-- At offset `e` the loop does not know the byte, or goes past offset `nul`. -/
structure Past (mem : Nat → UInt8) (e nul : Nat) : Prop where
  not_ascii : ¬mem e < 0x80
  two : 0xC0 ≤ mem e ∧ mem e < 0xD0 → nul < e + 2
  three : 0xE0 ≤ mem e ∧ mem e < 0xF0 → nul < e + 3

variable {nul : Nat}

theorem Past.rowCond (h : Past mem s.strPtr nul) (hbreak : s.breakLoopFlag = false)
    (hroom : s.xShift + f < fx) : rowCond mem f fx s = true := by
  have hne : mem s.strPtr ≠ 0 := fun h0 => h.not_ascii (h0 ▸ by decide)
  simp [DoorLock.rowCond, hne, hbreak, hroom]

/-- Where the loop gets to such a place with room left, it does not end or reads on behind `nul`. -/
theorem rowLoop_past (hpast : Past mem s.strPtr nul) (hbreak : s.breakLoopFlag = false)
    (hroom : s.xShift + f < fx) (h : rowLoop mem f fx n s = some s') : nul < s'.highest := by
  induction n generalizing s with
  | zero => cases h
  | succ n ih =>
    rw [rowLoop, hpast.rowCond hbreak hroom, if_pos rfl] at h
    have hhigh := rowLoop_highest h
    unfold rowBody at h hhigh
    dsimp only [RowState.read] at h hhigh
    rw [if_neg hpast.not_ascii] at h hhigh
    by_cases htwo : 0xC0 ≤ mem s.strPtr ∧ mem s.strPtr < 0xD0
    · rw [if_pos htwo] at hhigh
      have := hpast.two htwo
      dsimp only at hhigh
      omega
    rw [if_neg htwo] at h hhigh
    by_cases hthree : 0xE0 ≤ mem s.strPtr ∧ mem s.strPtr < 0xF0
    · rw [if_pos hthree] at hhigh
      have := hpast.three hthree
      dsimp only at hhigh
      omega
    rw [if_neg hthree] at h
    exact ih (s := { s with highest := max s.highest s.strPtr }) hpast hbreak hroom h

/-- A line that takes the last character and has room left gets there. -/
theorem rowLoop_overruns (hfx : fx < 256) (htext : TextAt mem s.strPtr cs e)
    (hpast : Past mem e nul) (hbreak : s.breakLoopFlag = false)
    (hline : (textWrap f fx).line s.xShift cs = cs) (hbroken : (textWrap f fx).broken cs = false)
    (hroom : s.xShift + (textWrap f fx).total cs + f < fx)
    (h : rowLoop mem f fx n s = some s') : nul < s'.highest := by
  induction cs generalizing s n with
  | nil =>
    cases htext
    exact rowLoop_past hpast hbreak hroom h
  | cons c cs ih =>
    obtain ⟨hlead, hrest⟩ := htext
    cases n with
    | zero => cases h
    | succ n =>
      cases hfits : (textWrap f fx).fits s.xShift c with
      | false =>
        rw [Wrap.line_of_not_fits hfits] at hline
        cases hline
      | true =>
        rw [rowLoop, rowCond_chr f fx hlead hbreak, hfits, if_pos rfl,
          rowBody_chr (s := s.read) hlead hbreak hfits hfx] at h
        cases hnl : (textWrap f fx).breaks c with
        | true =>
          rw [Wrap.line_of_breaks hfits hnl] at hline
          cases hline
          rw [Wrap.broken_singleton, hnl] at hbroken
          cases hbroken
        | false =>
          rw [Wrap.line_of_fits hfits hnl] at hline
          rw [Wrap.broken_cons hnl] at hbroken
          rw [Wrap.total_cons, ← Nat.add_assoc] at hroom
          exact ih hrest hnl (List.cons.inj hline).2 hbroken hroom h

/-- More fuel than a line needs does not matter. -/
theorem rowLoop_eq_afterLine (hfx : fx < 256) (htext : TextAt mem s.strPtr cs e)
    (hbreak : s.breakLoopFlag = false)
    (hstop : (textWrap f fx).line s.xShift cs = cs → (textWrap f fx).broken cs = false →
      RowStops mem f fx e (s.xShift + (textWrap f fx).total cs))
    (h : rowLoop mem f fx n s = some s') :
    s' = afterLine f fx s ((textWrap f fx).line s.xShift cs) := by
  have hline := rowLoop_line (n := n + cs.length + 1) hfx htext hbreak hstop
    (Nat.lt_succ_of_le ((Wrap.length_line_le _ _).trans (Nat.le_add_left _ _)))
  have hmore := Fuel.eq_some_of_le (g := (rowLoop mem f fx · s)) (m := n + cs.length + 1)
    (fun _ _ h => rowLoop_succ h) h (by omega)
  exact Option.some.inj (hmore.symm.trans hline)

/-- One of the lines gets past the text. -/
theorem layoutLoop_overruns {fuel : Nat} (hfx : fx < 256) (hfy : fy < 256)
    (hrows : RowsFit f fy n l.contentYSize) (htext : TextAt mem l.strPtr cs e)
    (hpast : Past mem e nul) (hover : (textWrap f fx).overruns (hasRoom f fx) n cs = true)
    (h : layoutLoop mem f fx fy fuel n l = some l') : nul < l'.highest := by
  induction n generalizing l cs with
  | zero => cases hover
  | succ n ih =>
    have htail : TailAt mem e true := hpast.not_ascii
    have hne : mem l.strPtr ≠ 0 := fun h0 =>
      absurd ((mem_eq_zero_iff htext htail).mp h0).2 (by decide)
    have hy : l.contentYSize ≤ fy := by simpa using hrows 0 (Nat.succ_pos n)
    rw [layoutLoop, if_pos ⟨hne, hy⟩] at h
    obtain ⟨r, hr, h⟩ := Option.bind_eq_some_iff.mp h
    by_cases hfirst : (textWrap f fx).FirstOverruns (hasRoom f fx) cs
    · have hroom := of_decide_eq_true hfirst.room
      have hrow := rowLoop_overruns (s := ⟨l.strPtr, 0, none, false, max l.highest l.strPtr⟩) hfx
        htext hpast rfl hfirst.line hfirst.broken (by simpa using hroom) hr
      exact Nat.lt_of_lt_of_le hrow (layoutLoop_highest h)
    · have hnext := (Wrap.overruns_succ.mp hover).resolve_left hfirst
      have hrow := rowLoop_eq_afterLine
        (s := ⟨l.strPtr, 0, none, false, max l.highest l.strPtr⟩) hfx htext rfl
        (rowStops_of_tail htail fun _ => hfirst) hr
      subst hrow
      exact ih (hrows.next hfy) (htext.first_rest f fx).2 hnext h

/-! ## The loops over the rows -/

section
variable {fonts : Fonts} {b : OledBuff} {stop yShift fuel : Nat} {r r' : RenderState}
variable {column : Nat → Column} {passes : List (Nat × Nat)} {c : Chr}

theorem renderRow_highest (h : renderRow fonts w stop yShift n r = some r') :
    max r.highest r.strPtr ≤ r'.highest := by
  induction n generalizing r with
  | zero => cases h
  | succ n ih =>
    rw [renderRow] at h
    split at h
    case isTrue =>
      have hle := ih h
      have hbody : max r.highest r.strPtr ≤ (renderBody fonts w yShift r.read).highest :=
        Nat.le_max_left _ _
      exact hbody.trans ((Nat.le_max_left _ _).trans hle)
    case isFalse =>
      cases h
      exact Nat.le_refl _

/-- The loop over the rows reads the start of every row it is given. -/
theorem renderRows_highest (h : renderRows fonts w column fuel passes r = some r') :
    r.highest ≤ r'.highest ∧ ∀ pass ∈ passes, (column pass.1).start ≤ r'.highest := by
  induction passes generalizing r with
  | nil =>
    cases h
    exact ⟨Nat.le_refl _, List.forall_mem_nil _⟩
  | cons pass passes ih =>
    obtain ⟨r₁, hrow, h⟩ := Option.bind_eq_some_iff.mp h
    have hread := renderRow_highest hrow
    obtain ⟨hle, hstarts⟩ := ih h
    dsimp only at hread
    exact ⟨by omega, List.forall_mem_cons.mpr ⟨by omega, hstarts⟩⟩

/-- The language a character is drawn in, behind one in language `lang`. -/
def Chr.lang (lang : Option LanguageE) : Chr → Option LanguageE
  | .ascii .. => some .eng
  | .two .. => lang
  | .three .. => some .hans

/-- What the loop takes of a character. -/
theorem takeChr_chr (h : w.widgetContent r.strPtr = c.lead) :
    takeChr w r = ((List.range c.len).map fun i => w.widgetContent (r.strPtr + i), r.strPtr + c.len,
      c.lang r.curLang) := by
  unfold takeChr
  dsimp only
  rw [h]
  cases c with
  | ascii a ha =>
    have hascii : (Chr.ascii a ha).lead < 0x80 := ha.2
    rw [if_pos hascii, ← h]
    rfl
  | two a b ha =>
    have hascii : ¬(Chr.two a b ha).lead < 0x80 := not_ascii_of_le ha.1.1 (by decide)
    have htwo : 0xC0 ≤ (Chr.two a b ha).lead ∧ (Chr.two a b ha).lead < 0xD0 := ha.1
    rw [if_neg hascii, if_pos htwo, ← h]
    rfl
  | three a b c ha =>
    have hascii : ¬(Chr.three a b c ha).lead < 0x80 := not_ascii_of_le ha.1.1 (by decide)
    have htwo : ¬(0xC0 ≤ (Chr.three a b c ha).lead ∧ (Chr.three a b c ha).lead < 0xD0) :=
      not_two_of_le ha.1.1
    have hthree : 0xE0 ≤ (Chr.three a b c ha).lead ∧ (Chr.three a b c ha).lead < 0xF0 := ha.1
    rw [if_neg hascii, if_neg htwo, if_pos hthree, ← h]
    rfl

/-- The body of the loop at a character that is known. -/
theorem renderBody_chr (fonts : Fonts) (yShift : Nat) (h : w.widgetContent r.strPtr = c.lead) :
    renderBody fonts w yShift r =
      { buf := oledPrintChar fonts r.buf (u8 (w.ulX.toNat + r.xShift : Nat))
          (u8 (w.ulY.toNat + yShift : Nat)) (c.lang r.curLang)
          ((List.range c.len).map fun i => w.widgetContent (r.strPtr + i)) w.fontSize
          w.style.txtClr
        curLang := c.lang r.curLang
        strPtr := r.strPtr + c.len
        xShift := u8 (r.xShift + charWidth (c.lang r.curLang) w.fontSize : Nat)
        highest := max r.highest (r.strPtr + (c.len - 1)) } := by
  unfold renderBody
  rw [takeChr_chr h]
  dsimp only
  rw [List.length_map, List.length_range]

/-- A row without characters. -/
theorem renderRow_nil (h : TextAt w.widgetContent r.strPtr [] stop) :
    renderRow fonts w stop yShift (n + 1) r = some r.read := by
  cases h
  have hcond : renderCond w r.strPtr r = false := by simp [renderCond]
  rw [renderRow, hcond, if_neg Bool.false_ne_true]

/-- A row of characters that are known is drawn, and nothing behind its end is read. -/
theorem renderRow_text (fonts : Fonts) (yShift : Nat)
    (htext : TextAt w.widgetContent r.strPtr cs stop) (hfuel : cs.length < n) :
    ∃ r', renderRow fonts w stop yShift n r = some r' ∧ r'.highest ≤ max r.highest stop := by
  induction cs generalizing r n with
  | nil =>
    obtain ⟨m, rfl⟩ := Nat.exists_eq_succ_of_ne_zero (Nat.ne_zero_of_lt hfuel)
    cases htext
    exact ⟨_, renderRow_nil rfl, Nat.le_refl _⟩
  | cons c cs ih =>
    obtain ⟨m, rfl⟩ := Nat.exists_eq_succ_of_ne_zero (Nat.ne_zero_of_lt hfuel)
    have hend := htext.end_eq
    obtain ⟨hlead, hrest⟩ := htext
    rw [byteLen_cons] at hend
    rw [renderRow]
    split
    case isTrue =>
      rw [renderBody_chr (r := r.read) fonts yShift hlead]
      obtain ⟨r', hr', hhigh⟩ := ih (r := ⟨_, _, _, _, _⟩) hrest (Nat.lt_of_succ_lt_succ hfuel)
      refine ⟨r', hr', ?_⟩
      have hpos := c.len_pos
      dsimp only [RenderState.read] at hhigh
      omega
    case isFalse =>
      refine ⟨_, rfl, ?_⟩
      dsimp only [RenderState.read]
      omega

/-- Rows of characters that are known. -/
theorem renderRows_text (fonts : Fonts) (hcols : ∀ pass ∈ passes, ∃ as, as.length < fuel ∧
      TextAt w.widgetContent (column pass.1).start as (column pass.1).stop ∧
      (column pass.1).stop ≤ e) :
    ∃ r', renderRows fonts w column fuel passes r = some r' ∧ r'.highest ≤ max r.highest e := by
  induction passes generalizing r with
  | nil => exact ⟨r, rfl, Nat.le_max_left _ _⟩
  | cons pass passes ih =>
    obtain ⟨⟨as, hlen, htext, hstop⟩, hrest⟩ := List.forall_mem_cons.mp hcols
    obtain ⟨r₁, hrow, hhigh⟩ := renderRow_text fonts pass.2
      (r := { r with strPtr := (column pass.1).start, xShift := startXShift w (column pass.1) })
      htext hlen
    obtain ⟨r', hr', hhigh'⟩ := ih (r := r₁) hrest
    refine ⟨r', Option.bind_eq_some_iff.mpr ⟨r₁, hrow, hr'⟩, ?_⟩
    dsimp only at hhigh
    omega

end

/-! ## The whole label -/

/-- Drawing the label ends, whatever is in memory, and has read no byte behind offset `nul`. -/
def EndsInside (fonts : Fonts) (w : WidgetId) (b : OledBuff) (nul : Nat) : Prop :=
  ∀ junk, ∃ fuel d, wdgLableDraw fonts junk w b fuel = some d ∧ d.highest ≤ nul

/-- Some line of the text gets, with room left, to what the loops do not know. -/
def Overruns (w : WidgetId) (content : List UInt8) : Prop :=
  (scan content).2 ≠ [] ∧ (textWrap w.fontSize w.freeXSpace).overruns
    (hasRoom w.fontSize w.freeXSpace) w.maxColHold (scan content).1 = true

/-- The number of rows of a text. -/
def rowCount (w : WidgetId) (content : List UInt8) : Nat :=
  (labelLines w (!(scan content).2.isEmpty) (scan content).1).length

variable {content : List UInt8} {fonts : Fonts} {b : OledBuff}

/-- What is behind the characters of a text. -/
theorem tail_of_contains (hnul : CString.NoNul content)
    (hw : Contains mem (content ++ [0])) :
    TextAt mem 0 (scan content).1 (byteLen (scan content).1) ∧
      byteLen (scan content).1 ≤ content.length ∧
      TailAt mem (byteLen (scan content).1) (!(scan content).2.isEmpty) ∧
      ((scan content).2 ≠ [] → Past mem (byteLen (scan content).1) content.length) := by
  obtain ⟨hbytes, htail⟩ := scan_spec content hnul
  generalize (scan content).1 = cs at hbytes ⊢
  generalize (scan content).2 = tail at hbytes htail ⊢
  have hlen := congrArg List.length hbytes
  rw [List.length_append, length_textBytes] at hlen
  rw [hbytes, List.append_assoc] at hw
  have htext := textAt_of_contains [] hw
  rw [List.length_nil, Nat.zero_add] at htext
  refine ⟨htext, by omega, ?_⟩
  cases tail with
  | nil =>
    have hend := hw.mem_length
    rw [length_textBytes] at hend
    exact ⟨hend, fun h => absurd rfl h⟩
  | cons a r =>
    have hend : mem (byteLen cs) = a := by
      rw [← length_textBytes]
      exact hw.mem_length
    rw [List.length_cons] at hlen
    refine ⟨?_, fun _ => ⟨?_, fun ha => ?_, fun ha => ?_⟩⟩
    · change ¬mem (byteLen cs) < 0x80
      rw [hend]
      exact htail.1
    · rw [hend]
      exact htail.1
    · have := htail.2.1 (hend ▸ ha)
      omega
    · have := htail.2.2 (hend ▸ ha)
      omega

/-- Drawing a label lays out its rows and draws them, between the background and the box. -/
theorem wdgLableDraw_eq_some {junk : Nat → Column} {fuel : Nat} {d : Drawn} :
    wdgLableDraw fonts junk w b fuel = some d ↔ ∃ l r, layout w fuel = some l ∧
      renderRows fonts w (l.column junk) fuel (columnsRead w l)
        ⟨if w.style.bgClr then
            oledDrawRect b w.ulX.toUInt8 w.ulY.toUInt8 w.drX.toUInt8 w.drY.toUInt8 1 0
          else b, none, 0, 0, l.highest⟩ = some r ∧
      d = ⟨if w.style.boxed then drawBox w r.buf else r.buf, r.highest⟩ := by
  unfold wdgLableDraw
  dsimp only
  constructor
  · intro h
    obtain ⟨l, hl, h⟩ := Option.bind_eq_some_iff.mp h
    obtain ⟨r, hr, h⟩ := Option.bind_eq_some_iff.mp h
    exact ⟨l, r, hl, hr, (Option.some.inj h).symm⟩
  · rintro ⟨l, r, hl, hr, rfl⟩
    exact Option.bind_eq_some_iff.mpr ⟨l, hl, Option.bind_eq_some_iff.mpr ⟨r, hr, rfl⟩⟩

/-- What drawing a label has read includes what the layout has read and the start of every row. -/
theorem wdgLableDraw_highest {junk : Nat → Column} {fuel : Nat} {d : Drawn}
    (h : wdgLableDraw fonts junk w b fuel = some d) :
    ∃ l, layout w fuel = some l ∧ l.highest ≤ d.highest ∧
      ∀ pass ∈ columnsRead w l, (l.column junk pass.1).start ≤ d.highest := by
  obtain ⟨l, r, hl, hr, rfl⟩ := wdgLableDraw_eq_some.mp h
  exact ⟨l, hl, renderRows_highest hr⟩

/-- Entries that were not assigned are what was in memory before. -/
theorem column_of_le (junk : Nat → Column) {k : Nat} (hk : max l.rows.length 1 ≤ k) :
    l.column junk k = junk k := by
  have hnone : (l.assigned (junk 0).xSizePx)[k]? = none := by
    rw [List.getElem?_eq_none_iff, length_assigned]
    exact hk
  rw [LayoutState.column, hnone, Option.getD_none]

/-- Entries that were assigned are rows of the text, or the empty row. -/
theorem column_of_lt (junk : Nat → Column) {k : Nat} (hk : k < max l.rows.length 1) :
    l.column junk k ∈ l.rows ∨ (l.column junk k).start = 0 ∧ (l.column junk k).stop = 0 := by
  rw [← length_assigned l (junk 0).xSizePx] at hk
  have hget : l.column junk k = (l.assigned (junk 0).xSizePx)[k] := by
    rw [LayoutState.column, List.getElem?_eq_getElem hk, Option.getD_some]
  have hmem : l.column junk k ∈ l.assigned (junk 0).xSizePx := hget ▸ List.getElem_mem hk
  unfold LayoutState.assigned at hmem
  split at hmem
  case isTrue =>
    rw [List.mem_singleton.mp hmem]
    exact .inr ⟨rfl, rfl⟩
  case isFalse => exact .inl hmem

theorem length_le_byteLen (cs : List Chr) : cs.length ≤ byteLen cs := by
  induction cs with
  | nil => exact Nat.le_refl 0
  | cons c cs ih =>
    have := c.len_pos
    rw [byteLen_cons, List.length_cons]
    omega

/-- A row of the text, or the row of an empty one. -/
def IsRow (w : WidgetId) (e : Nat) (cs : List Chr) (c : Column) : Prop :=
  (∃ pre, RowOf w.widgetContent w.fontSize w.freeXSpace e cs c pre) ∨ c.start = 0 ∧ c.stop = 0

/-- The rows that are drawn hold characters of the text. -/
theorem columns_rowOf {more : Bool} (hf : 0 < w.fontSize) (htext : TextAt w.widgetContent 0 cs e)
    (hrows : l.rows = columnsOf w.fontSize w.freeXSpace more w.maxColHold 0 cs)
    (hcount : l.rows.length = n) (hstart : startYShift w l = rowStart w n)
    (hroom : NoRoomBelow w n) (junk : Nat → Column) :
    ∀ pass ∈ columnsRead w l, IsRow w e cs (l.column junk pass.1) := by
  intro pass hpass
  have hlt := (columnsRead_lt_iff hf hstart).mpr hroom pass hpass
  refine (column_of_lt junk (hcount.symm ▸ hlt)).imp_left fun hmem => ?_
  rw [hrows] at hmem
  exact columnsOf_rowOf htext _ hmem

theorem IsRow.text {fuel : Nat} {c : Column} (h : IsRow w e cs c) (hfuel : cs.length < fuel) :
    ∃ as, as.length < fuel ∧ TextAt w.widgetContent c.start as c.stop ∧ c.stop ≤ e := by
  rcases h with ⟨pre, hpre⟩ | ⟨hzero, hzero'⟩
  · have := hpre.part.length_le
    exact ⟨pre, by omega, hpre.text, hpre.stop_le⟩
  · rw [hzero, hzero']
    exact ⟨[], Nat.zero_lt_of_lt hfuel, rfl, Nat.zero_le e⟩

/-- Drawing ends where the layout does and no row is drawn that was not laid out. -/
theorem wdgLableDraw_ends (fonts : Fonts) (junk : Nat → Column) (b : OledBuff) {fuel : Nat}
    (hfuel : cs.length < fuel) (hl : layout w fuel = some l)
    (hcols : ∀ pass ∈ columnsRead w l, IsRow w e cs (l.column junk pass.1)) :
    ∃ d, wdgLableDraw fonts junk w b fuel = some d ∧ d.highest ≤ max l.highest e := by
  obtain ⟨r, hr, hhigh⟩ := renderRows_text fonts (r := ⟨_, none, 0, 0, l.highest⟩)
    fun pass hpass => (hcols pass hpass).text hfuel
  exact ⟨_, wdgLableDraw_eq_some.mpr ⟨l, r, hl, hr, rfl⟩, hhigh⟩

/-- The layout does not end inside of a text one line of which overruns. -/
theorem not_endsInside (b : OledBuff) (htext : TextAt w.widgetContent 0 cs e)
    (hpast : Past w.widgetContent e nul)
    (hover : (textWrap w.fontSize w.freeXSpace).overruns (hasRoom w.fontSize w.freeXSpace)
      w.maxColHold cs = true) : ¬EndsInside fonts w b nul := by
  intro h
  obtain ⟨fuel, d, hd, hle⟩ := h fun _ => ⟨0, 0, 0⟩
  obtain ⟨l, hl, hhigh, -⟩ := wdgLableDraw_highest hd
  have hlt := layoutLoop_overruns (u8_lt _) (u8_lt _) (rowsFit_maxColHold w) htext hpast hover hl
  omega

/-- The layout of a text no line of which overruns. -/
theorem layout_of_not_overruns (hnul : CString.NoNul content)
    (hw : Contains w.widgetContent (content ++ [0])) (hover : ¬Overruns w content) {fuel : Nat}
    (hfuel : (scan content).1.length < fuel) :
    ∃ l, layout w fuel = some l ∧
      l.rows = columnsOf w.fontSize w.freeXSpace (!(scan content).2.isEmpty) w.maxColHold 0
        (scan content).1 ∧
      l.rows.length = rowCount w content ∧ startYShift w l = rowStart w (rowCount w content) ∧
      l.highest ≤ byteLen (scan content).1 := by
  obtain ⟨htext, -, htail, -⟩ := tail_of_contains hnul hw
  refine layout_rows htext htail (fun hmore => ?_) hfuel
  refine Bool.eq_false_iff.mpr fun h => hover ⟨?_, h⟩
  simpa using hmore

/-- Where there is room below the text, a row is drawn from an entry that was not assigned, which
may point behind the text. -/
theorem EndsInside.noRoomBelow (h : EndsInside fonts w b content.length)
    (hnul : CString.NoNul content) (hw : Contains w.widgetContent (content ++ [0]))
    (hf : 0 < w.fontSize) (hover : ¬Overruns w content) : NoRoomBelow w (rowCount w content) := by
  obtain ⟨fuel, d, hd, hle⟩ := h fun _ => ⟨content.length + 1, content.length + 2, 0⟩
  obtain ⟨l, hl, -, hstarts⟩ := wdgLableDraw_highest hd
  obtain ⟨l', hl', -, hlen, hstart, -⟩ :=
    layout_of_not_overruns hnul hw hover (Nat.le_max_right fuel ((scan content).1.length + 1))
  have hsame := layout_le hl (Nat.le_max_left fuel ((scan content).1.length + 1))
  cases hsame.symm.trans hl'
  refine (columnsRead_lt_iff hf hstart).mp fun pass hpass => ?_
  by_contra hge
  have hread := hstarts pass hpass
  rw [column_of_le _ (hlen.symm ▸ Nat.le_of_not_lt hge)] at hread
  dsimp only at hread
  omega

/-- Drawing a label ends and stays inside its text if and only if no line gets past the characters
that are known, and there is no room below the last row of the text. -/
theorem endsInside_iff (fonts : Fonts) (w : WidgetId) (b : OledBuff) (content : List UInt8)
    (hnul : CString.NoNul content) (hw : Contains w.widgetContent (content ++ [0]))
    (hf : 0 < w.fontSize) :
    EndsInside fonts w b content.length ↔
      ¬Overruns w content ∧ NoRoomBelow w (rowCount w content) := by
  obtain ⟨htext, hend, htail, hpast⟩ := tail_of_contains hnul hw
  constructor
  · intro h
    have hover : ¬Overruns w content := fun ⟨htail, hover⟩ =>
      not_endsInside b htext (hpast htail) hover h
    exact ⟨hover, h.noRoomBelow hnul hw hf hover⟩
  · rintro ⟨hover, hroom⟩ junk
    have hfuel := Nat.lt_succ_of_le (length_le_byteLen (scan content).1)
    obtain ⟨l, hl, hrows, hcount, hstart, hhigh⟩ := layout_of_not_overruns hnul hw hover hfuel
    have hcols := columns_rowOf hf htext hrows hcount hstart hroom junk
    obtain ⟨d, hd, hhigh'⟩ := wdgLableDraw_ends fonts junk b hfuel hl hcols
    exact ⟨_, d, hd, by omega⟩

/-- Font tables with empty masks. -/
def blankFonts : Fonts := ⟨fun _ _ => 0, fun _ _ => 0, fun _ _ => 0⟩

theorem endsInside_iff_hi :
    EndsInside blankFonts (contentLabel 127 "Hi") (fun _ => 0) (CString.lit "Hi").length := by
  have hbytes : textBytes (scan (CString.lit "Hi")).1 = CString.lit "Hi" := by decide +kernel
  have hw := contains_contentLabel 127 "Hi" _ hbytes (by decide +kernel)
  have hnul := noNul_textBytes (scan (CString.lit "Hi")).1
  rw [hbytes] at hw hnul
  refine (endsInside_iff blankFonts _ (fun _ => 0) _ hnul hw (by decide +kernel)).mpr ⟨?_, ?_⟩
  · exact fun h => absurd (show (scan (CString.lit "Hi")).2 = [] by decide +kernel) h.1
  · unfold NoRoomBelow
    decide +kernel

/-- A letter of two bytes, the first of which is `0xD0`. -/
theorem cyrillic_letter_hangs :
    ¬EndsInside blankFonts (contentLabel 127 "п") (fun _ => 0) (CString.lit "п").length := by
  have hlead : (contentLabel 127 "п").widgetContent 0 = 0xD0 := by decide +kernel
  have hpast : Past (contentLabel 127 "п").widgetContent 0 (CString.lit "п").length := by
    constructor
    · rw [hlead]
      decide
    · rw [hlead]
      exact fun h => absurd h (by decide)
    · rw [hlead]
      exact fun h => absurd h (by decide)
  have hover : (textWrap (contentLabel 127 "п").fontSize (contentLabel 127 "п").freeXSpace).overruns
      (hasRoom (contentLabel 127 "п").fontSize (contentLabel 127 "п").freeXSpace)
      (contentLabel 127 "п").maxColHold [] = true := by decide +kernel
  have htext : TextAt (contentLabel 127 "п").widgetContent 0 [] 0 := rfl
  exact not_endsInside _ htext hpast hover

end DoorLock
