import DoorLock.LabelText

/-!
# The rows that are drawn (`widget.c`)

The loop that draws the rows does not count the rows of the layout: it goes on while the next one
fits above the lower edge. It meets a row that was not laid out exactly when there is room for one
more row below those that were.
-/

namespace DoorLock

/-- The offset of the first of `n` rows from the upper edge. -/
def rowStart (w : WidgetId) (n : Nat) : Nat :=
  match w.style.align with
  | .topLeft | .topMid | .topRight => 0
  | .midLeft | .midMid | .midRight => w.freeYSpace / 2 - n * w.fontSize / 2
  | .bottomLeft | .bottomMid | .bottomRight => w.freeYSpace - n * w.fontSize

/-- Below `n` rows, or below the first row if there are none, no other one fits. -/
def NoRoomBelow (w : WidgetId) (n : Nat) : Prop :=
  min 63 w.drY.toNat < w.ulY.toNat + rowStart w n + (max n 1 + 1) * w.fontSize

variable {w : WidgetId} {l : LayoutState} {n k y : Nat}

theorem startYShift_eq (hsize : u8 (l.contentYSize - w.fontSize) = n * w.fontSize)
    (hn : n * w.fontSize ≤ w.freeYSpace) : startYShift w l = rowStart w n := by
  have hfy : w.freeYSpace < 256 := u8_lt _
  have hmid : u8 (w.freeYSpace / 2 - (n * w.fontSize : Nat) / 2 : Int)
      = w.freeYSpace / 2 - n * w.fontSize / 2 := by
    unfold u8
    omega
  have hbottom : u8 (w.freeYSpace - (n * w.fontSize : Nat)) = w.freeYSpace - n * w.fontSize := by
    unfold u8
    omega
  unfold startYShift rowStart
  rw [hsize]
  cases w.style.align
  case topLeft | topMid | topRight => rfl
  case midLeft | midMid | midRight => exact hmid
  case bottomLeft | bottomMid | bottomRight => exact hbottom

/-- The passes of the loop over the rows. -/
theorem mem_renderPasses {i columnCnt yShift : Nat}
    (hi : min 63 w.drY.toNat < w.ulY.toNat + yShift + (i + 1) * w.fontSize) :
    (k, y) ∈ renderPasses w i columnCnt yShift ↔
      ∃ j, (k = columnCnt + j ∧ y = yShift + j * w.fontSize) ∧
        w.ulY.toNat + yShift + (j + 1) * w.fontSize ≤ min 63 w.drY.toNat := by
  induction i generalizing columnCnt yShift with
  | zero =>
    refine iff_of_false List.not_mem_nil ?_
    rintro ⟨j, -, hj⟩
    rw [Nat.add_mul] at hj
    omega
  | succ i ih =>
    rw [renderPasses]
    rw [Nat.succ_mul] at hi
    split
    case isTrue hfits =>
      rw [u8_of_lt (by omega), List.mem_cons, ih (by omega)]
      constructor
      · rintro (h | ⟨j, ⟨rfl, rfl⟩, hj⟩)
        · cases h
          exact ⟨0, ⟨rfl, by omega⟩, by omega⟩
        · rw [Nat.succ_mul] at hj
          refine ⟨j + 1, ⟨by omega, ?_⟩, ?_⟩
          · rw [Nat.succ_mul]
            omega
          · rw [Nat.succ_mul, Nat.succ_mul]
            omega
      · rintro ⟨j, ⟨rfl, rfl⟩, hj⟩
        cases j with
        | zero => exact .inl (by rw [Nat.zero_mul]; rfl)
        | succ j =>
          rw [Nat.succ_mul, Nat.succ_mul] at hj
          refine .inr ⟨j, ⟨by omega, ?_⟩, ?_⟩
          · rw [Nat.succ_mul]
            omega
          · rw [Nat.succ_mul]
            omega
    case isFalse hfits =>
      refine iff_of_false List.not_mem_nil ?_
      rintro ⟨j, -, hj⟩
      rw [Nat.succ_mul] at hj
      omega

theorem mem_columnsRead (hf : 0 < w.fontSize) (hstart : startYShift w l = rowStart w n) :
    (k, y) ∈ columnsRead w l ↔ y = rowStart w n + k * w.fontSize ∧
      w.ulY.toNat + rowStart w n + (k + 1) * w.fontSize ≤ min 63 w.drY.toNat := by
  rw [columnsRead, hstart, mem_renderPasses (by omega)]
  constructor
  · rintro ⟨j, ⟨rfl, rfl⟩, hj⟩
    rw [Nat.zero_add]
    exact ⟨rfl, hj⟩
  · rintro ⟨rfl, hk⟩
    exact ⟨k, ⟨(Nat.zero_add k).symm, rfl⟩, hk⟩

/-- The rows that are drawn are rows of the text, or row 0, unless another one fits below. -/
theorem columnsRead_lt_iff (hf : 0 < w.fontSize) (hstart : startYShift w l = rowStart w n) :
    (∀ pass ∈ columnsRead w l, pass.1 < max n 1) ↔ NoRoomBelow w n := by
  unfold NoRoomBelow
  constructor
  · intro h
    by_contra hroom
    have hmem := (mem_columnsRead (k := max n 1) hf hstart).mpr ⟨rfl, Nat.le_of_not_lt hroom⟩
    exact Nat.lt_irrefl _ (h _ hmem)
  · rintro h ⟨k, y⟩ hmem
    have hk := ((mem_columnsRead hf hstart).mp hmem).2
    have hlt : (k + 1) * w.fontSize < (max n 1 + 1) * w.fontSize := by omega
    exact Nat.lt_of_succ_lt_succ (Nat.lt_of_mul_lt_mul_right hlt)

theorem length_assigned (l : LayoutState) (x : Nat) :
    (l.assigned x).length = max l.rows.length 1 := by
  unfold LayoutState.assigned
  cases l.rows with
  | nil => rfl
  | cons c rows =>
    rw [if_neg (List.cons_ne_nil c rows), List.length_cons]
    omega

/-- What the layout leaves for the loop over the rows. -/
theorem layout_rows {more : Bool} {fuel e : Nat} {cs : List Chr}
    (htext : TextAt w.widgetContent 0 cs e) (htail : TailAt w.widgetContent e more)
    (hover : more = true → (textWrap w.fontSize w.freeXSpace).overruns
      (hasRoom w.fontSize w.freeXSpace) w.maxColHold cs = false)
    (hfuel : cs.length < fuel) :
    ∃ l, layout w fuel = some l ∧
      l.rows = columnsOf w.fontSize w.freeXSpace more w.maxColHold 0 cs ∧
      l.rows.length = (labelLines w more cs).length ∧
      startYShift w l = rowStart w (labelLines w more cs).length ∧ l.highest ≤ e := by
  obtain ⟨l, hl, hrows, hsize, hhigh⟩ := layout_columnsOf htext htail hover hfuel
  have hlen : l.rows.length = (labelLines w more cs).length := by
    rw [hrows, length_columnsOf]
    rfl
  rw [hlen] at hsize
  refine ⟨l, hl, hrows, hlen, startYShift_eq hsize ?_, hhigh⟩
  refine (Nat.mul_le_mul_right _ (Wrap.length_lines_le _ _)).trans ?_
  rw [maxColHold_eq]
  exact Nat.div_mul_le_self _ _

/-- The loop over the rows reads entries of `column_start_end` that are there and were assigned in
this call, if and only if there is no room below the last row of the text. -/
theorem columnsRead_assigned_iff (w : WidgetId) (cs : List Chr)
    (hw : Contains w.widgetContent (textBytes cs ++ [0])) (hf : 0 < w.fontSize)
    (hfy : w.fontSize ≤ w.freeYSpace) (fuel : Nat) (hfuel : cs.length < fuel) :
    ∃ l, layout w fuel = some l ∧
      ((∀ pass ∈ columnsRead w l, pass.1 < w.maxColHold ∧ ∀ x, pass.1 < (l.assigned x).length) ↔
        NoRoomBelow w (labelLines w false cs).length) := by
  obtain ⟨htext, htail⟩ := textAt_of_terminated hw
  obtain ⟨l, hl, -, hlen, hstart, -⟩ := layout_rows htext htail nofun hfuel
  have hpos : 0 < w.maxColHold := by
    rw [maxColHold_eq]
    exact Nat.div_pos hfy hf
  have hmax : max (labelLines w false cs).length 1 ≤ w.maxColHold :=
    Nat.max_le.mpr ⟨Wrap.length_lines_le _ _, hpos⟩
  refine ⟨l, hl, ?_⟩
  rw [← columnsRead_lt_iff hf hstart]
  refine forall_congr' fun pass => imp_congr_right fun _ => ?_
  rw [← hlen] at hmax ⊢
  constructor
  · exact fun h => length_assigned l 0 ▸ h.2 0
  · exact fun h => ⟨h.trans_le hmax, fun x => (length_assigned l x).symm ▸ h⟩

theorem columnsRead_assigned_iff_hi : ∃ l, layout (contentLabel 127 "Hi") 64 = some l ∧
    ∀ pass ∈ columnsRead (contentLabel 127 "Hi") l,
      pass.1 < (contentLabel 127 "Hi").maxColHold ∧ ∀ x, pass.1 < (l.assigned x).length := by
  have hw := contains_contentLabel 127 "Hi" (scan (CString.lit "Hi")).1 (by decide +kernel)
    (by decide +kernel)
  obtain ⟨l, hl, hiff⟩ := columnsRead_assigned_iff _ (scan (CString.lit "Hi")).1 hw
    (by decide +kernel) (by decide +kernel) 64 (by decide +kernel)
  refine ⟨l, hl, hiff.mpr ?_⟩
  unfold NoRoomBelow
  decide +kernel

/-- A label with room for two rows. -/
def twoRowLabel (text : String) : WidgetId :=
  wdgLableSetup 0 0 127 40 (CString.lit text) 16 .topLeft true false false fun _ => 0

/-- One row of text at the top of a label with room for two. -/
theorem short_text_reads_second_row : ∃ l, layout (twoRowLabel "Hi") 64 = some l ∧
    ¬∀ pass ∈ columnsRead (twoRowLabel "Hi") l,
      pass.1 < (twoRowLabel "Hi").maxColHold ∧ ∀ x, pass.1 < (l.assigned x).length := by
  have hrun : (layout (twoRowLabel "Hi") 64).map
      (fun l => (columnsRead (twoRowLabel "Hi") l, (l.assigned 0).length))
      = some ([(0, 0), (1, 16)], 1) := by decide +kernel
  obtain ⟨l, hl, hpasses⟩ := Option.map_eq_some_iff.mp hrun
  obtain ⟨hread, hlen⟩ := Prod.mk.inj hpasses
  refine ⟨l, hl, fun h => ?_⟩
  have hlt := (h (1, 16) (hread ▸ by decide)).2 0
  rw [hlen] at hlt
  exact Nat.lt_irrefl 1 hlt

end DoorLock
