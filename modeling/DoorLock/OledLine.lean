import DoorLock.Oled
import Mathlib.Data.List.Chain
import Mathlib.Tactic.Linarith
import Mathlib.Tactic.SplitIfs

/-!
# Lines in the frame buffer (`oled.c`)

`oled_draw_line` walks along both axes at once. Each axis has an error counter that grows by the
length of the line on that axis and takes a step when it exceeds the larger length. The counter of
an axis never pays for the last step, so the walk stops short of its far end.
-/

namespace DoorLock

open Raster

/-- The variables of the loop of `oled_draw_line`. -/
structure LineState where
  uRow : Int
  uCol : Int
  xerr : Int
  yerr : Int

/-- What the loop of `oled_draw_line` is set up with. -/
structure LineSetup where
  deltaX : Int
  deltaY : Int
  incx : Int
  incy : Int
  distance : Int

def lineSetup (x1 y1 x2 y2 : UInt8) : LineSetup :=
  let deltaX : Int := x2.toNat - x1.toNat
  let deltaY : Int := y2.toNat - y1.toNat
  let (incx, deltaX) :=
    if deltaX > 0 then (1, deltaX) else if deltaX = 0 then (0, deltaX) else (-1, -deltaX)
  let (incy, deltaY) :=
    if deltaY > 0 then (1, deltaY) else if deltaY = 0 then (0, deltaY)
    -- the length on the other axis
    else (-1, -deltaX)
  { deltaX, deltaY, incx, incy, distance := if deltaX > deltaY then deltaX else deltaY }

/-- One pass of the loop after its pixel is drawn. -/
def lineStep (c : LineSetup) (s : LineState) : LineState :=
  let xerr := s.xerr + c.deltaX
  let yerr := s.yerr + c.deltaY
  let (xerr, uRow) :=
    if xerr > c.distance then (xerr - c.distance, s.uRow + c.incx) else (xerr, s.uRow)
  let (yerr, uCol) :=
    if yerr > c.distance then (yerr - c.distance, s.uCol + c.incy) else (yerr, s.uCol)
  { uRow, uCol, xerr, yerr }

/-- A pixel as `oled_draw_px` gets it. -/
abbrev Px := UInt8 × UInt8

def LineState.px (s : LineState) : Px := (UInt8.ofInt s.uRow, UInt8.ofInt s.uCol)

/-- The pixels drawn by the next passes of the loop. -/
def lineLoop (c : LineSetup) : Nat → LineState → List Px
  | 0, _ => []
  | n + 1, s => s.px :: lineLoop c n (lineStep c s)

/-- The pixels `oled_draw_line` draws, in order. -/
def oledLinePixels (x1 y1 x2 y2 : UInt8) : List Px :=
  let c := lineSetup x1 y1 x2 y2
  lineLoop c (c.distance + 1).toNat ⟨x1.toNat, y1.toNat, 0, 0⟩

def oledDrawLine (b : OledBuff) (x1 y1 x2 y2 mode : UInt8) : OledBuff :=
  (oledLinePixels x1 y1 x2 y2).foldl (fun b p => oledDrawPx b p.1 p.2 (mode != 0)) b

/-! ## One axis -/

/-- An axis after `t` passes: `s` steps were taken, and the counter holds what is not yet paid. -/
structure AxisAt (distance delta : Int) (t : Nat) (s err : Int) : Prop where
  paid : s * distance + err = t * delta
  nonneg : 0 ≤ s
  err_le : err ≤ distance
  moved : 0 < s → 0 < err ∧ 0 < delta

variable {distance delta s err : Int} {t : Nat}

theorem AxisAt.zero (h : 0 ≤ distance) : AxisAt distance delta 0 0 0 :=
  ⟨by simp, Int.le_refl 0, h, fun h => absurd h (Int.lt_irrefl 0)⟩

/-- The counter exceeds the larger length: a step. -/
theorem AxisAt.step (h : AxisAt distance delta t s err) (hle : delta ≤ distance)
    (hstep : err + delta > distance) :
    AxisAt distance delta (t + 1) (s + 1) (err + delta - distance) := by
  have hpaid := h.paid
  have herr := h.err_le
  refine ⟨?_, Int.le_add_one h.nonneg, by omega, fun _ => by omega⟩
  push_cast
  linarith

theorem AxisAt.stay (h : AxisAt distance delta t s err) (hstay : ¬err + delta > distance) :
    AxisAt distance delta (t + 1) s (err + delta) := by
  have hpaid := h.paid
  refine ⟨?_, h.nonneg, by omega, fun hs => ?_⟩
  · push_cast
    linarith
  · have := h.moved hs
    omega

/-- Within the passes of the loop an axis takes fewer steps than the line is long on it. -/
theorem AxisAt.lt_delta (h : AxisAt distance delta t s err) (ht : (t : Int) ≤ distance) :
    s = 0 ∨ s < delta := by
  rcases Int.lt_or_eq_of_le h.nonneg with hs | hs
  · obtain ⟨herr, hdelta⟩ := h.moved hs
    have hpaid := h.paid
    have hprod : t * delta ≤ distance * delta := Int.mul_le_mul_of_nonneg_right ht (by omega)
    have hlt : s * distance < delta * distance := by
      rw [Int.mul_comm delta]
      omega
    exact .inr (lt_of_mul_lt_mul_right hlt (by omega))
  · exact .inl hs.symm

/-- What the setup makes of an axis that leads from `start` to `stop`: its length and the direction
of a step, unless it has no length to step on. -/
structure AxisSetup (start stop distance delta inc : Int) : Prop where
  distance_nonneg : 0 ≤ distance
  le_distance : delta ≤ distance
  inc_eq : inc = -1 ∨ inc = 0 ∨ inc = 1
  leads : 0 < delta → stop = start + inc * delta

variable {start stop inc : Int}

/-- A walk along an axis stays between its ends and does not get to the far one. -/
theorem AxisSetup.between (h : AxisSetup start stop distance delta inc) (hs : 0 ≤ s)
    (hlt : s = 0 ∨ s < delta) :
    (min start stop ≤ start + s * inc ∧ start + s * inc ≤ max start stop) ∧
      (start ≠ stop → start + s * inc ≠ stop) := by
  rcases hlt with rfl | hlt
  · rw [Int.zero_mul, Int.add_zero]
    exact ⟨⟨min_le_left _ _, le_max_left _ _⟩, id⟩
  · have hstop := h.leads (by omega)
    rcases h.inc_eq with rfl | rfl | rfl
    · omega
    · omega
    · omega

theorem lineSetup_spec (x1 y1 x2 y2 : UInt8) :
    AxisSetup x1.toNat x2.toNat (lineSetup x1 y1 x2 y2).distance (lineSetup x1 y1 x2 y2).deltaX
        (lineSetup x1 y1 x2 y2).incx ∧
      AxisSetup y1.toNat y2.toNat (lineSetup x1 y1 x2 y2).distance (lineSetup x1 y1 x2 y2).deltaY
        (lineSetup x1 y1 x2 y2).incy := by
  unfold lineSetup
  dsimp only
  -- the signs of the two differences and the longer axis
  split_ifs
  all_goals refine ⟨⟨?_, ?_, ?_, ?_⟩, ⟨?_, ?_, ?_, ?_⟩⟩
  all_goals omega

/-! ## Both axes -/

/-- An axis of the loop after `t` passes, at position `pos`. -/
def OnAxis (start distance delta inc : Int) (t : Nat) (pos err : Int) : Prop :=
  ∃ k, AxisAt distance delta t k err ∧ pos = start + k * inc

/-- The variables of the loop after `t` passes. -/
structure LineAt (c : LineSetup) (x1 y1 : Int) (t : Nat) (s : LineState) : Prop where
  row : OnAxis x1 c.distance c.deltaX c.incx t s.uRow s.xerr
  col : OnAxis y1 c.distance c.deltaY c.incy t s.uCol s.yerr

variable {c : LineSetup} {x1 y1 pos : Int} {l : LineState}

theorem OnAxis.step (h : OnAxis start distance delta inc t pos err) (hle : delta ≤ distance)
    (hstep : err + delta > distance) :
    OnAxis start distance delta inc (t + 1) (pos + inc) (err + delta - distance) := by
  obtain ⟨k, hk, rfl⟩ := h
  exact ⟨k + 1, hk.step hle hstep, by rw [Int.add_mul, Int.one_mul, Int.add_assoc]⟩

theorem OnAxis.stay (h : OnAxis start distance delta inc t pos err)
    (hstay : ¬err + delta > distance) :
    OnAxis start distance delta inc (t + 1) pos (err + delta) := by
  obtain ⟨k, hk, rfl⟩ := h
  exact ⟨k, hk.stay hstay, rfl⟩

theorem LineAt.step (h : LineAt c x1 y1 t l) (hx : c.deltaX ≤ c.distance)
    (hy : c.deltaY ≤ c.distance) : LineAt c x1 y1 (t + 1) (lineStep c l) := by
  unfold lineStep
  constructor
  · dsimp only
    split
    case isTrue hstep => exact h.row.step hx hstep
    case isFalse hstay => exact h.row.stay hstay
  · dsimp only
    split
    case isTrue hstep => exact h.col.step hy hstep
    case isFalse hstay => exact h.col.stay hstay

/-- One pass moves by at most one pixel on each axis. -/
theorem lineStep_near (c : LineSetup) (l : LineState)
    (hx : c.incx = -1 ∨ c.incx = 0 ∨ c.incx = 1) (hy : c.incy = -1 ∨ c.incy = 0 ∨ c.incy = 1) :
    ((lineStep c l).uRow ≤ l.uRow + 1 ∧ l.uRow ≤ (lineStep c l).uRow + 1) ∧
      ((lineStep c l).uCol ≤ l.uCol + 1 ∧ l.uCol ≤ (lineStep c l).uCol + 1) := by
  unfold lineStep
  dsimp only
  constructor
  · split <;> omega
  · split <;> omega

/-! ## The line -/

section
variable (x1 y1 x2 y2 : UInt8)

/-- A position in the rectangle between the ends that misses the far end on every axis on which
the ends differ. -/
structure ShortOf (row col : Int) : Prop where
  row_between : min (x1.toNat : Int) x2.toNat ≤ row ∧ row ≤ max (x1.toNat : Int) x2.toNat
  col_between : min (y1.toNat : Int) y2.toNat ≤ col ∧ col ≤ max (y1.toNat : Int) y2.toNat
  row_ne : (x1.toNat : Int) ≠ x2.toNat → row ≠ x2.toNat
  col_ne : (y1.toNat : Int) ≠ y2.toNat → col ≠ y2.toNat

/-- Two pixels that are the same or touch, at a side or a corner. -/
def Near (p q : Px) : Prop :=
  (p.1.toNat ≤ q.1.toNat + 1 ∧ q.1.toNat ≤ p.1.toNat + 1) ∧
    (p.2.toNat ≤ q.2.toNat + 1 ∧ q.2.toNat ≤ p.2.toNat + 1)

end

variable {x1 y1 x2 y2 : UInt8} {l : LineState}

/-- Where the loop is before a pass that it makes. -/
theorem LineAt.shortOf (h : LineAt (lineSetup x1 y1 x2 y2) x1.toNat y1.toNat t l)
    (ht : (t : Int) ≤ (lineSetup x1 y1 x2 y2).distance) : ShortOf x1 y1 x2 y2 l.uRow l.uCol := by
  obtain ⟨hx, hy⟩ := lineSetup_spec x1 y1 x2 y2
  obtain ⟨k, hk, hrow⟩ := h.row
  obtain ⟨m, hm, hcol⟩ := h.col
  obtain ⟨hrow_between, hrow_ne⟩ := hx.between hk.nonneg (hk.lt_delta ht)
  obtain ⟨hcol_between, hcol_ne⟩ := hy.between hm.nonneg (hm.lt_delta ht)
  rw [← hrow] at hrow_between hrow_ne
  rw [← hcol] at hcol_between hcol_ne
  exact ⟨hrow_between, hcol_between, hrow_ne, hcol_ne⟩

theorem toNat_ofInt {i : Int} (h0 : 0 ≤ i) (h : i < 256) : ((UInt8.ofInt i).toNat : Int) = i := by
  have hlt : i.toNat < UInt8.size := (Int.toNat_lt h0).mpr h
  have hmod : i % 2 ^ 8 = i := Int.emod_eq_of_lt h0 h
  rw [UInt8.ofInt, hmod, UInt8.toNat_ofNat_of_lt' hlt, Int.toNat_of_nonneg h0]

theorem ofInt_toNat (x : UInt8) : UInt8.ofInt x.toNat = x := by
  have hlt := x.toNat_lt
  exact UInt8.toNat_inj.mp (Int.ofNat.inj (toNat_ofInt (by omega) (by omega)))

/-- On the way the conversion to a pixel loses nothing. -/
theorem ShortOf.px (h : ShortOf x1 y1 x2 y2 l.uRow l.uCol) :
    (l.px.1.toNat : Int) = l.uRow ∧ (l.px.2.toNat : Int) = l.uCol := by
  have hx1 := x1.toNat_lt
  have hx2 := x2.toNat_lt
  have hy1 := y1.toNat_lt
  have hy2 := y2.toNat_lt
  have hrow := h.row_between
  have hcol := h.col_between
  exact ⟨toNat_ofInt (by omega) (by omega), toNat_ofInt (by omega) (by omega)⟩

theorem lineLoop_shortOf {n : Nat} (h : LineAt (lineSetup x1 y1 x2 y2) x1.toNat y1.toNat t l)
    (ht : (t + n : Int) ≤ (lineSetup x1 y1 x2 y2).distance + 1) :
    ∀ p ∈ lineLoop (lineSetup x1 y1 x2 y2) n l, ShortOf x1 y1 x2 y2 p.1.toNat p.2.toNat := by
  induction n generalizing t l with
  | zero => exact List.forall_mem_nil _
  | succ n ih =>
    obtain ⟨hx, hy⟩ := lineSetup_spec x1 y1 x2 y2
    have hshort := h.shortOf (by omega)
    obtain ⟨hrow, hcol⟩ := hshort.px
    refine List.forall_mem_cons.mpr ⟨?_, ih (h.step hx.le_distance hy.le_distance) ?_⟩
    · rw [hrow, hcol]
      exact hshort
    · push_cast at ht ⊢
      omega

theorem lineLoop_near {n : Nat} (h : LineAt (lineSetup x1 y1 x2 y2) x1.toNat y1.toNat t l)
    (ht : (t + n : Int) ≤ (lineSetup x1 y1 x2 y2).distance + 1) :
    (lineLoop (lineSetup x1 y1 x2 y2) n l).IsChain Near := by
  induction n generalizing t l with
  | zero => exact .nil
  | succ n ih =>
    obtain ⟨hx, hy⟩ := lineSetup_spec x1 y1 x2 y2
    have hnext := h.step hx.le_distance hy.le_distance
    cases n with
    | zero => exact .singleton _
    | succ n =>
      obtain ⟨hrow, hcol⟩ := (h.shortOf (by omega)).px
      obtain ⟨hrow', hcol'⟩ := (hnext.shortOf (by push_cast at ht ⊢; omega)).px
      have hnear := lineStep_near (lineSetup x1 y1 x2 y2) l hx.inc_eq hy.inc_eq
      refine List.IsChain.cons_cons ?_ (ih hnext (by push_cast at ht ⊢; omega))
      unfold Near
      omega

theorem lineAt_start (x1 y1 x2 y2 : UInt8) :
    LineAt (lineSetup x1 y1 x2 y2) x1.toNat y1.toNat 0 ⟨x1.toNat, y1.toNat, 0, 0⟩ := by
  have hnonneg := (lineSetup_spec x1 y1 x2 y2).1.distance_nonneg
  exact ⟨⟨0, .zero hnonneg, by simp⟩, ⟨0, .zero hnonneg, by simp⟩⟩

/-- Every pixel of a line lies between its ends and misses the far end on every axis on which
they differ. -/
theorem oledLinePixels_shortOf (x1 y1 x2 y2 : UInt8) :
    ∀ p ∈ oledLinePixels x1 y1 x2 y2, ShortOf x1 y1 x2 y2 p.1.toNat p.2.toNat := by
  refine lineLoop_shortOf (lineAt_start x1 y1 x2 y2) ?_
  have := (lineSetup_spec x1 y1 x2 y2).1.distance_nonneg
  omega

theorem oledLinePixels_near (x1 y1 x2 y2 : UInt8) :
    (oledLinePixels x1 y1 x2 y2).IsChain Near := by
  refine lineLoop_near (lineAt_start x1 y1 x2 y2) ?_
  have := (lineSetup_spec x1 y1 x2 y2).1.distance_nonneg
  omega

/-- What a line changes in the frame buffer. -/
theorem paints_oledDrawLine (b : OledBuff) (x1 y1 x2 y2 mode : UInt8) :
    Paints bit (fun p => ∃ q ∈ oledLinePixels x1 y1 x2 y2, p = pixelAt q.1.toNat q.2.toNat)
      (mode != 0) b (oledDrawLine b x1 y1 x2 y2 mode) :=
  Paints.foldl (fun q _ b => paints_oledDrawPx b q.1 q.2 (mode != 0)) b

/-! ## The ends -/

/-- A pixel of the rectangle spanned by two others. -/
def Spanned (x1 y1 x2 y2 : UInt8) (p : Px) : Prop :=
  (min x1.toNat x2.toNat ≤ p.1.toNat ∧ p.1.toNat ≤ max x1.toNat x2.toNat) ∧
    min y1.toNat y2.toNat ≤ p.2.toNat ∧ p.2.toNat ≤ max y1.toNat y2.toNat

/-- A line joins its ends: both are drawn, no pixel lies outside of the rectangle they span, and
each pixel touches the one before it. -/
structure Joins (x1 y1 x2 y2 : UInt8) (pixels : List Px) : Prop where
  start_mem : (x1, y1) ∈ pixels
  stop_mem : (x2, y2) ∈ pixels
  spanned : ∀ p ∈ pixels, Spanned x1 y1 x2 y2 p
  near : pixels.IsChain Near

theorem ShortOf.spanned {p : Px} (h : ShortOf x1 y1 x2 y2 p.1.toNat p.2.toNat) :
    Spanned x1 y1 x2 y2 p := by
  have hrow := h.row_between
  have hcol := h.col_between
  unfold Spanned
  omega

theorem start_mem_oledLinePixels (x1 y1 x2 y2 : UInt8) :
    (x1, y1) ∈ oledLinePixels x1 y1 x2 y2 := by
  have hnonneg := (lineSetup_spec x1 y1 x2 y2).1.distance_nonneg
  obtain ⟨n, hn⟩ : ∃ n, ((lineSetup x1 y1 x2 y2).distance + 1).toNat = n + 1 :=
    ⟨(lineSetup x1 y1 x2 y2).distance.toNat, by omega⟩
  have hstart : LineState.px ⟨x1.toNat, y1.toNat, 0, 0⟩ = (x1, y1) := by
    rw [LineState.px, ofInt_toNat, ofInt_toNat]
  unfold oledLinePixels
  dsimp only
  rw [hn, lineLoop, hstart]
  exact List.mem_cons_self

/-- The far end of a line is drawn only if it is the near end. -/
theorem stop_mem_oledLinePixels (h : (x2, y2) ∈ oledLinePixels x1 y1 x2 y2) :
    (x1, y1) = (x2, y2) := by
  have hshort := oledLinePixels_shortOf x1 y1 x2 y2 _ h
  have hx : x1.toNat = x2.toNat := by
    by_contra hne
    exact hshort.row_ne (mod_cast hne) rfl
  have hy : y1.toNat = y2.toNat := by
    by_contra hne
    exact hshort.col_ne (mod_cast hne) rfl
  rw [UInt8.toNat_inj.mp hx, UInt8.toNat_inj.mp hy]

/-- Lines start at their near end, stay in the rectangle and are connected; what they lack is the
far end, unless the line is a point. -/
theorem oledLinePixels_joins_iff (x1 y1 x2 y2 : UInt8) :
    Joins x1 y1 x2 y2 (oledLinePixels x1 y1 x2 y2) ↔ (x1, y1) = (x2, y2) := by
  constructor
  · exact fun h => stop_mem_oledLinePixels h.stop_mem
  · intro hpoint
    have hstart := start_mem_oledLinePixels x1 y1 x2 y2
    exact
      { start_mem := hstart
        stop_mem := hpoint ▸ hstart
        spanned := fun p hp => (oledLinePixels_shortOf x1 y1 x2 y2 p hp).spanned
        near := oledLinePixels_near x1 y1 x2 y2 }

/-- The upper edge of the box around the title of a list. -/
theorem box_edge_misses_corner : ¬Joins 0 0 127 0 (oledLinePixels 0 0 127 0) := by
  intro h
  have hmem : ((127, 0) : Px) ∉ oledLinePixels 0 0 127 0 := by decide +kernel
  exact hmem h.stop_mem

end DoorLock
