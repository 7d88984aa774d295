import DoorLock.GlyphPaint

/-!
# What a mask draws (`widget.c`, `uni_font.h`)

The rows of a mask begin with a whole byte. The loop of `oled_print_char` has a bound that is too
low where rows end within a byte, and raises it by the bits it has dropped; it ends at the last row.
-/

namespace DoorLock

open Raster

/-- How many bytes a row of a mask takes. -/
def rowBytes (width : Nat) : Nat := (width + 7) / 8

/-- The bit of column `c` in row `r` of a mask. -/
def mskBit (msk : Nat → UInt8) (width r c : Nat) : Bool :=
  (msk (r * rowBytes width + c / 8)).toBitVec.getLsbD (c % 8)

/-- The length of `msk` in `mskkit48`, `mskkit16` and `mskkit72`. -/
def mskLength (lang : Option LanguageE) (size : Nat) : Nat :=
  if lang = some .eng then (if size = 24 then 48 else 16) else 72

/-- `printBytes` with the numbers of the bytes it reads. -/
def printBytesRead (msk : Nat → UInt8) (x y width size mskSize : Nat) (txtClr : Bool) :
    Nat → Nat → PrintState → PrintState × List Nat
  | 0, _, s => (s, [])
  | n + 1, byte, s =>
    if byte < mskSize + s.mskDropBit / 8 then
      let s := printBits x y width txtClr 8 (msk byte) s
      if s.xShift ≥ width then
        let s := { s with xShift := 0, yShift := u8 (s.yShift + 1 : Nat) }
        if s.yShift ≥ size then (s, [byte])
        else
          let (s, read) := printBytesRead msk x y width size mskSize txtClr n (byte + 1) s
          (s, byte :: read)
      else
        let (s, read) := printBytesRead msk x y width size mskSize txtClr n (byte + 1) s
        (s, byte :: read)
    else (s, [])

/-- The bytes of its mask that `oled_print_char` reads. -/
def oledPrintCharRead (fonts : Fonts) (b : OledBuff) (x y : Nat) (lang : Option LanguageE)
    (chr : List UInt8) (size : Nat) (txtClr : Bool) : List Nat :=
  match getCharMsk fonts lang size chr with
  | none => []
  | some msk =>
    let width := u8 (charWidth lang size)
    let mskSize := u8 (width * size / 8 : Nat)
    (printBytesRead msk x y width size mskSize txtClr 256 0 ⟨b, 0, 0, 0⟩).2

variable {msk : Nat → UInt8} {x y width size mskSize n t : Nat} {txtClr : Bool}
variable {b : OledBuff} {s s' : PrintState}

theorem printBytesRead_fst :
    (printBytesRead msk x y width size mskSize txtClr n t s).1
      = printBytes msk x y width size mskSize txtClr n t s := by
  induction n generalizing t s with
  | zero => rfl
  | succ n ih =>
    rw [printBytesRead, printBytes]
    dsimp only
    split
    case isFalse => rfl
    case isTrue =>
      split
      case isFalse => exact ih
      case isTrue =>
        split
        case isTrue => rfl
        case isFalse => exact ih

/-! ## The bytes of a mask -/

theorem succ_div_mod (t : Nat) {k : Nat} (hk : 0 < k) :
    (t % k + 1 < k ∧ (t + 1) / k = t / k ∧ (t + 1) % k = t % k + 1) ∨
      t % k + 1 = k ∧ (t + 1) / k = t / k + 1 ∧ (t + 1) % k = 0 := by
  have hlt := Nat.mod_lt t hk
  have hdiv := Nat.div_add_mod t k
  rcases Nat.lt_or_eq_of_le (Nat.succ_le_of_lt hlt) with h | h
  · exact .inl ⟨h, (Nat.div_mod_unique hk).mpr ⟨by omega, h⟩⟩
  · refine .inr ⟨h, (Nat.div_mod_unique hk).mpr ⟨?_, hk⟩⟩
    rw [Nat.mul_succ]
    omega

/-- The bits dropped at the end of a row, and one more. -/
def rowDrop (width : Nat) : Nat := 8 * rowBytes width + 1 - width

/-- The points that the bytes of a mask in front of byte `t` draw. -/
def MskArea (msk : Nat → UInt8) (x y width t p : Nat) : Prop :=
  ∃ r c, c < width ∧ r * rowBytes width + c / 8 < t ∧ mskBit msk width r c = true ∧
    p = pixelAt (x + c) (y + r)

/-- Byte `t` of the mask comes next: all bytes in front of it are drawn, and bits were dropped in
every row above. -/
structure AtByte (msk : Nat → UInt8) (x y width : Nat) (txtClr : Bool) (b : OledBuff) (t : Nat)
    (s : PrintState) : Prop where
  xShift : s.xShift = 8 * (t % rowBytes width)
  yShift : s.yShift = t / rowBytes width
  mskDropBit : s.mskDropBit = rowDrop width * (t / rowBytes width)
  paints : Paints bit (MskArea msk x y width t) txtClr b s.buf

/-- The bound of the loop lets every byte pass, and no counter overflows. -/
structure MskRuns (width size mskSize : Nat) : Prop where
  width_pos : 0 < width
  width_lt : width < 256
  size_lt : size < 256
  drop_lt : rowDrop width * size < 256
  bytes_le : size * rowBytes width ≤ 256
  bound : ∀ t < size * rowBytes width, t < mskSize + rowDrop width * (t / rowBytes width) / 8

theorem rowBytes_pos (h : 0 < width) : 0 < rowBytes width := by
  unfold rowBytes
  omega

theorem rowBytes_bounds (width : Nat) :
    width ≤ 8 * rowBytes width ∧ 8 * rowBytes width ≤ width + 7 := by
  unfold rowBytes
  omega

/-- The byte of a column lies in its row. -/
theorem div_lt_rowBytes {c : Nat} (hc : c < width) : c / 8 < rowBytes width := by
  have hbounds := rowBytes_bounds width
  omega

theorem mskBit_byte (msk : Nat → UInt8) (width t : Nat) {i : Nat} (hi : i < 8) :
    mskBit msk width (t / rowBytes width) (8 * (t % rowBytes width) + i)
      = (msk t).toBitVec.getLsbD i := by
  unfold mskBit
  rw [Nat.mul_add_div (by decide), Nat.div_eq_of_lt hi, Nat.add_zero, Nat.div_add_mod',
    Nat.mul_add_mod, Nat.mod_eq_of_lt hi]

/-- One more byte draws its bits, up to the end of the row. -/
theorem mskArea_succ {p : Nat} (hw : 0 < width) : MskArea msk x y width (t + 1) p ↔
    MskArea msk x y width t p ∨ ∃ i < min 8 (width - 8 * (t % rowBytes width)),
      (msk t).toBitVec.getLsbD i = true ∧
        p = pixelAt (x + (8 * (t % rowBytes width) + i)) (y + t / rowBytes width) := by
  constructor
  · rintro ⟨r, c, hc, hlt, hbit, rfl⟩
    rcases Nat.lt_or_eq_of_le (Nat.le_of_lt_succ hlt) with hlt | heq
    · exact .inl ⟨r, c, hc, hlt, hbit, rfl⟩
    · obtain ⟨hr, hc8⟩ := (Nat.div_mod_unique (a := t) (d := r) (rowBytes_pos hw)).mpr
        ⟨by rw [Nat.mul_comm]; omega, div_lt_rowBytes hc⟩
      have hsplit : 8 * (t % rowBytes width) + c % 8 = c := by omega
      refine .inr ⟨c % 8, by omega, ?_, by rw [hsplit, hr]⟩
      rw [← mskBit_byte msk width t (Nat.mod_lt c (by decide)), hsplit, hr, hbit]
  · rintro (⟨r, c, hc, hlt, hbit, rfl⟩ | ⟨i, hi, hbit, rfl⟩)
    · exact ⟨r, c, hc, Nat.lt_succ_of_lt hlt, hbit, rfl⟩
    · refine ⟨_, _, by omega, ?_, (mskBit_byte msk width t (by omega)).trans hbit, rfl⟩
      have hdiv := Nat.div_add_mod' t (rowBytes width)
      omega

theorem AtByte.start (msk : Nat → UInt8) (b : OledBuff) :
    AtByte msk x y width txtClr b 0 ⟨b, 0, 0, 0⟩ where
  xShift := by rw [Nat.zero_mod]
  yShift := (Nat.zero_div _).symm
  mskDropBit := by rw [Nat.zero_div]; rfl
  paints := .nil fun _ ⟨_, _, _, hlt, _⟩ => Nat.not_lt_zero _ hlt

/-- The bits of a byte are those the area grows by. -/
theorem AtByte.paints_succ (hat : AtByte msk x y width txtClr b t s) (hw : 0 < width)
    (hbits : PrintsBits x y width (min 8 (width - s.xShift)) 8 txtClr (msk t) s s') :
    Paints bit (MskArea msk x y width (t + 1)) txtClr b s'.buf := by
  refine (hat.paints.trans hbits.paints).congr fun p => ?_
  rw [mskArea_succ hw, hat.xShift, hat.yShift]

/-- A byte that does not end its row. -/
theorem AtByte.within (hat : AtByte msk x y width txtClr b t s) (hw : 0 < width)
    (hbits : PrintsBits x y width (min 8 (width - s.xShift)) 8 txtClr (msk t) s s')
    (hlt : t % rowBytes width + 1 < rowBytes width)
    (hdiv : (t + 1) / rowBytes width = t / rowBytes width)
    (hmod : (t + 1) % rowBytes width = t % rowBytes width + 1) :
    s'.xShift < width ∧ AtByte msk x y width txtClr b (t + 1) s' := by
  have hshift := hat.xShift
  have hshift' := hbits.xShift
  have hk := (rowBytes_bounds width).2
  refine ⟨by omega, by omega, ?_, ?_, hat.paints_succ hw hbits⟩
  · rw [hbits.yShift, hat.yShift, hdiv]
  · rw [hbits.mskDropBit, if_neg (by omega), hat.mskDropBit, hdiv]

/-- A byte that ends its row. -/
theorem AtByte.rowEnd (hat : AtByte msk x y width txtClr b t s)
    (hruns : MskRuns width size mskSize) (ht : t < size * rowBytes width)
    (hbits : PrintsBits x y width (min 8 (width - s.xShift)) 8 txtClr (msk t) s s')
    (hend : t % rowBytes width + 1 = rowBytes width)
    (hdiv : (t + 1) / rowBytes width = t / rowBytes width + 1)
    (hmod : (t + 1) % rowBytes width = 0) :
    s'.xShift = width ∧ AtByte msk x y width txtClr b (t + 1)
      { s' with xShift := 0, yShift := u8 (s'.yShift + 1 : Nat) } := by
  have hw := hruns.width_pos
  have hsize := hruns.size_lt
  have hpaints := hat.paints_succ hw hbits
  have hshift := hat.xShift
  have hshift' := hbits.xShift
  have hk := rowBytes_bounds width
  have hrow : t / rowBytes width < size := (Nat.div_lt_iff_lt_mul (rowBytes_pos hw)).mpr ht
  have hdrop : rowDrop width * (t / rowBytes width) + rowDrop width < 256 := by
    rw [← Nat.mul_succ]
    exact (Nat.mul_le_mul_left _ hrow).trans_lt hruns.drop_lt
  have hmore : 8 + 1 - min 8 (width - s.xShift) = rowDrop width := by
    unfold rowDrop
    omega
  refine ⟨by omega, by rw [hmod], ?_, ?_, hpaints⟩
  · rw [hbits.yShift, hat.yShift, hdiv, u8_of_lt (by omega)]
  · dsimp only
    rw [hbits.mskDropBit, if_pos (by omega), hat.mskDropBit, hdiv, hmore, u8_of_lt hdrop,
      Nat.mul_succ]

/-- The loop over the bits starts in a row and column of the mask. -/
theorem AtByte.printsBits (hat : AtByte msk x y width txtClr b t s)
    (hruns : MskRuns width size mskSize) (hx : x + width ≤ 256) (hy : y + size ≤ 256)
    (ht : t < size * rowBytes width) :
    PrintsBits x y width (min 8 (width - s.xShift)) 8 txtClr (msk t) s
      (printBits x y width txtClr 8 (msk t) s) := by
  have hk := rowBytes_pos hruns.width_pos
  have hrow : t / rowBytes width < size := (Nat.div_lt_iff_lt_mul hk).mpr ht
  have hcol : s.xShift < width := by
    have hmod := Nat.mod_lt t hk
    have hbounds := rowBytes_bounds width
    rw [hat.xShift]
    omega
  refine printBits_printsBits hx ?_ hruns.width_lt hcol
  rw [hat.yShift]
  omega

/-- The loop over the bytes goes on to the next byte, and ends behind the last row. -/
theorem printBytesRead_succ (hat : AtByte msk x y width txtClr b t s)
    (hruns : MskRuns width size mskSize) (hx : x + width ≤ 256) (hy : y + size ≤ 256)
    (ht : t < size * rowBytes width) :
    ∃ s', AtByte msk x y width txtClr b (t + 1) s' ∧ ∀ n,
      printBytesRead msk x y width size mskSize txtClr (n + 1) t s =
        if t + 1 = size * rowBytes width then (s', [t])
        else
          ((printBytesRead msk x y width size mskSize txtClr n (t + 1) s').1,
            t :: (printBytesRead msk x y width size mskSize txtClr n (t + 1) s').2) := by
  have hw := hruns.width_pos
  have hk := rowBytes_pos hw
  have hlt := hruns.bound t ht
  rw [← hat.mskDropBit] at hlt
  have hbits := hat.printsBits hruns hx hy ht
  rcases succ_div_mod t hk with ⟨hin, hdiv, hmod⟩ | ⟨hend, hdiv, hmod⟩
  · obtain ⟨hcol', hat'⟩ := hat.within hw hbits hin hdiv hmod
    have hne : t + 1 ≠ size * rowBytes width := by
      intro heq
      rw [heq, Nat.mul_mod_left] at hmod
      omega
    refine ⟨_, hat', fun n => ?_⟩
    rw [printBytesRead, if_pos hlt, if_neg hne]
    dsimp only
    rw [if_neg (Nat.not_le_of_lt hcol')]
  · obtain ⟨hcol', hat'⟩ := hat.rowEnd hruns ht hbits hend hdiv hmod
    have hrow' : u8 ((printBits x y width txtClr 8 (msk t) s).yShift + 1 : Nat)
        = (t + 1) / rowBytes width := hat'.yShift
    have hlast : t + 1 = size * rowBytes width ↔
        size ≤ u8 ((printBits x y width txtClr 8 (msk t) s).yShift + 1 : Nat) := by
      rw [hrow', Nat.le_div_iff_mul_le hk]
      omega
    refine ⟨_, hat', fun n => ?_⟩
    rw [printBytesRead, if_pos hlt]
    dsimp only
    rw [if_pos (Nat.le_of_eq hcol'.symm)]
    split
    case isTrue h => rw [if_pos (hlast.mpr h)]
    case isFalse h => rw [if_neg (mt hlast.mp h)]

/-- From any byte on the loop reads every byte that is left, and ends when all are drawn. -/
theorem printBytesRead_run (hat : AtByte msk x y width txtClr b t s)
    (hruns : MskRuns width size mskSize) (hx : x + width ≤ 256) (hy : y + size ≤ 256)
    (ht : t < size * rowBytes width) (hn : size * rowBytes width ≤ t + n) :
    ∃ s', AtByte msk x y width txtClr b (size * rowBytes width) s' ∧
      printBytesRead msk x y width size mskSize txtClr n t s
        = (s', List.range' t (size * rowBytes width - t)) := by
  induction n generalizing t s with
  | zero => exact absurd ht (Nat.not_lt_of_le hn)
  | succ n ih =>
    obtain ⟨s₁, hat₁, hstep⟩ := printBytesRead_succ hat hruns hx hy ht
    rw [hstep n]
    by_cases hlast : t + 1 = size * rowBytes width
    · rw [if_pos hlast, ← hlast, Nat.add_sub_cancel_left]
      exact ⟨s₁, hat₁, rfl⟩
    · obtain ⟨s', hat', hrun⟩ := ih hat₁ (by omega) (by omega)
      have hleft : size * rowBytes width - t = size * rowBytes width - (t + 1) + 1 := by omega
      refine ⟨s', hat', ?_⟩
      rw [if_neg hlast, hrun, hleft, List.range'_succ]

/-! ## A character -/

instance : Decidable (MskRuns width size mskSize) :=
  decidable_of_iff (0 < width ∧ width < 256 ∧ size < 256 ∧ rowDrop width * size < 256 ∧
      size * rowBytes width ≤ 256 ∧
      ∀ t < size * rowBytes width, t < mskSize + rowDrop width * (t / rowBytes width) / 8)
    ⟨fun ⟨hw, hw', hs, hd, hb, ht⟩ => ⟨hw, hw', hs, hd, hb, ht⟩,
      fun h => ⟨h.width_pos, h.width_lt, h.size_lt, h.drop_lt, h.bytes_le, h.bound⟩⟩

variable {fonts : Fonts} {lang : Option LanguageE} {chr : List UInt8}

/-- There are English masks of 24 and of 16 pixels, and Chinese ones of 24. -/
theorem getCharMsk_kinds (h : getCharMsk fonts lang size chr = some msk) :
    (lang = some .eng ∧ (size = 24 ∨ size = 16)) ∨
      (lang = some .hans ∨ lang = some .hant) ∧ size = 24 := by
  unfold getCharMsk at h
  split at h
  · refine .inl ⟨rfl, ?_⟩
    split at h
    case isTrue hsize => exact .inl hsize
    case isFalse =>
      split at h
      case isTrue hsize => exact .inr hsize
      case isFalse => cases h
  · split at h
    case isTrue hsize => exact .inr ⟨.inl rfl, hsize⟩
    case isFalse => cases h
  · split at h
    case isTrue hsize => exact .inr ⟨.inr rfl, hsize⟩
    case isFalse => cases h
  · cases h

theorem mskRuns_of_getCharMsk (h : getCharMsk fonts lang size chr = some msk) :
    MskRuns (charWidth lang size) size (u8 (charWidth lang size * size / 8 : Nat)) ∧
      size * rowBytes (charWidth lang size) = mskLength lang size := by
  rcases getCharMsk_kinds h with ⟨rfl, rfl | rfl⟩ | ⟨rfl | rfl, rfl⟩
  · decide +kernel
  · decide +kernel
  · decide +kernel
  · decide +kernel

/-- The whole mask is drawn, and read byte by byte. -/
theorem oledPrintChar_paints (h : getCharMsk fonts lang size chr = some msk)
    (hx : x + charWidth lang size ≤ 256) (hy : y + size ≤ 256) (b : OledBuff) (txtClr : Bool) :
    Paints bit (MskArea msk x y (charWidth lang size) (mskLength lang size)) txtClr b
        (oledPrintChar fonts b x y lang chr size txtClr) ∧
      oledPrintCharRead fonts b x y lang chr size txtClr = List.range (mskLength lang size) := by
  obtain ⟨hruns, hlen⟩ := mskRuns_of_getCharMsk h
  have hpos : 0 < mskLength lang size := by
    unfold mskLength
    split
    · split <;> decide
    · decide
  obtain ⟨s', hat, hrun⟩ := printBytesRead_run (n := 256) (AtByte.start msk b) hruns hx hy
    (hlen ▸ hpos) (by rw [Nat.zero_add]; exact hruns.bytes_le)
  unfold oledPrintChar oledPrintCharRead
  rw [h]
  dsimp only
  rw [u8_of_lt hruns.width_lt, ← printBytesRead_fst, hrun, hlen, Nat.sub_zero]
  exact ⟨hlen ▸ hat.paints, List.range_eq_range'.symm⟩

/-- The points of a whole mask. -/
theorem mskArea_pixelAt (msk : Nat → UInt8) (x' : Nat) {y' : Nat}
    (hlen : size * rowBytes width = t) (hy : y + size ≤ 64) (hy' : y' < 64) :
    MskArea msk x y width t (pixelAt x' y') ↔
      ∃ c < width, ∃ r < size, mskBit msk width r c = true ∧ x' = x + c ∧ y' = y + r := by
  subst hlen
  constructor
  · rintro ⟨r, c, hc, hlt, hbit, hp⟩
    have hr : r < size := Nat.lt_of_mul_lt_mul_right (Nat.lt_of_le_of_lt (Nat.le_add_right _ _) hlt)
    unfold pixelAt at hp
    exact ⟨c, hc, r, hr, hbit, by omega, by omega⟩
  · rintro ⟨c, hc, r, hr, hbit, rfl, rfl⟩
    refine ⟨r, c, hc, ?_, hbit, rfl⟩
    have hcol := div_lt_rowBytes hc
    have hle := Nat.mul_le_mul_right (rowBytes width) hr
    rw [Nat.succ_mul] at hle
    omega

/-- A character that is in the tables sets, or clears, exactly the pixels of its cell whose bit in
the mask is 1, leaves all others as they are, and reads no byte behind its mask. -/
theorem oledPrintChar_decodes (fonts : Fonts) (b : OledBuff) (x y : Nat) (lang : Option LanguageE)
    (chr : List UInt8) (size : Nat) (txtClr : Bool) (msk : Nat → UInt8)
    (hmsk : getCharMsk fonts lang size chr = some msk) (hx : x + charWidth lang size ≤ 128)
    (hy : y + size ≤ 64) :
    (∀ c < charWidth lang size, ∀ r < size,
      (oledPrintChar fonts b x y lang chr size txtClr).pixel (x + c) (y + r)
        = if mskBit msk (charWidth lang size) r c then txtClr else b.pixel (x + c) (y + r)) ∧
      (∀ x' y', y' < 64 →
        ¬((x ≤ x' ∧ x' < x + charWidth lang size) ∧ y ≤ y' ∧ y' < y + size) →
          (oledPrintChar fonts b x y lang chr size txtClr).pixel x' y' = b.pixel x' y') ∧
      ∀ i ∈ oledPrintCharRead fonts b x y lang chr size txtClr, i < mskLength lang size := by
  obtain ⟨hpaints, hread⟩ := oledPrintChar_paints (x := x) (y := y) hmsk (by omega) (by omega) b
    txtClr
  have hlen := (mskRuns_of_getCharMsk hmsk).2
  refine ⟨fun c hc r hr => ?_, fun x' y' hy' hout => ?_, fun i hi => ?_⟩
  · have harea := mskArea_pixelAt (x := x) msk (x + c) hlen hy (show y + r < 64 by omega)
    obtain ⟨hin, hout⟩ := hpaints (pixelAt (x + c) (y + r))
    split
    case isTrue hbit => exact hin (harea.mpr ⟨c, hc, r, hr, hbit, rfl, rfl⟩)
    case isFalse hbit =>
      refine hout fun h => hbit ?_
      obtain ⟨c', -, r', -, hbit', hc', hr'⟩ := harea.mp h
      obtain rfl : c = c' := by omega
      obtain rfl : r = r' := by omega
      exact hbit'
  · refine (hpaints (pixelAt x' y')).2 fun h => hout ?_
    obtain ⟨c, hc, r, hr, -, rfl, rfl⟩ := (mskArea_pixelAt msk x' hlen hy hy').mp h
    omega
  · rw [hread] at hi
    exact List.mem_range.mp hi

/-- Masks with every other bit set. -/
def stripedFonts : Fonts := ⟨fun _ _ => 0x55, fun _ _ => 0x55, fun _ _ => 0x55⟩

theorem oledPrintChar_decodes_striped :
    mskBit (fun _ => 0x55) 12 23 10 = true ∧
      (∀ c < 12, ∀ r < 24,
        (oledPrintChar stripedFonts (fun _ => 0) 0 0 (some .eng) [0x41] 24 true).pixel (0 + c)
            (0 + r) = if mskBit (fun _ => 0x55) 12 r c then true
              else OledBuff.pixel (fun _ => 0) (0 + c) (0 + r)) ∧
      (∀ x' y', y' < 64 → ¬((0 ≤ x' ∧ x' < 0 + 12) ∧ 0 ≤ y' ∧ y' < 0 + 24) →
        (oledPrintChar stripedFonts (fun _ => 0) 0 0 (some .eng) [0x41] 24 true).pixel x' y'
          = OledBuff.pixel (fun _ => 0) x' y') ∧
      ∀ i ∈ oledPrintCharRead stripedFonts (fun _ => 0) 0 0 (some .eng) [0x41] 24 true,
        i < 48 := by
  have hidx : fontEnIndex.findIdx? (CString.strcmpEq · [0x41]) = some 0 := by decide +kernel
  have hmsk : getCharMsk stripedFonts (some .eng) 24 [0x41] = some fun _ => 0x55 := by
    unfold getCharMsk
    dsimp only
    rw [if_pos rfl, hidx]
    rfl
  refine ⟨by decide, ?_⟩
  exact oledPrintChar_decodes stripedFonts (fun _ => 0) 0 0 (some .eng) [0x41] 24 true _ hmsk
    (by decide) (by decide)

end DoorLock
