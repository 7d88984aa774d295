import DoorLock.Label
import DoorLock.Lib.Wrap

/-!
# The layout of a text

What the layout loop does to a text of characters it knows: it fills rows greedily, and a row ends
at its last divider, at the end of the text, or where it is full. Behind the characters the text
may end, or go on with something the loop does not know.
-/

namespace DoorLock

/-- A character with a first byte the loops of a label know. -/
inductive Chr
  | ascii (a : UInt8) (h : a ≠ 0 ∧ a < 0x80)
  | two (a b : UInt8) (h : (0xC0 ≤ a ∧ a < 0xD0) ∧ b ≠ 0)
  | three (a b c : UInt8) (h : (0xE0 ≤ a ∧ a < 0xF0) ∧ b ≠ 0 ∧ c ≠ 0)

namespace Chr

def bytes : Chr → List UInt8
  | ascii a _ => [a]
  | two a b _ => [a, b]
  | three a b c _ => [a, b, c]

def lead : Chr → UInt8
  | ascii a _ => a
  | two a _ _ => a
  | three a _ _ _ => a

def len : Chr → Nat
  | ascii .. => 1
  | two .. => 2
  | three .. => 3

def isNewline : Chr → Bool
  | ascii a _ => a == 0x0A
  | _ => false

/-- The place where a row may end once a character at offset `p` is taken, behind what is `x`
wide: before a divider, behind a character of three bytes. -/
def mark (f p x : Nat) (divider : Option (Nat × Nat)) : Chr → Option (Nat × Nat)
  | ascii a _ => if isDivider a || a == 0x0A then some (p, x) else divider
  | two .. => divider
  | three .. => some (p + 3, x + f)

theorem lead_ne_zero (c : Chr) : c.lead ≠ 0 := by
  cases c with
  | ascii a h => exact h.1
  | two a b h =>
    rintro rfl
    exact absurd h.1.1 (by decide)
  | three a b c h =>
    rintro rfl
    exact absurd h.1.1 (by decide)

theorem length_bytes (c : Chr) : c.bytes.length = c.len := by cases c <;> rfl

theorem len_pos (c : Chr) : 0 < c.len := by cases c <;> exact Nat.succ_pos _

theorem bytes_ne_zero (c : Chr) : ∀ b ∈ c.bytes, b ≠ 0 := by
  cases c with
  | ascii a h => simpa [bytes] using h.1
  | two a b h => simpa [bytes] using ⟨lead_ne_zero (two a b h), h.2⟩
  | three a b c h => simpa [bytes] using ⟨lead_ne_zero (three a b c h), h.2⟩

end Chr

/-- The rows of a label with font size `f` whose free width is `fx`. -/
def textWrap (f fx : Nat) : Wrap Chr where
  fits x
    | .ascii .. => decide (x + f < fx) || decide (x + f / 2 < fx)
    | _ => decide (x + f < fx)
  width c := if c.isNewline then 0 else match c with
    | .ascii .. => f / 2
    | _ => f
  breaks := Chr.isNewline

/-- The number of bytes of some characters. -/
def byteLen (cs : List Chr) : Nat := (cs.map Chr.len).sum

/-- The divider of a row after some more characters. -/
def markAll (f : Nat) : Nat → Nat → Option (Nat × Nat) → List Chr → Option (Nat × Nat)
  | _, _, d, [] => d
  | p, x, d, c :: cs => markAll f (p + c.len) (x + (textWrap f 0).width c) (c.mark f p x d) cs

/-- The characters `cs` are in memory from `p` on and end before `e`. -/
def TextAt (mem : Nat → UInt8) : Nat → List Chr → Nat → Prop
  | p, [], e => p = e
  | p, c :: cs, e => mem p = c.lead ∧ TextAt mem (p + c.len) cs e

variable {mem : Nat → UInt8} {f fx p e x : Nat} {c : Chr} {cs : List Chr} {s : RowState}

/-- The first byte of a character of more than one byte. -/
theorem not_ascii_of_le {a b : UInt8} (hb : b ≤ a) (h : 0x80 ≤ b) : ¬a < 0x80 := by
  rw [UInt8.not_lt]
  exact UInt8.le_trans h hb

theorem not_two_of_le {a : UInt8} (h : 0xE0 ≤ a) : ¬(0xC0 ≤ a ∧ a < 0xD0) := fun h' =>
  UInt8.lt_irrefl a (UInt8.lt_of_lt_of_le h'.2 (UInt8.le_trans (by decide) h))

/-! ## One row -/

theorem rowCond_chr (f fx : Nat) (h : mem s.strPtr = c.lead) (hbreak : s.breakLoopFlag = false) :
    rowCond mem f fx s = (textWrap f fx).fits s.xShift c := by
  have hne : (c.lead != 0) = true := bne_iff_ne.mpr c.lead_ne_zero
  unfold rowCond
  rw [h, hbreak, hne, Bool.true_and, Bool.not_false, Bool.and_true]
  cases c with
  | ascii a ha =>
    have hlt : decide ((Chr.ascii a ha).lead < 0x80) = true := decide_eq_true ha.2
    rw [hlt, Bool.true_and]
    rfl
  | two a b ha =>
    have hlt : decide ((Chr.two a b ha).lead < 0x80) = false :=
      decide_eq_false (not_ascii_of_le ha.1.1 (by decide))
    rw [hlt, Bool.false_and, Bool.or_false]
    rfl
  | three a b c ha =>
    have hlt : decide ((Chr.three a b c ha).lead < 0x80) = false :=
      decide_eq_false (not_ascii_of_le ha.1.1 (by decide))
    rw [hlt, Bool.false_and, Bool.or_false]
    rfl

theorem rowBody_chr (h : mem s.strPtr = c.lead) (hbreak : s.breakLoopFlag = false)
    (hfits : (textWrap f fx).fits s.xShift c) (hfx : fx < 256) :
    rowBody mem f s =
      { strPtr := s.strPtr + c.len
        xShift := s.xShift + (textWrap f fx).width c
        divider := c.mark f s.strPtr s.xShift s.divider
        breakLoopFlag := c.isNewline
        highest := s.highest } := by
  unfold rowBody
  cases c with
  | ascii a ha =>
    have hx : s.xShift + f / 2 < 256 := by
      simp only [textWrap, Bool.or_eq_true, decide_eq_true_eq] at hfits
      omega
    rw [h]
    dsimp only [Chr.lead]
    rw [if_pos ha.2]
    by_cases hnl : a = 0x0A
    · have hdiv : isDivider 0x0A = false := by decide
      simp [textWrap, Chr.isNewline, Chr.mark, Chr.len, hnl, hdiv]
    · rw [if_neg hnl]
      cases hdiv : isDivider a
      · rw [if_neg Bool.false_ne_true, u8_of_lt hx]
        simp [textWrap, Chr.isNewline, Chr.mark, Chr.len, hnl, hdiv, hbreak]
      · rw [if_pos rfl, u8_of_lt hx]
        simp [textWrap, Chr.isNewline, Chr.mark, Chr.len, hnl, hdiv, hbreak]
  | two a b ha =>
    have hx : s.xShift + f < 256 := by
      simp only [textWrap, decide_eq_true_eq] at hfits
      omega
    rw [h]
    dsimp only [Chr.lead]
    rw [if_neg (not_ascii_of_le ha.1.1 (by decide)), if_pos ha.1, u8_of_lt hx]
    simp [textWrap, Chr.isNewline, Chr.mark, Chr.len, hbreak]
  | three a b c ha =>
    have hx : s.xShift + f < 256 := by
      simp only [textWrap, decide_eq_true_eq] at hfits
      omega
    rw [h]
    dsimp only [Chr.lead]
    rw [if_neg (not_ascii_of_le ha.1.1 (by decide)), if_neg (not_two_of_le ha.1.1),
      if_pos ha.1, u8_of_lt hx]
    simp [textWrap, Chr.isNewline, Chr.mark, Chr.len, hbreak]

/-- The loop stops at offset `e`, behind what is `x` wide. -/
def RowStops (mem : Nat → UInt8) (f fx e x : Nat) : Prop :=
  mem e = 0 ∨ (¬mem e < 0x80 ∧ ¬x + f < fx)

theorem rowCond_of_stops (h : RowStops mem f fx s.strPtr s.xShift) :
    rowCond mem f fx s = false := by
  unfold rowCond
  rcases h with h | ⟨hlead, hroom⟩
  · simp [h]
  · simp [hlead, hroom]

/-- What the loop over the characters of a row leaves when it has taken `line`. -/
def afterLine (f fx : Nat) (s : RowState) (line : List Chr) : RowState :=
  { strPtr := s.strPtr + byteLen line
    xShift := s.xShift + (textWrap f fx).total line
    divider := markAll f s.strPtr s.xShift s.divider line
    breakLoopFlag := (textWrap f fx).broken line
    highest := max s.highest (s.strPtr + byteLen line) }

theorem byteLen_cons (c : Chr) (cs : List Chr) : byteLen (c :: cs) = c.len + byteLen cs := by
  simp [byteLen]

theorem read_eq_afterLine_nil (h : s.breakLoopFlag = false) : s.read = afterLine f fx s [] := by
  unfold RowState.read
  rw [h]
  rfl

/-- One more character in front of a line. -/
theorem afterLine_cons {s' : RowState} (line : List Chr)
    (hs' : s' =
      { strPtr := s.strPtr + c.len
        xShift := s.xShift + (textWrap f fx).width c
        divider := c.mark f s.strPtr s.xShift s.divider
        breakLoopFlag := c.isNewline
        highest := max s.highest s.strPtr })
    (hbroken : (textWrap f fx).broken (c :: line) = (textWrap f fx).broken line) :
    afterLine f fx s' line = afterLine f fx s (c :: line) := by
  subst hs'
  unfold afterLine
  rw [hbroken, Wrap.total_cons, byteLen_cons]
  congr 1
  · dsimp only
    omega
  · dsimp only
    omega
  · dsimp only
    omega

theorem read_eq_afterLine_singleton (s : RowState) (c : Chr) :
    RowState.read
        { strPtr := s.strPtr + c.len
          xShift := s.xShift + (textWrap f fx).width c
          divider := c.mark f s.strPtr s.xShift s.divider
          breakLoopFlag := c.isNewline
          highest := max s.highest s.strPtr }
      = afterLine f fx s [c] := by
  unfold RowState.read afterLine
  rw [byteLen_cons, Wrap.total_cons]
  congr 1
  dsimp only
  change _ = max s.highest (s.strPtr + (c.len + 0))
  omega

/-- The loop over the characters of a row takes a line of the text, unless it gets to the end of
the text and does not stop there. -/
theorem rowLoop_line {n : Nat} (hfx : fx < 256) (htext : TextAt mem s.strPtr cs e)
    (hbreak : s.breakLoopFlag = false)
    (hstop : (textWrap f fx).line s.xShift cs = cs → (textWrap f fx).broken cs = false →
      RowStops mem f fx e (s.xShift + (textWrap f fx).total cs))
    (hn : ((textWrap f fx).line s.xShift cs).length < n) :
    rowLoop mem f fx n s = some (afterLine f fx s ((textWrap f fx).line s.xShift cs)) := by
  induction cs generalizing s n with
  | nil =>
    obtain ⟨m, rfl⟩ := Nat.exists_eq_succ_of_ne_zero (Nat.ne_zero_of_lt hn)
    cases htext
    have hcond := rowCond_of_stops (s := s) (hstop rfl rfl)
    rw [rowLoop, hcond, if_neg Bool.false_ne_true]
    exact congrArg some (read_eq_afterLine_nil hbreak)
  | cons c cs ih =>
    obtain ⟨m, rfl⟩ := Nat.exists_eq_succ_of_ne_zero (Nat.ne_zero_of_lt hn)
    obtain ⟨hlead, hrest⟩ := htext
    have hcond := rowCond_chr f fx hlead hbreak
    rw [rowLoop, hcond]
    cases hfits : (textWrap f fx).fits s.xShift c with
    | false =>
      rw [if_neg Bool.false_ne_true, Wrap.line_of_not_fits hfits]
      exact congrArg some (read_eq_afterLine_nil hbreak)
    | true =>
      rw [if_pos rfl, rowBody_chr (s := s.read) hlead hbreak hfits hfx]
      cases hnl : (textWrap f fx).breaks c with
      | true =>
        rw [Wrap.line_of_breaks hfits hnl] at hn ⊢
        have hlt := Nat.lt_of_succ_lt_succ hn
        obtain ⟨k, rfl⟩ := Nat.exists_eq_succ_of_ne_zero (Nat.ne_zero_of_lt hlt)
        have hflag : c.isNewline = true := hnl
        have hdone : rowCond mem f fx
            ⟨s.read.strPtr + c.len, s.read.xShift + (textWrap f fx).width c,
              c.mark f s.read.strPtr s.read.xShift s.read.divider, c.isNewline,
              s.read.highest⟩ = false := by
          simp [rowCond, hflag]
        rw [rowLoop, hdone, if_neg Bool.false_ne_true]
        exact congrArg some (read_eq_afterLine_singleton s c)
      | false =>
        rw [Wrap.line_of_fits hfits hnl] at hn hstop ⊢
        refine (ih hrest hnl (fun hline hbroken => ?_) (Nat.lt_of_succ_lt_succ hn)).trans
          (congrArg some (afterLine_cons _ rfl (Wrap.broken_cons hnl)))
        have hstop := hstop (congrArg (c :: ·) hline) ((Wrap.broken_cons hnl).trans hbroken)
        rwa [Wrap.total_cons, ← Nat.add_assoc] at hstop

/-! ## All rows -/

theorem byteLen_append (as bs : List Chr) : byteLen (as ++ bs) = byteLen as + byteLen bs := by
  simp [byteLen]

theorem TextAt.end_eq (h : TextAt mem p cs e) : e = p + byteLen cs := by
  induction cs generalizing p with
  | nil => exact h.symm
  | cons c cs ih =>
    rw [ih h.2, byteLen_cons, Nat.add_assoc]

theorem TextAt.right {as : List Chr} (h : TextAt mem p (as ++ cs) e) :
    TextAt mem (p + byteLen as) cs e := by
  induction as generalizing p with
  | nil => exact h
  | cons a as ih =>
    have h' := ih h.2
    rwa [byteLen_cons, ← Nat.add_assoc]

theorem TextAt.left {as : List Chr} (h : TextAt mem p (as ++ cs) e) :
    TextAt mem p as (p + byteLen as) := by
  induction as generalizing p with
  | nil => rfl
  | cons a as ih =>
    have h' := ih h.2
    rw [Nat.add_assoc, ← byteLen_cons] at h'
    exact ⟨h.1, h'⟩

/-- What is behind the characters: the end of the text, or with `more` a byte the loop does not
know. -/
def TailAt (mem : Nat → UInt8) (e : Nat) (more : Bool) : Prop :=
  if more then ¬mem e < 0x80 else mem e = 0

/-- The row a line of the text at offset `p` becomes; `last` if the text ends with it. -/
def columnOf (f fx p : Nat) (line : List Chr) (last : Bool) : Column :=
  let strPtr := p + byteLen line
  let xShift := (textWrap f fx).total line
  let divider := if last then some (strPtr, xShift) else markAll f p 0 none line
  let (stop, xSizePx) := divider.getD (strPtr, xShift)
  { start := p, stop, xSizePx }

/-- The rows of at most `n` lines of the text at offset `p`. -/
def columnsOf (f fx : Nat) (more : Bool) : Nat → Nat → List Chr → List Column
  | 0, _, _ => []
  | n + 1, p, cs =>
    if cs = [] ∧ !more then []
    else
      let line := (textWrap f fx).first cs
      let rest := (textWrap f fx).rest cs
      columnOf f fx p line (rest.isEmpty && !more) ::
        columnsOf f fx more n (p + byteLen line) rest

/-- A row that takes the last character and has room left. -/
def hasRoom (f fx x : Nat) : Bool := decide (x + f < fx)

theorem mem_eq_zero_iff {more : Bool} (htext : TextAt mem p cs e) (htail : TailAt mem e more) :
    mem p = 0 ↔ cs = [] ∧ !more := by
  cases cs with
  | nil =>
    cases htext
    cases more with
    | false => simpa [TailAt] using htail
    | true =>
      have hne : mem p ≠ 0 := fun h0 => htail (h0 ▸ by decide)
      simpa using hne
  | cons c cs =>
    have hne : mem p ≠ 0 := htext.1 ▸ c.lead_ne_zero
    simpa using hne

theorem finishRow_afterLine {more : Bool} {line rest : List Chr} {h : Nat}
    (htext : TextAt mem (p + byteLen line) rest e) (htail : TailAt mem e more) :
    finishRow mem p (afterLine f fx ⟨p, 0, none, false, h⟩ line)
      = columnOf f fx p line (rest.isEmpty && !more) := by
  have hiff := mem_eq_zero_iff htext htail
  have hlast : (rest.isEmpty && !more) = true ↔ mem (p + byteLen line) = 0 := by
    rw [hiff, Bool.and_eq_true, List.isEmpty_iff]
  unfold finishRow columnOf afterLine
  dsimp only
  rw [Nat.zero_add, ite_congr (propext hlast) (fun _ => rfl) (fun _ => rfl)]

/-- Room for the rows that may still be filled. -/
def RowsFit (f fy n contentYSize : Nat) : Prop := ∀ k < n, contentYSize + k * f ≤ fy

theorem RowsFit.next {fy n y : Nat} (h : RowsFit f fy (n + 1) y) (hfy : fy < 256) :
    RowsFit f fy n (u8 (y + f : Nat)) := by
  intro k hk
  have hnext := h (k + 1) (Nat.succ_lt_succ hk)
  rw [Nat.add_mul, Nat.one_mul] at hnext
  rw [u8_of_lt (by omega)]
  omega

theorem u8_add_mul (y k : Nat) :
    u8 (u8 (y + f : Nat) + k * f : Nat) = u8 (y + (k + 1) * f : Nat) := by
  rw [Nat.add_mul, Nat.one_mul]
  unfold u8
  omega

/-- A line of the text and what is behind it. -/
theorem TextAt.first_rest (f fx : Nat) (h : TextAt mem p cs e) :
    TextAt mem p ((textWrap f fx).first cs) (p + byteLen ((textWrap f fx).first cs)) ∧
      TextAt mem (p + byteLen ((textWrap f fx).first cs)) ((textWrap f fx).rest cs) e := by
  have hsplit := Wrap.first_append_rest (r := textWrap f fx) cs
  have h' : TextAt mem p ((textWrap f fx).first cs ++ (textWrap f fx).rest cs) e := hsplit.symm ▸ h
  exact ⟨h'.left, h'.right⟩

/-- A row that takes the last character stops there, unless it has room left for what is behind. -/
theorem rowStops_of_tail {more : Bool} (htail : TailAt mem e more)
    (hover : more = true → ¬(textWrap f fx).FirstOverruns (hasRoom f fx) cs)
    (hline : (textWrap f fx).first cs = cs) (hbroken : (textWrap f fx).broken cs = false) :
    RowStops mem f fx e (0 + (textWrap f fx).total cs) := by
  cases more with
  | false => exact .inl htail
  | true =>
    refine .inr ⟨htail, fun hroom => hover rfl ⟨hline, hbroken, decide_eq_true ?_⟩⟩
    rwa [Nat.zero_add] at hroom

/-- One pass of the loop over the rows lays out the first line. -/
theorem layoutLoop_row {more : Bool} {fy n fuel : Nat} {l : LayoutState} (hfx : fx < 256)
    (hy : l.contentYSize ≤ fy) (htext : TextAt mem l.strPtr cs e) (htail : TailAt mem e more)
    (hmore : ¬(cs = [] ∧ !more))
    (hover : more = true → ¬(textWrap f fx).FirstOverruns (hasRoom f fx) cs)
    (hfuel : cs.length < fuel) :
    layoutLoop mem f fx fy fuel (n + 1) l = layoutLoop mem f fx fy fuel n
      { rows := l.rows ++ [columnOf f fx l.strPtr ((textWrap f fx).first cs)
          (((textWrap f fx).rest cs).isEmpty && !more)]
        strPtr := l.strPtr + byteLen ((textWrap f fx).first cs)
        contentYSize := u8 (l.contentYSize + f : Nat)
        highest := max (max l.highest l.strPtr)
          (l.strPtr + byteLen ((textWrap f fx).first cs)) } := by
  have hne : mem l.strPtr ≠ 0 := fun h => hmore ((mem_eq_zero_iff htext htail).mp h)
  have hrow := rowLoop_line (f := f) (n := fuel)
    (s := ⟨l.strPtr, 0, none, false, max l.highest l.strPtr⟩) hfx htext rfl
    (rowStops_of_tail htail hover)
    (Nat.lt_of_le_of_lt (Wrap.length_line_le 0 cs) hfuel)
  rw [layoutLoop, if_pos ⟨hne, hy⟩, hrow, ← finishRow_afterLine (htext.first_rest f fx).2 htail]
  rfl

/-- The loop over the rows lays out the lines of the text, unless one of them gets to the end of
the text and does not stop there. -/
theorem layoutLoop_columnsOf {more : Bool} {fy n fuel : Nat} {l : LayoutState} (hfx : fx < 256)
    (hfy : fy < 256) (hrows : RowsFit f fy n l.contentYSize) (htext : TextAt mem l.strPtr cs e)
    (htail : TailAt mem e more)
    (hover : more = true → (textWrap f fx).overruns (hasRoom f fx) n cs = false)
    (hfuel : cs.length < fuel) :
    ∃ l', layoutLoop mem f fx fy fuel n l = some l' ∧
      l'.rows = l.rows ++ columnsOf f fx more n l.strPtr cs ∧
      u8 l'.contentYSize
        = u8 (l.contentYSize + (columnsOf f fx more n l.strPtr cs).length * f : Nat) ∧
      l'.highest ≤ max l.highest e := by
  induction n generalizing l cs with
  | zero => exact ⟨l, rfl, by simp [columnsOf], by simp [columnsOf], Nat.le_max_left _ _⟩
  | succ n ih =>
    have hend := htext.end_eq
    rw [columnsOf]
    by_cases hdone : cs = [] ∧ !more
    · have hzero := (mem_eq_zero_iff htext htail).mpr hdone
      rw [layoutLoop, if_neg fun h => h.1 hzero, if_pos hdone]
      refine ⟨_, rfl, by simp, by simp, ?_⟩
      dsimp only
      omega
    · have hy : l.contentYSize ≤ fy := by simpa using hrows 0 (Nat.succ_pos n)
      have hfirst (h : more = true) : ¬(textWrap f fx).FirstOverruns (hasRoom f fx) cs := fun hf =>
        Bool.eq_false_iff.mp (hover h) (Wrap.overruns_succ.mpr (.inl hf))
      have hnext (h : more = true) :
          (textWrap f fx).overruns (hasRoom f fx) n ((textWrap f fx).rest cs) = false :=
        Bool.eq_false_iff.mpr fun hn =>
          Bool.eq_false_iff.mp (hover h) (Wrap.overruns_succ.mpr (.inr hn))
      have hrest := (htext.first_rest f fx).2
      have hle := hrest.end_eq
      rw [layoutLoop_row hfx hy htext htail hdone hfirst hfuel, if_neg hdone]
      obtain ⟨l', hl', hcols, hsize, hhigh⟩ := ih (l := ⟨_, _, u8 (l.contentYSize + f : Nat), _⟩)
        (hrows.next hfy) hrest hnext (Nat.lt_of_le_of_lt (Wrap.length_rest_le cs) hfuel)
      refine ⟨l', hl', ?_, ?_, ?_⟩
      · rw [hcols, List.append_assoc, List.singleton_append]
      · rw [hsize, u8_add_mul, List.length_cons]
      · dsimp only at hhigh
        omega

theorem length_columnsOf (f fx : Nat) (more : Bool) (n p : Nat) (cs : List Chr) :
    (columnsOf f fx more n p cs).length = ((textWrap f fx).lines more n cs).length := by
  induction n generalizing p cs with
  | zero => rfl
  | succ n ih =>
    rw [columnsOf, Wrap.lines]
    split
    case isTrue => rfl
    case isFalse => rw [List.length_cons, List.length_cons, ih]

/-! ## Where a row ends -/

/-- A row may end at this character. -/
def Chr.isMark : Chr → Bool
  | .ascii a _ => isDivider a || a == 0x0A
  | .two .. => false
  | .three .. => true

theorem Chr.mark_of_not_isMark {d : Option (Nat × Nat)} (h : c.isMark = false) :
    c.mark f p x d = d := by
  cases c with
  | ascii a ha =>
    have hmark : (isDivider a || a == 0x0A) = false := h
    rw [mark, hmark, if_neg Bool.false_ne_true]
  | two a b ha => rfl
  | three a b c ha => cases h

theorem Chr.mark_eq_none_iff {d : Option (Nat × Nat)} :
    c.mark f p x d = none ↔ d = none ∧ c.isMark = false := by
  cases hmark : c.isMark with
  | false => rw [mark_of_not_isMark hmark, and_iff_left rfl]
  | true =>
    refine iff_of_false ?_ (fun h => absurd h.2 (by simp))
    cases c with
    | ascii a ha =>
      have hascii : (isDivider a || a == 0x0A) = true := hmark
      rw [mark, if_pos hascii]
      exact Option.some_ne_none _
    | two a b ha => cases hmark
    | three a b c ha => exact Option.some_ne_none _

/-- The place a character marks is in front of it, with the width so far, or behind it. -/
theorem Chr.mark_cases (c : Chr) (f fx p x : Nat) (d : Option (Nat × Nat)) :
    c.mark f p x d = d ∨ c.mark f p x d = some (p, x) ∨
      c.mark f p x d = some (p + c.len, x + (textWrap f fx).width c) := by
  cases c with
  | ascii a ha =>
    cases hmark : (isDivider a || a == 0x0A) with
    | false => exact .inl (mark_of_not_isMark hmark)
    | true => exact .inr (.inl (if_pos hmark))
  | two a b ha => exact .inl rfl
  | three a b c ha => exact .inr (.inr rfl)

theorem markAll_append (fx : Nat) (as bs : List Chr) (d : Option (Nat × Nat)) :
    markAll f p x d (as ++ bs)
      = markAll f (p + byteLen as) (x + (textWrap f fx).total as) (markAll f p x d as) bs := by
  induction as generalizing p x d with
  | nil => rfl
  | cons a as ih =>
    have hstep := ih (p := p + a.len) (x := x + (textWrap f fx).width a) (d := a.mark f p x d)
    rw [byteLen_cons, Wrap.total_cons, ← Nat.add_assoc, ← Nat.add_assoc]
    exact hstep

/-- No divider is found exactly where there is none. -/
theorem markAll_eq_none_iff {line : List Chr} {d : Option (Nat × Nat)} :
    markAll f p x d line = none ↔ d = none ∧ ∀ c ∈ line, c.isMark = false := by
  induction line generalizing p x d with
  | nil => exact (and_iff_left (List.forall_mem_nil _)).symm
  | cons c cs ih =>
    rw [markAll, ih, Chr.mark_eq_none_iff, List.forall_mem_cons, and_assoc]

/-- The divider of a row is a place between its characters, with the width in front of it. -/
theorem markAll_split (fx : Nat) (line : List Chr) (d : Option (Nat × Nat)) :
    markAll f p x d line = d ∨ ∃ pre post, line = pre ++ post ∧
      markAll f p x d line = some (p + byteLen pre, x + (textWrap f fx).total pre) := by
  induction line generalizing p x d with
  | nil => exact .inl rfl
  | cons c cs ih =>
    rcases ih (p := p + c.len) (x := x + (textWrap f fx).width c) (c.mark f p x d) with
      hlast | ⟨pre, post, hcs, hmark⟩
    · rw [markAll]
      refine (c.mark_cases f fx p x d).imp (fun hmark => ?_) (fun hmark => ?_)
      · exact hlast.trans hmark
      · rcases hmark with hmark | hmark
        · exact ⟨[], c :: cs, rfl, hlast.trans hmark⟩
        · exact ⟨[c], cs, rfl, hlast.trans hmark⟩
    · refine .inr ⟨c :: pre, post, congrArg (c :: ·) hcs, ?_⟩
      rw [byteLen_cons, Wrap.total_cons, ← Nat.add_assoc, ← Nat.add_assoc]
      exact hmark

/-- A row is the first part of its line, and its width is that of this part. -/
theorem columnOf_split (f fx p : Nat) (line : List Chr) (last : Bool) :
    ∃ pre post, line = pre ++ post ∧ columnOf f fx p line last
      = ⟨p, p + byteLen pre, (textWrap f fx).total pre⟩ := by
  have hwhole : line = line ++ [] := (List.append_nil line).symm
  cases last with
  | true => exact ⟨line, [], hwhole, rfl⟩
  | false =>
    unfold columnOf
    rcases markAll_split fx line none (f := f) (p := p) (x := 0) with
      hmark | ⟨pre, post, hline, hmark⟩
    · rw [hmark]
      exact ⟨line, [], hwhole, rfl⟩
    · rw [hmark, Nat.zero_add]
      exact ⟨pre, post, hline, rfl⟩

/-- The characters `pre` of a row: a first part of one of the lines. -/
structure RowOf (mem : Nat → UInt8) (f fx e : Nat) (cs : List Chr) (c : Column)
    (pre : List Chr) : Prop where
  text : TextAt mem c.start pre c.stop
  stop_le : c.stop ≤ e
  part : pre <:+: cs
  width : c.xSizePx = (textWrap f fx).total pre
  line : ∃ ds, pre <+: (textWrap f fx).first ds

theorem columnsOf_rowOf {more : Bool} {n : Nat} (htext : TextAt mem p cs e) :
    ∀ c ∈ columnsOf f fx more n p cs, ∃ pre, RowOf mem f fx e cs c pre := by
  induction n generalizing p cs with
  | zero => exact List.forall_mem_nil _
  | succ n ih =>
    rw [columnsOf]
    split
    case isTrue => exact List.forall_mem_nil _
    case isFalse =>
      have hsplit := Wrap.first_append_rest (r := textWrap f fx) cs
      have hfirst : (textWrap f fx).first cs <+: cs := ⟨_, hsplit⟩
      have hrest : (textWrap f fx).rest cs <:+ cs := ⟨_, hsplit⟩
      obtain ⟨hleft, hright⟩ := htext.first_rest f fx
      refine List.forall_mem_cons.mpr ⟨?_, fun c hc => ?_⟩
      · obtain ⟨pre, post, hline, hcol⟩ := columnOf_split f fx p ((textWrap f fx).first cs)
          (((textWrap f fx).rest cs).isEmpty && !more)
        have hpre : pre <+: (textWrap f fx).first cs := ⟨post, hline.symm⟩
        have hend := hright.end_eq
        have hlen := byteLen_append pre post
        rw [← hline] at hlen
        rw [hline] at hleft
        rw [hcol]
        exact ⟨pre, hleft.left, by dsimp only; omega, (hpre.trans hfirst).isInfix, rfl, cs, hpre⟩
      · obtain ⟨pre, hpre⟩ := ih hright c hc
        exact ⟨pre, { hpre with part := hpre.part.trans hrest.isInfix }⟩

/-! ## A label -/

theorem maxColHold_eq (w : WidgetId) : w.maxColHold = w.freeYSpace / w.fontSize := by
  have hlt : w.freeYSpace < 256 := u8_lt _
  have hle := Nat.div_le_self w.freeYSpace w.fontSize
  unfold WidgetId.maxColHold
  exact u8_of_lt (n := w.freeYSpace / w.fontSize) (by omega)

theorem rowsFit_maxColHold (w : WidgetId) :
    RowsFit w.fontSize w.freeYSpace w.maxColHold w.fontSize := by
  intro k hk
  rw [maxColHold_eq] at hk
  have hle := (Nat.mul_le_mul_right w.fontSize hk).trans (Nat.div_mul_le_self _ _)
  rw [Nat.succ_mul] at hle
  omega

/-- The lines a label lays a text out into. -/
def labelLines (w : WidgetId) (more : Bool) (cs : List Chr) : List (List Chr) :=
  (textWrap w.fontSize w.freeXSpace).lines more w.maxColHold cs

/-- The layout of a label whose text is made of characters the loop knows, up to something behind
them that no line gets to with room left. -/
theorem layout_columnsOf {w : WidgetId} {more : Bool} {fuel : Nat}
    (htext : TextAt w.widgetContent 0 cs e) (htail : TailAt w.widgetContent e more)
    (hover : more = true → (textWrap w.fontSize w.freeXSpace).overruns
      (hasRoom w.fontSize w.freeXSpace) w.maxColHold cs = false)
    (hfuel : cs.length < fuel) :
    ∃ l, layout w fuel = some l ∧
      l.rows = columnsOf w.fontSize w.freeXSpace more w.maxColHold 0 cs ∧
      u8 (l.contentYSize - w.fontSize) = l.rows.length * w.fontSize ∧ l.highest ≤ e := by
  obtain ⟨l, hl, hrows, hsize, hhigh⟩ := layoutLoop_columnsOf (l := ⟨[], 0, w.fontSize, 0⟩)
    (u8_lt _ : w.freeXSpace < 256) (u8_lt _) (rowsFit_maxColHold w) htext htail hover hfuel
  dsimp only at hrows hsize hhigh
  have hlen : l.rows.length * w.fontSize ≤ w.freeYSpace := by
    rw [hrows, List.nil_append, length_columnsOf]
    refine (Nat.mul_le_mul_right _ (Wrap.length_lines_le _ _)).trans ?_
    rw [maxColHold_eq]
    exact Nat.div_mul_le_self _ _
  rw [List.nil_append] at hrows
  refine ⟨l, hl, hrows, ?_, by omega⟩
  have hfy : w.freeYSpace < 256 := u8_lt _
  rw [← hrows] at hsize
  unfold u8 at hsize ⊢
  omega

/-- These bytes are in memory from the start on. -/
def Contains (mem : Nat → UInt8) (bytes : List UInt8) : Prop :=
  ∀ i b, bytes[i]? = some b → mem i = b

def textBytes (cs : List Chr) : List UInt8 := cs.flatMap Chr.bytes

theorem length_textBytes (cs : List Chr) : (textBytes cs).length = byteLen cs := by
  rw [textBytes, List.length_flatMap, byteLen, List.map_congr_left fun c _ => c.length_bytes]

theorem Chr.bytes_eq_cons (c : Chr) : ∃ bs, c.bytes = c.lead :: bs := by
  cases c with
  | ascii a h => exact ⟨[], rfl⟩
  | two a b h => exact ⟨[b], rfl⟩
  | three a b c h => exact ⟨[b, c], rfl⟩

theorem Contains.mem_length {before after : List UInt8} {b : UInt8}
    (h : Contains mem (before ++ b :: after)) : mem before.length = b :=
  h before.length b (by simp)

theorem textAt_of_contains (before : List UInt8) {after : List UInt8}
    (h : Contains mem (before ++ (textBytes cs ++ after))) :
    TextAt mem before.length cs (before.length + byteLen cs) := by
  induction cs generalizing before with
  | nil => rfl
  | cons c cs ih =>
    have hbytes : textBytes (c :: cs) = c.bytes ++ textBytes cs := rfl
    obtain ⟨bs, hbs⟩ := c.bytes_eq_cons
    rw [hbytes, List.append_assoc] at h
    constructor
    · rw [hbs, List.cons_append] at h
      exact h.mem_length
    · have hnext := ih (before ++ c.bytes) (by rwa [List.append_assoc])
      rwa [List.length_append, c.length_bytes, Nat.add_assoc, ← byteLen_cons] at hnext

/-- A text and its terminator at the start of memory. -/
theorem textAt_of_terminated (h : Contains mem (textBytes cs ++ [0])) :
    TextAt mem 0 cs (byteLen cs) ∧ TailAt mem (byteLen cs) false := by
  constructor
  · have htext := textAt_of_contains [] h
    rwa [List.length_nil, Nat.zero_add] at htext
  · have hnul := h.mem_length
    rwa [length_textBytes] at hnul

theorem noNul_textBytes (cs : List Chr) : CString.NoNul (textBytes cs) := by
  intro b hb
  obtain ⟨c, -, hbc⟩ := List.mem_flatMap.mp hb
  exact c.bytes_ne_zero b hbc

/-- A label is set up with a text that leaves room for its terminator. -/
theorem contains_setup {ulX ulY drX drY : UInt16} {fontSize : UInt8} {align : AlignE}
    {txtClr bgClr boxed : Bool} {after : Nat → UInt8} {content : List UInt8}
    (hnul : CString.NoNul content) (hlen : content.length < 64) :
    Contains (wdgLableSetup ulX ulY drX drY content fontSize align txtClr bgClr boxed
      after).widgetContent (content ++ [0]) := by
  intro i b hi
  have hcopy : wdgLableContent content
      = (content ++ [0]) ++ List.replicate (63 - content.length) 0 := by
    have hpad : 64 - content.length = 63 - content.length + 1 := by omega
    rw [wdgLableContent, CString.strncpy, CString.cstr_of_noNul hnul, widgetContentMaxsize,
      List.take_of_length_le (Nat.le_of_lt hlen), hpad, List.replicate_succ, List.append_assoc,
      List.singleton_append]
  have hlt := (List.getElem?_eq_some_iff.mp hi).1
  have hget : (wdgLableContent content)[i]? = some b := by
    rw [hcopy, List.getElem?_append_left hlt, hi]
  exact congrArg (·.getD (after i)) hget

/-- The characters at the front of some bytes that the loops of a label know, and what is left. -/
def scan : List UInt8 → List Chr × List UInt8
  | [] => ([], [])
  | a :: r =>
    if h : a ≠ 0 ∧ a < 0x80 then ((.ascii a h) :: (scan r).1, (scan r).2)
    else match r with
      | [] => ([], [a])
      | b :: r =>
        if h : (0xC0 ≤ a ∧ a < 0xD0) ∧ b ≠ 0 then ((.two a b h) :: (scan r).1, (scan r).2)
        else match r with
          | [] => ([], [a, b])
          | c :: r =>
            if h : (0xE0 ≤ a ∧ a < 0xF0) ∧ b ≠ 0 ∧ c ≠ 0 then
              ((.three a b c h) :: (scan r).1, (scan r).2)
            else ([], a :: b :: c :: r)

/-- A label like the content label of `view_title_content_setup`, `drX` pixels wide. -/
def contentLabel (drX : UInt16) (text : String) : WidgetId :=
  wdgLableSetup 0 25 drX 63 (CString.lit text) 16 .midLeft true false false fun _ => 0

theorem contains_contentLabel (drX : UInt16) (text : String) (cs : List Chr)
    (hbytes : textBytes cs = CString.lit text) (hlen : (CString.lit text).length < 64) :
    Contains (contentLabel drX text).widgetContent (textBytes cs ++ [0]) := by
  have hnul := noNul_textBytes cs
  rw [hbytes] at hnul ⊢
  exact contains_setup hnul hlen

end DoorLock
