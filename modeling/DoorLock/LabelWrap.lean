import DoorLock.LabelText
import Mathlib.Data.List.Chain

/-!
# Wrapping a text (`widget.c`)

A row ends at its last divider, the next one goes on where the loop stopped reading. What lies
between is lost: nothing but a space or a newline as long as every full row ends well.
-/

namespace DoorLock

/-- The offsets a row shows. -/
def Column.Holds (c : Column) (i : Nat) : Prop := c.start ≤ i ∧ i < c.stop

/-- Nothing but spaces from `a` to `b`, or one newline. -/
def Gap (mem : Nat → UInt8) (a b : Nat) : Prop :=
  (∀ i, a ≤ i → i < b → mem i = 0x20) ∨ (b = a + 1 ∧ mem a = 0x0A)

/-- Rows that lose no text: they start at the first character, are in order and disjoint, and have
nothing but spaces or a newline between them, so that any other character before the end of the
last row is in exactly one of them. -/
structure WrapsWhole (mem : Nat → UInt8) (rows : List Column) : Prop where
  start_zero : ∀ c ∈ rows.head?, c.start = 0
  start_le_stop : ∀ c ∈ rows, c.start ≤ c.stop
  disjoint : rows.Pairwise fun c c' => c.stop ≤ c'.start
  gaps : rows.IsChain fun c c' => Gap mem c.stop c'.start
  once : ∀ last ∈ rows.getLast?, ∀ i < last.stop,
    (∃! k : Nat, ∃ c : Column, rows[k]? = some c ∧ c.Holds i) ∨ mem i = 0x20 ∨ mem i = 0x0A

variable {mem : Nat → UInt8} {rows : List Column} {c : Column} {i : Nat}

theorem Gap.eq {a b : Nat} (h : Gap mem a b) (ha : a ≤ i) (hb : i < b) :
    mem i = 0x20 ∨ mem i = 0x0A := by
  rcases h with h | ⟨rfl, h⟩
  · exact .inl (h i ha hb)
  · obtain rfl : i = a := by omega
    exact .inr h

/-- An offset behind the start of the first row is in a row or in a gap. -/
theorem holds_or_gap (hgaps : (c :: rows).IsChain fun c c' => Gap mem c.stop c'.start)
    (hi : c.start ≤ i) {last : Column} (hlast : last ∈ (c :: rows).getLast?)
    (hstop : i < last.stop) :
    (∃ d ∈ c :: rows, d.Holds i) ∨ mem i = 0x20 ∨ mem i = 0x0A := by
  induction rows generalizing c with
  | nil =>
    cases hlast
    exact .inl ⟨c, List.mem_singleton_self c, hi, hstop⟩
  | cons d rows ih =>
    rw [List.isChain_cons_cons] at hgaps
    rcases Nat.lt_or_ge i c.stop with hc | hc
    · exact .inl ⟨c, List.mem_cons_self, hi, hc⟩
    rcases Nat.lt_or_ge i d.start with hd | hd
    · exact .inr (hgaps.1.eq hc hd)
    rw [List.getLast?_cons_cons] at hlast
    refine (ih hgaps.2 hd hlast).imp_left fun ⟨e, he, hi⟩ => ?_
    exact ⟨e, List.mem_cons_of_mem c he, hi⟩

theorem not_holds_of_lt (hdisjoint : rows.Pairwise fun c c' => c.stop ≤ c'.start) {j k : Nat}
    {d : Column} (hj : rows[j]? = some c) (hk : rows[k]? = some d) (hc : c.Holds i)
    (hd : d.Holds i) : ¬j < k := by
  intro hlt
  obtain ⟨hjlt, rfl⟩ := List.getElem?_eq_some_iff.mp hj
  obtain ⟨hklt, rfl⟩ := List.getElem?_eq_some_iff.mp hk
  have hle := List.pairwise_iff_getElem.mp hdisjoint j k hjlt hklt hlt
  have hstop := hc.2
  have hstart := hd.1
  omega

/-- The last claim about the rows follows from the others. -/
theorem WrapsWhole.mk' (hzero : ∀ c ∈ rows.head?, c.start = 0)
    (hle : ∀ c ∈ rows, c.start ≤ c.stop)
    (hdisjoint : rows.Pairwise fun c c' => c.stop ≤ c'.start)
    (hgaps : rows.IsChain fun c c' => Gap mem c.stop c'.start) : WrapsWhole mem rows := by
  refine ⟨hzero, hle, hdisjoint, hgaps, fun last hlast i hi => ?_⟩
  cases rows with
  | nil => cases hlast
  | cons c rows =>
    have hstart : c.start ≤ i := by
      rw [hzero c rfl]
      exact Nat.zero_le i
    refine (holds_or_gap hgaps hstart hlast hi).imp_left fun ⟨d, hd, hheld⟩ => ?_
    obtain ⟨k, hk⟩ := List.getElem?_of_mem hd
    refine ⟨k, ⟨d, hk, hheld⟩, fun j ⟨e, he, hheld'⟩ => ?_⟩
    exact Nat.le_antisymm (Nat.le_of_not_lt (not_holds_of_lt hdisjoint hk he hheld hheld'))
      (Nat.le_of_not_lt (not_holds_of_lt hdisjoint he hk hheld' hheld))

/-! ## The gap behind one row -/

/-- A row that ends with this character and is full loses nothing. -/
def Chr.endsRow : Chr → Bool
  | .ascii a _ => a == 0x20 || a == 0x0A
  | .two .. => false
  | .three .. => true

/-- A line that a row can end with: it has no divider, or ends with a space, a newline or a
character of three bytes. -/
def endsWell (line : List Chr) : Bool :=
  line.all (fun c => !c.isMark) || line.getLast?.any Chr.endsRow

variable {f fx p e : Nat} {line : List Chr} {cs : List Chr} {n : Nat}

theorem gap_self (mem : Nat → UInt8) (a : Nat) : Gap mem a a :=
  .inl fun _ ha hb => absurd ha (Nat.not_le_of_lt hb)

theorem gap_singleton {a : Nat} : Gap mem a (a + 1) ↔ mem a = 0x20 ∨ mem a = 0x0A := by
  constructor
  · exact fun h => h.eq (Nat.le_refl a) (Nat.lt_succ_self a)
  · rintro (h | h)
    · refine .inl fun i ha hb => ?_
      obtain rfl : i = a := by omega
      exact h
    · exact .inr ⟨rfl, h⟩

/-- A character that is not a divider is neither a space nor a newline. -/
theorem Chr.lead_of_not_isMark {c : Chr} (h : c.isMark = false) :
    ¬(c.lead = 0x20 ∨ c.lead = 0x0A) := by
  cases c with
  | ascii a ha =>
    have hmark : (isDivider a || a == 0x0A) = false := h
    rintro (rfl | rfl)
    · exact absurd hmark (by decide)
    · exact absurd hmark (by decide)
  | two a b ha =>
    rintro (rfl | rfl)
    · exact absurd ha.1.1 (by decide)
    · exact absurd ha.1.1 (by decide)
  | three a b c ha => cases h

theorem columnOf_stop : (columnOf f fx p line false).stop
    = ((markAll f p 0 none line).getD (p + byteLen line, (textWrap f fx).total line)).1 := rfl

theorem endsWell_concat (init : List Chr) (c : Chr) :
    endsWell (init ++ [c]) = ((init.all (fun d => !d.isMark) && !c.isMark) || c.endsRow) := by
  simp [endsWell]

/-- A line whose last character is no divider, but has one before, is cut behind that one. -/
theorem not_gap_of_mark {init : List Chr} {c : Chr} (htext : TextAt mem p (init ++ [c]) e)
    (hc : c.isMark = false) (hinit : markAll f p 0 none init ≠ none) :
    ¬Gap mem (columnOf f fx p (init ++ [c]) false).stop e := by
  obtain ⟨hlead, rfl⟩ := htext.right
  obtain ⟨pre, post, rfl, hpre⟩ := (markAll_split fx init none).resolve_left hinit
  have hmark : markAll f p 0 none (pre ++ post ++ [c])
      = some (p + byteLen pre, 0 + (textWrap f fx).total pre) := by
    rw [markAll_append fx, hpre]
    exact Chr.mark_of_not_isMark hc
  rw [columnOf_stop, hmark]
  intro hgap
  refine Chr.lead_of_not_isMark hc (hlead ▸ hgap.eq ?_ ?_)
  · change p + byteLen pre ≤ p + byteLen (pre ++ post)
    rw [byteLen_append]
    exact Nat.add_le_add_left (Nat.le_add_right _ _) p
  · exact Nat.lt_add_of_pos_right c.len_pos

theorem Chr.endsRow_of_not_isMark {c : Chr} (h : c.isMark = false) : c.endsRow = false := by
  have hlead := lead_of_not_isMark h
  cases c with
  | ascii a ha => simpa [endsRow, lead] using hlead
  | two a b ha => rfl
  | three a b c ha => cases h

theorem gap_iff_of_not_isMark {init : List Chr} {c : Chr} (htext : TextAt mem p (init ++ [c]) e)
    (hc : c.isMark = false) :
    Gap mem (columnOf f fx p (init ++ [c]) false).stop e ↔ endsWell (init ++ [c]) = true := by
  rw [endsWell_concat, hc, Chr.endsRow_of_not_isMark hc, Bool.not_false, Bool.and_true,
    Bool.or_false, List.all_eq_true]
  by_cases hinit : markAll f p 0 none init = none
  · have hnone : markAll f p 0 none (init ++ [c]) = none := by
      rw [markAll_append fx, hinit]
      exact Chr.mark_of_not_isMark hc
    have hstop : (columnOf f fx p (init ++ [c]) false).stop = e := by
      rw [columnOf_stop, hnone]
      exact htext.end_eq.symm
    rw [hstop]
    refine iff_of_true (gap_self mem e) fun d hd => ?_
    rw [(markAll_eq_none_iff.mp hinit).2 d hd, Bool.not_false]
  · refine iff_of_false (not_gap_of_mark htext hc hinit) fun hall => hinit ?_
    exact markAll_eq_none_iff.mpr ⟨rfl, fun d hd => by simpa using hall d hd⟩

/-- What a full row loses of its line. -/
theorem gap_columnOf_iff (htext : TextAt mem p line e) :
    Gap mem (columnOf f fx p line false).stop e ↔ endsWell line = true := by
  rcases List.eq_nil_or_concat line with rfl | ⟨init, c, rfl⟩
  · cases htext
    exact iff_of_true (gap_self mem p) rfl
  rw [List.concat_eq_append] at htext ⊢
  cases hc : c.isMark with
  | false => exact gap_iff_of_not_isMark htext hc
  | true =>
    obtain ⟨hlead, hend⟩ := htext.right
    have hmark := markAll_append (f := f) (p := p) (x := 0) fx init [c] none
    rw [endsWell_concat, hc, Bool.not_true, Bool.and_false, Bool.false_or]
    cases c with
    | ascii a ha =>
      have hstop : (columnOf f fx p (init ++ [Chr.ascii a ha]) false).stop = p + byteLen init := by
        have hsome : (Chr.ascii a ha).mark f (p + byteLen init) (0 + (textWrap f fx).total init)
            (markAll f p 0 none init)
            = some (p + byteLen init, 0 + (textWrap f fx).total init) := if_pos hc
        rw [columnOf_stop, hmark, markAll, hsome]
        rfl
      rw [hstop, ← hend, Chr.len, gap_singleton, hlead]
      simp [Chr.lead, Chr.endsRow]
    | two a b ha => cases hc
    | three a b c ha =>
      have hstop : (columnOf f fx p (init ++ [Chr.three a b c ha]) false).stop = e := by
        rw [columnOf_stop, hmark]
        exact hend
      rw [hstop]
      exact iff_of_true (gap_self mem e) rfl

/-! ## All rows -/

theorem columnsOf_nil (f fx n p : Nat) : columnsOf f fx false n p [] = [] := by
  cases n with
  | zero => rfl
  | succ n => exact if_pos ⟨rfl, rfl⟩

theorem columnsOf_succ (f fx n p : Nat) (hcs : cs ≠ []) :
    columnsOf f fx false (n + 1) p cs =
      columnOf f fx p ((textWrap f fx).first cs) (((textWrap f fx).rest cs).isEmpty && !false) ::
        columnsOf f fx false n (p + byteLen ((textWrap f fx).first cs)) ((textWrap f fx).rest cs) :=
  if_neg fun h => hcs h.1

theorem lines_nil (f fx n : Nat) : (textWrap f fx).lines false n [] = [] := by
  cases n with
  | zero => rfl
  | succ n => exact if_pos ⟨rfl, rfl⟩

theorem lines_succ (f fx n : Nat) (hcs : cs ≠ []) :
    (textWrap f fx).lines false (n + 1) cs =
      (textWrap f fx).first cs :: (textWrap f fx).lines false n ((textWrap f fx).rest cs) :=
  if_neg fun h => hcs h.1

/-- No text is lost between the rows if and only if every line but the last ends well. -/
theorem gaps_columnsOf_iff (f fx n : Nat) (htext : TextAt mem p cs e) :
    (columnsOf f fx false n p cs).IsChain (fun c c' => Gap mem c.stop c'.start) ↔
      ∀ line ∈ ((textWrap f fx).lines false n cs).dropLast, endsWell line = true := by
  induction n generalizing p cs with
  | zero => exact iff_of_true .nil (List.forall_mem_nil _)
  | succ n ih =>
    rcases eq_or_ne cs [] with rfl | hcs
    · rw [columnsOf_nil, lines_nil]
      exact iff_of_true .nil (List.forall_mem_nil _)
    obtain ⟨hleft, hright⟩ := htext.first_rest f fx
    have hrest := ih hright
    rw [columnsOf_succ f fx n p hcs, lines_succ f fx n hcs]
    rcases eq_or_ne ((textWrap f fx).rest cs) [] with hnil | hne
    · rw [hnil, columnsOf_nil, lines_nil]
      exact iff_of_true (.singleton _) (List.forall_mem_nil _)
    cases n with
    | zero => exact iff_of_true (.singleton _) (List.forall_mem_nil _)
    | succ n =>
      rw [columnsOf_succ f fx n _ hne, lines_succ f fx n hne] at hrest ⊢
      rw [List.isChain_cons_cons, hrest, List.dropLast_cons_cons, List.forall_mem_cons]
      have hlast : (((textWrap f fx).rest cs).isEmpty && !false) = false := by
        rw [List.isEmpty_eq_false_iff.mpr hne, Bool.false_and]
      rw [hlast]
      exact and_congr_left' (gap_columnOf_iff hleft)

theorem columnOf_stop_le (f fx p : Nat) (line : List Chr) (last : Bool) :
    p ≤ (columnOf f fx p line last).stop ∧
      (columnOf f fx p line last).stop ≤ p + byteLen line := by
  obtain ⟨pre, post, rfl, hcol⟩ := columnOf_split f fx p line last
  rw [hcol, byteLen_append]
  dsimp only
  omega

/-- Rows come one behind the other. -/
theorem columnsOf_ordered (f fx n p : Nat) (cs : List Chr) :
    (∀ c ∈ columnsOf f fx false n p cs, p ≤ c.start ∧ c.start ≤ c.stop) ∧
      (columnsOf f fx false n p cs).Pairwise fun c c' => c.stop ≤ c'.start := by
  induction n generalizing p cs with
  | zero => exact ⟨List.forall_mem_nil _, .nil⟩
  | succ n ih =>
    rcases eq_or_ne cs [] with rfl | hcs
    · rw [columnsOf_nil]
      exact ⟨List.forall_mem_nil _, .nil⟩
    obtain ⟨hstarts, hpairs⟩ :=
      ih (p + byteLen ((textWrap f fx).first cs)) ((textWrap f fx).rest cs)
    obtain ⟨hge, hle⟩ := columnOf_stop_le f fx p ((textWrap f fx).first cs)
      (((textWrap f fx).rest cs).isEmpty && !false)
    rw [columnsOf_succ f fx n p hcs]
    refine ⟨List.forall_mem_cons.mpr ⟨⟨Nat.le_refl p, hge⟩, fun c hc => ?_⟩,
      List.pairwise_cons.mpr ⟨fun c hc => ?_, hpairs⟩⟩
    · exact ⟨(Nat.le_add_right p _).trans (hstarts c hc).1, (hstarts c hc).2⟩
    · exact hle.trans (hstarts c hc).1

theorem head?_columnsOf (f fx n : Nat) (cs : List Chr) :
    ∀ c ∈ (columnsOf f fx false n p cs).head?, c.start = p := by
  cases n with
  | zero => exact fun _ h => nomatch h
  | succ n =>
    rcases eq_or_ne cs [] with rfl | hcs
    · rw [columnsOf_nil]
      exact fun _ h => nomatch h
    · rw [columnsOf_succ f fx n p hcs]
      intro c hc
      cases hc
      rfl

/-- Wrapping loses no text if and only if no full line that another row follows is cut at a divider
in it. -/
theorem wrapsWhole_iff (w : WidgetId) (cs : List Chr)
    (hw : Contains w.widgetContent (textBytes cs ++ [0])) (fuel : Nat) (hfuel : cs.length < fuel) :
    ∃ l, layout w fuel = some l ∧
      (WrapsWhole w.widgetContent l.rows ↔
        ∀ line ∈ (labelLines w false cs).dropLast, endsWell line = true) := by
  obtain ⟨htext, htail⟩ := textAt_of_terminated hw
  obtain ⟨l, hl, hrows, -⟩ := layout_columnsOf htext htail nofun hfuel
  have hgaps := gaps_columnsOf_iff w.fontSize w.freeXSpace w.maxColHold htext
  obtain ⟨hstarts, hpairs⟩ := columnsOf_ordered w.fontSize w.freeXSpace w.maxColHold 0 cs
  refine ⟨l, hl, ?_⟩
  rw [hrows, labelLines, ← hgaps]
  constructor
  · exact WrapsWhole.gaps
  · exact .mk' (head?_columnsOf _ _ _ cs) (fun c hc => (hstarts c hc).2) hpairs

theorem wrapsWhole_iff_cutAtSpace : ∃ l, layout (contentLabel 41 "Card ok") 64 = some l ∧
    WrapsWhole (contentLabel 41 "Card ok").widgetContent l.rows := by
  have hw := contains_contentLabel 41 "Card ok" (scan (CString.lit "Card ok")).1
    (by decide +kernel) (by decide +kernel)
  obtain ⟨l, hl, hiff⟩ := wrapsWhole_iff _ (scan (CString.lit "Card ok")).1 hw 64
    (by decide +kernel)
  exact ⟨l, hl, hiff.mpr (by decide +kernel)⟩

/-- A word that does not fit is cut, and its first part is in no row. -/
theorem wrong_password_loses_text : ∃ l,
    layout (contentLabel 127 "Password is wrong") 64 = some l ∧
      ¬WrapsWhole (contentLabel 127 "Password is wrong").widgetContent l.rows := by
  have hrun : (layout (contentLabel 127 "Password is wrong") 64).map LayoutState.rows
      = some [⟨0, 11, 88⟩, ⟨15, 17, 16⟩] := by decide +kernel
  obtain ⟨l, hl, hrows⟩ := Option.map_eq_some_iff.mp hrun
  refine ⟨l, hl, fun h => ?_⟩
  have hgaps := h.gaps
  rw [hrows, List.isChain_cons_cons] at hgaps
  have hlost : (contentLabel 127 "Password is wrong").widgetContent 12 = 0x77 := by decide +kernel
  have hgap := hgaps.1.eq (i := 12) (by decide) (by decide)
  rw [hlost] at hgap
  exact absurd hgap (by decide)

end DoorLock
