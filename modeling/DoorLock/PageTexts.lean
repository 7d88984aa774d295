import DoorLock.InputPages
import DoorLock.LabelPicture

/-!
# What the pages say

Every text that the UI puts on a page is made of ASCII characters and characters of three bytes,
and leaves room for its terminator; so does every text that is typed. The labels of all pages can
be drawn in every state of every run.
-/

namespace DoorLock

open CString Transition

variable {s t src buf : List UInt8} {n : Nat} {c : UInt8} {u u' : Ui} {env : Env} {m : EventMsg}

/-! ## Texts -/

/-- Characters that a label can draw. -/
def Drawable (s : List UInt8) : Prop :=
  ∃ cs : List Chr, (∀ c ∈ cs, c.isTwo = false) ∧ textBytes cs = s

theorem Drawable.noNul (h : Drawable s) : NoNul s := by
  obtain ⟨cs, -, rfl⟩ := h
  exact noNul_textBytes cs

theorem drawable_nil : Drawable [] := ⟨[], List.forall_mem_nil _, rfl⟩

theorem Drawable.append (hs : Drawable s) (ht : Drawable t) : Drawable (s ++ t) := by
  obtain ⟨cs, hcs, rfl⟩ := hs
  obtain ⟨ds, hds, rfl⟩ := ht
  refine ⟨cs ++ ds, fun c hc => ?_, List.flatMap_append⟩
  exact (List.mem_append.mp hc).elim (hcs c) (hds c)

theorem drawable_ascii (h : c ≠ 0 ∧ c < 0x80) : Drawable [c] :=
  ⟨[.ascii c h], fun _ hd => List.mem_singleton.mp hd ▸ rfl, rfl⟩

theorem drawable_of_ascii (h : ∀ c ∈ s, c ≠ 0 ∧ c < 0x80) : Drawable s := by
  induction s with
  | nil => exact drawable_nil
  | cons a s ih =>
    obtain ⟨ha, hs⟩ := List.forall_mem_cons.mp h
    exact (drawable_ascii ha).append (ih hs)

/-- A text given in full. -/
def isDrawable (s : List UInt8) : Bool :=
  s.all (· != 0) && (scan s).2.isEmpty && (scan s).1.all fun c => !c.isTwo

theorem drawable_of_isDrawable (h : isDrawable s = true) : Drawable s := by
  rw [isDrawable, Bool.and_eq_true, Bool.and_eq_true] at h
  obtain ⟨⟨hnul, hrest⟩, htwo⟩ := h
  have hnul : NoNul s := fun c hc => by simpa using List.all_eq_true.mp hnul c hc
  have hbytes := (scan_spec s hnul).1
  rw [List.isEmpty_iff.mp hrest, List.append_nil] at hbytes
  exact ⟨(scan s).1, fun c hc => by simpa using List.all_eq_true.mp htwo c hc, hbytes.symm⟩

/-- A decimal digit is one byte. -/
theorem utf8EncodeChar_of_isDigit {d : Char} (h : d.isDigit = true) :
    ∃ c, String.utf8EncodeChar d = [c] ∧ c ≠ 0 ∧ c < 0x80 := by
  obtain ⟨hlo, hhi⟩ : 48 ≤ d.val.toNat ∧ d.val.toNat ≤ 57 := by
    simpa [Char.isDigit, UInt32.le_iff_toNat_le] using h
  have hbyte : d.val.toUInt8.toNat = d.val.toNat := by
    rw [UInt32.toNat_toUInt8]
    exact Nat.mod_eq_of_lt (by omega)
  have hsize : d.utf8Size = 1 :=
    Char.utf8Size_eq_one_iff.mpr (UInt32.le_iff_toNat_le.mpr (Nat.le_trans hhi (by decide)))
  refine ⟨d.val.toUInt8, String.utf8EncodeChar_eq_singleton hsize, fun h0 => ?_, ?_⟩
  · rw [h0] at hbyte
    exact absurd hbyte (Nat.ne_of_lt (Nat.lt_of_lt_of_le (by decide) hlo))
  · rw [UInt8.lt_iff_toNat_lt, hbyte]
    exact Nat.lt_of_le_of_lt hhi (by decide)

/-- The digits of a number. -/
theorem toString_digits (n : Nat) : ∀ d ∈ (toString n).toList, d.isDigit = true := by
  rw [Nat.toString_eq_repr, Nat.toList_repr]
  exact fun d hd => Nat.isDigit_of_mem_toDigits (by decide) (by decide) hd

theorem drawable_toString (n : Nat) : Drawable (lit (toString n)) := by
  refine drawable_of_ascii fun c hc => ?_
  obtain ⟨d, hd, hc⟩ := List.mem_flatMap.mp hc
  obtain ⟨c', hd', hc'⟩ := utf8EncodeChar_of_isDigit (toString_digits n d hd)
  rw [hd', List.mem_singleton] at hc
  exact hc ▸ hc'

theorem length_toString {n k : Nat} (h : n < 10 ^ (k + 1)) : (lit (toString n)).length ≤ k + 1 := by
  have hone : ∀ d ∈ (toString n).toList, (String.utf8EncodeChar d).length = 1 := by
    intro d hd
    obtain ⟨c, hc, -⟩ := utf8EncodeChar_of_isDigit (toString_digits n d hd)
    rw [hc, List.length_singleton]
  have hlen : (lit (toString n)).length = (toString n).toList.length := by
    rw [lit, List.length_flatMap, List.map_congr_left hone]
    simp
  rw [hlen, Nat.toString_eq_repr, Nat.toList_repr]
  exact (Nat.length_toDigits_le_iff (by decide) k.succ_pos).mpr h

/-! ## Buffers -/

/-- The buffer of a label with a text that can be drawn. -/
structure Legible (buf : List UInt8) : Prop where
  length : buf.length = widgetContentMaxsize
  terminated : 0 ∈ buf
  drawable : Drawable (cstr buf)

theorem Legible.split (h : Legible buf) : ∃ s rest, Drawable s ∧ buf = s ++ 0 :: rest ∧
    s.length + (rest.length + 1) = widgetContentMaxsize := by
  obtain ⟨s, rest, rfl, hs⟩ := List.eq_append_cons_of_mem h.terminated
  have hnul : NoNul s := fun b hb hb0 => hs (hb0 ▸ hb)
  have hlen := h.length
  have hdraw := h.drawable
  rw [cstr_terminated hnul] at hdraw
  rw [List.length_append, List.length_cons] at hlen
  exact ⟨s, rest, hdraw, rfl, hlen⟩

theorem legible_of_split {rest : List UInt8} (h : Drawable s)
    (hlen : s.length + (rest.length + 1) = widgetContentMaxsize) : Legible (s ++ 0 :: rest) where
  length := by rw [List.length_append, List.length_cons, hlen]
  terminated := List.mem_append_right _ List.mem_cons_self
  drawable := by rwa [cstr_terminated h.noNul]

/-- `strncpy` of a text that leaves room for a terminator. -/
theorem Legible.strncpy (h : Legible buf) (hsrc : Drawable src) (hlen : src.length < n)
    (hn : n ≤ widgetContentMaxsize) : Legible (store buf (strncpy src n)) := by
  obtain ⟨k, hk⟩ : ∃ k, n - src.length = k + 1 := ⟨n - src.length - 1, by omega⟩
  have hcopy : CString.strncpy src n = src ++ 0 :: List.replicate k 0 := by
    rw [CString.strncpy, cstr_of_noNul hsrc.noNul, List.take_of_length_le (Nat.le_of_lt hlen), hk,
      List.replicate_succ]
  rw [store, hcopy, List.append_assoc, List.cons_append]
  refine legible_of_split hsrc ?_
  have hbuf := h.length
  rw [List.length_append, List.length_replicate, List.length_drop, List.length_append,
    List.length_cons, List.length_replicate]
  omega

/-- `snprintf` and `strlcpy` of such a text. -/
theorem Legible.snprintf (h : Legible buf) (hsrc : Drawable src) (hlen : src.length < n)
    (hn : n ≤ widgetContentMaxsize) : Legible (store buf (snprintf src n)) := by
  have hcopy : CString.snprintf src n = src ++ [0] := by
    rw [CString.snprintf, cstr_of_noNul hsrc.noNul, List.take_of_length_le (by omega)]
  rw [store, hcopy, List.append_assoc, List.singleton_append]
  refine legible_of_split hsrc ?_
  have hbuf := h.length
  rw [List.length_drop, List.length_append, List.length_singleton]
  omega

theorem legible_content (hsrc : Drawable src) (hlen : src.length < widgetContentMaxsize) :
    Legible (wdgLableContent src) := by
  obtain ⟨k, hk⟩ : ∃ k, widgetContentMaxsize - src.length = k + 1 :=
    ⟨widgetContentMaxsize - src.length - 1, by omega⟩
  rw [wdgLableContent, CString.strncpy, cstr_of_noNul hsrc.noNul,
    List.take_of_length_le (Nat.le_of_lt hlen), hk, List.replicate_succ]
  refine legible_of_split hsrc ?_
  rw [List.length_replicate]
  omega

/-- The first byte cleared. -/
theorem Legible.clear (h : Legible buf) : Legible (store buf [0]) := by
  have hdrop : 0 + ((buf.drop 1).length + 1) = widgetContentMaxsize := by
    rw [List.length_drop, h.length]
    rfl
  exact legible_of_split drawable_nil hdrop

/-- A character typed. -/
theorem Legible.append (h : Legible buf) (hc : c ≠ 0 ∧ c < 0x80) : Legible (inptAppend buf c) := by
  obtain ⟨s, rest, hs, rfl, hlen⟩ := h.split
  rcases Nat.lt_or_ge s.length (widgetContentMaxsize - 1) with hroom | hfull
  · cases rest with
    | nil =>
      rw [List.length_nil] at hlen
      omega
    | cons d rest =>
      rw [inptAppend_of_room hs.noNul hroom, List.append_cons]
      refine legible_of_split (hs.append (drawable_ascii hc)) ?_
      rw [List.length_cons] at hlen
      rw [List.length_append, List.length_singleton]
      omega
  · rw [inptAppend_of_full hs.noNul (Nat.not_lt_of_ge hfull)]
    exact legible_of_split hs hlen

/-! ## Pages -/

/-- A text that a buffer of `n` bytes takes with its terminator. -/
structure Fits (s : List UInt8) (n : Nat) : Prop where
  drawable : Drawable s
  length : s.length < n

/-- A text given in full. -/
theorem fits_lit (h : isDrawable s = true ∧ s.length < n := by decide +kernel) : Fits s n :=
  ⟨drawable_of_isDrawable h.1, h.2⟩

structure ViewTitleContent.AllLegible (v : ViewTitleContent) : Prop where
  tcTitle : Legible v.tcTitle
  tcContent : Legible v.tcContent

structure ViewInputPage.AllLegible (v : ViewInputPage) : Prop where
  ipgTitle : Legible v.ipgTitle
  ipgInptContent : Legible v.ipgInptContent
  ipgTips : Legible v.ipgTips

structure ViewList.AllLegible (l : ViewList) : Prop where
  listTitle : Legible l.listTitle
  rowPrev : Legible l.rowPrev
  rowSelect : Legible l.rowSelect
  rowNext : Legible l.rowNext
  contents : ∀ c ∈ l.contents, Fits c.vlcTitle widgetContentMaxsize

/-- Every label of every page can be drawn. -/
structure Ui.AllLegible (u : Ui) : Prop where
  titleContent : ∀ p, (u.titleContent p).AllLegible
  inputPage : ∀ p, (u.inputPage p).AllLegible
  viewList : ∀ p, (u.viewList p).AllLegible

theorem viewTitleContentSetup_legible (ht : Fits s widgetContentMaxsize)
    (hc : Fits t widgetContentMaxsize) : (viewTitleContentSetup s t).AllLegible :=
  ⟨legible_content ht.drawable ht.length, legible_content hc.drawable hc.length⟩

theorem viewInputPageSetup_legible (ht : Fits s widgetContentMaxsize)
    (hd : Fits t widgetContentMaxsize) (hc : Fits src widgetContentMaxsize) :
    (viewInputPageSetup s t src).AllLegible :=
  ⟨legible_content ht.drawable ht.length, legible_content hd.drawable hd.length,
    legible_content hc.drawable hc.length⟩

theorem fits_nil (hn : 0 < n) : Fits [] n := ⟨drawable_nil, hn⟩

namespace ViewList.AllLegible

variable {l l' : ViewList}

theorem setup (h : Fits s widgetContentMaxsize) : (viewListSetup s).AllLegible where
  listTitle := legible_content h.drawable h.length
  rowPrev := legible_content drawable_nil (by decide)
  rowSelect := legible_content (drawable_of_isDrawable (by decide +kernel)) (by decide +kernel)
  rowNext := legible_content drawable_nil (by decide)
  contents := List.forall_mem_nil _

theorem titleAt (h : l.AllLegible) (p : Option Nat) : Fits (l.titleAt p) widgetContentMaxsize := by
  unfold ViewList.titleAt
  cases hd : l.deref p with
  | none => exact fits_nil (by decide)
  | some c =>
    obtain ⟨i, -, hi⟩ := Option.bind_eq_some_iff.mp hd
    exact h.contents c (List.mem_of_getElem? hi)

theorem sycn (h : l.AllLegible) : (viewListWidgetSycn l).AllLegible := by
  have hcopy {buf src : List UInt8} (hbuf : Legible buf) (hsrc : Fits src widgetContentMaxsize) :
      Legible (store buf (snprintf src widgetContentMaxsize)) :=
    hbuf.snprintf hsrc.drawable hsrc.length (Nat.le_refl _)
  unfold viewListWidgetSycn
  dsimp only
  cases hd : l.deref l.vlContentSelect with
  | some sel =>
    obtain ⟨i, -, hi⟩ := Option.bind_eq_some_iff.mp hd
    exact
      { listTitle := h.listTitle
        rowPrev := hcopy h.rowPrev (h.titleAt _)
        rowSelect := hcopy h.rowSelect (h.contents sel (List.mem_of_getElem? hi))
        rowNext := hcopy h.rowNext (h.titleAt _)
        contents := h.contents }
  | none =>
    exact
      { listTitle := h.listTitle
        rowPrev := hcopy h.rowPrev (fits_nil (by decide))
        rowSelect := hcopy h.rowSelect fits_lit
        rowNext := hcopy h.rowNext (fits_nil (by decide))
        contents := h.contents }

theorem select (h : l.AllLegible) (p : Option Nat) : { l with vlContentSelect := p }.AllLegible :=
  ⟨h.listTitle, h.rowPrev, h.rowSelect, h.rowNext, h.contents⟩

theorem shift (h : l.AllLegible) {dir : Int} (hs : viewListSelectShift l dir = .ok l') :
    l'.AllLegible := by
  unfold viewListSelectShift at hs
  cases hd : l.deref l.vlContentSelect with
  | none =>
    rw [hd] at hs
    cases hs
  | some sel =>
    rw [hd] at hs
    cases hs
    exact (h.select _).sycn

theorem push (h : l.AllLegible) (ht : Fits s widgetContentMaxsize) (action : VlcAction) :
    (viewListPushContent l s action).AllLegible := by
  unfold viewListPushContent
  dsimp only
  refine sycn ⟨h.listTitle, h.rowPrev, h.rowSelect, h.rowNext, fun c hc => ?_⟩
  rcases List.mem_append.mp hc with hc | hc
  · cases htail : l.vlContentTail with
    | none =>
      rw [htail] at hc
      exact h.contents c hc
    | some t =>
      -- an entry whose link is set keeps its title
      rw [htail] at hc
      obtain ⟨i, hi⟩ := List.mem_iff_getElem?.mp hc
      rw [List.getElem?_modify] at hi
      obtain ⟨d, hd, hdc⟩ := Option.map_eq_some_iff.mp hi
      have hfits := h.contents d (List.mem_of_getElem? hd)
      split at hdc <;> exact hdc ▸ hfits
  · rw [List.mem_singleton.mp hc]
    exact ht

end ViewList.AllLegible

namespace Ui.AllLegible

theorem display (h : u.AllLegible) (d : Display) : { u with toDisplay := d }.AllLegible :=
  ⟨h.titleContent, h.inputPage, h.viewList⟩

theorem run (h : u.AllLegible) (p : Page) : (u.run p).AllLegible := h.display _

theorem refresh (h : u.AllLegible) (hr : u.refresh = .ok u') : u'.AllLegible := by
  obtain ⟨d, -, rfl⟩ := map_eq_ok.mp hr
  exact h.display d

theorem back (h : u.AllLegible) (hb : u.back = .ok u') : u'.AllLegible := by
  obtain ⟨d, -, rfl⟩ := map_eq_ok.mp hb
  exact h.display d

theorem setTitleContent {p : Page} {f : ViewTitleContent → ViewTitleContent} (h : u.AllLegible)
    (hf : ∀ v, v.AllLegible → (f v).AllLegible) : (u.setTitleContent p f).AllLegible := by
  refine ⟨fun q => ?_, h.inputPage, h.viewList⟩
  rcases eq_or_ne q p with rfl | hq
  · simpa [Ui.setTitleContent] using hf _ (h.titleContent q)
  · simpa [Ui.setTitleContent, hq] using h.titleContent q

theorem setTitle (h : u.AllLegible) (p : Page) (hs : Fits s n) (hn : n ≤ widgetContentMaxsize) :
    (u.setTitle p s n).AllLegible :=
  h.setTitleContent fun _ hv => ⟨hv.tcTitle.strncpy hs.drawable hs.length hn, hv.tcContent⟩

theorem setContent (h : u.AllLegible) (p : Page) (hs : Fits s widgetContentMaxsize) :
    (u.setContent p s).AllLegible :=
  h.setTitleContent fun _ hv =>
    ⟨hv.tcTitle, hv.tcContent.strncpy hs.drawable hs.length (Nat.le_refl _)⟩

theorem setInputPage {p : Page} {f : ViewInputPage → ViewInputPage} (h : u.AllLegible)
    (hf : ∀ v, v.AllLegible → (f v).AllLegible) : (u.setInputPage p f).AllLegible := by
  refine ⟨h.titleContent, fun q => ?_, h.viewList⟩
  rcases eq_or_ne q p with rfl | hq
  · simpa [Ui.setInputPage] using hf _ (h.inputPage q)
  · simpa [Ui.setInputPage, hq] using h.inputPage q

theorem setViewList {p : Page} {l : ViewList} (h : u.AllLegible) (hl : l.AllLegible) :
    (u.setViewList p l).AllLegible := by
  refine ⟨h.titleContent, h.inputPage, fun q => ?_⟩
  rcases eq_or_ne q p with rfl | hq
  · simpa [Ui.setViewList] using hl
  · simpa [Ui.setViewList, hq] using h.viewList q

theorem clearInpt (h : u.AllLegible) (p : Page) : (u.clearInpt p).AllLegible :=
  h.setInputPage fun _ hv => ⟨hv.ipgTitle, hv.ipgInptContent.clear, hv.ipgTips⟩

theorem launch (h : u.AllLegible) (authFor : ServSysop) :
    (paswAuthActivityLaunch u authFor).AllLegible := by
  have htips : Fits (lit "[#] to Confirm:") 64 := fits_lit
  have hset (title : List UInt8) (ht : Fits title 64) :
      (u.setInputPage .pswAuth fun v =>
        { v with
          ipgTitle := store v.ipgTitle (snprintf title 64)
          ipgTips := store v.ipgTips (snprintf (lit "[#] to Confirm:") 64) }).AllLegible :=
    h.setInputPage fun _ hv =>
      ⟨hv.ipgTitle.snprintf ht.drawable ht.length (Nat.le_refl _), hv.ipgInptContent,
        hv.ipgTips.snprintf htips.drawable htips.length (Nat.le_refl _)⟩
  cases authFor with
  | doorUnlock =>
    have hpage := hset (lit "Password:") fits_lit
    exact ⟨hpage.titleContent, hpage.inputPage, hpage.viewList⟩
  | paswAlter =>
    have hpage := hset (lit "Old password:") fits_lit
    exact ⟨hpage.titleContent, hpage.inputPage, hpage.viewList⟩

theorem typed {content : UInt16} (h : u.AllLegible) (p : Page) (hlo : 0x20 < content)
    (hhi : content < 0x80) : (DoorLock.typed u p content).AllLegible := by
  have hascii : content.toUInt8 < 0x80 := by
    have hlt : content.toNat < 128 := UInt16.lt_iff_toNat_lt.mp hhi
    rw [UInt8.lt_iff_toNat_lt, UInt16.toNat_toUInt8]
    exact Nat.lt_of_le_of_lt (Nat.mod_le _ _) hlt
  exact h.setInputPage fun _ hv =>
    ⟨hv.ipgTitle, hv.ipgInptContent.append ⟨toUInt8_ne_zero hlo hhi, hascii⟩, hv.ipgTips⟩

/-- `app_init` -/
theorem init : appInit.AllLegible := by
  refine ⟨fun p => ?_, fun p => ?_, fun p => ?_⟩
  · cases p <;> exact viewTitleContentSetup_legible fits_lit fits_lit
  · cases p <;> exact viewInputPageSetup_legible fits_lit fits_lit fits_lit
  · -- three entries are pushed to either list
    cases p <;>
      exact (((ViewList.AllLegible.setup fits_lit).push fits_lit _).push fits_lit _).push fits_lit _

end Ui.AllLegible

end DoorLock
