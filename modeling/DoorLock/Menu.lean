import DoorLock.View
import DoorLock.Lib.Chain
import DoorLock.Lib.Run

/-!
# The menu behind a list view (`view.c`)

A menu is the items in the order they were pushed and the place of the selected one. The entries
of a `view_list` with their links, its two pointers and its three rows refine it: the entries are a
doubly linked chain, and the rows are refreshed by every push and every move of the selection.
-/

namespace DoorLock

open Transition CString LinkedChain

/-- The calls a list view gets after its setup. -/
inductive MenuAction
  | push (title : List UInt8) (action : VlcAction)
  | selectPrev
  | selectNext

def menuStep (l : ViewList) : MenuAction → Except Fault ViewList
  | .push title action => .ok (viewListPushContent l title action)
  | .selectPrev => viewListSelectShift l (-1)
  | .selectNext => viewListSelectShift l 1

/-! ## The menu as its user sees it -/

/-- An item has a title and an action. -/
structure MenuItem where
  title : List UInt8
  action : VlcAction

structure Menu where
  items : List MenuItem
  cursor : Nat

namespace Menu

def empty : Menu := ⟨[], 0⟩

/-- Items come in at the end; the cursor starts at the first item and stops at both ends. -/
def act (m : Menu) : MenuAction → Menu
  | .push title action => { m with items := m.items ++ [⟨title, action⟩] }
  | .selectPrev => { m with cursor := m.cursor - 1 }
  | .selectNext => { m with cursor := min (m.cursor + 1) (m.items.length - 1) }

/-- What a row of 64 bytes shows of the title of item `i`, nothing where there is no item. -/
def row (m : Menu) (i : Option Nat) : List UInt8 :=
  ((i.bind (m.items[·]?)).map fun it => (cstr it.title).take 63).getD []

end Menu

/-! ## The entries of a list as a chain -/

/-- The item an entry was pushed for. -/
def VlContent.item (c : VlContent) : MenuItem := ⟨c.vlcTitle, c.vlcAction⟩

/-- The link of entry `i` to the one before it. -/
def prevLink (contents : List VlContent) (i : Nat) : Option Nat :=
  (contents[i]?).bind VlContent.vlcPrevContent

/-- The link of entry `i` to the one after it. -/
def nextLink (contents : List VlContent) (i : Nat) : Option Nat :=
  (contents[i]?).bind VlContent.vlcNextContent

/-- The entries of a list and its pointers are those of a menu that has an item. -/
structure Represents (l : ViewList) (m : Menu) : Prop where
  items : l.contents.map VlContent.item = m.items
  chain : Chain (prevLink l.contents) (nextLink l.contents) l.contents.length
  select : l.vlContentSelect = some m.cursor
  tail : l.vlContentTail = some (l.contents.length - 1)
  cursor_lt : m.cursor < l.contents.length

/-- The three rows of a list show the items around the cursor. -/
structure ShowsRows (l : ViewList) (m : Menu) : Prop where
  prev : cstr l.rowPrev = m.row (cellBefore m.cursor)
  select : cstr l.rowSelect = m.row (some m.cursor)
  next : cstr l.rowNext = m.row (some (m.cursor + 1))

variable {l l' : ViewList} {m : Menu}

@[simp] theorem viewListWidgetSycn_select (l : ViewList) :
    (viewListWidgetSycn l).vlContentSelect = l.vlContentSelect := by
  unfold viewListWidgetSycn
  cases l.deref l.vlContentSelect <;> rfl

@[simp] theorem viewListWidgetSycn_tail (l : ViewList) :
    (viewListWidgetSycn l).vlContentTail = l.vlContentTail := by
  unfold viewListWidgetSycn
  cases l.deref l.vlContentSelect <;> rfl

theorem Represents.sycn (h : Represents l m) : Represents (viewListWidgetSycn l) m := by
  constructor
  · simpa using h.items
  · simpa using h.chain
  · simpa using h.select
  · simpa using h.tail
  · simpa using h.cursor_lt

theorem Represents.length_items (h : Represents l m) : m.items.length = l.contents.length := by
  rw [← h.items, List.length_map]

theorem Represents.getElem?_items (h : Represents l m) (i : Nat) :
    m.items[i]? = (l.contents[i]?).map VlContent.item := by
  rw [← h.items, List.getElem?_map]

/-- A title copied into a row is what the menu shows in it. -/
theorem Represents.titleAt (h : Represents l m) (p : Option Nat) :
    (cstr (l.titleAt p)).take 63 = m.row p := by
  cases p with
  | none => rfl
  | some i =>
    simp only [ViewList.titleAt, ViewList.deref, Menu.row, Option.bind_some, h.getElem?_items]
    cases l.contents[i]? with
    | none => rfl
    | some c => rfl

/-- The selected entry. -/
theorem Represents.selected (h : Represents l m) : ∃ c, l.deref l.vlContentSelect = some c ∧
    m.items[m.cursor]? = some c.item ∧ c.vlcPrevContent = cellBefore m.cursor ∧
    c.vlcNextContent = cellAfter l.contents.length m.cursor := by
  have hlt := h.cursor_lt
  have hc : l.contents[m.cursor]? = some l.contents[m.cursor] := List.getElem?_eq_getElem hlt
  refine ⟨l.contents[m.cursor], ?_, ?_, ?_, ?_⟩
  · rw [ViewList.deref, h.select, Option.bind_some, hc]
  · rw [h.getElem?_items, hc, Option.map_some]
  · simpa [prevLink, hc] using h.chain.prev_eq m.cursor h.cursor_lt
  · simpa [nextLink, hc] using h.chain.next_eq m.cursor h.cursor_lt

theorem Represents.row_after (h : Represents l m) :
    m.row (cellAfter l.contents.length m.cursor) = m.row (some (m.cursor + 1)) := by
  unfold cellAfter
  split
  case isTrue => rfl
  case isFalse hlast =>
    have hnone : m.items[m.cursor + 1]? = none := by
      rw [List.getElem?_eq_none_iff, h.length_items]
      omega
    simp [Menu.row, hnone]

/-- `view_list_widget_sycn` refreshes all three rows. -/
theorem Represents.showsRows (h : Represents l m) : ShowsRows (viewListWidgetSycn l) m := by
  obtain ⟨c, hderef, hitem, hprev, hnext⟩ := h.selected
  unfold viewListWidgetSycn
  simp only [hderef]
  constructor
  · rw [cstr_store_snprintf, hprev]
    exact h.titleAt _
  · rw [cstr_store_snprintf, Menu.row, Option.bind_some, hitem]
    rfl
  · rw [cstr_store_snprintf, hnext]
    exact (h.titleAt _).trans h.row_after

/-! ## One call -/

/-- The first push makes the item the selection. -/
theorem represents_push_first (title t : List UInt8) (a : VlcAction) :
    ∃ l, viewListPushContent (viewListSetup title) t a = viewListWidgetSycn l ∧
      Represents l (Menu.empty.act (.push t a)) := by
  unfold viewListPushContent
  refine ⟨_, rfl, ?_⟩
  refine ⟨rfl, ⟨?_, ?_⟩, rfl, rfl, Nat.zero_lt_one⟩
  · intro i hi
    cases Nat.lt_one_iff.mp hi
    rfl
  · intro i hi
    cases Nat.lt_one_iff.mp hi
    rfl

/-- The entries after a push on a list that has some: the last one is linked to the new one. -/
def pushed (contents : List VlContent) (t : List UInt8) (a : VlcAction) : List VlContent :=
  contents.modify (contents.length - 1) (fun c => { c with vlcNextContent := some contents.length })
    ++ [⟨a, t, some (contents.length - 1), none⟩]

section
variable (cs : List VlContent) (t : List UInt8) (a : VlcAction)

theorem map_item_modify (i : Nat) (p : Option Nat) :
    (cs.modify i fun c => { c with vlcNextContent := p }).map VlContent.item
      = cs.map VlContent.item := by
  refine List.ext_getElem? fun j => ?_
  rw [List.getElem?_map, List.getElem?_map, List.getElem?_modify]
  cases cs[j]? with
  | none => rfl
  | some c =>
    simp only [Option.map_eq_map, Option.map_some]
    split <;> rfl

theorem pushed_getElem? {i : Nat} (hi : i < cs.length) :
    (pushed cs t a)[i]? = (cs[i]?).map fun c =>
      if cs.length - 1 = i then { c with vlcNextContent := some cs.length } else c := by
  rw [pushed, List.getElem?_append_left (by simpa using hi), List.getElem?_modify]
  rfl

theorem pushed_last :
    (pushed cs t a)[cs.length]? = some ⟨a, t, some (cs.length - 1), none⟩ := by
  rw [pushed, List.getElem?_append_right (by simp)]
  simp

/-- The pushed entry extends the chain. -/
theorem chain_pushed (hpos : 0 < cs.length)
    (h : Chain (prevLink cs) (nextLink cs) cs.length) :
    Chain (prevLink (pushed cs t a)) (nextLink (pushed cs t a)) (cs.length + 1) := by
  refine h.snoc (fun i hi => ?_) (fun i hi => ?_) (fun i hi => ?_) ?_ ?_
  · rw [prevLink, prevLink, pushed_getElem? cs t a hi]
    cases cs[i]? with
    | none => rfl
    | some c =>
      simp only [Option.map_some, Option.bind_some]
      split <;> rfl
  · rw [nextLink, nextLink, pushed_getElem? cs t a (Nat.lt_of_succ_lt hi)]
    cases cs[i]? with
    | none => rfl
    | some c => simp [show cs.length - 1 ≠ i by omega]
  · have hlt : i < cs.length := by omega
    rw [nextLink, pushed_getElem? cs t a hlt, List.getElem?_eq_getElem hlt]
    simp [show cs.length - 1 = i by omega]
  · rw [prevLink, pushed_last, Option.bind_some]
    obtain ⟨n, hn⟩ := Nat.exists_eq_add_of_lt hpos
    rw [hn]
    rfl
  · rw [nextLink, pushed_last, Option.bind_some]

end

/-- Every further push appends an item and leaves the selection where it is. -/
theorem Represents.push (h : Represents l m) (t : List UInt8) (a : VlcAction) :
    ∃ l', viewListPushContent l t a = viewListWidgetSycn l' ∧
      Represents l' (m.act (.push t a)) := by
  have hpos : 0 < l.contents.length := Nat.zero_lt_of_lt h.cursor_lt
  have hlen : (pushed l.contents t a).length = l.contents.length + 1 := by simp [pushed]
  unfold viewListPushContent
  simp only [h.tail]
  refine ⟨_, rfl, ?_, ?_, ?_, ?_, ?_⟩
  · change (pushed l.contents t a).map VlContent.item = m.items ++ [⟨t, a⟩]
    rw [pushed, List.map_append, map_item_modify, h.items]
    rfl
  · change Chain (prevLink (pushed l.contents t a)) (nextLink (pushed l.contents t a))
      (pushed l.contents t a).length
    rw [hlen]
    exact chain_pushed l.contents t a hpos h.chain
  · exact h.select
  · change some l.contents.length = some ((pushed l.contents t a).length - 1)
    rw [hlen, Nat.add_sub_cancel]
  · change m.cursor < (pushed l.contents t a).length
    rw [hlen]
    exact Nat.lt_succ_of_lt h.cursor_lt

theorem Represents.moveTo (h : Represents l m) {i : Nat} (hi : i < l.contents.length) :
    Represents { l with vlContentSelect := some i } { m with cursor := i } :=
  ⟨h.items, h.chain, rfl, h.tail, hi⟩

theorem viewListSelectShift_of_deref {c : VlContent} (dir : Int)
    (h : l.deref l.vlContentSelect = some c) :
    viewListSelectShift l dir = .ok (viewListWidgetSycn { l with
      vlContentSelect :=
        if dir = -1 ∧ c.vlcPrevContent ≠ none then c.vlcPrevContent
        else if dir = 1 ∧ c.vlcNextContent ≠ none then c.vlcNextContent
        else l.vlContentSelect }) := by
  rw [viewListSelectShift, h]

/-- `view_list_select_shift` in direction `-1`: one item back, unless the first is selected. -/
theorem Represents.selectPrev (h : Represents l m) :
    ∃ l', viewListSelectShift l (-1) = .ok (viewListWidgetSycn l') ∧
      Represents l' (m.act .selectPrev) := by
  obtain ⟨c, hderef, -, hprev, -⟩ := h.selected
  have hlt := h.cursor_lt
  have hto := h.moveTo (Nat.lt_of_le_of_lt (Nat.sub_le m.cursor 1) hlt)
  refine ⟨_, ?_, hto⟩
  rw [viewListSelectShift_of_deref (-1) hderef, hprev, h.select]
  cases m.cursor with
  | zero => rfl
  | succ i => rfl

/-- `view_list_select_shift` in direction `+1`: one item on, unless the last is selected. -/
theorem Represents.selectNext (h : Represents l m) :
    ∃ l', viewListSelectShift l 1 = .ok (viewListWidgetSycn l') ∧
      Represents l' (m.act .selectNext) := by
  obtain ⟨c, hderef, -, -, hnext⟩ := h.selected
  have hlt := h.cursor_lt
  have hto := h.moveTo (i := min (m.cursor + 1) (m.items.length - 1))
    (by rw [h.length_items]; omega)
  refine ⟨_, ?_, hto⟩
  rw [viewListSelectShift_of_deref 1 hderef, hnext, h.select, h.length_items]
  unfold cellAfter
  split
  case isTrue hnot =>
    simp at hnot
  case isFalse =>
    by_cases hlast : m.cursor + 1 < l.contents.length
    · rw [show min (m.cursor + 1) (l.contents.length - 1) = m.cursor + 1 by omega]
      simp [hlast]
    · rw [show min (m.cursor + 1) (l.contents.length - 1) = m.cursor by omega]
      simp [hlast]

/-- Every call on a list that has an item keeps it a menu and refreshes its rows. -/
theorem Represents.step (h : Represents l m) (act : MenuAction) :
    ∃ l', menuStep l act = .ok l' ∧ Represents l' (m.act act) ∧ ShowsRows l' (m.act act) := by
  cases act with
  | push t a =>
    obtain ⟨l', hl', hrep⟩ := h.push t a
    exact ⟨_, congrArg Except.ok hl', hrep.sycn, hrep.showsRows⟩
  | selectPrev =>
    obtain ⟨l', hl', hrep⟩ := h.selectPrev
    exact ⟨_, hl', hrep.sycn, hrep.showsRows⟩
  | selectNext =>
    obtain ⟨l', hl', hrep⟩ := h.selectNext
    exact ⟨_, hl', hrep.sycn, hrep.showsRows⟩

/-- Every sequence of calls from there on. -/
theorem Represents.exec (h : Represents l m) (hrows : ShowsRows l m) (acts : List MenuAction) :
    ∃ l', exec menuStep l acts = .ok l' ∧ Represents l' (acts.foldl Menu.act m) ∧
      ShowsRows l' (acts.foldl Menu.act m) := by
  induction acts generalizing l m with
  | nil => exact ⟨l, rfl, h, hrows⟩
  | cons act acts ih =>
    obtain ⟨l₁, hstep, hrep₁, hrows₁⟩ := h.step act
    obtain ⟨l₂, hexec, hrep₂, hrows₂⟩ := ih hrep₁ hrows₁
    exact ⟨l₂, bind_eq_ok.mpr ⟨l₁, hstep, hexec⟩, hrep₂, hrows₂⟩

/-! ## Every sequence of calls -/

/-- The menu after a sequence of calls. -/
def menuOf (acts : List MenuAction) : Menu := acts.foldl Menu.act Menu.empty

/-- A list view is the menu `m`: its entries are the items, the selection is the one at the cursor,
the links lead from the selection through all of them in order and are inverse to each other, the
tail is the last one, and the rows show the items around the cursor. -/
structure IsMenu (l : ViewList) (m : Menu) : Prop where
  entries : l.contents.map VlContent.item = m.items
  select : l.vlContentSelect = some m.cursor
  selected : ∃ c, l.deref l.vlContentSelect = some c ∧ m.items[m.cursor]? = some c.item
  reachable : ∀ i, Reach (prevLink l.contents) (nextLink l.contents) m.cursor i ↔
    i < m.items.length
  in_order : ∀ i < m.items.length, nextLink l.contents i = cellAfter m.items.length i
  inverse : ∀ i < m.items.length, ∀ j < m.items.length,
    nextLink l.contents i = some j ↔ prevLink l.contents j = some i
  tail : l.vlContentTail = some (m.items.length - 1)
  rows : ShowsRows l m

theorem Represents.isMenu (h : Represents l m) (hrows : ShowsRows l m) : IsMenu l m := by
  have hlen := h.length_items
  obtain ⟨c, hderef, hitem, -, -⟩ := h.selected
  refine ⟨h.items, h.select, ⟨c, hderef, hitem⟩, fun i => ?_, fun i hi => ?_,
    fun i hi j hj => ?_, ?_, hrows⟩
  · rw [hlen]
    exact h.chain.reach_iff h.cursor_lt
  · rw [hlen] at hi ⊢
    exact h.chain.next_eq i hi
  · rw [hlen] at hi hj
    exact h.chain.inverse hi hj
  · rw [hlen]
    exact h.tail

/-- A menu shows the item that is selected and the ones next to it, after any sequence of pushes
and moves in which a push comes before the first move. -/
theorem isMenu_of_calls (title t : List UInt8) (a : VlcAction) (acts : List MenuAction) :
    ∃ l, exec menuStep (viewListSetup title) (.push t a :: acts) = .ok l ∧
      IsMenu l (menuOf (.push t a :: acts)) := by
  obtain ⟨l₀, hpush, hrep⟩ := represents_push_first title t a
  obtain ⟨l, hexec, hrep', hrows⟩ := hrep.sycn.exec hrep.showsRows acts
  have hstep : menuStep (viewListSetup title) (.push t a) = .ok (viewListWidgetSycn l₀) :=
    congrArg Except.ok hpush
  exact ⟨l, bind_eq_ok.mpr ⟨_, hstep, hexec⟩, hrep'.isMenu hrows⟩

end DoorLock
