import DoorLock.Message

/-!
# Views (`view.c`)

The text buffers of the three view formats and the scrolling list with its linked entries. A list
entry is addressed by its index among the entries pushed so far.
-/

namespace DoorLock

open CString

/-- What the C program does instead of going on: a dereferenced `NULL`, or a payload read as a
struct that lies outside of it. -/
inductive Fault
  | nullPage | nullItem | nullPasw | badCast
  deriving DecidableEq, Repr

/-- The activities `app_init` creates, each a pointer to its own `activity_t`. -/
inductive Page
  | fgReader | doorUnlock | pswAuth | home | popup | manu | fgModeSet | about | pswAlter
  deriving DecidableEq, Repr

/-- `view_type_e` -/
inductive ViewType
  | titleContent | inptPage | list
  deriving DecidableEq, Repr

/-- The `view_type` each activity is created with. -/
def Page.viewType : Page → ViewType
  | .pswAuth | .pswAlter => .inptPage
  | .manu | .fgModeSet => .list
  | _ => .titleContent

/-- `WIDGET_CONTENT_MAXSIZE` -/
def widgetContentMaxsize : Nat := 64

/-- The `widget_content` array of a label set up with a text. -/
def wdgLableContent (content : List UInt8) : List UInt8 := strncpy content widgetContentMaxsize

/-- `view_title_content_t` -/
structure ViewTitleContent where
  tcTitle : List UInt8
  tcContent : List UInt8

def viewTitleContentSetup (title content : List UInt8) : ViewTitleContent where
  tcTitle := wdgLableContent title
  tcContent := wdgLableContent content

/-- `view_input_page` -/
structure ViewInputPage where
  ipgTitle : List UInt8
  ipgInptContent : List UInt8
  ipgTips : List UInt8

def viewInputPageSetup (title defualtInpt tips : List UInt8) : ViewInputPage where
  ipgTitle := wdgLableContent title
  ipgInptContent := wdgLableContent defualtInpt
  ipgTips := wdgLableContent tips

/-- `action_type_e` with the struct `vlc_action` points to. -/
inductive VlcAction
  | launch (activityLaunch : Page)
  | iSet (varVal : FgStatus)
  | ptrSet
  | auth (authFor : ServSysop)
  deriving DecidableEq

/-- `vl_content_t` -/
structure VlContent where
  vlcAction : VlcAction
  vlcTitle : List UInt8
  vlcPrevContent : Option Nat
  vlcNextContent : Option Nat
  deriving DecidableEq

/-- `view_list`, with the contents of its four labels and the entries pushed to it. -/
structure ViewList where
  listTitle : List UInt8
  rowPrev : List UInt8
  rowSelect : List UInt8
  rowNext : List UInt8
  contents : List VlContent
  vlContentSelect : Option Nat
  vlContentTail : Option Nat

namespace ViewList

/-- The entry a pointer points to. -/
def deref (l : ViewList) (p : Option Nat) : Option VlContent := p.bind (l.contents[·]?)

/-- The title of the entry a pointer points to, empty for `NULL`. -/
def titleAt (l : ViewList) (p : Option Nat) : List UInt8 :=
  ((l.deref p).map VlContent.vlcTitle).getD []

end ViewList

def viewListSetup (title : List UInt8) : ViewList where
  listTitle := wdgLableContent title
  rowPrev := wdgLableContent []
  rowSelect := wdgLableContent (lit "List no content")
  rowNext := wdgLableContent []
  contents := []
  vlContentSelect := none
  vlContentTail := none

/-- `view_list_widget_sycn`: the three rows show the entries around the selection. -/
def viewListWidgetSycn (l : ViewList) : ViewList :=
  let strlcpy dst src := store dst (snprintf src widgetContentMaxsize)
  match l.deref l.vlContentSelect with
  | some sel =>
    { l with
      rowSelect := strlcpy l.rowSelect sel.vlcTitle
      rowPrev := strlcpy l.rowPrev (l.titleAt sel.vlcPrevContent)
      rowNext := strlcpy l.rowNext (l.titleAt sel.vlcNextContent) }
  | none =>
    { l with
      rowSelect := strlcpy l.rowSelect (lit "Empty List")
      rowPrev := strlcpy l.rowPrev []
      rowNext := strlcpy l.rowNext [] }

/-- `view_list_push_content`, both allocations succeeding. -/
def viewListPushContent (l : ViewList) (title : List UInt8) (action : VlcAction) : ViewList :=
  let new := l.contents.length
  let newContent : VlContent :=
    { vlcAction := action, vlcTitle := title, vlcPrevContent := l.vlContentTail,
      vlcNextContent := none }
  let linked := match l.vlContentTail with
    | none => l.contents
    | some t => l.contents.modify t fun c => { c with vlcNextContent := some new }
  viewListWidgetSycn
    { l with
      contents := linked ++ [newContent]
      vlContentSelect := if l.vlContentTail = none then some new else l.vlContentSelect
      vlContentTail := some new }

/-- `view_list_select_shift` in direction `-1` or `+1`. -/
def viewListSelectShift (l : ViewList) (dir : Int) : Except Fault ViewList :=
  match l.deref l.vlContentSelect with
  | none => .error .nullItem
  | some sel =>
    let select :=
      if dir = -1 ∧ sel.vlcPrevContent ≠ none then sel.vlcPrevContent
      else if dir = 1 ∧ sel.vlcNextContent ≠ none then sel.vlcNextContent
      else l.vlContentSelect
    .ok (viewListWidgetSycn { l with vlContentSelect := select })

@[simp] theorem viewListWidgetSycn_contents (l : ViewList) :
    (viewListWidgetSycn l).contents = l.contents := by
  unfold viewListWidgetSycn
  cases l.deref l.vlContentSelect <;> rfl

/-- Moving the selection leaves the entries and their links alone. -/
theorem viewListSelectShift_contents {l l' : ViewList} {dir : Int}
    (h : viewListSelectShift l dir = .ok l') : l'.contents = l.contents := by
  unfold viewListSelectShift at h
  cases hsel : l.deref l.vlContentSelect with
  | none => simp [hsel] at h
  | some sel =>
    simp only [hsel, Except.ok.injEq] at h
    subst h
    exact viewListWidgetSycn_contents _

theorem viewListSelectShift_error {l : ViewList} {dir : Int} {f : Fault}
    (h : viewListSelectShift l dir = .error f) : f ≠ .nullPage := by
  unfold viewListSelectShift at h
  cases hsel : l.deref l.vlContentSelect <;> simp_all [eq_comm]

end DoorLock
