import DoorLock.PaswCopy
import DoorLock.UiRun

/-!
# What an input page holds

Each time an input page is opened a visit begins, which ends when the page is closed. The buffer of
a page outlives its visits: that of `activity_psw_auth` is cleared when either password page is
confirmed and when the home page opens it, that of `activity_psw_alter` never is. A buffer is in
step with what was typed in the visit on top as long as no visit finds the text of another one.
-/

namespace DoorLock

open Transition CString

/-- The UI, and the pages on its stack with what was typed on each since it was opened. -/
structure Typing where
  ui : Ui
  visits : List (Page × List UInt8)

namespace Typing

/-- What was typed in the visit on top. -/
def text (s : Typing) : List UInt8 := (s.visits.head?.map Prod.snd).getD []

/-- The start: the home page alone. -/
def init : Typing := ⟨appInit, [(.home, [])]⟩

end Typing

/-- The printable character that a message types, if it is not `#`. -/
def EventMsg.printable (m : EventMsg) : Option UInt8 :=
  match m.sender, m.content with
  | .hwInpt, .inptEvent e =>
    if e.content ≠ keyHash ∧ 0x20 < e.content ∧ e.content < 0x80 then some e.content.toUInt8
    else none
  | _, _ => none

/-- The visits when the stack has become `pages`. -/
def visitsOn (pages : List Page) (visits : List (Page × List UInt8)) : List (Page × List UInt8) :=
  if visits.length < pages.length then pages.head?.toList.map (·, []) ++ visits
  else if pages.length < visits.length then visits.tail
  else visits

/-- An input page that is on top takes the character. -/
def typeOn (c : Option UInt8) : List (Page × List UInt8) → List (Page × List UInt8)
  | (p, t) :: visits =>
    if p.viewType = .inptPage then (p, t ++ c.toList) :: visits else (p, t) :: visits
  | [] => []

/-- What happens to the UI: a message is handled, or a deferred call returns to the last page. -/
inductive PageAction
  | handle (m : EventMsg)
  | back

def pageStep (env : Env) (s : Typing) : PageAction → Except Fault Typing
  | .handle m =>
    (uiEventHandler env s.ui m).map fun x =>
      ⟨x.1, typeOn m.printable (visitsOn x.1.stack.activities s.visits)⟩
  | .back => s.ui.back.map fun u => ⟨u, visitsOn u.stack.activities s.visits⟩

/-- The buffer of an input page. -/
def Ui.inptBuf (u : Ui) (p : Page) : List UInt8 := (u.inputPage p).ipgInptContent

/-- A buffer holds the first 63 characters of a text and a terminator. -/
structure Shows (buf text : List UInt8) : Prop where
  length : buf.length = widgetContentMaxsize
  terminated : 0 ∈ buf
  text : cstr buf = text.take (widgetContentMaxsize - 1)

/-- The password that a message carries. -/
def MsgContent.sentText : MsgContent → Option (List UInt8)
  | .authEvent e => some (cstr e.paswStr)
  | .servSysop e => some (cstr e.opPara.newPaswStr)
  | _ => none

/-- After a step the input page on top shows what was typed on it, and the messages sent in the
step carry what was typed on the page that was on top. -/
structure TypesRight (env : Env) (l : Label Typing PageAction) : Prop where
  shows : ∀ p, l.post.ui.peek = some p → p.viewType = .inptPage →
    Shows (l.post.ui.inptBuf p) l.post.text
  sends : ∀ m x s r c t, l.act = .handle m → uiEventHandler env l.pre.ui m = .ok x →
    .publish s r c t ∈ x.2 → c.sentText = some l.pre.text

/-- A message of the keypad. -/
def EventMsg.IsChar (m : EventMsg) : Prop := ∃ c, m.IsKey c ∧ c < 0x80

/-- A visit that ends leaves no text to a visit of the same page below it. -/
def ClosesEmpty (u : Ui) : Prop :=
  ∀ p rest, u.stack.activities = p :: rest → p ∈ rest → p.viewType = .inptPage → u.text p = []

/-- What lies behind the copy of a password that is confirmed on a page. -/
def behindCopy (env : Env) (addr : Nat) : Page → List UInt8
  | .pswAuth => env.paswAfter addr
  | _ => env.newPaswAfter addr

/-- A message that leaves the buffers in step with the visits. -/
structure MessageFits (env : Env) (s : Typing) (m : EventMsg) : Prop where
  opens : ¬m.IsChar → ∀ p, uiPageOp s.ui m = .run p → p.viewType = .inptPage →
    s.ui.stack.depth < activityStackDepthMax → s.ui.text p = []
  closes : uiPageOp s.ui m = .back → ¬(m.IsKey keyHash ∧ s.ui.peek = some .pswAuth) →
    ClosesEmpty s.ui
  clears : m.IsKey keyHash → s.ui.peek = some .pswAlter → .pswAuth ∈ s.ui.stack.activities →
    s.ui.text .pswAuth = []
  confirms : m.IsKey keyHash → ∀ p, s.ui.peek = some p → p.viewType = .inptPage →
    16 ≤ s.text.length → s.text.drop 16 = cstr (behindCopy env m.addr p)

/-- A step that leaves the buffers in step with the visits. -/
def TypesFit (env : Env) (l : Label Typing PageAction) : Prop :=
  match l.act with
  | .handle m => MessageFits env l.pre m
  | .back => ClosesEmpty l.pre.ui

/-! ## A buffer and the visits of its page -/

/-- The visits to a page, the newest first. -/
def textsOf (p : Page) (visits : List (Page × List UInt8)) : List (List UInt8) :=
  (visits.filter fun v => v.1 = p).map Prod.snd

/-- The newest visit to a page is in step with its buffer, and nothing was typed in the others. -/
def Settled (buf : List UInt8) : List (List UInt8) → Prop
  | [] => True
  | t :: older => cstr buf = t.take (widgetContentMaxsize - 1) ∧ ∀ t' ∈ older, t' = []

section
variable {buf t : List UInt8} {texts : List (List UInt8)}

theorem Settled.nil_of_cstr (h : Settled buf texts) (hempty : cstr buf = []) :
    ∀ t ∈ texts, t = [] := by
  cases texts with
  | nil => exact nofun
  | cons t older =>
    obtain ⟨ht, holder⟩ := h
    rw [hempty] at ht
    refine List.forall_mem_cons.mpr ⟨?_, holder⟩
    simpa [widgetContentMaxsize] using ht.symm

theorem settled_of_nil (hempty : cstr buf = []) (h : ∀ t ∈ texts, t = []) : Settled buf texts := by
  cases texts with
  | nil => trivial
  | cons t older =>
    obtain ⟨rfl, holder⟩ := List.forall_mem_cons.mp h
    exact ⟨hempty, holder⟩

end

section
variable {p q : Page} {t : List UInt8} {visits : List (Page × List UInt8)}

theorem textsOf_cons_self : textsOf p ((p, t) :: visits) = t :: textsOf p visits := by
  simp [textsOf]

theorem textsOf_cons_ne (h : q ≠ p) : textsOf p ((q, t) :: visits) = textsOf p visits := by
  simp [textsOf, h]

theorem textsOf_eq_nil : textsOf p visits = [] ↔ p ∉ visits.map Prod.fst := by
  simp [textsOf]
  grind

theorem visitsOn_push (pages : List Page) (h : visits.length = pages.length) :
    visitsOn (p :: pages) visits = (p, []) :: visits := by
  simp [visitsOn, h]

theorem visitsOn_pop {pages : List Page} (h : visits.length = pages.length + 1) :
    visitsOn pages visits = visits.tail := by
  have hle : ¬ pages.length + 1 < pages.length := by omega
  simp [visitsOn, h, hle]

@[simp] theorem typeOn_none : typeOn none visits = visits := by
  cases visits with
  | nil => rfl
  | cons v rest => simp [typeOn]

theorem visitsOn_same {pages : List Page} (h : visits.length = pages.length) :
    visitsOn pages visits = visits := by
  simp [visitsOn, h]

end

/-! ## A character at the end of a buffer -/

/-- `strlen` -/
theorem findIdx_nul {text : List UInt8} (h : NoNul text) (rest : List UInt8) :
    (text ++ 0 :: rest).findIdx (· == 0) = text.length := by
  have hnone : text.findIdx (· == 0) = text.length :=
    List.findIdx_eq_length.mpr fun c hc => beq_false_of_ne (h c hc)
  rw [List.findIdx_append, hnone, if_neg (Nat.lt_irrefl _)]
  simp [List.findIdx_cons]

/-- A buffer with room for a character and a terminator behind its text takes the character. -/
theorem inptAppend_of_room {text rest : List UInt8} {c d : UInt8} (h : NoNul text)
    (hroom : text.length < widgetContentMaxsize - 1) :
    inptAppend (text ++ 0 :: d :: rest) c = text ++ c :: 0 :: rest := by
  rw [inptAppend, findIdx_nul h, if_pos hroom]
  simp

theorem inptAppend_of_full {text rest : List UInt8} {c : UInt8} (h : NoNul text)
    (hfull : ¬ text.length < widgetContentMaxsize - 1) :
    inptAppend (text ++ 0 :: rest) c = text ++ 0 :: rest := by
  rw [inptAppend, findIdx_nul h, if_neg hfull]

/-- A character typed on a page: the buffer shows the text with it, as far as there is room. -/
theorem Shows.append {buf text : List UInt8} {c : UInt8} (h : Shows buf text) (hc : c ≠ 0) :
    Shows (inptAppend buf c) (text ++ [c]) := by
  obtain ⟨hlength, hmem, htext⟩ := h
  obtain ⟨s, rest, rfl, hs⟩ := List.eq_append_cons_of_mem hmem
  have hnul : NoNul s := fun b hb hb0 => hs (hb0 ▸ hb)
  rw [cstr_terminated hnul] at htext
  rw [List.length_append, List.length_cons] at hlength
  by_cases hroom : s.length < widgetContentMaxsize - 1
  · have hall : text.length ≤ widgetContentMaxsize - 1 := by
      rw [htext, List.length_take] at hroom
      omega
    rw [List.take_of_length_le hall] at htext
    subst htext
    cases rest with
    | nil => simp at hlength; omega
    | cons d rest =>
      rw [inptAppend_of_room hnul hroom]
      have hnul' : NoNul (s ++ [c]) := hnul.append (by simpa [NoNul] using hc)
      refine ⟨by simpa using hlength, by simp, ?_⟩
      rw [List.append_cons, cstr_terminated hnul', List.take_of_length_le]
      rw [List.length_append, List.length_singleton]
      omega
  · rw [inptAppend_of_full hnul hroom]
    refine ⟨by simpa using hlength, by simp, ?_⟩
    rw [cstr_terminated hnul, htext, List.take_append_of_le_length]
    rw [htext, List.length_take] at hroom
    omega

/-- The first byte of a buffer made NUL. -/
theorem shows_clear {buf : List UInt8} (h : buf.length = widgetContentMaxsize) :
    Shows (store buf [0]) [] := by
  refine ⟨?_, by simp [store], rfl⟩
  simp [store, h, widgetContentMaxsize]

/-! ## The invariant -/

/-- The buffers are arrays of 64 bytes that hold a terminator. -/
def Ui.Terminated (u : Ui) : Prop :=
  ∀ p, (u.inptBuf p).length = widgetContentMaxsize ∧ 0 ∈ u.inptBuf p

section
variable {u u' : Ui} {p q : Page} {content : UInt16}

theorem inptBuf_clearInpt_self : (u.clearInpt p).inptBuf p = store (u.inptBuf p) [0] := by
  simp [Ui.inptBuf, Ui.clearInpt, Ui.setInputPage]

theorem inptBuf_clearInpt_ne (h : q ≠ p) : (u.clearInpt p).inptBuf q = u.inptBuf q := by
  simp [Ui.inptBuf, Ui.clearInpt, Ui.setInputPage, h]

theorem inptBuf_typed_self :
    (typed u p content).inptBuf p = inptAppend (u.inptBuf p) content.toUInt8 := by
  simp [Ui.inptBuf, typed, Ui.setInputPage]

theorem inptBuf_typed_ne (h : q ≠ p) : (typed u p content).inptBuf q = u.inptBuf q := by
  simp [Ui.inptBuf, typed, Ui.setInputPage, h]

theorem inptBuf_paswAuthActivityLaunch (authFor : ServSysop) :
    (paswAuthActivityLaunch u authFor).inptBuf q = u.inptBuf q := by
  by_cases hq : q = .pswAuth
  · subst hq
    simp [Ui.inptBuf, paswAuthActivityLaunch, Ui.run, Ui.setInputPage]
  · simp [Ui.inptBuf, paswAuthActivityLaunch, Ui.run, Ui.setInputPage, hq]

theorem Ui.Terminated.of_eq (h : u.Terminated) (hbuf : ∀ p, u'.inptBuf p = u.inptBuf p) :
    u'.Terminated := by
  intro p
  rw [hbuf p]
  exact h p

theorem Ui.Terminated.clearInpt (h : u.Terminated) (p : Page) : (u.clearInpt p).Terminated := by
  intro q
  by_cases hq : q = p
  · subst hq
    rw [inptBuf_clearInpt_self]
    obtain ⟨hlength, hmem, -⟩ := shows_clear (h q).1
    exact ⟨hlength, hmem⟩
  · rw [inptBuf_clearInpt_ne hq]
    exact h q

end

/-- The buffers are in step with the visits. -/
structure Typing.Sound (s : Typing) : Prop where
  pages : s.visits.map Prod.fst = s.ui.stack.activities
  bottom : ∃ above, s.ui.stack.activities = above ++ [.home] ∧ .home ∉ above
  contents : ∀ p, (s.ui.viewList p).contents = (appInit.viewList p).contents
  terminated : s.ui.Terminated
  settled : ∀ p, p.viewType = .inptPage → Settled (s.ui.inptBuf p) (textsOf p s.visits)

namespace Typing.Sound

variable {s : Typing} {u' : Ui} {p q : Page}

theorem length (h : s.Sound) : s.visits.length = s.ui.stack.activities.length := by
  rw [← h.pages, List.length_map]

theorem init : Sound .init where
  pages := rfl
  bottom := ⟨[], rfl, List.not_mem_nil⟩
  contents _ := rfl
  terminated p := by cases p <;> decide +kernel
  settled p hp := by
    cases p with
    | pswAuth => trivial
    | pswAlter => trivial
    | _ => simp [Page.viewType] at hp

/-- The home page is on top of nothing. -/
theorem home (h : s.Sound) (hpeek : s.ui.peek = some .home) :
    s.ui.stack.activities = [.home] := by
  obtain ⟨above, heq, hnot⟩ := h.bottom
  cases above with
  | nil => exact heq
  | cons q above =>
    simp only [Ui.peek, activityStackPeek, heq, List.cons_append, List.head?_cons,
      Option.some.injEq] at hpeek
    exact absurd (hpeek ▸ List.mem_cons_self) hnot

theorem textsOf_nil (h : s.Sound) (hp : p ∉ s.ui.stack.activities) : textsOf p s.visits = [] :=
  textsOf_eq_nil.mpr (h.pages ▸ hp)

/-- The page on top, and the text typed on it. -/
theorem top (h : s.Sound) (hpeek : s.ui.peek = some p) :
    ∃ rest, s.visits = (p, s.text) :: rest := by
  have hpages := h.pages
  cases hv : s.visits with
  | nil =>
    rw [hv] at hpages
    simp [Ui.peek, activityStackPeek, ← hpages] at hpeek
  | cons v rest =>
    rw [hv] at hpages
    simp only [Ui.peek, activityStackPeek, ← hpages, List.map_cons, List.head?_cons,
      Option.some.injEq] at hpeek
    subst hpeek
    exact ⟨rest, by simp [Typing.text, hv]⟩

/-- The input page on top shows what was typed on it. -/
theorem shows (h : s.Sound) (hpeek : s.ui.peek = some p) (hp : p.viewType = .inptPage) :
    Shows (s.ui.inptBuf p) s.text := by
  obtain ⟨rest, hv⟩ := h.top hpeek
  have hset := h.settled p hp
  rw [hv, textsOf_cons_self] at hset
  exact ⟨(h.terminated p).1, (h.terminated p).2, hset.1⟩

theorem text_eq (h : s.Sound) (hpeek : s.ui.peek = some p) (hp : p.viewType = .inptPage) :
    s.ui.text p = s.text.take (widgetContentMaxsize - 1) :=
  (h.shows hpeek hp).text

/-- A step that leaves the stack and the buffers alone. -/
theorem same (h : s.Sound) (hstack : u'.stack.activities = s.ui.stack.activities)
    (hcontents : ∀ p, (u'.viewList p).contents = (s.ui.viewList p).contents)
    (hbuf : ∀ p, u'.inptBuf p = s.ui.inptBuf p) : Sound ⟨u', s.visits⟩ where
  pages := by rw [hstack, ← h.pages]
  bottom := by rw [hstack]; exact h.bottom
  contents p := by rw [hcontents p, h.contents p]
  terminated := h.terminated.of_eq hbuf
  settled p hp := by rw [hbuf p]; exact h.settled p hp

/-- A page is opened whose buffer is empty. -/
theorem push (h : s.Sound) (hstack : u'.stack.activities = p :: s.ui.stack.activities)
    (hhome : p ≠ .home)
    (hcontents : ∀ p, (u'.viewList p).contents = (s.ui.viewList p).contents)
    (hterm : u'.Terminated) (hbuf : ∀ q, q ≠ p → u'.inptBuf q = s.ui.inptBuf q)
    (hempty : p.viewType = .inptPage → cstr (u'.inptBuf p) = [])
    (htexts : p.viewType = .inptPage → ∀ t ∈ textsOf p s.visits, t = []) :
    Sound ⟨u', (p, []) :: s.visits⟩ where
  pages := by rw [hstack, ← h.pages, List.map_cons]
  bottom := by
    obtain ⟨above, heq, hnot⟩ := h.bottom
    refine ⟨p :: above, by rw [hstack, heq, List.cons_append], ?_⟩
    exact List.not_mem_cons_of_ne_of_not_mem hhome.symm hnot
  contents q := by rw [hcontents q, h.contents q]
  terminated := hterm
  settled q hq := by
    by_cases hqp : q = p
    · subst hqp
      rw [textsOf_cons_self]
      exact settled_of_nil (hempty hq) (List.forall_mem_cons.mpr ⟨rfl, htexts hq⟩)
    · rw [textsOf_cons_ne (Ne.symm hqp), hbuf q hqp]
      exact h.settled q hq

/-- A page is closed whose buffer is empty, or which is not on the stack any more. -/
theorem pop {rest : List Page} (h : s.Sound) (hold : s.ui.stack.activities = p :: q :: rest)
    (hstack : u'.stack.activities = q :: rest)
    (hcontents : ∀ p, (u'.viewList p).contents = (s.ui.viewList p).contents)
    (hterm : u'.Terminated) (hbuf : ∀ q, q ≠ p → u'.inptBuf q = s.ui.inptBuf q)
    (hempty : p.viewType = .inptPage → p ∈ q :: rest → cstr (u'.inptBuf p) = []) :
    Sound ⟨u', s.visits.tail⟩ := by
  obtain ⟨visits, hv⟩ := h.top (p := p) (by simp [Ui.peek, activityStackPeek, hold])
  have hpages : visits.map Prod.fst = q :: rest := by
    have := h.pages
    rw [hv, hold, List.map_cons, List.cons.injEq] at this
    exact this.2
  rw [hv, List.tail_cons]
  refine ⟨hpages.trans hstack.symm, ?_, fun r => by rw [hcontents r, h.contents r], hterm, ?_⟩
  · obtain ⟨above, heq, hnot⟩ := h.bottom
    rw [hold] at heq
    cases above with
    | nil => simp at heq
    | cons r above =>
      rw [List.cons_append, List.cons.injEq] at heq
      exact ⟨above, hstack.trans heq.2, fun hmem => hnot (List.mem_cons_of_mem _ hmem)⟩
  · intro r hr
    have hset := h.settled r hr
    rw [hv] at hset
    by_cases hrp : r = p
    · subst hrp
      rw [textsOf_cons_self] at hset
      by_cases hmem : r ∈ q :: rest
      · exact settled_of_nil (hempty hr hmem) hset.2
      · rw [textsOf_eq_nil.mpr (hpages ▸ hmem)]
        trivial
    · rw [textsOf_cons_ne (Ne.symm hrp)] at hset
      rw [hbuf r hrp]
      exact hset

/-- A buffer is cleared while nothing has been typed in the visits of its page. -/
theorem clearInpt (h : s.Sound) (htexts : ∀ t ∈ textsOf p s.visits, t = []) :
    Sound ⟨s.ui.clearInpt p, s.visits⟩ where
  pages := h.pages
  bottom := h.bottom
  contents := h.contents
  terminated := h.terminated.clearInpt p
  settled q hq := by
    by_cases hqp : q = p
    · subst hqp
      rw [inptBuf_clearInpt_self]
      exact settled_of_nil (shows_clear (h.terminated q).1).text htexts
    · rw [inptBuf_clearInpt_ne hqp]
      exact h.settled q hq

/-- A character is typed on the page on top. -/
theorem type {c : UInt16} (h : s.Sound) (hpeek : s.ui.peek = some p) (hp : p.viewType = .inptPage)
    (hc : c.toUInt8 ≠ 0) : Sound ⟨typed s.ui p c, typeOn (some c.toUInt8) s.visits⟩ := by
  obtain ⟨rest, hv⟩ := h.top hpeek
  have hshows := (h.shows hpeek hp).append hc
  have htype : typeOn (some c.toUInt8) s.visits = (p, s.text ++ [c.toUInt8]) :: rest := by
    rw [hv, typeOn, if_pos hp]
    rfl
  rw [htype]
  have hpages := h.pages
  rw [hv] at hpages
  refine ⟨hpages, h.bottom, h.contents, fun q => ?_, fun q hq => ?_⟩
  · by_cases hqp : q = p
    · subst hqp
      rw [inptBuf_typed_self]
      exact ⟨hshows.length, hshows.terminated⟩
    · rw [inptBuf_typed_ne hqp]
      exact h.terminated q
  · have hset := h.settled q hq
    rw [hv] at hset
    by_cases hqp : q = p
    · subst hqp
      rw [textsOf_cons_self] at hset ⊢
      rw [inptBuf_typed_self]
      exact ⟨hshows.text, hset.2⟩
    · rw [textsOf_cons_ne (Ne.symm hqp)] at hset ⊢
      rw [inptBuf_typed_ne hqp]
      exact hset

end Typing.Sound

/-! ## A character -/

section
variable {env : Env} {u : Ui} {m : EventMsg} {x : Ui × List Out} {content : UInt16}

theorem uiEventHandler_char (hkey : m.IsKey content) (hlt : content < 0x80)
    (h : uiEventHandler env u m = .ok x) :
    m.eventStruct ≠ .uiReflexEvent ∧
      ∃ outs, uiChar env m.addr u content = .ok (x.1, outs) := by
  unfold uiEventHandler at h
  by_cases htag : m.eventStruct = .uiReflexEvent
  · simp [htag, hkey.content] at h
  · have hge : ¬ 0x80 ≤ content := by
      rw [UInt16.not_le]
      exact hlt
    simp only [if_neg htag, hkey.sender, hkey.content, uiInpt, if_neg hge] at h
    obtain ⟨y, hc, rfl⟩ := map_eq_ok.mp h
    exact ⟨htag, y.2, hc⟩

/-- A character other than `#`, on the home page or another one. -/
theorem uiChar_typed {outs : List Out} {u' : Ui} (addr : Nat) (hhash : content ≠ keyHash)
    (h : uiChar env addr u content = .ok (u', outs)) :
    (u.peek = some .home ∧
        ∃ p, (homeLaunch u).peek = some p ∧ u' = typedOn (homeLaunch u) p content) ∨
      (u.peek ≠ some .home ∧ ∃ p, u.peek = some p ∧ u' = typedOn u p content) := by
  obtain ⟨v, hv, ⟨-, hres⟩ | ⟨p, hp, hres⟩⟩ := uiChar_cases env addr u hhash
  · rw [hres] at h
    cases h
  · rw [hres] at h
    cases h
    rcases hv with ⟨hhome, rfl⟩ | ⟨hhome, rfl⟩
    · exact .inl ⟨hhome, p, hp, rfl⟩
    · exact .inr ⟨hhome, p, hp, rfl⟩

theorem uiChar_hash {outs : List Out} {u' : Ui} (addr : Nat)
    (h : uiChar env addr u keyHash = .ok (u', outs)) :
    (u.peek = some .pswAuth ∧ ∃ v, u.back = .ok v ∧ u' = v.clearInpt .pswAuth) ∨
      (u.peek = some .pswAlter ∧ (u.clearInpt .pswAuth).back = .ok u') ∨
      (u.peek ≠ some .pswAuth ∧ u.peek ≠ some .pswAlter ∧ u' = u) := by
  have hkeep : ¬(u.peek = some .home ∧ keyHash ≠ keyHash) := fun h => h.2 rfl
  simp only [uiChar, if_neg hkeep, if_true] at h
  by_cases hauth : u.peek = some .pswAuth
  · rw [if_pos hauth] at h
    obtain ⟨v, hb, h⟩ := bind_eq_ok.mp h
    cases h
    exact .inl ⟨hauth, v, hb, rfl⟩
  by_cases halter : u.peek = some .pswAlter
  · rw [if_neg hauth, if_pos halter] at h
    obtain ⟨v, hb, h⟩ := bind_eq_ok.mp h
    cases h
    exact .inr (.inl ⟨halter, hb⟩)
  · rw [if_neg hauth, if_neg halter] at h
    cases h
    exact .inr (.inr ⟨hauth, halter, rfl⟩)

theorem EventMsg.IsKey.printable (hkey : m.IsKey content) :
    m.printable = if content ≠ keyHash ∧ 0x20 < content ∧ content < 0x80 then
      some content.toUInt8 else none := by
  simp only [EventMsg.printable, hkey.sender, hkey.content]

/-- A message that is not a character types none. -/
theorem printable_eq_none (h : ¬m.IsChar) : m.printable = none := by
  unfold EventMsg.printable
  split
  · rename_i e hs hc
    exact if_neg fun hp => h ⟨e.content, ⟨hs, hc⟩, hp.2.2⟩
  · rfl

theorem toUInt8_ne_zero (hlo : 0x20 < content) (hhi : content < 0x80) : content.toUInt8 ≠ 0 := by
  rw [UInt16.lt_iff_toNat_lt] at hlo hhi
  rw [ne_eq, ← UInt8.toNat_inj, UInt16.toNat_toUInt8]
  have h0 : (0x20 : UInt16).toNat = 32 := rfl
  have h1 : (0x80 : UInt16).toNat = 128 := rfl
  have h2 : (0 : UInt8).toNat = 0 := rfl
  omega

theorem back_ok {u' : Ui} (h : u.back = .ok u') :
    u.Agree u' ∧ ∃ p q rest, u.stack.activities = p :: q :: rest ∧
      u'.stack.activities = q :: rest := by
  refine ⟨.back h, ?_⟩
  have hd : activityBack u.toDisplay = .ok u'.toDisplay := by
    rw [← PageOp.apply, ← back_display, h]
    rfl
  obtain ⟨p, q, rest, hold, hnew, -⟩ := activityBack_ok hd
  exact ⟨p, q, rest, hold, hnew⟩

/-- A message that is not a character leaves the buffers alone, and publishes nothing. -/
theorem change_of_not_isChar (hchar : ¬m.IsChar) (h : uiEventHandler env u m = .ok x) :
    published x.2 = [] ∧ ((∀ p, x.1.inptBuf p = u.inptBuf p) ∨
      (u.peek = some .home ∧ x.1 = homeLaunch u)) := by
  have hchange := uiEventHandler_change h
  generalize published x.2 = outs at hchange
  cases hchange with
  | agree ha => exact ⟨rfl, .inl ha.inpt⟩
  | launch authFor hu =>
    rw [hu]
    exact ⟨rfl, .inl fun p => inptBuf_paswAuthActivityLaunch authFor⟩
  | home hpeek hu => exact ⟨rfl, .inr ⟨hpeek, hu⟩⟩
  | typed _ hkey _ _ _ hhi _ => exact absurd ⟨_, hkey, hhi⟩ hchar
  | confirmAuth hkey _ _ => exact absurd ⟨_, hkey, by decide⟩ hchar
  | confirmAlter hkey _ _ => exact absurd ⟨_, hkey, by decide⟩ hchar
  | grant _ hu =>
    rw [hu]
    exact ⟨rfl, .inl fun _ => rfl⟩

end

/-! ## One step -/

namespace Typing.Sound

variable {env : Env} {s : Typing} {m : EventMsg} {x : Ui × List Out} {u' : Ui} {p : Page}
  {content : UInt16}

/-- A character other than `#` on the page on top. -/
theorem typedOn (h : s.Sound) (hkey : m.IsKey content) (hhash : content ≠ keyHash)
    (hpeek : s.ui.peek = some p) :
    Sound ⟨typedOn s.ui p content, typeOn m.printable s.visits⟩ := by
  rw [hkey.printable, DoorLock.typedOn]
  by_cases hp : p.viewType = .inptPage
  · by_cases hc : 0x20 < content ∧ content < 0x80
    · rw [if_pos ⟨hp, hc⟩, if_pos ⟨hhash, hc⟩]
      exact h.type hpeek hp (toUInt8_ne_zero hc.1 hc.2)
    · rw [if_neg fun hand => hc hand.2, if_neg fun hand => hc hand.2, typeOn_none]
      exact h
  · obtain ⟨rest, hv⟩ := h.top hpeek
    have htype (c : Option UInt8) : typeOn c s.visits = s.visits := by
      rw [hv, typeOn, if_neg hp]
    rw [if_neg fun hand => hp hand.1, htype]
    exact h

/-- The password page opened by a character on the home page. -/
theorem homeLaunch (h : s.Sound) (hpeek : s.ui.peek = some .home) :
    Sound ⟨homeLaunch s.ui, visitsOn (homeLaunch s.ui).stack.activities s.visits⟩ := by
  have hold := h.home hpeek
  have hstack : (DoorLock.homeLaunch s.ui).stack.activities =
      .pswAuth :: s.ui.stack.activities := by
    refine activityStackPush_of_lt ?_ _
    show s.ui.stack.activities.length < _
    rw [hold]
    decide
  have hnil : textsOf .pswAuth s.visits = [] := h.textsOf_nil (by rw [hold]; decide)
  have hclear : Sound ⟨s.ui.clearInpt .pswAuth, s.visits⟩ :=
    h.clearInpt (by rw [hnil]; exact nofun)
  rw [hstack, visitsOn_push _ h.length]
  refine hclear.push hstack nofun (fun _ => rfl)
    (hclear.terminated.of_eq fun _ => inptBuf_paswAuthActivityLaunch _)
    (fun _ _ => inptBuf_paswAuthActivityLaunch _) (fun _ => ?_) (fun _ => ?_)
  · rw [DoorLock.homeLaunch, inptBuf_paswAuthActivityLaunch, inptBuf_clearInpt_self]
    exact (shows_clear (h.terminated _).1).text
  · rw [hnil]
    exact nofun

/-- A page is closed. -/
theorem back (h : s.Sound) (hb : s.ui.back = .ok u') (hclose : ClosesEmpty s.ui) :
    Sound ⟨u', visitsOn u'.stack.activities s.visits⟩ := by
  obtain ⟨hagree, p, q, rest, hold, hnew⟩ := back_ok hb
  rw [hnew, visitsOn_pop (by rw [h.length, hold, List.length_cons])]
  refine h.pop hold hnew hagree.contents (h.terminated.of_eq hagree.inpt)
    (fun r _ => hagree.inpt r) fun hp hmem => ?_
  rw [Ui.inptBuf, hagree.inpt]
  exact hclose p _ hold hmem hp

/-- `#` with `activity_psw_auth` on top: its buffer is cleared. -/
theorem confirmAuth (h : s.Sound) (hpeek : s.ui.peek = some .pswAuth) (hb : s.ui.back = .ok u') :
    Sound ⟨u'.clearInpt .pswAuth, visitsOn u'.stack.activities s.visits⟩ := by
  obtain ⟨hagree, p, q, rest, hold, hnew⟩ := back_ok hb
  have hp : p = .pswAuth := by simpa [Ui.peek, activityStackPeek, hold] using hpeek
  subst hp
  have hterm : u'.Terminated := h.terminated.of_eq hagree.inpt
  rw [hnew, visitsOn_pop (by rw [h.length, hold, List.length_cons])]
  refine h.pop hold hnew hagree.contents (hterm.clearInpt _) (fun r hr => ?_) fun _ _ => ?_
  · rw [inptBuf_clearInpt_ne hr]
    exact hagree.inpt r
  · rw [inptBuf_clearInpt_self]
    exact (shows_clear (hterm _).1).text

/-- `#` with `activity_psw_alter` on top: the buffer of `activity_psw_auth` is cleared. -/
theorem confirmAlter (h : s.Sound) (hpeek : s.ui.peek = some .pswAlter)
    (hb : (s.ui.clearInpt .pswAuth).back = .ok u')
    (hclears : .pswAuth ∈ s.ui.stack.activities → s.ui.text .pswAuth = [])
    (hclose : ClosesEmpty s.ui) : Sound ⟨u', visitsOn u'.stack.activities s.visits⟩ := by
  have htexts : ∀ t ∈ textsOf .pswAuth s.visits, t = [] := by
    by_cases hmem : .pswAuth ∈ s.ui.stack.activities
    · exact (h.settled .pswAuth rfl).nil_of_cstr (hclears hmem)
    · rw [h.textsOf_nil hmem]
      exact nofun
  refine (h.clearInpt htexts).back hb fun p rest hold hmem hp => ?_
  have hpeek' : s.ui.peek = some p := congrArg List.head? hold
  cases hpeek.symm.trans hpeek'
  exact hclose .pswAlter rest hold hmem rfl

/-- A character typed on the keypad. -/
theorem char (h : s.Sound) (hkey : m.IsKey content) (hlt : content < 0x80)
    (hx : uiEventHandler env s.ui m = .ok x) (hfit : MessageFits env s m) :
    Sound ⟨x.1, typeOn m.printable (visitsOn x.1.stack.activities s.visits)⟩ := by
  obtain ⟨htag, outs, hu⟩ := uiEventHandler_char hkey hlt hx
  by_cases hhash : content = keyHash
  · subst hhash
    rw [hkey.printable, if_neg fun hand => hand.1 rfl, typeOn_none]
    rcases uiChar_hash _ hu with ⟨hpeek, v, hb, heq⟩ | ⟨hpeek, hb⟩ | ⟨-, -, heq⟩
    · rw [heq]
      exact h.confirmAuth hpeek hb
    · have hback : uiPageOp s.ui m = .back := by
        rw [uiPageOp, if_neg htag]
        simp [hkey.sender, hkey.content, inptOp, hpeek, keyHash]
      exact h.confirmAlter hpeek hb (hfit.clears hkey hpeek)
        (hfit.closes hback fun hand => by simp [hand.2] at hpeek)
    · rw [heq, visitsOn_same h.length]
      exact h
  · rcases uiChar_typed _ hhash hu with ⟨hhome, p, hpeek, heq⟩ | ⟨-, p, hpeek, heq⟩
    · have hstack : x.1.stack = (DoorLock.homeLaunch s.ui).stack := by
        rw [heq, DoorLock.typedOn]
        split <;> rfl
      rw [hstack, heq]
      exact (h.homeLaunch hhome).typedOn hkey hhash hpeek
    · have hstack : x.1.stack = s.ui.stack := by
        rw [heq, DoorLock.typedOn]
        split <;> rfl
      rw [hstack, heq, visitsOn_same h.length]
      exact h.typedOn hkey hhash hpeek

/-- A message that is no character. -/
theorem other (h : s.Sound) (hchar : ¬m.IsChar) (hx : uiEventHandler env s.ui m = .ok x)
    (hfit : MessageFits env s m) :
    Sound ⟨x.1, typeOn m.printable (visitsOn x.1.stack.activities s.visits)⟩ := by
  have hne : s.ui.stack.activities ≠ [] := by
    obtain ⟨above, heq, -⟩ := h.bottom
    simp [heq]
  have hcontents := (uiEventHandler_change hx).contents
  rw [printable_eq_none hchar, typeOn_none]
  rcases (change_of_not_isChar hchar hx).2 with hbuf | ⟨hpeek, heq⟩
  · have hterm := h.terminated.of_eq hbuf
    have hop := (uiEventHandler_follows env m hne).ok hx
    rcases PageOp.apply_ok hop with hstack | ⟨p, hrun, hstack⟩ | ⟨p, q, rest, hback, hold, hnew⟩
    · rw [hstack, visitsOn_same h.length]
      exact h.same hstack hcontents hbuf
    · have hlt : s.ui.stack.depth < activityStackDepthMax := by
        have hle := x.1.stack.depth_le
        rw [hstack] at hle
        exact hle
      have hempty (hp : p.viewType = .inptPage) : cstr (s.ui.inptBuf p) = [] :=
        hfit.opens hchar p hrun hp hlt
      rw [hstack, visitsOn_push _ h.length]
      exact h.push hstack (uiPageOp_run h.contents hrun).1 hcontents hterm (fun q _ => hbuf q)
        (fun hp => (congrArg cstr (hbuf p)).trans (hempty hp))
        (fun hp => (h.settled p hp).nil_of_cstr (hempty hp))
    · rw [hnew, visitsOn_pop (by rw [h.length, hold, List.length_cons])]
      refine h.pop hold hnew hcontents hterm (fun r _ => hbuf r) fun hp hmem => ?_
      rw [hbuf p]
      exact hfit.closes hback (fun hand => hchar ⟨_, hand.1, by decide⟩) p _ hold hmem hp
  · rw [heq]
    exact h.homeLaunch hpeek

/-- What one step preserves. -/
theorem step {a : PageAction} {s' : Typing} (h : s.Sound) (hs : pageStep env s a = .ok s')
    (hfit : TypesFit env ⟨s, a, s'⟩) : s'.Sound := by
  cases a with
  | handle m =>
    obtain ⟨x, hx, rfl⟩ := map_eq_ok.mp hs
    by_cases hchar : m.IsChar
    · obtain ⟨content, hkey, hlt⟩ := hchar
      exact h.char hkey hlt hx hfit
    · exact h.other hchar hx hfit
  | back =>
    obtain ⟨u, hb, rfl⟩ := map_eq_ok.mp hs
    exact h.back hb hfit

end Typing.Sound

/-! ## What is sent -/

section
variable {env : Env} {s : Typing} {m : EventMsg} {x : Ui × List Out}

/-- A text is read back from its copy just when what lies behind the copy continues it. -/
theorem readBack16_take {text after : List UInt8}
    (h : 16 ≤ text.length → text.drop 16 = cstr after) :
    readBack16 (text.take (widgetContentMaxsize - 1)) after = text := by
  by_cases hlt : text.length < 16
  · rw [List.take_of_length_le (by simp only [widgetContentMaxsize]; omega),
      readBack16_of_lt hlt]
  · have hle := Nat.not_lt.mp hlt
    rw [readBack16_of_le, List.take_take, ← h hle]
    · exact List.take_append_drop 16 text
    · rw [List.length_take, widgetContentMaxsize]
      omega

theorem sends_of_fit (h : s.Sound) (hfit : MessageFits env s m)
    (hx : uiEventHandler env s.ui m = .ok x) {a b : Component} {c : MsgContent} {t : EventStruct}
    (hmem : .publish a b c t ∈ x.2) : c.sentText = some s.text := by
  have hchange := uiEventHandler_change hx
  rw [← mem_published] at hmem
  generalize published x.2 = outs at hchange hmem
  cases hchange with
  | confirmAuth hkey hpeek _ =>
    cases List.mem_singleton.mp hmem
    rw [MsgContent.sentText, cstr_paswStr, h.text_eq hpeek rfl]
    exact congrArg some (readBack16_take (hfit.confirms hkey _ hpeek rfl))
  | confirmAlter hkey hpeek _ =>
    cases List.mem_singleton.mp hmem
    rw [MsgContent.sentText, cstr_newPaswStr, h.text_eq hpeek rfl]
    exact congrArg some (readBack16_take (hfit.confirms hkey _ hpeek rfl))
  | _ => exact absurd hmem List.not_mem_nil

end

/-! ## Messages that fit -/

section
variable {env : Env} {s : Typing}

/-- A character other than `#` fits in every state. -/
theorem messageFits_char {m : EventMsg} {content : UInt16} (hkey : m.IsKey content)
    (hlt : content < 0x80) (hhash : content ≠ keyHash) : MessageFits env s m := by
  have hnot : ¬m.IsKey keyHash := by
    intro hkey'
    have hc := hkey.content.symm.trans hkey'.content
    simp only [MsgContent.inptEvent.injEq, InptEvent.mk.injEq] at hc
    exact hhash hc
  have hge : ¬ 0x80 ≤ content := by
    rw [UInt16.not_le]
    exact hlt
  refine ⟨fun h => absurd ⟨content, hkey, hlt⟩ h, fun hback => ?_,
    fun h => absurd h hnot, fun h => absurd h hnot⟩
  unfold uiPageOp at hback
  split at hback
  · cases hback
  · simp only [hkey.sender, hkey.content, inptOp, if_neg hge, if_neg hhash] at hback
    split at hback <;> cases hback

/-- So does `#` on `activity_psw_auth` behind a text of up to fifteen characters. -/
theorem messageFits_hash {m : EventMsg} (hkey : m.IsKey keyHash)
    (hpeek : s.ui.peek = some .pswAuth) (hlen : s.text.length < 16) : MessageFits env s m where
  opens h := absurd ⟨keyHash, hkey, by decide⟩ h
  closes _ h := absurd ⟨hkey, hpeek⟩ h
  clears _ h := by simp [hpeek] at h
  confirms _ _ _ _ hle := absurd hlen (Nat.not_lt.mpr hle)

end

/-! ## Every run -/

section
variable {env : Env} {tr : List (Label Typing PageAction)} {s : Typing}

/-- As long as no visit finds or takes away the text of another one, the input page on top shows
what was typed on it since it was opened, and this is what is sent when it is confirmed. -/
theorem typesRight_of_fit (h : Run (pageStep env) .init tr s)
    (hfit : ∀ l ∈ tr, TypesFit env l) : ∀ l ∈ tr, TypesRight env l := by
  suffices hall : s.Sound ∧ ∀ l ∈ tr, TypesRight env l from hall.2
  induction h with
  | nil => exact ⟨Typing.Sound.init, by simp⟩
  | snoc _ hs ih =>
    obtain ⟨hfit, hlast⟩ := List.forall_mem_append.mp hfit
    have hlast := hlast _ (List.mem_singleton_self _)
    obtain ⟨hsound, hright⟩ := ih hfit
    have hsound' := hsound.step hs hlast
    refine ⟨hsound', List.forall_mem_append.mpr ⟨hright, List.forall_mem_singleton.mpr ?_⟩⟩
    refine ⟨fun p hpeek hp => hsound'.shows hpeek hp, ?_⟩
    intro m x b r c t hact hx hmem
    cases hact
    exact sends_of_fit hsound hlast hx hmem

/-- The message of a key. -/
def keyMsg (content : UInt16) : EventMsg := ⟨.hwInpt, .servUi, .inptEvent, 1, .inptEvent ⟨content⟩⟩

/-- A password is confirmed, and the next one begun. -/
def twoPasswords : List PageAction :=
  [.handle (keyMsg 0x31), .handle (keyMsg keyHash), .handle (keyMsg 0x32)]

theorem typesRight_of_fit_twoPasswords :
    (after (pageStep quietEnv) .init twoPasswords).ui.text .pswAuth = lit "2" ∧
      ∀ l ∈ trace (pageStep quietEnv) .init twoPasswords, TypesRight quietEnv l := by
  refine ⟨by decide +kernel, typesRight_of_fit (Run.of_isOk _ (by decide +kernel)) ?_⟩
  rw [twoPasswords, trace_cons _ (by decide +kernel), trace_cons _ (by decide +kernel),
    trace_cons _ (by decide +kernel)]
  refine List.forall_mem_cons.mpr ⟨?_, List.forall_mem_cons.mpr ⟨?_, List.forall_mem_cons.mpr ⟨?_,
    List.forall_mem_nil _⟩⟩⟩
  · exact messageFits_char ⟨rfl, rfl⟩ (by decide) (by decide)
  · exact messageFits_hash ⟨rfl, rfl⟩ (by decide +kernel) (by decide +kernel)
  · exact messageFits_char ⟨rfl, rfl⟩ (by decide) (by decide)

/-- A password is begun and left with `RETURN`; then the list opens the page. -/
def abandoned : List PageAction :=
  [.handle (keyMsg 0x31), .handle (keyMsg inptBtnReturn), .handle (keyMsg inptBtnEnter),
    .handle (keyMsg inptBtnDown)]

/-- The character left there is found by the next visit. -/
theorem abandoned_found : ∃ tr s, Run (pageStep quietEnv) .init tr s ∧
    ¬ ∀ l ∈ tr, TypesRight quietEnv l := by
  refine ⟨_, _, Run.replay abandoned (.handle (keyMsg inptBtnEnter)) (by decide +kernel)
    (by decide +kernel), fun h => ?_⟩
  have hlast := h _ (List.mem_append_right _ (List.mem_singleton_self _))
  have htext := (hlast.shows .pswAuth (by decide +kernel) rfl).text
  exact absurd htext (by decide +kernel)

end

end DoorLock
