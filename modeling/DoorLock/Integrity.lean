import DoorLock.PaswCopy
import DoorLock.UiRun

/-!
# What changes the stored password

The stored password only changes on a grant that matches it, and the grant goes back to a password
that matched: through the message of the page for the new password, the cache of that page, and
the answer it was opened with.
-/

namespace DoorLock

open Transition CString

variable {env : Env} {kv : Kvdb} {tr p q : List (Label World Action)} {w : World}
  {m : EventMsg} {r : AuthResult} {e : Label World Action}

/-- In the step `l`, `system_service` finds the text of the request `ev` equal to the stored
password `pasw`. -/
def Matches (l : Label World Action) (a : EventMsg) (ev : AuthEvent) (pasw : List UInt8) : Prop :=
  l.act = .system ∧ takenBy l.pre l.act = some a ∧ a.recver = .servAuth ∧
    a.content = .authEvent ev ∧ fdbKvGet l.pre.kvdb = some pasw ∧ strcmpEq pasw ev.paswStr = true

/-- The answer `r` in `m` was published for a request that matched. -/
def Validates (env : Env) (m : EventMsg) (r : AuthResult) (v : Label World Action) : Prop :=
  Publishes env .ui m v ∧ ∃ a ev pasw, Matches v a ev pasw ∧ r = authResultOf env a.addr pasw ev

/-- In the step `g`, `ui_event_handler` opens the page for the new password on the answer `r`. -/
def Grants (env : Env) (r : AuthResult) (p : List (Label World Action))
    (g : Label World Action) : Prop :=
  g.act = .ui ∧ ∃ m, takenBy g.pre g.act = some m ∧ m.IsGrant r ∧
    Before p fun _ v => Validates env m r v

/-- What the cache of `activity_psw_alter` holds after a grant. -/
def GrantCache (r : AuthResult) (cache : List UInt8) : Prop :=
  ∃ buf, cache = store buf (snprintf r.paswStr 24)

/-- `m` was published with `activity_psw_alter` on top of the stack, and the grant in it was taken
from an earlier answer. -/
def ConfirmsAlter (env : Env) (m : EventMsg) (s : ServSysopMsg) (p : List (Label World Action))
    (c : Label World Action) : Prop :=
  c.act = .ui ∧ Publishes env .system m c ∧ c.pre.ui.peek = some .pswAlter ∧
    ∃ r cache, s.paswGrant = strncpy cache 16 ∧ GrantCache r cache ∧ Before p (Grants env r)

/-- A valid answer for the page of the new password was given to a request that matched. -/
theorem grant_validated (h : RunFrom env kv tr w) (hm : w.queueUi.head? = some m)
    (hg : m.IsGrant r) : Before tr fun _ v => Validates env m r v := by
  rcases queued_origin (q := .ui) h (List.mem_of_head? hm) with rfl | ⟨p, v, q, htr, hpub⟩
  · cases hg.content
  refine ⟨p, v, q, htr, hpub, ?_⟩
  have hposts := hpub.posts (Run.split h htr).1
  rw [hg.content] at hposts
  generalize hact : v.act = act at hposts
  generalize m.sender = s at hposts
  generalize m.recver = rv at hposts
  generalize m.eventStruct = t at hposts
  generalize hc : MsgContent.authResult r = c at hposts
  cases hposts with
  | trusted ha hr hca ht ho =>
    -- the answer to a trusted request is for the door
    subst hc
    simp only [trustedAuth, List.mem_cons, Out.publish.injEq, List.not_mem_nil, or_false,
      reduceCtorEq, and_false, false_and] at ho
    have hfor := hg.authFor
    rw [MsgContent.authResult.inj ho.2.2.1] at hfor
    cases hfor
  | @answer a ev pasw ha hr hca ht hp =>
    obtain rfl := MsgContent.authResult.inj hc
    refine ⟨a, ev, pasw, ⟨hact, by simpa [takenBy, hact] using ha, hr, hca, hp, ?_⟩, rfl⟩
    by_contra hne
    exact hg.paswValid (by simp [authResultOf, hne])
  | _ => cases hc

/-- Handling a grant fills the cache and opens the page. -/
theorem uiEventHandler_grant {u : Ui} {x : Ui × List Out} (htag : m.eventStruct ≠ .uiReflexEvent)
    (hg : m.IsGrant r) (h : uiEventHandler env u m = .ok x) : x.1 = grantAlter u r := by
  simp only [uiEventHandler, if_neg htag, hg.sender, hg.content, uiAuth, hg.authFor,
    if_pos hg.paswValid, thenFree, Except.map, Except.ok.injEq] at h
  rw [← h]
  rfl

/-- While the page for the new password is on the stack, its cache holds an earlier grant. -/
theorem pswAlter_granted (h : RunFrom env kv tr w)
    (hmem : .pswAlter ∈ w.ui.stack.activities) :
    ∃ r, GrantCache r w.ui.pswAlterCache ∧ Before tr (Grants env r) := by
  induction h with
  | nil => simp [boot, appInit, Ui.run, activityRun, activityStackPush, ActivityStack.empty,
      ActivityStack.depth, activityStackDepthMax] at hmem
  | @snoc tr w a w' hrun hs ih =>
    -- the step is itself a grant
    have hgrant {k : EventMsg} {r : AuthResult} (ha : a = .ui)
        (hk : w.queueUi.head? = some k) (hg : k.IsGrant r) (hu' : w'.ui = grantAlter w.ui r) :
        ∃ r, GrantCache r w'.ui.pswAlterCache ∧ Before (tr ++ [⟨w, a, w'⟩]) (Grants env r) := by
      refine ⟨r, ⟨w.ui.pswAlterCache, by rw [hu']; rfl⟩, .last ⟨ha, k, ?_, hg, ?_⟩⟩
      · rw [ha]
        exact hk
      · exact grant_validated hrun hk hg
    have hkeep (hcache : w'.ui.pswAlterCache = w.ui.pswAlterCache) :
        ∃ r, GrantCache r w'.ui.pswAlterCache ∧ Before (tr ++ [⟨w, a, w'⟩]) (Grants env r) := by
      rcases mem_stack_step hs (stack_ne_nil hrun) hmem with hold | ⟨k, ha, hk, hop⟩
      · obtain ⟨r, hr, hb⟩ := ih hold
        exact ⟨r, hcache ▸ hr, hb.snoc _⟩
      · obtain ⟨htag, r, hg⟩ := uiPageOp_run_pswAlter (contents_eq hrun) hop
        subst ha
        obtain ⟨k', rest, x, hq, hx, rfl⟩ := stepUi_ok hs
        obtain rfl : k' = k := by simpa [hq] using hk
        refine hgrant rfl hk hg ?_
        rw [performAll_ui]
        exact uiEventHandler_grant htag hg hx
    rcases ui_step_change hs with hagree | ⟨k, ha, hk, hc⟩
    · exact hkeep hagree.pswAlterCache
    · generalize published (outsOf env w .ui) = outs at hc
      cases hc with
      | agree hagree => exact hkeep hagree.pswAlterCache
      | launch _ hu' => exact hkeep (by rw [hu']; rfl)
      | home _ hu' => exact hkeep (by rw [hu']; rfl)
      | typed hu _ _ _ _ _ hu' => exact hkeep (by rcases hu with rfl | rfl <;> rw [hu'] <;> rfl)
      | confirmAuth _ _ hagree => exact hkeep hagree.pswAlterCache
      | confirmAlter _ _ hagree => exact hkeep hagree.pswAlterCache
      | grant hg hu' => exact hgrant ha hk hg hu'

/-- Every request to alter the password was confirmed on its page, with a grant taken from an
earlier answer. -/
theorem servSysop_confirmed (h : RunFrom env kv tr w) {s : ServSysopMsg}
    (hm : w.queueSystem.head? = some m) (hc : m.content = .servSysop s) :
    Before tr (ConfirmsAlter env m s) := by
  rcases queued_origin (q := .system) h (List.mem_of_head? hm) with rfl | ⟨p, c, q, htr, hpub⟩
  · cases hc
  refine ⟨p, c, q, htr, ?_⟩
  have hp := (Run.split h htr).1
  have hposts := hpub.posts hp
  rw [hc] at hposts
  generalize hact : c.act = act at hposts
  generalize m.sender = sd at hposts
  generalize m.recver = rv at hposts
  generalize m.eventStruct = t at hposts
  generalize hs : MsgContent.servSysop s = ct at hposts
  cases hposts with
  | confirmAlter hk hkey hpeek =>
    obtain rfl := MsgContent.servSysop.inj hs
    obtain ⟨r, hr, hb⟩ := pswAlter_granted hp (List.mem_of_head? hpeek)
    exact ⟨hact, hpub, hpeek, r, _, rfl, hr, hb⟩
  | trusted _ _ _ _ ho =>
    subst hs
    simp [trustedAuth] at ho
  | _ => cases hs

/-- In every run, the stored password only changes when a grant that equals it is carried out;
every such request was confirmed on the page for the new password, with a grant from an earlier
valid answer; and a run in which no request matched leaves the password alone. -/
theorem pasw_integrity (h : RunFrom env kv tr w) :
    (∀ p e q, tr = p ++ e :: q →
      (e.post.kvdb ≠ e.pre.kvdb → ∃ m s pasw, e.act = .system ∧ takenBy e.pre e.act = some m ∧
        m.recver = .servSysop ∧ m.content = .servSysop s ∧ s.operation = .paswAlter ∧
        fdbKvGet e.pre.kvdb = some pasw ∧ strcmpEq pasw s.grantStr = true) ∧
      (∀ m s, e.act = .system → takenBy e.pre e.act = some m → m.content = .servSysop s →
        Before p (ConfirmsAlter env m s))) ∧
    ((∀ l ∈ tr, ∀ a ev pasw, ¬ Matches l a ev pasw) → w.kvdb = bootKvdb kv) := by
  have hsteps {tr w} (h : RunFrom env kv tr w) : ∀ p e q, tr = p ++ e :: q →
      (e.post.kvdb ≠ e.pre.kvdb → ∃ m s pasw, e.act = .system ∧ takenBy e.pre e.act = some m ∧
        m.recver = .servSysop ∧ m.content = .servSysop s ∧ s.operation = .paswAlter ∧
        fdbKvGet e.pre.kvdb = some pasw ∧ strcmpEq pasw s.grantStr = true) ∧
      (∀ m s, e.act = .system → takenBy e.pre e.act = some m → m.content = .servSysop s →
        Before p (ConfirmsAlter env m s)) := by
    intro p e q htr
    obtain ⟨hp, hs, -⟩ := Run.split h htr
    constructor
    · intro hne
      rcases kvdb_step hs with heq | ⟨ha, m, x, hm, hx, heq⟩
      · exact absurd heq hne
      · rw [heq] at hne
        obtain ⟨s, pasw, hr, hc, hop, hget, hcmp, -⟩ := systemService_kv_ne hx hne
        exact ⟨m, s, pasw, ha, by rw [ha]; exact hm, hr, hc, hop, hget, hcmp⟩
    · intro m s ha hm hc
      rw [ha] at hm
      exact servSysop_confirmed hp hm hc
  refine ⟨hsteps h, ?_⟩
  induction h with
  | nil => exact fun _ => rfl
  | @snoc tr w a w' hrun hs ih =>
    intro hno
    rw [← ih fun l hl => hno l (List.mem_append_left _ hl)]
    by_contra hne
    obtain ⟨hchange, horigin⟩ := hsteps (hrun.snoc hs) tr ⟨w, a, w'⟩ [] rfl
    obtain ⟨m, s, pasw, ha, hm, -, hc, -⟩ := hchange hne
    -- the grant that was carried out goes back to a request that matched
    obtain ⟨p, c, q, rfl, -, -, -, r, _, -, -, p', g, q', rfl, -, _, -, -, hval⟩ :=
      horigin m s ha hm hc
    obtain ⟨p'', v, q'', rfl, -, a', ev, pasw', hmatch, -⟩ := hval
    exact hno v (by simp) a' ev pasw' hmatch

/-- The default password is altered to `1234`, up to the message that asks for it. -/
def alterDefault : List Action :=
  press [.enter, .down, .enter, .k0, .k0, .k0, .k0, .dash] ++ [.system, .ui] ++
    press [.k1, .k2, .k3, .k4, .dash]

theorem pasw_integrity_alterDefault :
    ∃ m s, takenBy (after (step quietEnv) (boot defaultKvdb) alterDefault) .system = some m ∧
      m.content = .servSysop s ∧
      Before (trace (step quietEnv) (boot defaultKvdb) alterDefault)
        (ConfirmsAlter quietEnv m s) := by
  have hrun : RunFrom quietEnv defaultKvdb _ _ :=
    Run.replay alterDefault .system (by decide +kernel) (by decide +kernel)
  obtain ⟨hchange, horigin⟩ := (pasw_integrity hrun).1 _ _ _ rfl
  obtain ⟨m, s, pasw, hact, hm, -, hc, -⟩ := hchange (by decide +kernel)
  exact ⟨m, s, hm, hc, horigin m s hact hm hc⟩

end DoorLock
