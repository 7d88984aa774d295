import DoorLock.Origin

/-!
# What unlocks the door

A message that unlocks is followed back: from `door_lock_task` to the step of `system_service`
that published it, and from there to the finger or the password that was authenticated.
-/

namespace DoorLock

open Transition CString

variable {env : Env} {kv : Kvdb} {tr p q : List (Label World Action)} {w : World}
  {a : EventMsg} {e : Label World Action}

/-- `a` was published for the text confirmed on `activity_psw_auth`, which had been launched for
`authFor`. -/
structure Confirms (env : Env) (authFor : ServSysop) (a : EventMsg) (c : Label World Action) :
    Prop where
  act : c.act = .ui
  key : ∃ k, c.pre.queueUi.head? = some k ∧ k.IsKey keyHash
  page : c.pre.ui.peek = some .pswAuth
  launched : c.pre.ui.launchedFor = some authFor
  publishes : Publishes env .system a c

/-- `a` was published by `fg_service` for a finger that `fg_identify` had matched when it was to
sign in. -/
structure SignsIn (env : Env) (a : EventMsg) (id : UInt16) (p : List (Label World Action))
    (f : Label World Action) : Prop where
  act : f.act = .fgPublish
  publishes : Publishes env .system a f
  matched : MatchedBefore p id

/-- The request `ev`, carried by `a` and handled in the step `s` after the steps `p`, is
authenticated. -/
def Authenticated (env : Env) (a : EventMsg) (ev : AuthEvent) (p : List (Label World Action))
    (s : Label World Action) : Prop :=
  (ev.trusted = true ∧ Before p (SignsIn env a ev.id)) ∨
    (ev.trusted = false ∧
      (∃ pasw, fdbKvGet s.pre.kvdb = some pasw ∧ strcmpEq pasw ev.paswStr = true) ∧
      Before p fun _ c => Confirms env .doorUnlock a c)

/-- `m` was published to the lock when `system_service` handled an authenticated request. -/
def Granted (env : Env) (m : EventMsg) (p : List (Label World Action))
    (s : Label World Action) : Prop :=
  s.act = .system ∧ Publishes env .doorlock m s ∧
    ∃ a ev, takenBy s.pre s.act = some a ∧ a.recver = .servAuth ∧ a.content = .authEvent ev ∧
      Authenticated env a ev p s

/-- Where a request comes from: a match, or a confirmation of the password page. -/
theorem authEvent_origin (h : RunFrom env kv tr w) {ev : AuthEvent}
    (ha : w.queueSystem.head? = some a) (hc : a.content = .authEvent ev) :
    (ev.trusted = true ∧ Before tr (SignsIn env a ev.id)) ∨
      (ev.trusted = false ∧ Before tr fun _ c => ∃ authFor, Confirms env authFor a c ∧
        ev.authFor = authFor ∧ ev.authResultRespondTo = (launchCache (some authFor)).respondTo) ∨
      (ev.trusted = false ∧ ev.authResultRespondTo = .noOne) := by
  have hmem : a ∈ w.queue .system := List.mem_of_head? ha
  rcases queued_origin h hmem with rfl | ⟨p, c, q, htr, hpub⟩
  · simp [wakeMsg] at hc
  obtain ⟨hp, -, -⟩ := Run.split h htr
  have hposts := hpub.posts hp
  rw [hc] at hposts
  generalize hact : c.act = act at hposts
  generalize a.sender = s at hposts
  generalize a.recver = r at hposts
  generalize a.eventStruct = t at hposts
  cases hposts with
  | fgMatch hmem =>
    refine .inl ⟨rfl, p, c, q, htr, hact, hpub, ?_⟩
    rcases pending_origin hp hmem with ⟨_, _, _, ho⟩ | ⟨id, ho, hb⟩
    · cases ho
    · cases ho
      exact hb
  | confirmAuth hk hkey hpeek =>
    have hcache := pswAuthCache_eq hp
    cases hl : c.pre.ui.launchedFor with
    | none =>
      rw [hl] at hcache
      exact .inr (.inr ⟨rfl, by simp [authEventOf, hcache, launchCache]⟩)
    | some authFor =>
      rw [hl] at hcache
      refine .inr (.inl ⟨rfl, p, c, q, htr, authFor, ⟨hact, ⟨_, hk, hkey⟩, hpeek, hl, hpub⟩, ?_⟩)
      constructor
      · simp only [authEventOf, hcache]
        cases authFor <;> rfl
      · simp only [authEventOf, hcache]
  | trusted _ _ _ _ ho => simp [trustedAuth] at ho

/-- Every message for the lock was published by `system_service` for a request; one that unlocks,
for a request that was authenticated. -/
theorem doorlock_granted (h : RunFrom env kv tr w) {m : EventMsg}
    (hm : w.queueDoorlock.head? = some m) (pad : UInt8)
    (hv : m.content.asPaswValid pad = some 1) :
    m.recver = .hwDoorLock ∧ Before tr (Granted env m) := by
  have hmem : m ∈ w.queue .doorlock := List.mem_of_head? hm
  rcases queued_origin h hmem with rfl | ⟨p, s, q, htr, hpub⟩
  · simp [wakeMsg, MsgContent.asPaswValid, MsgContent.bytes] at hv
  have hr : m.recver = .hwDoorLock := by
    have := hpub.fresh.route
    cases hr : m.recver <;> simp_all [Component.queue]
  refine ⟨hr, p, s, q, htr, ?_⟩
  obtain ⟨hp, -, -⟩ := Run.split h htr
  have hposts := hpub.posts hp
  rw [hr] at hposts
  generalize hact : s.act = act at hposts
  generalize m.sender = sd at hposts
  generalize m.eventStruct = t at hposts
  generalize hcm : m.content = cm at hposts hv
  generalize hrv : Component.hwDoorLock = rv at hposts
  cases hposts with
  | @trusted a ev _ _ _ ha hra hca ht ho =>
    refine ⟨hact, hpub, a, ev, by simpa [takenBy, hact] using ha, hra, hca, ?_⟩
    rcases authEvent_origin hp ha hca with ho | ⟨hf, -⟩ | ⟨hf, -⟩
    · exact .inl ho
    · simp [ht] at hf
    · simp [ht] at hf
  | @answer a ev pasw ha hra hca ht hpw =>
    refine ⟨hact, hpub, a, ev, by simpa [takenBy, hact] using ha, hra, hca, ?_⟩
    have hok : strcmpEq pasw ev.paswStr = true := by
      by_contra hne
      simp [authResultOf, hne] at hv
    rcases authEvent_origin hp ha hca with ⟨htr', -⟩ | ⟨-, hb⟩ | ⟨-, hno⟩
    · simp [ht] at htr'
    · refine .inr ⟨ht, ⟨pasw, hpw, hok⟩, hb.mono fun p₁ c hc => ?_⟩
      obtain ⟨authFor, hcf, -, hresp⟩ := hc
      -- only the page launched to unlock has its answer sent to the lock
      cases authFor with
      | doorUnlock => exact hcf
      | paswAlter => rw [← hrv] at hresp; cases hresp
    · rw [← hrv] at hno
      cases hno
  | _ => cases hrv

/-- What a confirmation of the password page asks for. -/
theorem Confirms.request {c : Label World Action} {authFor : ServSysop}
    (hc : Confirms env authFor a c) (h : RunFrom env kv p c.pre) :
    ∃ ev, a.content = .authEvent ev ∧ ev.trusted = false ∧ ev.authFor = authFor ∧
      ev.authResultRespondTo = (launchCache (some authFor)).respondTo := by
  have hposts := hc.publishes.posts h
  have hcache := pswAuthCache_eq h
  rw [hc.launched] at hcache
  rw [hc.act] at hposts
  generalize a.sender = s at hposts
  generalize a.recver = r at hposts
  generalize a.eventStruct = t at hposts
  generalize a.content = ct at hposts ⊢
  cases hposts with
  | confirmAuth hk hkey hpeek =>
    refine ⟨_, rfl, rfl, ?_, ?_⟩
    · rw [authEventOf, hcache]
      cases authFor <;> rfl
    · rw [authEventOf, hcache]
  | confirmAlter hk hkey hpeek =>
    rw [hc.page] at hpeek
    cases hpeek
  | doorEvent _ _ ha => simp at ha

/-- Handling a password confirmed to alter the password sends nothing to the lock. -/
theorem paswAlter_sends_nothing (h : RunFrom env kv p e.pre) (hact : e.act = .system)
    (ha : takenBy e.pre e.act = some a)
    (hc : Before p fun _ c => Confirms env .paswAlter a c) {s r : Component} {c : MsgContent}
    {t : EventStruct} (ho : .publish s r c t ∈ outsOf env e.pre e.act) : r ≠ .hwDoorLock := by
  obtain ⟨p₁, cf, q₁, hp, hcf⟩ := hc
  obtain ⟨ev, hca, hf, -, hresp⟩ := hcf.request (Run.split h hp).1
  have hposts := posts_of_mem (pending_jobOut h) ho
  rw [hact] at ha hposts
  rintro rfl
  generalize hrv : Component.hwDoorLock = rv at hposts
  cases hposts with
  | @trusted a' ev' _ _ _ ha' _ hca' ht _ =>
    obtain rfl : a' = a := by simpa [takenBy, ha'] using ha
    rw [hca] at hca'
    cases hca'
    simp [hf] at ht
  | @answer a' ev' pasw ha' _ hca' _ _ =>
    obtain rfl : a' = a := by simpa [takenBy, ha'] using ha
    rw [hca] at hca'
    cases hca'
    rw [hresp] at hrv
    cases hrv
  | doorEvent _ _ ha => simp at ha
  | _ => cases hrv

/-- In every run, the lock goes from locked to unlocked only while it handles a message that was
published for an authenticated request; and a password confirmed to alter the password sends
nothing to the lock. -/
theorem unlock_authenticated (h : RunFrom env kv tr w) (htr : tr = p ++ e :: q) :
    (¬ e.pre.door.Unlocked → e.post.door.Unlocked →
      ∃ m, e.act = .door ∧ takenBy e.pre e.act = some m ∧ m.recver = .hwDoorLock ∧
        Before p (Granted env m)) ∧
    (∀ a, e.act = .system → takenBy e.pre e.act = some a →
      (Before p fun _ c => Confirms env .paswAlter a c) →
        ∀ s r c t, .publish s r c t ∈ outsOf env e.pre e.act → r ≠ .hwDoorLock) := by
  obtain ⟨hp, hs, -⟩ := Run.split h htr
  refine ⟨fun hlocked hunl => ?_, fun a hact ha hc s r c t => paswAlter_sends_nothing hp hact ha hc⟩
  rcases door_step hs with heq | ⟨hact, m, x, hm, hx, heq⟩ | ⟨-, heq⟩
  · exact absurd (heq ▸ hunl) hlocked
  · refine ⟨m, hact, by rw [hact]; exact hm, ?_⟩
    rw [heq] at hunl
    unfold doorLockRecv at hx
    cases hv : m.content.asPaswValid (env.pad m.addr) with
    | none => simp [hv] at hx
    | some v =>
      simp only [hv] at hx
      split at hx
      · rename_i h1
        exact doorlock_granted hp hm _ (h1 ▸ hv)
      · cases hx
        exact absurd hunl hlocked
  · -- a time-out never unlocks
    rw [heq] at hunl
    unfold doorLockTimeout at hunl
    dsimp only at hunl
    split at hunl
    · exact absurd hunl.1 (by simp)
    · exact absurd hunl hlocked

/-- The default password typed on the home page, confirmed and checked. -/
def unlockByDefault : List Action := press [.k0, .k0, .k0, .k0, .dash] ++ [.system]

theorem unlock_authenticated_default :
    ∃ m, takenBy (after (step quietEnv) (boot defaultKvdb) unlockByDefault) .door = some m ∧
      m.recver = .hwDoorLock ∧
      Before (trace (step quietEnv) (boot defaultKvdb) unlockByDefault) (Granted quietEnv m) := by
  have hrun : RunFrom quietEnv defaultKvdb _ _ :=
    Run.replay unlockByDefault .door (by decide +kernel) (by decide +kernel)
  obtain ⟨m, -, hm, hr, hb⟩ := (unlock_authenticated hrun rfl).1
    (by decide +kernel) (by decide +kernel)
  exact ⟨m, hm, hr, hb⟩

end DoorLock
