import DoorLock.WorldStep
import DoorLock.UiChange
import DoorLock.FgReaderStep

/-!
# Where a message comes from

Every message that is found on a queue was put there by an earlier step of the run
(`queued_origin`), and what a step can publish is listed in `Posts`. The claims about
authentication follow a message back through these two.
-/

namespace DoorLock

open Transition CString

/-! ## Who publishes what -/

/-- What the current job has still to publish: events, and the authentication of a match. -/
def JobOut (o : Out) : Prop :=
  (∃ mode progress detail, o = fgEventOut mode progress detail) ∨ ∃ id, o = trustedEvent id

/-- A step that may publish a message with the given sender, receiver, content and tag. -/
inductive Posts (env : Env) (w : World) :
    Action → Component → Component → MsgContent → EventStruct → Prop
  | key (k : Key) : Posts env w (.key k) .hwInpt .servUi (.inptEvent ⟨k.code⟩) .inptEvent
  | fgEvent (e : FgEvent) : Posts env w .fgPublish .hwFg .servUi (.fgEvent e) .fgEvent
  | fgMatch {id : UInt16} (h : trustedEvent id ∈ w.fg.pending) :
      Posts env w .fgPublish .hwFg .servAuth (.authEvent (matchEvent id)) .authEvent
  | confirmAuth {k : EventMsg} (hk : w.queueUi.head? = some k) (hkey : k.IsKey keyHash)
      (hpeek : w.ui.peek = some .pswAuth) :
      Posts env w .ui .servUi .servAuth (.authEvent (authEventOf env k.addr w.ui)) .authEvent
  | confirmAlter {k : EventMsg} (hk : w.queueUi.head? = some k) (hkey : k.IsKey keyHash)
      (hpeek : w.ui.peek = some .pswAlter) :
      Posts env w .ui .servUi .servSysop (.servSysop (servSysopOf env k.addr w.ui)) .servSysop
  | trusted {a : EventMsg} {ev : AuthEvent} {recver : Component} {content : MsgContent}
      {eventStruct : EventStruct} (ha : w.queueSystem.head? = some a)
      (hr : a.recver = .servAuth) (hc : a.content = .authEvent ev) (ht : ev.trusted = true)
      (ho : .publish .servAuth recver content eventStruct ∈ trustedAuth ev) :
      Posts env w .system .servAuth recver content eventStruct
  | answer {a : EventMsg} {ev : AuthEvent} {pasw : List UInt8}
      (ha : w.queueSystem.head? = some a) (hr : a.recver = .servAuth)
      (hc : a.content = .authEvent ev) (ht : ev.trusted = false)
      (hp : fdbKvGet w.kvdb = some pasw) :
      Posts env w .system .servAuth ev.authResultRespondTo
        (.authResult (authResultOf env a.addr pasw ev)) .authResult
  | reflex (prefab : UiPrefab) :
      Posts env w .system .servAuth .servUi (.uiReflexEvent ⟨prefab, 0⟩) .uiReflexEvent
  | doorEvent {act : Action} (lockStatus : LockState) (detail : UInt16)
      (ha : act = .door ∨ act = .doorTimeout) :
      Posts env w act .hwDoorLock .servUi (.doorlockEvent ⟨lockStatus, detail⟩) .doorlockEvent

section
variable {env : Env} {w : World} {s r : Component} {c : MsgContent} {t : EventStruct}

theorem ui_posts (h : .publish s r c t ∈ outsOf env w .ui) : Posts env w .ui s r c t := by
  unfold outsOf at h
  cases hq : w.queueUi with
  | nil => simp [hq] at h
  | cons k rest =>
    have hk : w.queueUi.head? = some k := by simp [hq]
    simp only [hq] at h
    cases hx : uiEventHandler env w.ui k with
    | error f => simp [hx, Handled.outs] at h
    | ok x =>
      rw [hx] at h
      have hpub : .publish s r c t ∈ published x.2 := mem_published.mpr h
      have hchange := uiEventHandler_change hx
      generalize published x.2 = outs at hpub hchange
      cases hchange with
      | agree _ | launch _ _ | home _ _ | typed _ _ _ _ _ _ _ | grant _ _ => simp at hpub
      | confirmAuth hkey hpeek _ =>
        cases List.mem_singleton.mp hpub
        exact .confirmAuth hk hkey hpeek
      | confirmAlter hkey hpeek _ =>
        cases List.mem_singleton.mp hpub
        exact .confirmAlter hk hkey hpeek

/-- What `system_service` sends for an untrusted authentication: popups, and the answer. -/
theorem mem_untrustedAuth {addr : Nat} {pasw : List UInt8} {e : AuthEvent} {o : Out}
    (h : o ∈ untrustedAuth env addr pasw e) :
    (∃ prefab, o = reflexOut prefab) ∨
      o = .publish .servAuth e.authResultRespondTo
        (.authResult (authResultOf env addr pasw e)) .authResult := by
  unfold untrustedAuth at h
  rcases List.mem_append.mp h with h | h
  · left
    split at h <;> split at h <;> simp at h <;> exact ⟨_, h⟩
  · right
    split at h
    · exact List.mem_singleton.mp h
    · simp at h

/-- `system_service` answers an operation with popups. -/
theorem systemSysop_outs {addr : Nat} {kv : Kvdb} {e : ServSysopMsg} {x : Kvdb × List Out}
    (h : systemSysop env addr kv e = .ok x) : ∀ o ∈ x.2, ∃ prefab, o = reflexOut prefab := by
  unfold systemSysop at h
  cases hop : e.operation with
  | doorUnlock =>
    rw [hop] at h
    cases h
    simp
  | paswAlter =>
    rw [hop] at h
    cases hp : fdbKvGet kv with
    | none => simp [hp] at h
    | some pasw =>
      simp only [hp] at h
      by_cases hgrant : strcmpEq pasw e.grantStr
      · rw [if_pos hgrant] at h
        by_cases hok : env.kvOk addr
        · rw [if_pos hok] at h
          cases h
          simp
        · rw [if_neg hok] at h
          cases h
          simp
      · rw [if_neg hgrant] at h
        cases h
        simp

/-- The messages of the authentication service. -/
theorem auth_posts {a : EventMsg} {e : AuthEvent} {outs : List Out}
    (ha : w.queueSystem.head? = some a) (hr : a.recver = .servAuth) (hc : a.content = .authEvent e)
    (ho : systemAuth env a.addr w.kvdb e = .ok outs) (h : .publish s r c t ∈ outs) :
    Posts env w .system s r c t := by
  unfold systemAuth at ho
  cases ht : e.trusted with
  | true =>
    rw [ht, if_pos rfl] at ho
    cases ho
    obtain rfl : s = .servAuth := by
      simp only [trustedAuth, List.mem_cons, List.not_mem_nil, or_false] at h
      rcases h with h | h <;> cases h <;> rfl
    exact .trusted ha hr hc ht h
  | false =>
    rw [ht, if_neg Bool.false_ne_true] at ho
    split at ho
    · cases ho
    · rename_i pasw hp
      cases ho
      rcases mem_untrustedAuth h with ⟨prefab, h⟩ | h
      · cases h
        exact .reflex prefab
      · cases h
        exact .answer ha hr hc ht hp

theorem system_posts (h : .publish s r c t ∈ outsOf env w .system) :
    Posts env w .system s r c t := by
  unfold outsOf at h
  cases hq : w.queueSystem with
  | nil => simp [hq] at h
  | cons a rest =>
    have ha : w.queueSystem.head? = some a := by simp [hq]
    simp only [hq] at h
    cases hx : systemService env w.kvdb a with
    | error f => simp [hx, Handled.outs] at h
    | ok x =>
      rw [hx] at h
      cases systemService_ok hx with
      | auth hr hc ho => exact auth_posts ha hr hc ho (by simpa [Handled.outs] using h)
      | sysop _ _ _ ho =>
        obtain ⟨prefab, h⟩ :=
          systemSysop_outs ho (.publish s r c t) (by simpa [Handled.outs] using h)
        cases h
        exact .reflex prefab
      | other => simp [Handled.outs] at h

theorem door_posts (h : .publish s r c t ∈ outsOf env w .door) : Posts env w .door s r c t := by
  unfold outsOf at h
  cases hq : w.queueDoorlock with
  | nil => simp [hq] at h
  | cons m rest =>
    simp only [hq, doorLockRecv] at h
    cases hv : m.content.asPaswValid (env.pad m.addr) with
    | none => simp [hv, Handled.outs] at h
    | some v =>
      simp only [hv] at h
      split at h
      · simp only [Handled.outs, doorEventOut, List.mem_cons, Out.publish.injEq, reduceCtorEq,
          List.not_mem_nil, or_false] at h
        obtain ⟨rfl, rfl, rfl, rfl⟩ := h
        exact .doorEvent _ _ (.inl rfl)
      · simp [Handled.outs] at h

theorem doorTimeout_posts (h : .publish s r c t ∈ outsOf env w .doorTimeout) :
    Posts env w .doorTimeout s r c t := by
  have hdoor : ∃ lockStatus detail, .publish s r c t = doorEventOut lockStatus detail := by
    unfold outsOf doorLockTimeout at h
    dsimp only at h
    by_cases hcnt : w.door.countdownCnt - 1 = 0
    · simp only [hcnt, if_true, ne_eq, not_true_eq_false, if_false, List.nil_append,
        List.mem_singleton] at h
      exact ⟨_, _, h⟩
    · simp only [hcnt, if_false, ne_eq, not_false_eq_true, if_true, List.mem_singleton] at h
      exact ⟨_, _, h⟩
  obtain ⟨lockStatus, detail, ho⟩ := hdoor
  cases ho
  exact .doorEvent _ _ (.inr rfl)

/-- Everything a step publishes is listed in `Posts`. -/
theorem posts_of_mem {a : Action} (hjob : ∀ o ∈ w.fg.pending, JobOut o)
    (h : .publish s r c t ∈ outsOf env w a) : Posts env w a s r c t := by
  cases a with
  | key k =>
    cases List.mem_singleton.mp h
    exact .key k
  | touch fg fuel => simp [outsOf] at h
  | fgPublish =>
    have hmem := List.mem_of_mem_take h
    rcases hjob _ hmem with ⟨mode, progress, detail, ho⟩ | ⟨id, ho⟩
    · cases ho
      exact .fgEvent _
    · cases ho
      exact .fgMatch hmem
  | ui => exact ui_posts h
  | system => exact system_posts h
  | systemTimeout curTime => simp [outsOf] at h
  | door => exact door_posts h
  | doorTimeout => exact doorTimeout_posts h

end

/-! ## Along a run -/

/-- The step `l` put `m` on the queue `q`. -/
structure Publishes (env : Env) (q : Queue) (m : EventMsg) (l : Label World Action) : Prop where
  fresh : FreshSent (outsOf env l.pre l.act) l.pre l.post q m
  queued : m ∈ l.post.queue q

section
variable {env : Env} {kv : Kvdb} {tr p : List (Label World Action)} {w : World} {q : Queue}
  {m : EventMsg} {l : Label World Action}

/-- A message on a queue wakes up `system_service`, or was published by an earlier step. -/
theorem queued_origin (h : RunFrom env kv tr w) (hm : m ∈ w.queue q) :
    m = wakeMsg ∨ Before tr fun _ l => Publishes env q m l := by
  refine Run.history (I := fun tr w => ∀ q m, m ∈ w.queue q →
    m = wakeMsg ∨ Before tr fun _ l => Publishes env q m l) h ?_ ?_ q m hm
  · intro q m hm
    cases q <;> simp [World.queue, boot] at hm
  · intro tr w a w' ih hs q m hm
    rcases mem_queue_step hs hm with hold | rfl | hf
    · exact (ih q m hold).imp_right fun hb => hb.snoc _
    · exact .inl rfl
    · exact .inr (.last ⟨hf, hm⟩)

/-- Where the authentications of a match that are still to be published come from. -/
def MatchedBefore (tr : List (Label World Action)) (id : UInt16) : Prop :=
  Before tr fun _ t => ∃ fg fuel, t.act = .touch fg fuel ∧
    JobMatched fg fuel t.pre.fg.gFgNextState t.pre.fg.reader id

theorem fg_pending_step {a : Action} {w w' : World} (h : step env w a = .ok w') :
    (∀ o ∈ w'.fg.pending, o ∈ w.fg.pending) ∨
      ∃ fg fuel, a = .touch fg fuel ∧
        w'.fg.pending = (fgServiceJob fg fuel w.fg.gFgNextState w.fg.reader).2.published := by
  cases a with
  | key k => cases h; exact .inl (by simp)
  | touch fg fuel => obtain ⟨-, -, rfl⟩ := stepTouch_ok h; exact .inr ⟨fg, fuel, rfl, rfl⟩
  | fgPublish => obtain ⟨o, rest, hp, rfl⟩ := stepFgPublish_ok h; exact .inl (by simp_all)
  | ui => obtain ⟨m, rest, x, -, -, rfl⟩ := stepUi_ok h; exact .inl (by simp)
  | system => obtain ⟨m, rest, x, -, -, rfl⟩ := stepSystem_ok h; exact .inl (by simp)
  | systemTimeout curTime =>
    obtain ⟨-, ⟨-, rfl⟩ | ⟨-, u, -, rfl⟩⟩ := stepSystemTimeout_ok h <;> exact .inl (by simp)
  | door => obtain ⟨m, rest, x, -, -, rfl⟩ := stepDoor_ok h; exact .inl (by simp)
  | doorTimeout => obtain ⟨-, -, rfl⟩ := stepDoorTimeout_ok h; exact .inl (by simp)

/-- What is still to be published are events, and matches of an earlier job. -/
theorem pending_origin (h : RunFrom env kv tr w) {o : Out} (ho : o ∈ w.fg.pending) :
    (∃ mode progress detail, o = fgEventOut mode progress detail) ∨
      ∃ id, o = trustedEvent id ∧ MatchedBefore tr id := by
  refine Run.history (I := fun tr w => ∀ o ∈ w.fg.pending,
    (∃ mode progress detail, o = fgEventOut mode progress detail) ∨
      ∃ id, o = trustedEvent id ∧ MatchedBefore tr id) h ?_ ?_ o ho
  · intro o ho
    simp [boot, FgTask.init] at ho
  · intro tr w a w' ih hs o ho
    rcases fg_pending_step hs with hold | ⟨fg, fuel, rfl, hnew⟩
    · exact (ih o (hold o ho)).imp_right fun ⟨id, hid, hb⟩ => ⟨id, hid, hb.snoc _⟩
    · rw [hnew] at ho
      rcases mem_fgServiceJob ho with ⟨progress, detail, hev⟩ | ⟨id, hm, rfl⟩
      · exact .inl ⟨_, progress, detail, hev⟩
      · exact .inr ⟨id, rfl, .last ⟨fg, fuel, rfl, hm⟩⟩

theorem pending_jobOut (h : RunFrom env kv tr w) : ∀ o ∈ w.fg.pending, JobOut o := by
  intro o ho
  exact (pending_origin h ho).imp_right fun ⟨id, hid, _⟩ => ⟨id, hid⟩

/-- In a run, a message that is published is one of those listed in `Posts`. -/
theorem Publishes.posts (hp : Publishes env q m l) (h : RunFrom env kv p l.pre) :
    Posts env l.pre l.act m.sender m.recver m.content m.eventStruct :=
  posts_of_mem (pending_jobOut h) hp.fresh.sent

/-- The cache of the password page, as the last launch of the page left it. -/
def launchCache : Option ServSysop → PswAuthCache
  | none => ⟨.doorUnlock, .noOne⟩
  | some .doorUnlock => ⟨.doorUnlock, .hwDoorLock⟩
  | some .paswAlter => ⟨.paswAlter, .servUi⟩

theorem paswAuthActivityLaunch_cache (u : Ui) (authFor : ServSysop) :
    (paswAuthActivityLaunch u authFor).pswAuthCache = launchCache (some authFor) := by
  cases authFor <;> rfl

theorem runCalls_agree {u u' : Ui} {calls : List (Option Call × List Nat)}
    (h : runCalls u calls = .ok u') : u.Agree u' := by
  induction calls generalizing u with
  | nil =>
    cases h
    exact .rfl
  | cons c calls ih =>
    obtain ⟨_ | ⟨addr⟩, args⟩ := c
    · simp [runCalls] at h
    · simp only [runCalls] at h
      cases hb : u.back with
      | error f => simp [hb] at h
      | ok u₁ =>
        rw [hb] at h
        exact (Ui.Agree.back hb).trans (ih h)

/-- What a step does to the caches and the texts typed, and what the UI task publishes in it. -/
theorem ui_step_change {a : Action} {w w' : World} (h : step env w a = .ok w') :
    w.ui.Agree w'.ui ∨ ∃ k, a = .ui ∧ w.queueUi.head? = some k ∧
      UiChange env w.ui k w'.ui (published (outsOf env w .ui)) := by
  rcases ui_step h with heq | ⟨rfl, k, x, hk, hx, heq⟩ | ⟨curTime, rfl, -, -, hc⟩
  · exact .inl (heq ▸ .rfl)
  · refine .inr ⟨k, rfl, hk, ?_⟩
    obtain ⟨rest, hq⟩ : ∃ rest, w.queueUi = k :: rest := by
      cases hq : w.queueUi <;> simp_all
    rw [heq]
    simpa [outsOf, hq, hx, Handled.outs] using uiEventHandler_change hx
  · exact .inl (runCalls_agree hc)

/-- The cache of the password page says what the page was launched for. -/
theorem pswAuthCache_eq (h : RunFrom env kv tr w) :
    w.ui.pswAuthCache = launchCache w.ui.launchedFor := by
  refine Run.invariant (I := fun w => w.ui.pswAuthCache = launchCache w.ui.launchedFor) h rfl ?_
  intro w a w' ih hs
  rcases ui_step_change hs with ha | ⟨k, -, -, hc⟩
  · rw [ha.pswAuthCache, ha.launchedFor, ih]
  · generalize published (outsOf env w .ui) = outs at hc
    cases hc with
    | agree ha => rw [ha.pswAuthCache, ha.launchedFor, ih]
    | launch authFor hu' => rw [hu']; exact paswAuthActivityLaunch_cache _ _
    | home _ hu' => rw [hu']; rfl
    | typed hu _ _ _ _ _ hu' =>
      rcases hu with rfl | rfl
      · rw [hu']; exact ih
      · rw [hu']; rfl
    | confirmAuth _ _ ha => rw [ha.pswAuthCache, ha.launchedFor]; exact ih
    | confirmAlter _ _ ha => rw [ha.pswAuthCache, ha.launchedFor]; exact ih
    | grant _ hu' => rw [hu']; exact ih

end

end DoorLock
