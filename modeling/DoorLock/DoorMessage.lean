import DoorLock.World

/-!
# What the lock makes of a message

`door_lock_task` reads every payload as an `auth_result_t` and never looks at the tag, while
`system_service` sends it a `doorlock_event_t` for a trusted request. The two agree on the answer
to an untrusted request, and only there.
-/

namespace DoorLock

open CString

/-- The request authenticates for `SERVOP_DOOR_UNLOCK`. -/
def AuthEvent.Authenticates (kv : Kvdb) (e : AuthEvent) : Prop :=
  e.trusted = true ∨
    e.authResultRespondTo = .hwDoorLock ∧
      ∃ corrPasw, fdbKvGet kv = some corrPasw ∧ strcmpEq corrPasw e.paswStr = true

/-- Whatever state the lock is in, the payload makes it unlock with countdown 10. -/
def Unlocks (c : MsgContent) : Prop :=
  ∀ pad d, ∃ outs, doorLockRecv pad d c = .ok (unlockedFor10s, outs)

/-- Whatever state the lock is in, the payload changes nothing. -/
def Ignored (c : MsgContent) : Prop := ∀ pad d, doorLockRecv pad d c = .ok (d, [])

/-- The message with which a task asks for an authentication. -/
def authRequest (sender : Component) (addr : Nat) (e : AuthEvent) : EventMsg :=
  ⟨sender, .servAuth, .authEvent, addr, .authEvent e⟩

/-- Sender and receiver mean the same: a request that authenticates is answered to the lock with a
message that unlocks it, any other with none that has an effect. -/
def LockAgrees (env : Env) (kv : Kvdb) (m : EventMsg) (e : AuthEvent) : Prop :=
  ∀ x, systemService env kv m = .ok x →
    (e.Authenticates kv → ∃ s c t, .publish s .hwDoorLock c t ∈ x.2) ∧
      ∀ s c t, .publish s .hwDoorLock c t ∈ x.2 →
        (e.Authenticates kv → Unlocks c) ∧ (¬ e.Authenticates kv → Ignored c)

section
variable {env : Env} {kv : Kvdb} {sender : Component} {addr : Nat} {e : AuthEvent}

theorem unlocks_iff {c : MsgContent} {v : UInt8} (hc : ∀ pad, c.asPaswValid pad = some v) :
    Unlocks c ↔ v = 1 := by
  constructor
  · intro h
    obtain ⟨outs, ho⟩ := h 0 .init
    by_contra hv
    have hstill : doorLockRecv 0 .init c = .ok (.init, []) := by simp [doorLockRecv, hc, hv]
    rw [hstill] at ho
    simp [DoorTask.init, unlockedFor10s] at ho
  · rintro rfl pad d
    exact ⟨[doorEventOut .unlock 0, .free], by simp [doorLockRecv, hc]⟩

theorem ignored_of_ne {c : MsgContent} {v : UInt8} (hc : ∀ pad, c.asPaswValid pad = some v)
    (hv : v ≠ 1) : Ignored c := by
  intro pad d
  simp [doorLockRecv, hc, hv]

theorem systemService_authRequest (env : Env) (kv : Kvdb) (sender : Component) (addr : Nat)
    (e : AuthEvent) : systemService env kv (authRequest sender addr e) =
      (systemAuth env addr kv e).map fun outs => (kv, outs ++ [.free]) := rfl

/-- The lock does nothing on a `doorlock_event_t`: `DOOR_UNLOCK` is 2. -/
theorem trusted_disagrees (he : e.trusted = true) :
    ¬ LockAgrees env kv (authRequest sender addr e) e := by
  intro h
  have hx : systemService env kv (authRequest sender addr e) =
      .ok (kv, trustedAuth e ++ [.free]) := by
    rw [systemService_authRequest, systemAuth, if_pos he]
    rfl
  have hu := ((h _ hx).2 .servAuth (.doorlockEvent ⟨.unlock, 10⟩) .doorlockEvent
    (by simp [trustedAuth])).1 (.inl he)
  rw [unlocks_iff (fun pad => asPaswValid_doorlockEvent pad _)] at hu
  exact absurd hu (by decide)

/-- What an untrusted request has published to the lock. -/
theorem publish_untrusted {corrPasw : List UInt8} {s : Component} {c : MsgContent}
    {t : EventStruct} :
    .publish s .hwDoorLock c t ∈ untrustedAuth env addr corrPasw e ↔
      e.authResultRespondTo = .hwDoorLock ∧ s = .servAuth ∧
        c = .authResult (authResultOf env addr corrPasw e) ∧ t = .authResult := by
  unfold untrustedAuth
  have hecho : .publish s .hwDoorLock c t ∉
      (if strcmpEq corrPasw e.paswStr then
        if e.validPaswScreenEcho = 1 then [reflexOut .paswValidPop] else []
      else if e.wrongPaswScreenEcho = 1 then [reflexOut .paswWrongPop] else []) := by
    split <;> split <;> simp [reflexOut]
  dsimp only
  rw [List.mem_append, or_iff_right hecho]
  split
  · rw [List.mem_singleton, Out.publish.injEq]
    exact ⟨fun ⟨hs, hr, hc, ht⟩ => ⟨hr.symm, hs, hc, ht⟩, fun ⟨hr, hs, hc, ht⟩ =>
      ⟨hs, hr.symm, hc, ht⟩⟩
  · rename_i hno
    rw [not_not] at hno
    simp [hno]

/-- The lock reads `pasw_valid` of an answer as it was written. -/
theorem untrusted_agrees (he : e.trusted = false) :
    LockAgrees env kv (authRequest sender addr e) e := by
  intro x hx
  rw [systemService_authRequest, systemAuth, if_neg (by simp [he])] at hx
  cases hp : fdbKvGet kv with
  | none => simp [hp, Except.map] at hx
  | some corrPasw =>
    simp only [hp, Except.map, Except.ok.injEq] at hx
    subst hx
    have hauth : e.Authenticates kv ↔
        e.authResultRespondTo = .hwDoorLock ∧ strcmpEq corrPasw e.paswStr = true := by
      simp [AuthEvent.Authenticates, he, hp]
    have hmem {s c t} : .publish s .hwDoorLock c t ∈ untrustedAuth env addr corrPasw e ++ [.free] ↔
        .publish s .hwDoorLock c t ∈ untrustedAuth env addr corrPasw e := by simp
    refine ⟨fun ha => ⟨_, _, _, hmem.mpr (publish_untrusted.mpr ⟨(hauth.mp ha).1, rfl, rfl, rfl⟩)⟩,
      fun s c t ho => ?_⟩
    obtain ⟨hr, -, rfl, -⟩ := publish_untrusted.mp (hmem.mp ho)
    have hv := fun pad => asPaswValid_authResult pad (authResultOf env addr corrPasw e)
    constructor
    · intro ha
      rw [unlocks_iff hv]
      simp [authResultOf, (hauth.mp ha).2]
    · intro ha
      refine ignored_of_ne hv ?_
      have hne : strcmpEq corrPasw e.paswStr = false := by
        simpa [hauth, hr] using ha
      simp [authResultOf, hne]

end

/-- The lock and `system_service` agree on a request just when it is not trusted. -/
theorem lockAgrees_iff (env : Env) (kv : Kvdb) (sender : Component) (addr : Nat) (e : AuthEvent) :
    LockAgrees env kv (authRequest sender addr e) e ↔ e.trusted = false := by
  constructor
  · intro h
    by_contra ht
    exact trusted_disagrees (by simpa using ht) h
  · exact untrusted_agrees

/-- A finger that matched leaves the lock locked. -/
theorem lock_ignores_match :
    ¬ LockAgrees quietEnv defaultKvdb (authRequest .hwFg 1 (matchEvent 1)) (matchEvent 1) :=
  trusted_disagrees rfl

end DoorLock
