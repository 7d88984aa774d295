import DoorLock.DoorStore

/-!
# The system service over the store

`system_service` reads and writes the password with `fdb_kv_get` and `fdb_kv_set`. Over the store
in flash it does what `systemService` does with the one password.
-/

namespace DoorLock

open CString Refine

/-- `recver == SERV_AUTH` -/
def systemAuthStore (env : Env) (addr : Nat) (db : FdbKvdb) (e : AuthEvent) :
    Option (Except Fault (List Out) × FdbKvdb) :=
  if e.trusted then some (.ok (trustedAuth e), db)
  else do
    let (corrPasw, db) ← fdbKvGetStr db (lit "doorlock_pasw")
    match corrPasw with
    | none => some (.error .nullPasw, db)
    | some corrPasw => some (.ok (untrustedAuth env addr corrPasw e), db)

/-- `recver == SERV_SYSOP` -/
def systemSysopStore (db : FdbKvdb) (e : ServSysopMsg) :
    Option (Except Fault (List Out) × FdbKvdb) :=
  match e.operation with
  | .paswAlter => do
    let (paswOld, db) ← fdbKvGetStr db (lit "doorlock_pasw")
    match paswOld with
    | none => some (.error .nullPasw, db)
    | some paswOld =>
      if strcmpEq paswOld e.grantStr then do
        let (result, db) ← fdbKvSetStr db (lit "doorlock_pasw") e.opPara.newPaswStr
        if result = .noErr then some (.ok [reflexOut .alterSuccsPop], db)
        else some (.ok [reflexOut .alterFailPop], db)
      else some (.ok [reflexOut .paswWrongPop], db)
  | .doorUnlock => some (.ok [], db)

/-- `free(msg_recv.msg_content)` -/
def freeAfter (x : Except Fault (List Out) × FdbKvdb) : Except Fault (List Out) × FdbKvdb :=
  (x.1.map (· ++ [.free]), x.2)

/-- `system_service`, on a message. -/
def systemServiceStore (env : Env) (db : FdbKvdb) (m : EventMsg) :
    Option (Except Fault (List Out) × FdbKvdb) :=
  if m.recver = .servAuth ∧ m.eventStruct = .authEvent then
    match m.content with
    | .authEvent e => (systemAuthStore env m.addr db e).map freeAfter
    | _ => some (.error .badCast, db)
  else if m.recver = .servSysop ∧ m.eventStruct = .servSysop then
    match m.content with
    | .servSysop e => (systemSysopStore db e).map freeAfter
    | _ => some (.error .badCast, db)
  else some (.ok [.free], db)

/-- What `systemService` asks of the rest of the system, and the password it leaves. -/
def systemAnswer (env : Env) (kv : Kvdb) (m : EventMsg) : Except Fault (List Out) × Kvdb :=
  match systemService env kv m with
  | .ok (kv', outs) => (.ok outs, kv')
  | .error f => (.error f, kv)

/-- The new password of a message, read on behind its array, has at most `L` bytes. -/
def EventMsg.Short (L : Nat) (m : EventMsg) : Prop :=
  ∀ e, m.content = .servSysop e → (cstr e.opPara.newPaswStr).length ≤ L

/-- The store keeps the password. -/
def StoresPasw (G : KvGeom) (L : Nat) (db : FdbKvdb) (kv : Kvdb) : Prop :=
  ∃ M : KvMap, StoreKeeps G doorLockNames db M ∧ M.Within storeKeys L ∧
    kv = ⟨M (lit "doorlock_pasw")⟩

variable {G : KvGeom} {L fuel : Nat} {db : FdbKvdb} {kv : Kvdb} {env : Env} {addr : Nat}
  {m : EventMsg}

theorem StoresPasw.get (h : StoresPasw G L db kv) :
    Yields (fdbKvGetStr db (lit "doorlock_pasw")) fun x => StoresPasw G L x.2 kv ∧
      x.1 = fdbKvGet kv := by
  obtain ⟨M, hk, hM, rfl⟩ := h
  refine (hk.get pasw_mem).mono ?_
  rintro ⟨str, db'⟩ ⟨hk', hstr⟩
  exact ⟨⟨M, hk', hM, rfl⟩, hstr⟩

theorem StoresPasw.set (h : StoresPasw G L db kv) (hcap : Capacity G doorLockNames storeKeys L)
    {value : List UInt8} (hlen : (cstr value).length ≤ L) :
    Yields (fdbKvSetStr db (lit "doorlock_pasw") value) fun x => x.1 = .noErr ∧
      StoresPasw G L x.2 (fdbKvSet kv value) := by
  obtain ⟨M, hk, hM, rfl⟩ := h
  refine (hk.set hM hcap pasw_mem hlen).mono ?_
  rintro ⟨result, db'⟩ ⟨hres, hk'⟩
  refine ⟨hres, _, hk', hM.update pasw_mem hlen, ?_⟩
  rw [Function.update_self, fdbKvSet]

theorem StoresPasw.auth (h : StoresPasw G L db kv) (env : Env) (addr : Nat) (e : AuthEvent) :
    Yields (systemAuthStore env addr db e) fun x => x.1 = systemAuth env addr kv e ∧
      StoresPasw G L x.2 kv := by
  rw [systemAuthStore, systemAuth]
  refine .ite (fun htrusted => ?_) fun htrusted => ?_
  · rw [if_pos htrusted]
    exact .pure ⟨rfl, h⟩
  · rw [if_neg htrusted]
    refine h.get.bind ?_
    rintro ⟨str, db'⟩ ⟨h', rfl⟩
    dsimp only
    cases fdbKvGet kv with
    | none => exact .pure ⟨rfl, h'⟩
    | some corrPasw => exact .pure ⟨rfl, h'⟩

theorem StoresPasw.sysop (h : StoresPasw G L db kv) (hcap : Capacity G doorLockNames storeKeys L)
    (hok : ∀ addr, env.kvOk addr = true) (addr : Nat) (e : ServSysopMsg)
    (hlen : (cstr e.opPara.newPaswStr).length ≤ L) :
    Yields (systemSysopStore db e) fun x =>
      systemSysop env addr kv e = .error .nullPasw ∧ x.1 = .error .nullPasw ∧
          StoresPasw G L x.2 kv ∨
        ∃ outs kv', systemSysop env addr kv e = .ok (kv', outs) ∧ x.1 = .ok outs ∧
          StoresPasw G L x.2 kv' := by
  rw [systemSysopStore, systemSysop]
  cases e.operation with
  | doorUnlock => exact .pure (.inr ⟨[], kv, rfl, rfl, h⟩)
  | paswAlter =>
    dsimp only
    refine h.get.bind ?_
    rintro ⟨str, db₁⟩ ⟨h₁, rfl⟩
    dsimp only at h₁ ⊢
    cases fdbKvGet kv with
    | none => exact .pure (.inl ⟨rfl, rfl, h₁⟩)
    | some paswOld =>
      dsimp only
      refine .ite (fun hgrant => ?_) fun hgrant => ?_
      · rw [if_pos hgrant, if_pos (hok addr)]
        refine (h₁.set hcap hlen).bind ?_
        rintro ⟨result, db₂⟩ ⟨rfl, h₂⟩
        exact .pure (.inr ⟨_, _, rfl, rfl, h₂⟩)
      · rw [if_neg hgrant]
        exact .pure (.inr ⟨_, _, rfl, rfl, h₁⟩)

/-- On every message `system_service` over the store does what it does with the password. -/
theorem systemServiceStore_refines (hcap : Capacity G doorLockNames storeKeys L)
    (hok : ∀ addr, env.kvOk addr = true) :
    Refines (systemServiceStore env) (fun kv m x kv' => systemAnswer env kv m = (x, kv'))
      (StoresPasw G L) (EventMsg.Short L) := by
  intro db kv m h hshort
  change Yields (systemServiceStore env db m) fun x => ∃ kv',
    systemAnswer env kv m = (x.1, kv') ∧ StoresPasw G L x.2 kv'
  rw [systemServiceStore, systemAnswer, systemService]
  refine .ite (fun hauth => ?_) fun hauth => ?_
  · rw [if_pos hauth]
    cases m.content with
    | authEvent e =>
      obtain ⟨⟨x, db'⟩, heq, hx, h'⟩ := h.auth env m.addr e
      dsimp only at hx h' ⊢
      subst hx
      rw [heq]
      refine .pure ?_
      cases systemAuth env m.addr kv e with
      | ok outs => exact ⟨kv, rfl, h'⟩
      | error f => exact ⟨kv, rfl, h'⟩
    | _ => exact .pure ⟨kv, rfl, h⟩
  · rw [if_neg hauth]
    refine .ite (fun hsys => ?_) fun hsys => ?_
    · rw [if_pos hsys]
      cases hc : m.content with
      | servSysop e =>
        obtain ⟨⟨x, db'⟩, heq, hx⟩ := h.sysop hcap hok m.addr e (hshort e hc)
        dsimp only at hx ⊢
        rw [heq]
        refine .pure ?_
        rcases hx with ⟨herr, rfl, h'⟩ | ⟨outs, kv', hout, rfl, h'⟩
        · rw [herr]
          exact ⟨kv, rfl, h'⟩
        · rw [hout]
          exact ⟨kv', rfl, h'⟩
      | _ => exact .pure ⟨kv, rfl, h⟩
    · rw [if_neg hsys]
      exact .pure ⟨kv, rfl, h⟩

/-- The flash stands for the password while the power is off. -/
def RestsPasw (G : KvGeom) (L : Nat) (part : FalPartition) (kv : Kvdb) : Prop :=
  ∃ M : KvMap, Rests G doorLockNames defaultKvTable part M ∧ M.Within storeKeys L ∧
    kv = ⟨M (lit "doorlock_pasw")⟩

end DoorLock
