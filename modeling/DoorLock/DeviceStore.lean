import DoorLock.SystemStore
import DoorLock.Credential

/-!
# The device with its store

The running system with the store in flash in place of the one password. Whatever the device does,
over any number of reboots, the system with the password does as well, so that what holds of the
runs of that system holds of the device.
-/

namespace DoorLock

open CString Refine Transition

/-- The device. The `kvdb` of its world is not looked at. -/
structure Device where
  world : World
  db : FdbKvdb

/-- The state `app_main` leaves. -/
def Device.boot (db : FdbKvdb) : Device := ⟨DoorLock.boot ⟨none⟩, db⟩

/-- `system_service` takes a message. -/
def Device.stepSystem (env : Env) (d : Device) : Option (Except Halt Device) :=
  match d.world.queueSystem with
  | [] => some (.error .disabled)
  | m :: rest => do
    let (x, db) ← systemServiceStore env d.db m
    match x with
    | .ok outs =>
      some (.ok ⟨performAll env m.addr { d.world with queueSystem := rest } outs, db⟩)
    | .error f => some (.error (.fault f))

/-- A step of the device; only `system_service` uses the store. -/
def Device.step (env : Env) (d : Device) : Action → Option (Except Halt Device)
  | .system => d.stepSystem env
  | a => some ((DoorLock.step env d.world a).map fun w => { d with world := w })

/-- The device is powered on and may be rebooted between any two steps, and a reboot starts from the
flash. The labels of all its steps are kept. -/
inductive PoweredStore (fuel S : Nat) (part : FalPartition) :
    List (Env × Label Device Action) → Env → Device → Prop
  | on (env : Env) {db : FdbKvdb} (h : appMainStore fuel S part = some db) :
    PoweredStore fuel S part [] env (.boot db)
  | step {tr env d a d'} (h : PoweredStore fuel S part tr env d)
    (hs : d.step env a = some (.ok d')) :
    PoweredStore fuel S part (tr ++ [(env, ⟨d, a, d'⟩)]) env d'
  | reboot {tr env d} {db : FdbKvdb} (h : PoweredStore fuel S part tr env d) (env' : Env)
    (hb : appMainStore fuel S d.db.part = some db) :
    PoweredStore fuel S part tr env' (.boot db)

/-- The world with another password. -/
def World.withKvdb (w : World) (kv : Kvdb) : World := { w with kvdb := kv }

/-- The world has the password that the store keeps. -/
def Device.Over (G : KvGeom) (L : Nat) (d : Device) (w : World) : Prop :=
  ∃ kv, StoresPasw G L d.db kv ∧ w = d.world.withKvdb kv

variable {G : KvGeom} {L fuel : Nat} {env : Env} {kv : Kvdb} {w w' : World} {d : Device}
  {m : EventMsg} {a : Action} {tr : List (Label World Action)} {part : FalPartition}

/-! ## The password in the world -/

theorem perform_withKvdb (addr : Nat) (w : World) (kv : Kvdb) (o : Out) :
    perform env addr (w.withKvdb kv) o = (perform env addr w o).withKvdb kv := by
  cases o with
  | publish sender recver content eventStruct =>
    unfold perform eventPublish
    cases recver <;> rfl
  | invoke callDalayMs funcCall => rfl
  | setFgNextState v => rfl
  | free => rfl

theorem performAll_withKvdb (addr : Nat) (w : World) (kv : Kvdb) (outs : List Out) :
    performAll env addr (w.withKvdb kv) outs = (performAll env addr w outs).withKvdb kv := by
  induction outs generalizing w with
  | nil => rfl
  | cons o outs ih =>
    rw [performAll, performAll, List.foldl_cons, List.foldl_cons, perform_withKvdb]
    exact ih _

/-- The steps of the other tasks do not look at the password. -/
theorem step_withKvdb (w : World) (kv : Kvdb) (ha : a ≠ .system) :
    step env (w.withKvdb kv) a = (step env w a).map fun w' => w'.withKvdb kv := by
  cases a with
  | system => exact absurd rfl ha
  | key k => exact congrArg Except.ok (perform_withKvdb 0 w kv (.publish ..))
  | touch fg job =>
    have hfg : (w.withKvdb kv).fg = w.fg := rfl
    rw [step, step, stepTouch, stepTouch, hfg]
    by_cases h : w.fg.pending ≠ [] ∨ w.fg.hung = true
    · rw [if_pos h, if_pos h]
      rfl
    · rw [if_neg h, if_neg h]
      rfl
  | fgPublish =>
    have hfg : (w.withKvdb kv).fg = w.fg := rfl
    rw [step, step, stepFgPublish, stepFgPublish, hfg]
    cases w.fg.pending with
    | nil => rfl
    | cons o rest =>
      exact congrArg Except.ok
        (perform_withKvdb 0 { w with fg := { w.fg with pending := rest } } kv o)
  | ui =>
    have hqueue : (w.withKvdb kv).queueUi = w.queueUi := rfl
    have hui : (w.withKvdb kv).ui = w.ui := rfl
    rw [step, step, stepUi, stepUi, hqueue, hui]
    cases w.queueUi with
    | nil => rfl
    | cons k rest =>
      dsimp only
      cases uiEventHandler env w.ui k with
      | error f => rfl
      | ok x =>
        exact congrArg Except.ok
          (performAll_withKvdb k.addr { w with queueUi := rest, ui := x.1 } kv x.2)
  | systemTimeout curTime =>
    have hqueue : (w.withKvdb kv).queueSystem = w.queueSystem := rfl
    have hinvoker : (w.withKvdb kv).invoker = w.invoker := rfl
    have hui : (w.withKvdb kv).ui = w.ui := rfl
    rw [step, step, stepSystemTimeout, stepSystemTimeout, hqueue, hinvoker, hui]
    by_cases h : w.queueSystem ≠ []
    · rw [if_pos h, if_pos h]
      rfl
    · rw [if_neg h, if_neg h]
      by_cases hmutex : w.invoker.mutexTaken = true
      · rw [if_pos hmutex, if_pos hmutex]
        rfl
      · rw [if_neg hmutex, if_neg hmutex]
        cases runCalls w.ui (w.invoker.dueCalls curTime) <;> rfl
  | door =>
    have hqueue : (w.withKvdb kv).queueDoorlock = w.queueDoorlock := rfl
    have hdoor : (w.withKvdb kv).door = w.door := rfl
    rw [step, step, stepDoor, stepDoor, hqueue, hdoor]
    cases w.queueDoorlock with
    | nil => rfl
    | cons k rest =>
      dsimp only
      cases doorLockRecv (env.pad k.addr) w.door k.content with
      | error f => rfl
      | ok x =>
        exact congrArg Except.ok
          (performAll_withKvdb k.addr { w with queueDoorlock := rest, door := x.1 } kv x.2)
  | doorTimeout =>
    have hqueue : (w.withKvdb kv).queueDoorlock = w.queueDoorlock := rfl
    have hdoor : (w.withKvdb kv).door = w.door := rfl
    rw [step, step, stepDoorTimeout, stepDoorTimeout, hqueue, hdoor]
    by_cases h : w.queueDoorlock ≠ [] ∨ w.door.heartBeatFreq = portMaxDelay
    · rw [if_pos h, if_pos h]
      rfl
    · rw [if_neg h, if_neg h]
      exact congrArg Except.ok
        (performAll_withKvdb 0 { w with door := (doorLockTimeout w.door).1 } kv _)

/-! ## A step of the device -/

/-- A step of the device is a step of the world with the password. -/
theorem device_step (h : d.Over G L w) (hcap : Capacity G doorLockNames storeKeys L)
    (hok : ∀ addr, env.kvOk addr = true) (hshort : ∀ m ∈ w.queueSystem, m.Short L) (a : Action) :
    Yields (d.step env a) fun r => (∃ e, r = .error e ∧ step env w a = .error e) ∨
      ∃ d' w', r = .ok d' ∧ step env w a = .ok w' ∧ d'.Over G L w' := by
  obtain ⟨kv, hkv, rfl⟩ := h
  by_cases ha : a = .system
  · subst ha
    change Yields (d.stepSystem env) fun r =>
      (∃ e, r = .error e ∧ stepSystem env (d.world.withKvdb kv) = .error e) ∨
        ∃ d' w', r = .ok d' ∧ stepSystem env (d.world.withKvdb kv) = .ok w' ∧ d'.Over G L w'
    have hqueue : (d.world.withKvdb kv).queueSystem = d.world.queueSystem := rfl
    rw [hqueue] at hshort
    unfold Device.stepSystem stepSystem
    rw [hqueue]
    cases hq : d.world.queueSystem with
    | nil => exact .pure (.inl ⟨_, rfl, rfl⟩)
    | cons m rest =>
      dsimp only
      have hm : m.Short L := hshort m (by rw [hq]; exact List.mem_cons_self)
      refine (systemServiceStore_refines hcap hok d.db kv m hkv hm).bind ?_
      rintro ⟨x, db⟩ ⟨kv', hanswer, hkv'⟩
      have hanswer : systemAnswer env kv m = (x, kv') := hanswer
      have hkvdb : (d.world.withKvdb kv).kvdb = kv := rfl
      rw [hkvdb]
      unfold systemAnswer at hanswer
      cases hs : systemService env kv m with
      | error f =>
        rw [hs] at hanswer
        cases hanswer
        exact .pure (.inl ⟨_, rfl, rfl⟩)
      | ok y =>
        rw [hs] at hanswer
        cases hanswer
        refine .pure (.inr ⟨_, _, rfl, rfl, y.1, hkv', ?_⟩)
        exact performAll_withKvdb m.addr { d.world with queueSystem := rest } y.1 y.2
  · have hstep : d.step env a = some ((step env d.world a).map fun w => ⟨w, d.db⟩) := by
      cases a with
      | system => exact absurd rfl ha
      | _ => rfl
    rw [hstep, step_withKvdb d.world kv ha]
    cases step env d.world a with
    | error e => exact .pure (.inl ⟨e, rfl, rfl⟩)
    | ok w' => exact .pure (.inr ⟨_, _, rfl, rfl, kv, hkv, rfl⟩)

/-! ## Runs with reboots -/

/-- What the heap holds behind a new password is short, and the flash can be written. -/
structure EnvOk (L : Nat) (env : Env) : Prop where
  kvOk : ∀ addr, env.kvOk addr = true
  short : ∀ addr, 16 + (cstr (env.newPaswAfter addr)).length ≤ L

/-- Every request to alter the password carries a short one. -/
theorem newPasw_short (h : RunFrom env kv tr w) (henv : EnvOk L env) (hm : m ∈ w.queueSystem) :
    m.Short L := by
  intro s hc
  rcases queued_origin (q := .system) h hm with rfl | ⟨p, l, q, htr, hpub⟩
  · cases hc
  have hposts := hpub.posts (Run.split h htr).1
  rw [hc] at hposts
  generalize l.act = act at hposts
  generalize m.sender = sd at hposts
  generalize m.recver = rv at hposts
  generalize m.eventStruct = t at hposts
  generalize hs : MsgContent.servSysop s = ct at hposts
  cases hposts with
  | @confirmAlter k =>
    obtain rfl := MsgContent.servSysop.inj hs
    have hshort := henv.short k.addr
    rw [cstr_newPaswStr]
    by_cases hlt : (l.pre.ui.text .pswAlter).length < 16
    · rw [readBack16_of_lt hlt]
      omega
    · rw [readBack16_of_le (Nat.not_lt.mp hlt), List.length_append, List.length_take]
      omega
  | trusted _ _ _ _ ho =>
    subst hs
    simp [trustedAuth] at ho
  | _ => cases hs

/-- A boot from the flash is the boot with the password. -/
theorem device_boot (h : RestsPasw G L part kv) (hcap : Capacity G doorLockNames storeKeys L)
    (hL : 5 ≤ L) (hfuel : 0 < fuel) :
    Yields (appMainStore fuel G.S part) fun db => (Device.boot db).Over G L (boot kv) := by
  obtain ⟨M, hrest, hM, rfl⟩ := h
  refine (hrest.appMain hM hcap hL hfuel).mono fun db hk => ?_
  exact ⟨_, ⟨M.boot, hk, hM.boot hL, rfl⟩, by rw [KvMap.boot_pasw]; rfl⟩

theorem Device.Over.rests (h : d.Over G L w) : RestsPasw G L d.db.part w.kvdb := by
  obtain ⟨kv, ⟨M, hk, hM, rfl⟩, rfl⟩ := h
  exact ⟨M, StoreKeeps.rests hk, hM, rfl⟩

/-- A label of the device over one of the system with the password. -/
def LabelOver (G : KvGeom) (L : Nat) (l : Env × Label Device Action)
    (l' : Env × Label World Action) : Prop :=
  l.1 = l'.1 ∧ l.2.act = l'.2.act ∧ l.2.pre.Over G L l'.2.pre ∧ l.2.post.Over G L l'.2.post

/-- Every run of the device with reboots is a run of the system with the password. -/
theorem powered_over {tr : List (Env × Label Device Action)} {kv₀ : Kvdb}
    (h : PoweredStore fuel G.S part tr env d) (hrest : RestsPasw G L part kv₀)
    (hcap : Capacity G doorLockNames storeKeys L) (hL : 5 ≤ L) (hfuel : 0 < fuel)
    (henv : ∀ l ∈ tr, EnvOk L l.1) :
    ∃ tr' w, Powered kv₀ tr' env w ∧ d.Over G L w ∧ List.Forall₂ (LabelOver G L) tr tr' := by
  induction h with
  | on env hb =>
    obtain ⟨db, hb', hover⟩ := device_boot hrest hcap hL hfuel
    cases hb.symm.trans hb'
    exact ⟨[], _, .on env, hover, .nil⟩
  | @step tr env d a d' h hs ih =>
    obtain ⟨tr', w, hrun, hover, hlabels⟩ := ih fun l hl => henv l (List.mem_append_left _ hl)
    have hok : EnvOk L env :=
      henv (env, ⟨d, a, d'⟩) (List.mem_append_right _ (List.mem_singleton_self _))
    obtain ⟨kv, seg, hseg, -⟩ := hrun.since_boot
    obtain ⟨r, hr, hres⟩ :=
      device_step hover hcap hok.kvOk (fun m hm => newPasw_short hseg hok hm) a
    cases hs.symm.trans hr
    rcases hres with ⟨e, hf, -⟩ | ⟨d'', w', heq, hstep, hover'⟩
    · cases hf
    · cases heq
      exact ⟨_, w', .step hrun hstep, hover',
        List.rel_append hlabels (.cons ⟨rfl, rfl, hover, hover'⟩ .nil)⟩
  | reboot h env' hb ih =>
    obtain ⟨tr', w, hrun, hover, hlabels⟩ := ih henv
    obtain ⟨db, hb', hover'⟩ := device_boot hover.rests hcap hL hfuel
    cases hb.symm.trans hb'
    exact ⟨tr', _, .reboot hrun env', hover', hlabels⟩

/-- Every run of the device with reboots is one of the system with the password, and goes on as that
one does: by every action, and by a reboot. -/
theorem device_powered {tr : List (Env × Label Device Action)} {kv₀ : Kvdb}
    (h : PoweredStore fuel G.S part tr env d) (hrest : RestsPasw G L part kv₀)
    (hcap : Capacity G doorLockNames storeKeys L) (hL : 5 ≤ L) (hfuel : 0 < fuel)
    (henv : ∀ l ∈ tr, EnvOk L l.1) (hnow : EnvOk L env) :
    ∃ tr' w, Powered kv₀ tr' env w ∧ d.Over G L w ∧ List.Forall₂ (LabelOver G L) tr tr' ∧
      (∀ a, Yields (d.step env a) fun r => (∃ e, r = .error e ∧ step env w a = .error e) ∨
        ∃ d' w', r = .ok d' ∧ step env w a = .ok w' ∧ d'.Over G L w') ∧
      Yields (appMainStore fuel G.S d.db.part) fun db =>
        (Device.boot db).Over G L (boot w.kvdb) := by
  obtain ⟨tr', w, hrun, hover, hlabels⟩ := powered_over h hrest hcap hL hfuel henv
  obtain ⟨kv, seg, hseg, -⟩ := hrun.since_boot
  refine ⟨tr', w, hrun, hover, hlabels, fun a => ?_, device_boot hover.rests hcap hL hfuel⟩
  exact device_step hover hcap hnow.kvOk (fun m hm => newPasw_short hseg hnow hm) a

/-- The defaults of new flash. -/
def newKvdb : Kvdb := ⟨some (lit "0000" ++ [0])⟩

theorem restsPasw_erased :
    RestsPasw doorLockGeom fdbStrKvValueMaxSize (.erased (doorLockGeom.n * doorLockGeom.S))
      newKvdb :=
  ⟨_, rests_erased, within_defaults (by decide), by decide⟩

theorem device_powered_erased : ∃ tr d,
    PoweredStore 1 doorLockGeom.S (.erased (doorLockGeom.n * doorLockGeom.S)) tr quietEnv d ∧
    ∃ tr' w, Powered newKvdb tr' quietEnv w ∧ tr'.map (fun l => l.2.act) = [.key .k1] ∧
      d.Over doorLockGeom fdbStrKvValueMaxSize w := by
  have hcap : Capacity doorLockGeom doorLockNames storeKeys fdbStrKvValueMaxSize :=
    capacity_storeKeys (by decide)
  have henv : EnvOk fdbStrKvValueMaxSize quietEnv := by
    refine ⟨fun _ => rfl, fun addr => ?_⟩
    have hnil : quietEnv.newPaswAfter addr = [] := rfl
    rw [hnil]
    decide
  obtain ⟨db, hb, -⟩ := device_boot restsPasw_erased hcap (by decide) Nat.one_pos
  have hrun := PoweredStore.step (.on quietEnv hb)
    (show (Device.boot db).step quietEnv (.key .k1) = _ from rfl)
  obtain ⟨tr', w, hpow, hover, hlabels, -⟩ := device_powered hrun restsPasw_erased hcap
    (by decide) Nat.one_pos (fun l hl => List.mem_singleton.mp hl ▸ henv) henv
  refine ⟨_, _, hrun, tr', w, hpow, ?_, hover⟩
  cases hlabels with
  | cons hl hnil =>
    cases hnil
    rw [List.map_cons, ← hl.2.1]
    rfl

end DoorLock
