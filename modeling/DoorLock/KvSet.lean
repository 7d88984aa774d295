import DoorLock.KvCollect

/-!
# Setting and deleting a value

Between the calls of the store no change is left half done and a sector is empty. A set that finds
room puts the new value in place of the old one; when a collection makes no room either, nothing
has changed.
-/

namespace DoorLock

variable {G : KvGeom} {K : KvNames} {A A' : KvSectors} {db db' : FdbKvdb} {i j a kvSize : Nat}
  {r x : KvRec} {pre post : List KvRec} {key key' value value' : List UInt8} {sector : KvdbSecInfo}

/-- The store between two calls. -/
structure StoreOk (G : KvGeom) (K : KvNames) (A : KvSectors) (db : FdbKvdb) : Prop
    extends KvOk G K A db where
  settled : KvSettled G A
  empty : HasEmpty G A
  gcRequest : db.gcRequest = false
  lastDel : db.lastIsCompleteDel = false

/-- What `new_kv` returns: the end of a sector that has room, beside an empty one; or no address,
and then a sector without deleted records has no room. -/
inductive NewKv (G : KvGeom) (A : KvSectors) (kvSize : Nat) : Nat → KvdbSecInfo → Prop
  | target {i : Nat} {sector : KvdbSecInfo} {addr : Nat} (h : Target G A kvSize i sector addr)
    (hempty : ∃ e < G.n, e ≠ i ∧ (A e).store = .empty) : NewKv G A kvSize addr sector
  | full {i : Nat} {sector : KvdbSecInfo} (hi : i < G.n) (hclean : (A i).dirty = .no)
    (hroom : ¬(A i).Room G.S kvSize) : NewKv G A kvSize failedAddr sector

/-- The address that `alloc_kv` returns between two calls. -/
theorem Chosen.newKv {addr : Nat} (h : KvdbOk G A db) (hempty : HasEmpty G A)
    (hc : Chosen G A false kvSize i sector addr)
    (hkeep : (A i).store = .empty → false = true ∨ ∃ j < G.n, j ≠ i ∧ (A j).store = .empty) :
    NewKv G A kvSize addr sector := by
  refine .target (hc.target h) ?_
  obtain ⟨e, he, hst⟩ := hempty
  rcases Decidable.eq_or_ne e i with rfl | hne
  · exact (hkeep hst).resolve_left Bool.false_ne_true
  · exact ⟨e, he, hne, hst⟩

/-- `alloc_kv`, when no collection was requested. -/
theorem KvOk.allocKv_writes (h : KvOk G K A db) (hlast : db.lastIsCompleteDel = false)
    (hgc : db.gcRequest = false) (hempty : HasEmpty G A) :
    Yields (allocKv db sector kvSize) fun x =>
      KvWrites G K A db { x.2.2 with gcRequest := false } ∧
        (x.2.2.gcRequest = false ∧ NewKv G A kvSize x.1 x.2.1 ∨
          x.2.2.gcRequest = true ∧ x.1 = failedAddr ∧ (∀ i < G.n, (A i).store = .using →
            (A i).dirty = .no → ¬(A i).Room G.S kvSize) ∧
            ∃ i < G.n, ∀ j < G.n, (A j).store = .empty → j = i) := by
  refine h.toKvdbOk.allocKv_ok.mono ?_
  rintro ⟨addr, sector, db₁⟩ ⟨gc, hro, halloc⟩
  rw [hgc] at halloc
  obtain ⟨t, hsame⟩ := hro.same
  have hok := hro.ok
  dsimp only at halloc hsame hok ⊢
  subst hsame
  have hw : KvWrites G K A db { db with gcRequest := false, sectorCacheTable := t } := by
    refine ⟨{ h with toKvdbOk := { hok with } }, db.part.flash, t, db.kvCacheTable,
      db.oldestAddr, ?_⟩
    simp only [FdbKvdb.withFlash, hgc, hlast]
  cases halloc with
  | chosen hc hkeep => exact ⟨hw, .inl ⟨rfl, hc.newKv h.toKvdbOk hempty hkeep⟩⟩
  | full husing hno =>
    obtain ⟨e, he, hst⟩ := hempty
    exact ⟨hw, .inl ⟨rfl, .full he (h.clean_of_empty he hst).1 (hno e he hst)⟩⟩
  | request husing _ hi hst honly => exact ⟨hw, .inr ⟨rfl, rfl, husing, _, hi, honly⟩⟩

/-- With one empty sector, another clean one is in use. -/
theorem TwoClean.using (h : TwoClean G A) (hok : KvdbOk G A db)
    (honly : ∃ i < G.n, ∀ j < G.n, (A j).store = .empty → j = i) :
    ∃ k < G.n, (A k).store = .using ∧ (A k).dirty = .no := by
  obtain ⟨p, hp, q, hq, hne, hcp, hcq⟩ := h
  obtain ⟨i, -, honly⟩ := honly
  rcases (hok.sector p hp).store with ⟨hst, -⟩ | ⟨hst, -⟩
  · rcases (hok.sector q hq).store with ⟨hst', -⟩ | ⟨hst', -⟩
    · exact absurd ((honly p hp hst).trans (honly q hq hst').symm) hne
    · exact ⟨q, hq, hst', hcq⟩
  · exact ⟨p, hp, hst, hcp⟩

/-- `new_kv` -/
theorem StoreOk.newKv_ok (h : StoreOk G K A db) :
    Yields (newKv db sector kvSize) fun x => ∃ A', KvWrites G K A' db x.2.2 ∧ Moved G A A' ∧
      HasEmpty G A' ∧ NewKv G A' kvSize x.1 x.2.1 := by
  rw [newKv]
  refine (h.toKvOk.allocKv_writes h.lastDel h.gcRequest h.empty).bind ?_
  rintro ⟨addr, sector, db₁⟩ ⟨hw₁, hres⟩
  dsimp only at hw₁ hres ⊢
  rcases hres with ⟨hgc, hnew⟩ | ⟨hgc, rfl, -, -⟩
  · rw [if_neg fun hand => Bool.false_ne_true (hgc.symm.trans hand.2)]
    rw [← hgc] at hw₁
    exact .pure ⟨A, hw₁, .refl h.settled.halted, h.empty, hnew⟩
  -- nothing was free but the sector that is kept empty
  rw [if_pos ⟨rfl, hgc⟩]
  obtain ⟨-, hlast₁, -⟩ := hw₁.frame
  have hok₁ : KvOk G K A db₁ := { hw₁.ok with }
  have hrecovers : Recovers G A db₁ := .inr fun _ hi => h.settled.quiet hi
  refine (hok₁.gcCollect_ok hgc hlast₁ h.settled.halted hrecovers h.empty).bind ?_
  rintro db₂ ⟨A', hw₂, hm, hempty, htwo, -⟩
  have hw₂ := hw₁.trans hw₂
  obtain ⟨hgc₂, hlast₂, -⟩ := hw₂.frame
  refine (hw₂.ok.allocKv_writes hlast₂ (hgc₂.trans h.gcRequest) hempty).bind ?_
  rintro ⟨addr, sector, db₃⟩ ⟨hw₃, hres⟩
  have hw := hw₂.trans hw₃
  dsimp only at hw hres ⊢
  rcases hres with ⟨hgc₃, hnew⟩ | ⟨-, rfl, husing, honly⟩
  · refine .ite (fun _ => .pure ⟨A', hw, hm, hempty, hnew⟩) fun _ => ?_
    rw [← hgc₃] at hw
    exact .pure ⟨A', hw, hm, hempty, hnew⟩
  · rw [if_pos rfl]
    obtain ⟨k, hk, hst, hcl⟩ := htwo.using hw₂.ok.toKvdbOk honly
    exact .pure ⟨A', hw, hm, hempty, .full hk hcl (husing k hk hst hcl)⟩

/-! ## Setting -/

/-- What is stored once `key` has the new record. -/
theorem Replaces.stored_new (h : Replaces G A A' key (some (a, .new key value))) :
    Stored G A' key' value' ↔ if key' = key then value' = value else Stored G A key' value' := by
  rcases Decidable.eq_or_ne key' key with rfl | hne
  · rw [if_pos rfl, h.stored_self rfl rfl]
    rfl
  · rw [h.stored fun heq => by cases heq; exact ⟨rfl, rfl⟩, if_neg hne, if_neg hne]

/-- A record is written for a name that has none. -/
theorem KvOk.create_ok {addr : Nat} (h : KvOk G K A db) (hkey : K.mem key)
    (hc : Target G A (KvRec.new key value).size i sector addr)
    (hno : ∀ a x, ¬ValidAt G A key a x) (hlast : db.lastIsCompleteDel = false) :
    ∃ db', createKvBlob db sector key value = some (.noErr, sector, db') ∧
      KvWrites G K (A.set i ((A i).pushed (.new key value))) db db' ∧
      Replaces G A (A.set i ((A i).pushed (.new key value))) key (some (addr, .new key value)) := by
  have hrec : (KvRec.new key value).Ok := ⟨K.keyLen hkey, K.noNul hkey⟩
  obtain ⟨m, t, hcreate, hok⟩ := h.createKvBlob_ok hc hrec
  have hrep := replaces_push (r := .new key value) hc.lt hno rfl
  rw [← hc.addr] at hrep
  refine ⟨_, hcreate, ⟨hrep.ok h hkey { hok with } (hrep.cache rfl rfl h.kvCache), ?_⟩, hrep⟩
  exact ⟨m, t, (updateKvCache db key addr).kvCacheTable, db.oldestAddr,
    by simp only [FdbKvdb.withFlash, hlast]⟩

/-- A record is written in place of the valid one of its name. -/
theorem KvOk.change_ok {addr : Nat} (h : KvOk G K A db)
    (hc : Target G A (KvRec.new r.key value).size i sector addr) (hj : j < G.n)
    (hrecs : (A j).recs = pre ++ r :: post) (hr : r.status = .write) :
    ∃ db₁ db₂ db₃ A₁, A₁ = A.set j ((A j).marked pre r .preDelete post) ∧
      delKv db r.key (r.toKv (recAddr G.S j pre)) false = some (.noErr, db₁) ∧ KvdbOk G A₁ db₁ ∧
      createKvBlob db₁ sector r.key value = some (.noErr, sector, db₂) ∧
      KvdbOk G (A₁.set i ((A₁ i).pushed (.new r.key value))) db₂ ∧
      delKv db₂ r.key (r.toKv (recAddr G.S j pre)) true = some (.noErr, db₃) ∧
      db₁.curSector = db.curSector ∧ db₂.curSector = db.curSector ∧
      KvWrites G K (A.replaced j pre r post i (.new r.key value)) db db₃ := by
  have hkey := h.keys (.intro hj hrecs)
  have hrec : (KvRec.new r.key value).Ok := ⟨K.keyLen hkey, K.noNul hkey⟩
  have hle : r.status.code ≤ (delStatus false).code := by rw [hr]; decide
  obtain ⟨m₁, t₁, hdel, hdb₁⟩ := h.delKv_ok r.key hj hrecs hle
  obtain ⟨db₁, heq₁⟩ : ∃ d, d = { db.withFlash m₁ with
    sectorCacheTable := t₁, kvCacheTable := db.kvCacheTable, lastIsCompleteDel := true } := ⟨_, rfl⟩
  have hdel : delKv db r.key (r.toKv (recAddr G.S j pre)) false = some (.noErr, db₁) := by
    rw [heq₁]
    exact hdel
  have hdb₁ : KvdbOk G (A.set j ((A j).marked pre r .preDelete post)) db₁ := by
    rw [heq₁]
    exact { hdb₁ with }
  obtain ⟨m₂, t₂, hcreate, hdb₂⟩ := hdb₁.createKvBlob_ok (hc.marked hrecs) hrec
  obtain ⟨db₂, heq₂⟩ : ∃ d, d = { db₁.withFlash m₂ with
    sectorCacheTable := t₂
    kvCacheTable := (updateKvCache db₁ r.key addr).kvCacheTable } := ⟨_, rfl⟩
  have hcreate : createKvBlob db₁ sector r.key value = some (.noErr, sector, db₂) := by
    rw [heq₂]
    exact hcreate
  have hdb₂ : KvdbOk G ((A.set j ((A j).marked pre r .preDelete post)).set i
      (((A.set j ((A j).marked pre r .preDelete post)) i).pushed (.new r.key value))) db₂ := by
    rw [heq₂]
    exact { hdb₂ with }
  have hcache : db₂.kvCacheTable =
      (updateKvCache db r.key (recAddr G.S i (A i).recs)).kvCacheTable := by
    rw [heq₂, ← hc.addr, heq₁]
    rfl
  have hlast : db₂.lastIsCompleteDel = true := by
    rw [heq₂, heq₁]
    rfl
  obtain ⟨m₃, t₃, hdel₃, hok₃⟩ := h.finish_ok r.key hj hc.lt hrecs hr
    (x := .new r.key value) rfl rfl rfl rfl hdb₂ hcache hlast (r.addrStart_toKv _)
  refine ⟨db₁, db₂, _, _, rfl, hdel, hdb₁, hcreate, hdb₂, hdel₃, by rw [heq₁]; rfl,
    by rw [heq₂, heq₁]; rfl, hok₃, ?_⟩
  rw [heq₂, heq₁]
  exact ⟨_, _, _, _, rfl⟩

theorem StoreOk.writes (h : StoreOk G K A db) (hw : KvWrites G K A' db db') (hset : KvSettled G A')
    (hempty : HasEmpty G A') : StoreOk G K A' db' := by
  obtain ⟨hgc, hlast, -⟩ := hw.frame
  exact ⟨hw.ok, hset, hempty, hgc.trans h.gcRequest, hlast⟩

/-- The empty sector stays when a record is put in place of another. -/
theorem hasEmpty_replaced (h : KvdbOk G A db) (hrecs : (A j).recs = pre ++ r :: post)
    (hempty : ∃ e < G.n, e ≠ i ∧ (A e).store = .empty) :
    HasEmpty G (A.replaced j pre r post i x) := by
  obtain ⟨e, he, hei, hst⟩ := hempty
  have hej : e ≠ j := by
    rintro rfl
    have hnil := (h.clean_of_empty he hst).2
    rw [hrecs] at hnil
    cases pre <;> cases hnil
  refine ⟨e, he, ?_⟩
  simp only [KvSectors.replaced, KvSectors.set, Function.update_of_ne hei,
    Function.update_of_ne hej]
  exact hst

theorem hasEmpty_pushed (hempty : ∃ e < G.n, e ≠ i ∧ (A e).store = .empty) :
    HasEmpty G (A.set i ((A i).pushed x)) := by
  obtain ⟨e, he, hei, hst⟩ := hempty
  exact ⟨e, he, by rw [KvSectors.set, Function.update_of_ne hei]; exact hst⟩

theorem hasEmpty_marked {t : FdbKvStatus} (h : HasEmpty G A) (hok : KvdbOk G A db)
    (hrecs : (A j).recs = pre ++ r :: post) :
    HasEmpty G (A.set j ((A j).marked pre r t post)) := by
  obtain ⟨e, he, hst⟩ := h
  have hej : e ≠ j := by
    rintro rfl
    have hnil := (hok.clean_of_empty he hst).2
    rw [hrecs] at hnil
    cases pre <;> cases hnil
  exact ⟨e, he, by rw [KvSectors.set, Function.update_of_ne hej]; exact hst⟩

/-- The store within a set. The cache may still have the record that is on its way out. -/
structure HalfDone (G : KvGeom) (K : KvNames) (A : KvSectors) (db : FdbKvdb) : Prop
    extends KvdbOk G A db where
  keys : ∀ {a r}, RecAt G A a r → K.mem r.key
  one : ∀ {a a' r r'}, RecAt G A a r → RecAt G A a' r' → r.status = .write → r'.status = .write →
    r.key = r'.key → a = a'
  halted : KvHalted G A
  empty : HasEmpty G A

theorem StoreOk.halfDone (h : StoreOk G K A db) : HalfDone G K A db :=
  { h with halted := h.settled.halted }

/-- The steps of `set_kv` once there is a place for the record: the deletion of the old record is
prepared, the new one is written, and the old one deleted; or there is no old one. -/
inductive SetSteps (G : KvGeom) (K : KvNames) (A : KvSectors) (db : FdbKvdb)
    (key value : List UInt8) : Prop
  | change {kv : FdbKv} {sector : KvdbSecInfo} {db₁ db₂ db₃ db₄ : FdbKvdb} {A₂ A₃ A₄ : KvSectors}
    (hfind : findKv db key db.curKv = some (true, kv, db₁))
    (hdel : delKv { db₁ with curKv := kv } key kv false = some (.noErr, db₂))
    (h₂ : HalfDone G K A₂ db₂)
    (held₂ : ∀ {key' value'}, KvHeld G A₂ key' value' ↔ Stored G A key' value')
    (hcreate : createKvBlob db₂ db₂.curSector key value = some (.noErr, sector, db₃))
    (h₃ : HalfDone G K A₃ db₃)
    (held₃ : ∀ {key' value'}, KvHeld G A₃ key' value' ↔
      if key' = key then value' = value else Stored G A key' value')
    (hdel' : delKv { db₃ with curSector := sector } key kv true = some (.noErr, db₄))
    (h₄ : StoreOk G K A₄ db₄)
    (hstored : ∀ {key' value'}, Stored G A₄ key' value' ↔
      if key' = key then value' = value else Stored G A key' value')
    (hinit : db₄.initOk = db.initOk) : SetSteps G K A db key value
  | create {kv : FdbKv} {sector : KvdbSecInfo} {db₁ db₂ : FdbKvdb} {A₂ : KvSectors}
    (hfind : findKv db key db.curKv = some (false, kv, db₁))
    (h₁ : StoreOk G K A { db₁ with curKv := kv })
    (hcreate : createKvBlob { db₁ with curKv := kv } db₁.curSector key value =
      some (.noErr, sector, db₂))
    (h₂ : StoreOk G K A₂ { db₂ with curSector := sector })
    (hstored : ∀ {key' value'}, Stored G A₂ key' value' ↔
      if key' = key then value' = value else Stored G A key' value')
    (hinit : db₂.initOk = db.initOk) : SetSteps G K A db key value

theorem StoreOk.setSteps {addr : Nat} (h : StoreOk G K A db) (hkey : K.mem key)
    (hc : Target G A (KvRec.new key value).size i db.curSector addr)
    (hempty : ∃ e < G.n, e ≠ i ∧ (A e).store = .empty) : SetSteps G K A db key value := by
  have hfindKv : Yields (findKv db key db.curKv) _ := h.findKv_ok hkey
  obtain ⟨⟨found, kv, db₁⟩, hfind, hr, htrue, hfalse⟩ := hfindKv
  obtain ⟨t, t', hsame⟩ := hr.same
  have hok := hr.ok
  dsimp only at htrue hfalse hsame hok
  have h₁ : StoreOk G K A { db₁ with curKv := kv } := by
    subst hsame
    exact { h with toKvOk := { hok with } }
  have hcur : db₁.curSector = db.curSector := by rw [hsame]
  have hinit₁ : db₁.initOk = db.initOk := by rw [hsame]
  rw [← hcur] at hc
  cases found with
  | true =>
    obtain ⟨a, r, ⟨hat, hst, rfl⟩, rfl⟩ := htrue rfl
    obtain ⟨j, hj, pre, post, hrecs, rfl⟩ := hat.split
    obtain ⟨db₂, db₃, db₄, A₂, rfl, hdel, hdb₂, hcreate, hdb₃, hdel', hcur₂, hcur₃, hw⟩ :=
      h₁.change_ok hc hj hrecs hst
    have hhalted := h.settled.prepared h.used_le hj hrecs
    have hempty₂ := hasEmpty_marked (t := .preDelete) h.empty h.toKvdbOk hrecs
    have hmark := replaces_marked h.toKvOk hj hrecs hst (t := .preDelete) (by decide)
    have hno (a x) : ¬ValidAt G _ r.key a x := fun hv => by
      cases (hmark.same hv.2.1 hv.2.2).mp hv.1
    have hpush : Replaces G _ _ r.key _ :=
      replaces_push (r := .new r.key value) hc.lt hno rfl
    have hheld {key' value'} :
        KvHeld G (A.set j ((A j).marked pre r .preDelete post)) key' value' ↔
          Stored G A key' value' := h.held_prepared h.settled hj hrecs hst
    have hempty₃ : ∃ e < G.n, e ≠ i ∧
        (A.set j ((A j).marked pre r .preDelete post) e).store = .empty := by
      obtain ⟨e, he, hne, hste⟩ := hempty
      have hej : e ≠ j := by
        rintro rfl
        have hnil := (h.clean_of_empty he hste).2
        rw [hrecs] at hnil
        cases pre <;> cases hnil
      exact ⟨e, he, hne, by rw [KvSectors.set, Function.update_of_ne hej]; exact hste⟩
    have hsector : { db₃ with curSector := db₁.curSector } = db₃ := by
      rw [show db₁.curSector = db₃.curSector from hcur₃.symm]
    have hrep := replaces_replaced h.toKvOk hj hc.lt hrecs hst (x := .new r.key value) rfl rfl
    have h₄ := h₁.writes hw (h.settled.replaced hj hc.lt hrecs rfl)
      (hasEmpty_replaced h.toKvdbOk hrecs hempty)
    obtain ⟨-, -, hinit₄⟩ := hw.frame
    have hkey₂ {a x} := hmark.key_mem (a := a) (x := x) h.toKvOk hkey
    have hkey₃ {a x} := (hmark.trans hpush).key_mem (a := a) (x := x) h.toKvOk hkey
    refine .change hfind hdel ⟨hdb₂, hkey₂, hmark.one h.toKvOk, hhalted, hempty₂⟩ hheld
      (by rw [show db₂.curSector = db₁.curSector from hcur₂]; exact hcreate)
      ⟨hdb₃, hkey₃, (hmark.trans hpush).one h.toKvOk, hhalted.pushed hc.lt rfl,
        hasEmpty_pushed hempty₃⟩
      (KvHeld.pushed hc.lt hheld hno rfl) (by rw [hsector]; exact hdel') h₄ hrep.stored_new
      (hinit₄.trans hinit₁)
  | false =>
    obtain ⟨db₂, hcreate, hw, hrep⟩ := h₁.create_ok hkey hc (hfalse rfl) h₁.lastDel
    have h₂ := h₁.writes hw (h₁.settled.pushed hc.lt rfl) (hasEmpty_pushed hempty)
    obtain ⟨-, -, hinit₂⟩ := hw.frame
    exact .create hfind h₁ hcreate { h₂ with } hrep.stored_new (hinit₂.trans hinit₁)

/-- What a set leaves in the store: the value is stored, or nothing has changed and a sector without
deleted records has no room for it. -/
inductive SetKv (G : KvGeom) (A A' : KvSectors) (key value : List UInt8) : FdbErr → Prop
  | done (h : ∀ {key' value'}, Stored G A' key' value' ↔
      if key' = key then value' = value else Stored G A key' value') : SetKv G A A' key value .noErr
  | full {i : Nat} (h : ∀ {key' value'}, Stored G A' key' value' ↔ Stored G A key' value')
    (hi : i < G.n) (hclean : (A' i).dirty = .no)
    (hroom : ¬(A' i).Room G.S (KvRec.new key value).size) : SetKv G A A' key value .savedFull

/-- `set_kv` -/
theorem StoreOk.setKv_ok (h : StoreOk G K A db) (hkey : K.mem key) :
    Yields (setKv db key value) fun x => ∃ A', StoreOk G K A' x.2 ∧ x.2.initOk = db.initOk ∧
      SetKv G A A' key value x.1 := by
  have hsize : (KvRec.new key value).size = kvHdrDataSize + key.length + value.length := rfl
  rw [setKv]
  dsimp only
  rw [← hsize]
  refine h.newKv_ok.bind ?_
  rintro ⟨addr, sector, db₁⟩ ⟨A₁, hw₁, hm, hempty, hnew⟩
  have h₁ := h.writes hw₁ (hm.settled h.settled) hempty
  obtain ⟨-, -, hinit₁⟩ := hw₁.frame
  dsimp only at h₁ hinit₁ hnew ⊢
  cases hnew with
  | full hi hclean hroom =>
    rw [if_pos rfl]
    exact .pure ⟨A₁, { h₁ with }, hinit₁, .full (hm.stored h.settled) hi hclean hroom⟩
  | @target i _ _ hc hempty =>
    have hmoved {key' value'} : (if key' = key then value' = value else Stored G A₁ key' value') ↔
        if key' = key then value' = value else Stored G A key' value' := by
      rw [hm.stored h.settled]
    rw [if_neg (hc.ne_failed h₁.toKvdbOk)]
    have h₁ : StoreOk G K A₁ { db₁ with curSector := sector } := { h₁ with }
    have hinit₁ : { db₁ with curSector := sector }.initOk = db.initOk := hinit₁
    have hsteps : SetSteps G K A₁ { db₁ with curSector := sector } key value :=
      h₁.setSteps hkey hc hempty
    obtain ⟨db₂, heq⟩ : ∃ d : FdbKvdb, d = { db₁ with curSector := sector } := ⟨_, rfl⟩
    have hcurKv : db₁.curKv = db₂.curKv := by rw [heq]
    rw [← heq] at hsteps hinit₁ ⊢
    rw [hcurKv]
    cases hsteps with
    | @change kv sector _ _ _ db₅ _ _ A₅ hfind hdel _ _ hcreate _ _ hdel' h₅ hstored hinit =>
      rw [hfind, Option.bind_eq_bind, Option.bind_some]
      dsimp only
      rw [if_pos rfl, hdel, Option.bind_eq_bind, Option.bind_some]
      dsimp only
      rw [if_pos rfl, hcreate, Option.bind_eq_bind, Option.bind_some, Option.bind_some]
      dsimp only
      rw [if_pos ⟨rfl, rfl⟩, hdel', Option.bind_some]
      dsimp only
      rw [h₅.gcRequest, if_neg Bool.false_ne_true]
      exact .pure ⟨A₅, h₅, hinit.trans hinit₁, .done (hstored.trans hmoved)⟩
    | @create kv sector _ db₃ A₃ hfind _ hcreate h₃ hstored hinit =>
      rw [hfind, Option.bind_eq_bind, Option.bind_some]
      dsimp only
      rw [if_neg Bool.false_ne_true, Option.bind_eq_bind, Option.bind_some]
      dsimp only
      rw [if_pos rfl, hcreate, Option.bind_eq_bind, Option.bind_some, Option.bind_some]
      dsimp only
      rw [if_neg fun hand => Bool.false_ne_true hand.1, Option.bind_some]
      dsimp only
      rw [if_neg fun hgc => Bool.false_ne_true (h₃.gcRequest.symm.trans hgc)]
      exact .pure ⟨A₃, h₃, hinit.trans hinit₁, .done (hstored.trans hmoved)⟩

/-! ## Deleting -/

/-- What is stored once `key` has no record. -/
theorem Replaces.stored_none (h : Replaces G A A' key none) :
    Stored G A' key' value' ↔ key' ≠ key ∧ Stored G A key' value' := by
  rw [h.stored fun heq => by cases heq]
  split
  case isTrue heq =>
    refine ⟨?_, fun hand => absurd heq hand.1⟩
    rintro ⟨a, x, heq, -⟩
    cases heq
  case isFalse hne => exact ⟨fun hs => ⟨hne, hs⟩, And.right⟩

/-- `del_kv` of a name -/
theorem StoreOk.delKvByKey_ok (h : StoreOk G K A db) (hkey : K.mem key) :
    Yields (delKvByKey db key) fun x => ∃ A', StoreOk G K A' x.2 ∧ x.2.initOk = db.initOk ∧
      (∀ {key' value'}, Stored G A' key' value' ↔ key' ≠ key ∧ Stored G A key' value') ∧
      (x.1 = .noErr ∧ (∃ value, Stored G A key value) ∨
        x.1 = .kvNameErr ∧ ∀ value, ¬Stored G A key value) := by
  rw [delKvByKey]
  refine (h.findKv_ok hkey).bind ?_
  rintro ⟨found, kv, db₁⟩ ⟨hr, htrue, hfalse⟩
  obtain ⟨t, t', hsame⟩ := hr.same
  have hok := hr.ok
  dsimp only at htrue hfalse hsame hok ⊢
  have h₁ : StoreOk G K A db₁ := by
    subst hsame
    exact { h with toKvOk := { hok with } }
  have hinit : db₁.initOk = db.initOk := by rw [hsame]
  cases found with
  | true =>
    obtain ⟨a, r, ⟨hat, hst, rfl⟩, rfl⟩ := htrue rfl
    obtain ⟨j, hj, pre, post, hrecs, rfl⟩ := hat.split
    have hle : r.status.code ≤ (delStatus true).code := by rw [hst]; decide
    obtain ⟨m, table, hdel, hdb⟩ := h₁.delKv_ok r.key hj hrecs hle
    have hrep : Replaces G A _ r.key none :=
      replaces_marked h₁.toKvOk hj hrecs hst (t := .deleted) (by decide)
    rw [h₁.lastDel] at hdel
    rw [if_pos rfl, hdel]
    refine .pure ⟨_, ⟨hrep.ok h₁.toKvOk hkey { hdb with } (hrep.cache_none h₁.kvCache),
      h₁.settled.marked hj hrecs, hasEmpty_marked h₁.empty h₁.toKvdbOk hrecs, h₁.gcRequest, rfl⟩,
      hinit, hrep.stored_none, .inl ⟨rfl, _, _, r, ⟨hat, hst, rfl⟩, rfl⟩⟩
  | false =>
    have hnone : ∀ value, ¬Stored G A key value := fun value ⟨a, r, hv, _⟩ => hfalse rfl a r hv
    rw [if_neg Bool.false_ne_true]
    refine .pure ⟨A, h₁, hinit, ?_, .inr ⟨rfl, hnone⟩⟩
    intro key' value'
    refine ⟨fun hs => ⟨?_, hs⟩, And.right⟩
    rintro rfl
    exact hnone _ hs

theorem StoreOk.reads (h : StoreOk G K A db) (hr : KvReads G K A db db') : StoreOk G K A db' := by
  obtain ⟨t, t', rfl⟩ := hr.same
  exact { h with toKvOk := hr.ok }

end DoorLock
