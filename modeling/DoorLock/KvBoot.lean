import DoorLock.KvRecover
import DoorLock.KvRun

/-!
# Starting with a store in flash

`fdb_kvdb_init` on the flash of a store that was left between two calls, or within one: the headers
are all valid, a change that was cut short is recovered, and the caches start empty. Every name has
the value it had.
-/

namespace DoorLock

open CString

variable {G : KvGeom} {K : KvNames} {A A' : KvSectors} {db db' : FdbKvdb} {i k fuel : Nat}
  {sector : KvdbSecInfo} {part : FalPartition} {M : KvMap}

/-! ## The oldest sector -/

/-- The entries of the sector cache are all zero: the one of address 0 says that the sector is
combined with no other, and the search stays there. -/
theorem sectorIteratorLoop_zero (hS : db.secSize = G.S) (hlen : db.part.len = G.n * G.S)
    (hcache : db.sectorCacheTable = List.replicate fdbSectorCacheTableSize .fresh) (hk : k ≤ G.n)
    (hfuel : G.n < k + fuel) :
    sectorIteratorLoop .unused false checkOldestAddrCb fuel db 0 sector (k * G.S) (0, .unused) =
      some (.fresh, db, (0, .unused)) := by
  have hget : getSectorFromCache db 0 = some .fresh := by
    rw [getSectorFromCache, hcache]
    rfl
  have hread {sector} : readSectorInfo db 0 sector false = some (.noErr, .fresh, db) := by
    rw [readSectorInfo, Nat.zero_mod, if_neg fun hne => hne rfl, hget]
    rfl
  have hnext {len : Nat} : getNextSectorAddr db .fresh len =
      if len ≤ G.n * G.S then 0 else failedAddr := by
    have hmax : db.maxSize = G.n * G.S := hlen
    have hne : ¬KvdbSecInfo.fresh.combined = sectorNotCombined := by decide
    have hzero : KvdbSecInfo.fresh.combined * db.secSize = 0 := Nat.zero_mul _
    have haddr : (if KvdbSecInfo.fresh.addr + 0 < G.n * G.S then
        KvdbSecInfo.fresh.addr + 0 else 0) = 0 := ite_self 0
    rw [getNextSectorAddr, if_neg hne, hzero, Nat.add_zero, hmax, haddr]
  induction fuel generalizing k sector with
  | zero => omega
  | succ fuel ih =>
    have hsize : k * G.S + db.secSize = (k + 1) * G.S := by rw [hS, Nat.succ_mul]
    rw [sectorIteratorLoop, hread, hsize, Option.bind_eq_bind, Option.bind_some]
    dsimp only
    rw [if_pos (.inl rfl), if_neg Bool.false_ne_true]
    simp only [checkOldestAddrCb, Option.bind_eq_bind, Option.bind_some, if_neg Bool.false_ne_true]
    rw [hnext]
    rcases Nat.lt_or_ge k G.n with hlt | hge
    · have hne : ¬(0 : Nat) = failedAddr := by decide
      rw [if_pos (Nat.mul_le_mul_right _ hlt), if_neg hne]
      exact ih hlt (by omega)
    · have hgt : ¬(k + 1) * G.S ≤ G.n * G.S := fun hle => by
        have := Nat.le_of_mul_le_mul_right hle G.pos
        omega
      rw [if_neg hgt, if_pos rfl]
      rfl

/-- No sector is found to be the oldest, and the search for it changes nothing. -/
theorem oldestSearch_zero (hS : db.secSize = G.S) (hlen : db.part.len = G.n * G.S)
    (hcache : db.sectorCacheTable = List.replicate fdbSectorCacheTableSize .fresh)
    (holdest : db.oldestAddr = 0) :
    sectorIterator db sector .unused (0, .unused) checkOldestAddrCb false =
      some (.fresh, db, (0, .unused)) := by
  have hfuel : G.n < 0 + (db.maxSize / db.secSize + 2) := by
    rw [FdbKvdb.maxSize, hlen, hS, Nat.mul_div_cancel _ G.pos]
    omega
  have hloop : sectorIteratorLoop .unused false checkOldestAddrCb (db.maxSize / db.secSize + 2) db 0
      sector (0 * G.S) (0, .unused) = _ :=
    sectorIteratorLoop_zero hS hlen hcache (Nat.zero_le _) hfuel
  rw [Nat.zero_mul] at hloop
  rw [sectorIterator, holdest]
  exact hloop

/-! ## The caches start empty -/

theorem sectorCacheOk_unused {table : List KvdbSecInfo}
    (hlen : table.length = fdbSectorCacheTableSize) (h : ∀ e ∈ table, e.addr = fdbDataUnused) :
    SectorCacheOk G A table where
  length := hlen
  entry := fun hk hused => absurd (h _ (List.mem_of_getElem? hk)) hused
  unique := fun hk _ _ hused => absurd (h _ (List.mem_of_getElem? hk)) hused

theorem kvCacheOk_unused {table : List KvCacheNode} (hlen : table.length = fdbKvCacheTableSize)
    (h : ∀ e ∈ table, e.addr = fdbDataUnused) : KvCacheOk G A table := by
  have hview {k : Nat} {c a} (hk : (kvView table)[k]? = some (c, a)) : a = fdbDataUnused := by
    obtain ⟨e, he, heq⟩ := List.mem_map.mp (List.mem_of_getElem? hk)
    cases heq
    exact h e he
  exact ⟨hlen, fun hp ha => absurd (hview hp) ha, fun hk ha => absurd (hview hk) ha⟩

/-- The flash of a store between two calls. -/
structure AtRest (G : KvGeom) (K : KvNames) (A : KvSectors) (part : FalPartition) : Prop where
  len : part.len = G.n * G.S
  holds : Holds G.S G.n A part.flash
  sector : ∀ i < G.n, (A i).Ok G.S
  keys : ∀ {a r}, RecAt G A a r → K.mem r.key
  one : ∀ {a a' r r'}, RecAt G A a r → RecAt G A a' r' → r.status = .write → r'.status = .write →
    r.key = r'.key → a = a'
  settled : KvSettled G A
  empty : HasEmpty G A

theorem StoreOk.atRest (h : StoreOk G K A db) : AtRest G K A db.part :=
  ⟨h.len, h.holds, h.sector, h.keys, h.one, h.settled, h.empty⟩

/-- The flash of a store in which a change was cut short. -/
structure Interrupted (G : KvGeom) (K : KvNames) (A : KvSectors) (part : FalPartition) : Prop where
  len : part.len = G.n * G.S
  holds : Holds G.S G.n A part.flash
  sector : ∀ i < G.n, (A i).Ok G.S
  keys : ∀ {a r}, RecAt G A a r → K.mem r.key
  one : ∀ {a a' r r'}, RecAt G A a r → RecAt G A a' r' → r.status = .write → r'.status = .write →
    r.key = r'.key → a = a'
  halted : KvHalted G A
  empty : HasEmpty G A

theorem AtRest.interrupted (h : AtRest G K A part) : Interrupted G K A part :=
  { h with halted := h.settled.halted }

/-- A store whose caches are empty. -/
theorem Interrupted.storeHalted (h : Interrupted G K A db.part) (hS : db.secSize = G.S)
    (holdest : db.oldestAddr = 0)
    (hsectors : SectorCacheOk G A db.sectorCacheTable) (hkvs : KvCacheOk G A db.kvCacheTable)
    (hgc : db.gcRequest = false) (hlast : db.lastIsCompleteDel = false) :
    StoreHalted G K A db where
  secSize := hS
  len := h.len
  oldest := ⟨0, G.num_pos, holdest.trans (Nat.zero_mul _).symm⟩
  holds := h.holds
  sector := h.sector
  cache := hsectors
  keys := h.keys
  one := h.one
  kvCache := hkvs
  halted := h.halted
  empty := h.empty
  gcRequest := hgc
  lastDel := hlast

/-! ## Loading -/

/-- `check_sec_hdr_cb`: every header is valid. -/
theorem KvdbOk.checkSecHdr_ok (h : KvdbOk G A db) :
    Yields (sectorIterator db sector .unused 0 checkSecHdrCb false) fun x =>
      ReadsOnly G A db x.2.1 ∧ x.2.2 = 0 := by
  obtain ⟨o, ho, holdest⟩ := h.oldest
  refine sectorIterator_yields (G := G) (A := A) (o := o)
    (I := fun _ A' db' s => A' = A ∧ ReadsOnly G A db db' ∧ s = 0)
    (Q := fun _ db' s => ReadsOnly G A db db' ∧ s = 0)
    ?_ ?_ ?_ ?_ ?_ ho holdest ⟨rfl, .refl h, rfl⟩
  · rintro k A' db' s ⟨rfl, hro, -⟩
    exact hro.ok
  · rintro k A' db' db'' s ⟨rfl, hro, hs⟩ hro'
    exact ⟨rfl, hro.trans hro', hs⟩
  · rintro k A' db' s sector hk ⟨rfl, hro, hs⟩ hinfo - -
    rw [checkSecHdrCb, hinfo.checkOk, if_pos rfl]
    exact .pure ⟨A', rfl, hro, hs⟩
  · rintro k A' db' s hk - hst
    exact absurd (.inl rfl) hst
  · rintro A' db' s sector ⟨-, hro, hs⟩
    exact ⟨hro, hs⟩

/-- `_fdb_kv_load` of a store. -/
theorem StoreHalted.load_ok (h : StoreHalted G K A db) (hfmt : db.notFormatable = false)
    (hfuel : 1 < fuel ∨ 0 < fuel ∧ ∀ i < G.n, (A i).Quiet) :
    Yields (fdbKvLoad fuel db) fun x => x.1 = .noErr ∧ x.2.initOk = db.initOk ∧
      ∃ A', StoreOk G K A' x.2 ∧ Moved G A A' := by
  have h₀ : StoreHalted G K A { db with inRecoveryCheck := true } := { h with }
  rw [fdbKvLoad]
  refine h₀.toKvdbOk.checkSecHdr_ok.bind ?_
  rintro ⟨sector, db₁, count⟩ ⟨hro, rfl⟩
  dsimp only at hro
  obtain ⟨t, hsame⟩ := hro.same
  have h₁ : StoreHalted G K A db₁ := by
    have hok := (h₀.toKvOk.reads hro).ok
    subst hsame
    exact { h₀ with toKvOk := hok }
  have hrecovers : Recovers G A db₁ := .inl (by rw [hsame])
  have hnum : ¬0 = db₁.maxSize / db₁.secSize := by
    have hpos := G.num_pos
    rw [FdbKvdb.maxSize, h₁.len, h₁.secSize, Nat.mul_div_cancel _ G.pos]
    omega
  have hfmt₁ : db₁.notFormatable = false := by rw [hsame]; exact hfmt
  have hinit₁ : db₁.initOk = db.initOk := by rw [hsame]
  dsimp only
  rw [if_neg fun hand => Bool.false_ne_true (hfmt₁.symm.trans hand.1), if_neg hnum,
    Option.bind_eq_bind, Option.bind_some, ← hinit₁]
  exact h₁.recover_ok hrecovers hfuel

/-! ## `fdb_kvdb_init` -/

theorem fdbInitEx_zero (hlen : part.len = G.n * G.S) :
    fdbInitEx (.zero part) G.S = some (.noErr, { FdbKvdb.zero part with secSize := G.S }) := by
  have htwo := G.two
  have hmod : ¬part.len % G.S ≠ 0 := by
    rw [hlen, Nat.mul_mod_left]
    exact fun hne => hne rfl
  have hdiv : ¬part.len / G.S < 2 := by
    rw [hlen, Nat.mul_div_cancel _ G.pos]
    omega
  have hinit : ¬(FdbKvdb.zero part).initOk = true := Bool.false_ne_true
  unfold fdbInitEx
  rw [if_neg hinit, if_neg fun hand => hand.1 rfl]
  exact (if_neg (not_not.mpr G.pow)).trans ((if_neg hmod).trans (if_neg hdiv))

/-- The caches as `fdb_kvdb_init` leaves them. -/
def FdbKvdb.started (part : FalPartition) (S : Nat) (defaultKvs : List FdbDefaultKvNode) :
    FdbKvdb :=
  FdbKvdb.clearCaches { FdbKvdb.zero part with secSize := S, defaultKvs }

/-- `fdb_kvdb_init`, up to the load. -/
theorem fdbKvdbInit_eq (hlen : part.len = G.n * G.S) (defaultKvs : List FdbDefaultKvNode) :
    fdbKvdbInit fuel (.zero part) G.S defaultKvs = (do
      let (result, db) ← fdbKvLoad fuel (.started part G.S defaultKvs)
      some (result, { db with initOk := db.initOk || result = .noErr })) := by
  unfold fdbKvdbInit
  rw [fdbInitEx_zero hlen]
  have hsearch : sectorIterator { FdbKvdb.zero part with secSize := G.S, defaultKvs } .fresh .unused
    (0, .unused) checkOldestAddrCb false = _ := oldestSearch_zero (G := G) rfl hlen rfl rfl
  have hspare : fdbGcEmptySecThreshold < part.len / G.S := by
    rw [hlen, Nat.mul_div_cancel _ G.pos]
    exact G.two
  change (sectorIterator { FdbKvdb.zero part with secSize := G.S, defaultKvs } .fresh .unused
    (0, .unused) checkOldestAddrCb false >>= _) = _
  rw [hsearch]
  exact if_pos hspare

/-- After a restart every name has the value it had, also when a change was cut short. -/
theorem Interrupted.init_ok (h : Interrupted G K A part)
    (hfuel : 1 < fuel ∨ 0 < fuel ∧ ∀ i < G.n, (A i).Quiet) (defaultKvs : List FdbDefaultKvNode) :
    Yields (fdbKvdbInit fuel (.zero part) G.S defaultKvs) fun x => x.1 = .noErr ∧
      x.2.initOk = true ∧ ∃ A', StoreOk G K A' x.2 ∧
        ∀ {key value}, Stored G A' key value ↔ KvHeld G A key value := by
  rw [fdbKvdbInit_eq h.len]
  have hok : StoreHalted G K A (.started part G.S defaultKvs) :=
    Interrupted.storeHalted h rfl rfl (sectorCacheOk_unused rfl fun e he => by
      obtain ⟨e', -, rfl⟩ := List.mem_map.mp he
      rfl) (kvCacheOk_unused rfl fun e he => by
      obtain ⟨e', -, rfl⟩ := List.mem_map.mp he
      rfl) rfl rfl
  refine (hok.load_ok rfl hfuel).bind ?_
  rintro ⟨result, db⟩ ⟨rfl, -, A', h', hm⟩
  refine .pure ⟨rfl, Bool.or_true _, A', { h' with }, ?_⟩
  intro key value
  rw [← hm.held, held_iff_stored fun _ hi => h'.settled.quiet hi]

end DoorLock
