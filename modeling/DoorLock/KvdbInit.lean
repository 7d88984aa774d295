import DoorLock.KvdbWrite

/-!
# The key-value store: starting (`fdb.c`, `fdb_kvdb.c` from `fdb_kv_set_default` on, `app_main`)

At boot the headers of all sectors are checked, a collection and a change of a value that a loss of
power cut short are brought to an end, and the KV cache is filled. A new partition gets its
defaults.
-/

namespace DoorLock

open CString

/-- `fdb_kv_set_default`, formatting the sectors from `addr` on. -/
def formatLoop : Nat → FdbKvdb → Nat → Option (FdbErr × FdbKvdb)
  | 0, db, _ => some (.noErr, db)
  | n + 1, db, addr =>
    if addr < db.maxSize then do
      let (result, db) ← formatSector db addr sectorNotCombined
      if result ≠ .noErr then some (result, db) else formatLoop n db (addr + db.secSize)
    else some (.noErr, db)

/-- `fdb_kv_set_default`, creating the default records. -/
def defaultLoop : List FdbDefaultKvNode → FdbKvdb → KvdbSecInfo → Option (FdbErr × FdbKvdb)
  | [], db, _ => some (.noErr, db)
  | node :: nodes, db, sector => do
    let valueLen := if node.valueLen = 0 then (cstr node.value).length else node.valueLen
    let (result, sector, db) ←
      createKvBlob db { sector with emptyKv := failedAddr } node.key (node.value.take valueLen)
    if result ≠ .noErr then some (result, db) else defaultLoop nodes db sector

/-- `fdb_kv_set_default` -/
def fdbKvSetDefault (db : FdbKvdb) : Option (FdbErr × FdbKvdb) := do
  let db :=
    { db with kvCacheTable := db.kvCacheTable.map fun e => { e with addr := fdbDataUnused } }
  let (result, db) ← formatLoop db.maxSize db 0
  let (result, db) ←
    if result ≠ .noErr then some (result, db) else defaultLoop db.defaultKvs db .fresh
  some (result, { db with oldestAddr := 0 })

/-- `check_oldest_addr_cb`; the state is the oldest address and the status passed last. -/
def checkOldestAddrCb (db : FdbKvdb) (sector : KvdbSecInfo) (s : Nat × FdbSectorStoreStatus) :
    Option (Bool × FdbKvdb × (Nat × FdbSectorStoreStatus)) :=
  let oldest :=
    if s.2 = .empty ∧ (sector.store = .full ∨ sector.store = .using) then sector.addr else s.1
  some (false, db, (oldest, sector.store))

/-- `check_sec_hdr_cb`; the state counts the headers that are not valid. -/
def checkSecHdrCb (db : FdbKvdb) (sector : KvdbSecInfo) (failedCount : Nat) :
    Option (Bool × FdbKvdb × Nat) :=
  if sector.checkOk then some (false, db, failedCount)
  else if db.notFormatable then some (true, db, failedCount + 1)
  else do
    let (_, db) ← formatSector db sector.addr sectorNotCombined
    some (false, db, failedCount + 1)

/-- `check_and_recovery_gc_cb` -/
def checkAndRecoveryGcCb (db : FdbKvdb) (sector : KvdbSecInfo) (_ : Unit) :
    Option (Bool × FdbKvdb × Unit) :=
  if sector.checkOk ∧ sector.dirty = .gc then do
    let db ← gcCollect { db with gcRequest := true }
    some (false, db, ())
  else some (false, db, ())

/-- `check_and_recovery_kv_cb` -/
def checkAndRecoveryKvCb (db : FdbKvdb) (kv : FdbKv) (_ : Unit) : Option (Bool × FdbKvdb × Unit) :=
  if kv.crcIsOk ∧ kv.status = .preDelete then do
    let (result, db) ← moveKv db kv
    some (result ≠ .noErr, db, ())
  else if kv.status = .preWrite then
    let (_, db) := db.writeStatus kv.addrStart fdbKvStatusNum FdbKvStatus.errHdr.code
    some (true, db, ())
  else if kv.crcIsOk ∧ kv.status = .write then
    some (false, updateKvCache db (kv.name.take kv.nameLen) kv.addrStart, ())
  else some (false, db, ())

/-- `_fdb_kv_load` from `__retry` on. -/
def recoverLoop : Nat → FdbKvdb → Option FdbKvdb
  | 0, _ => none
  | n + 1, db => do
    let (_, db, _) ← kvIterator checkAndRecoveryKvCb db (.fresh failedAddr) ()
    if db.gcRequest then do
      let db ← gcCollect db
      recoverLoop n db
    else some db

/-- `_fdb_kv_load`; `fuel` bounds the number of retries. -/
def fdbKvLoad (fuel : Nat) (db : FdbKvdb) : Option (FdbErr × FdbKvdb) := do
  let db := { db with inRecoveryCheck := true }
  let (sector, db, failedCount) ← sectorIterator db .fresh .unused 0 checkSecHdrCb false
  if db.notFormatable ∧ failedCount > 0 then some (.readErr, db)
  else do
    let db ←
      if failedCount = db.maxSize / db.secSize then (fdbKvSetDefault db).map Prod.snd else some db
    let (_, db, _) ← sectorIterator db sector .unused () checkAndRecoveryGcCb false
    let db ← recoverLoop fuel db
    some (.noErr, { db with inRecoveryCheck := false })

/-- `_fdb_init_ex` in FAL mode, where the partition and its flash device are found; a sector size
that is no power of two fails `FDB_ASSERT`. -/
def fdbInitEx (db : FdbKvdb) (blkSize : Nat) : Option (FdbErr × FdbKvdb) :=
  if db.initOk then some (.noErr, db)
  else if db.secSize ≠ 0 ∧ db.secSize % blkSize ≠ 0 then some (.initFailed, db)
  else
    let db := { db with secSize := if db.secSize = 0 then blkSize else db.secSize }
    if db.secSize &&& (db.secSize - 1) ≠ 0 then none
    else if db.maxSize % db.secSize ≠ 0 then some (.initFailed, db)
    else if db.maxSize / db.secSize < 2 then some (.initFailed, db)
    else some (.noErr, db)

/-- The tables of the caches as `fdb_kvdb_init` sets them. -/
def FdbKvdb.clearCaches (db : FdbKvdb) : FdbKvdb :=
  { db with
    sectorCacheTable :=
      db.sectorCacheTable.map fun e =>
        { e with checkOk := false, emptyKv := failedAddr, addr := fdbDataUnused }
    kvCacheTable := db.kvCacheTable.map fun e => { e with addr := fdbDataUnused } }

/-- `fdb_kvdb_init`; without a sector to spare for a collection it fails `FDB_ASSERT`. -/
def fdbKvdbInit (fuel : Nat) (db : FdbKvdb) (blkSize : Nat) (defaultKvs : List FdbDefaultKvNode) :
    Option (FdbErr × FdbKvdb) := do
  match ← fdbInitEx db blkSize with
  | (.noErr, db) =>
    let db := { db with gcRequest := false, inRecoveryCheck := false, defaultKvs, oldestAddr := 0 }
    let (_, db, oldest, _) ←
      sectorIterator db .fresh .unused (0, FdbSectorStoreStatus.unused) checkOldestAddrCb false
    if fdbGcEmptySecThreshold < db.maxSize / db.secSize then
      let (result, db) ← fdbKvLoad fuel { db with oldestAddr := oldest }.clearCaches
      some (result, { db with initOk := db.initOk || result = .noErr })
    else none
  | (result, db) => some (result, db)

/-! ## The boot of the door lock -/

/-- `kvdb` as the program starts, with the partition of the given flash. -/
def FdbKvdb.zero (part : FalPartition) : FdbKvdb where
  part := part
  secSize := 0
  oldestAddr := 0
  initOk := false
  notFormatable := false
  defaultKvs := []
  gcRequest := false
  inRecoveryCheck := false
  curKv := .fresh 0
  curSector := .fresh
  lastIsCompleteDel := false
  kvCacheTable := List.replicate fdbKvCacheTableSize ⟨0, 0, 0⟩
  sectorCacheTable := List.replicate fdbSectorCacheTableSize .fresh

/-- `default_kv_table` -/
def defaultKvTable : List FdbDefaultKvNode :=
  [⟨lit "fdb_avalible", lit "0" ++ [0], 2⟩, ⟨lit "doorlock_pasw", lit "0000" ++ [0], 5⟩]

/-- `fdb_kv_get(&kvdb, "fdb_avalible")` and what `app_main` does about it; the result is
dereferenced in the end. -/
def checkAvalible (db : FdbKvdb) : Option FdbKvdb := do
  let (str, db) ← fdbKvGetStr db (lit "fdb_avalible")
  if str = none ∨ str.map (fun s => s.getD 0 0) = some 0x30 then do
    let (_, db) ← fdbKvSetStr db (lit "fdb_avalible") (lit "1")
    let (str, db) ← fdbKvGetStr db (lit "fdb_avalible")
    if str = none then none else some db
  else some db

/-- The part of `app_main` about the store, on the flash the last run left. -/
def appMainStore (fuel blkSize : Nat) (part : FalPartition) : Option FdbKvdb := do
  let (_, db) ← fdbKvdbInit fuel (.zero part) blkSize defaultKvTable
  let db ← checkAvalible db
  let (str, db) ← fdbKvGetStr db (lit "doorlock_pasw")
  if str = none then (fdbKvSetStr db (lit "doorlock_pasw") (lit "0000")).map Prod.snd else some db

end DoorLock
