import DoorLock.Kvdb

/-!
# The key-value store: writing (`fdb_kvdb.c`, `write_kv_hdr` to `fdb_kv_set`)

A value is changed by writing a new record and deleting the old one. A sector that holds deleted
records is dirty; when there is no room left, the records of dirty sectors that are still valid are
moved and the sectors erased. One empty sector is kept back for that.
-/

namespace DoorLock

/-- The four bytes of a `uint32_t`. -/
def u32Bytes (n : Nat) : List UInt8 :=
  [UInt8.ofNat n, UInt8.ofNat (n >>> 8), UInt8.ofNat (n >>> 16), UInt8.ofNat (n >>> 24)]

/-- `_fdb_write_status` in the flash of a database. -/
def FdbKvdb.writeStatus (db : FdbKvdb) (addr statusNum statusIndex : Nat) : FdbErr × FdbKvdb :=
  let (result, part) := fdbWriteStatus db.part addr statusNum statusIndex
  (result, { db with part })

/-- `_fdb_flash_write_align` in the flash of a database. -/
def FdbKvdb.flashWrite (db : FdbKvdb) (addr : Nat) (buf : List UInt8) : FdbErr × FdbKvdb :=
  let (result, part) := fdbFlashWriteAlign db.part addr buf
  (result, { db with part })

/-! ## Sectors -/

/-- `struct sector_hdr_data` of a formatted sector. -/
def sectorHdr (combined : Nat) : List UInt8 :=
  (fdbSetStatus fdbSectorStatusNum FdbSectorStoreStatus.empty.code).1 ++
    (fdbSetStatus fdbSectorStatusNum FdbSectorDirtyStatus.no.code).1 ++ [0xFF, 0xFF] ++
    u32Bytes sectorMagicWord ++ u32Bytes combined ++ u32Bytes 0xFFFFFFFF

/-- `format_sector`; an address within a sector fails `FDB_ASSERT`. -/
def formatSector (db : FdbKvdb) (addr combined : Nat) : Option (FdbErr × FdbKvdb) :=
  if addr % db.secSize ≠ 0 then none
  else match fdbFlashErase db.part addr db.secSize with
    | (.noErr, part) =>
      let (result, db) := FdbKvdb.flashWrite { db with part } addr (sectorHdr combined)
      let sector : KvdbSecInfo :=
        { KvdbSecInfo.fresh with addr := addr, checkOk := false, emptyKv := failedAddr }
      some (result, updateSectorCache db sector)
    | (result, part) => some (result, { db with part })

/-- `update_sec_status`; `isFull` is left as it is where the sector was empty. -/
def updateSecStatus (db : FdbKvdb) (sector : KvdbSecInfo) (newKvLen : Nat) (isFull : Bool) :
    FdbErr × Bool × FdbKvdb :=
  match sector.store with
  | .empty =>
    let (result, db) :=
      db.writeStatus sector.addr fdbSectorStatusNum FdbSectorStoreStatus.using.code
    (result, isFull, updateSectorStatusStoreCache db sector.addr .using)
  | .using =>
    if sector.remain < fdbSecRemainThreshold ∨
        u32 (sector.remain - newKvLen : Int) < fdbSecRemainThreshold then
      let (result, db) :=
        db.writeStatus sector.addr fdbSectorStatusNum FdbSectorStoreStatus.full.code
      (result, true, updateSectorStatusStoreCache db sector.addr .full)
    else (.noErr, false, db)
  | _ => (.noErr, isFull, db)

section
variable {σ : Type}

/-- The loop of `sector_iterator`. -/
def sectorIteratorLoop (status : FdbSectorStoreStatus) (traversalKv : Bool)
    (callback : FdbKvdb → KvdbSecInfo → σ → Option (Bool × FdbKvdb × σ)) :
    Nat → FdbKvdb → Nat → KvdbSecInfo → Nat → σ → Option (KvdbSecInfo × FdbKvdb × σ)
  | 0, _, _, _, _, _ => none
  | n + 1, db, secAddr, sector, traversedLen, s => do
    let traversedLen := traversedLen + db.secSize
    let (_, sector, db) ← readSectorInfo db secAddr sector false
    let (stop, sector, db, s) ←
      if status = .unused ∨ status = sector.store then do
        let (_, sector, db) ←
          if traversalKv then readSectorInfo db secAddr sector true
          else some (.noErr, sector, db)
        let (stop, db, s) ← callback db sector s
        some (stop, sector, db, s)
      else some (false, sector, db, s)
    if stop then some (sector, db, s)
    else
      let next := getNextSectorAddr db sector traversedLen
      if next = failedAddr then some (sector, db, s)
      else sectorIteratorLoop status traversalKv callback n db next sector traversedLen s

/-- `sector_iterator` -/
def sectorIterator (db : FdbKvdb) (sector : KvdbSecInfo) (status : FdbSectorStoreStatus) (s : σ)
    (callback : FdbKvdb → KvdbSecInfo → σ → Option (Bool × FdbKvdb × σ)) (traversalKv : Bool) :
    Option (KvdbSecInfo × FdbKvdb × σ) :=
  sectorIteratorLoop status traversalKv callback (db.maxSize / db.secSize + 2) db db.oldestAddr
    sector 0 s

end

/-! ## Allocation -/

/-- `sector_statistics_cb`: the numbers of empty and of used sectors. -/
def sectorStatisticsCb (db : FdbKvdb) (sector : KvdbSecInfo) (s : Nat × Nat) :
    Option (Bool × FdbKvdb × (Nat × Nat)) :=
  if sector.checkOk ∧ sector.store = .empty then some (false, db, (s.1 + 1, s.2))
  else if sector.checkOk ∧ sector.store = .using then some (false, db, (s.1, s.2 + 1))
  else some (false, db, s)

/-- The condition of `alloc_kv_cb`. -/
def KvdbSecInfo.hasRoom (sector : KvdbSecInfo) (gcRequest : Bool) (kvSize : Nat) : Bool :=
  sector.checkOk && decide (sector.remain > kvSize + fdbSecRemainThreshold) &&
    (sector.dirty = .no || (sector.dirty = .yes && !gcRequest))

/-- `alloc_kv_cb` -/
def allocKvCb (kvSize : Nat) (db : FdbKvdb) (sector : KvdbSecInfo) (emptyKv : Nat) :
    Option (Bool × FdbKvdb × Nat) :=
  if sector.hasRoom db.gcRequest kvSize then some (true, db, sector.emptyKv)
  else some (false, db, emptyKv)

/-- `alloc_kv` -/
def allocKv (db : FdbKvdb) (sector : KvdbSecInfo) (kvSize : Nat) :
    Option (Nat × KvdbSecInfo × FdbKvdb) := do
  let (sector, db, emptySector, usingSector) ←
    sectorIterator db sector .unused (0, 0) sectorStatisticsCb false
  let (sector, db, emptyKv) ←
    if usingSector > 0 then sectorIterator db sector .using failedAddr (allocKvCb kvSize) true
    else some (sector, db, failedAddr)
  if emptySector > 0 ∧ emptyKv = failedAddr then
    if emptySector > fdbGcEmptySecThreshold ∨ db.gcRequest then do
      let (sector, db, emptyKv) ←
        sectorIterator db sector .empty failedAddr (allocKvCb kvSize) true
      some (emptyKv, sector, db)
    else some (failedAddr, sector, { db with gcRequest := true })
  else some (emptyKv, sector, db)

/-! ## Deleting a record -/

/-- `del_kv` of a record that was found, under its name or the one given. -/
def delKv (db : FdbKvdb) (name : List UInt8) (oldKv : FdbKv) (completeDel : Bool) :
    Option (FdbErr × FdbKvdb) := do
  let (result, db) :=
    if !completeDel then
      let (result, db) :=
        db.writeStatus oldKv.addrStart fdbKvStatusNum FdbKvStatus.preDelete.code
      (result, { db with lastIsCompleteDel := true })
    else
      let (result, db) := db.writeStatus oldKv.addrStart fdbKvStatusNum FdbKvStatus.deleted.code
      let db :=
        if !db.lastIsCompleteDel ∧ result = .noErr then updateKvCache db name fdbDataUnused else db
      (result, { db with lastIsCompleteDel := false })
  if result = .noErr then do
    let dirtyStatusAddr := db.secAddr oldKv.addrStart + sectorDirtyOffset
    let dirty ← fdbReadStatus db.part dirtyStatusAddr fdbSectorStatusNum
    if dirty = FdbSectorDirtyStatus.no.code then
      let (result, db) :=
        db.writeStatus dirtyStatusAddr fdbSectorStatusNum FdbSectorDirtyStatus.yes.code
      some (result,
        modifySectorCache db (db.secAddr oldKv.addrStart) fun e => { e with dirty := .yes })
    else some (result, db)
  else some (result, db)

/-! ## Garbage collection -/

/-- The loop of `move_kv` that copies a record behind its status, from byte number `len` on. -/
def copyLoop (src dst kvLen : Nat) : Nat → Nat → FdbErr → FdbKvdb → Option (FdbErr × FdbKvdb)
  | 0, _, result, db => some (result, db)
  | n + 1, len, result, db =>
    if len < kvLen then do
      let size := if len + 32 < kvLen then 32 else kvLen - len
      let buf ← fdbFlashRead db.part (src + len) size
      let (result, part) := fdbFlashWrite db.part (dst + len) buf
      copyLoop src dst kvLen n (len + size) result { db with part }
    else some (result, db)

/-- The copy that `move_kv` makes of a record. -/
def copyKv (db : FdbKvdb) (kv : FdbKv) (sector : KvdbSecInfo) (kvAddr : Nat) :
    Option (FdbErr × FdbKvdb) := do
  let (_, _, db) := updateSecStatus db sector kv.len false
  let (_, db) := db.writeStatus kvAddr fdbKvStatusNum FdbKvStatus.preWrite.code
  let kvLen := kv.len - kvMagicOffset
  let (result, db) ←
    copyLoop (kv.addrStart + kvMagicOffset) (kvAddr + kvMagicOffset) kvLen kvLen 0 .noErr db
  let (_, db) := db.writeStatus kvAddr fdbKvStatusNum FdbKvStatus.write.code
  let db :=
    updateSectorEmptyAddrCache db (db.secAddr kvAddr)
      (kvAddr + kvHdrDataSize + kv.nameLen + kv.valueLen)
  some (result, updateKvCache db (kv.name.take kv.nameLen) kvAddr)

/-- `move_kv` -/
def moveKv (db : FdbKvdb) (kv : FdbKv) : Option (FdbErr × FdbKvdb) := do
  let name := kv.name.take kv.nameLen
  let (_, db) ← if kv.status = .write then delKv db name kv false else some (.noErr, db)
  let (kvAddr, sector, db) ← allocKv db .fresh kv.len
  if kvAddr = failedAddr then some (.savedFull, db)
  else do
    let (exists_, db) ←
      if db.inRecoveryCheck ∧ kv.status = .preDelete then do
        let (findOk, _, db) ← findKvNoCache db name (.fresh failedAddr)
        some (findOk, db)
      else some (false, db)
    let (result, db) ← if exists_ then some (.noErr, db) else copyKv db kv sector kvAddr
    let (_, db) ← delKv db name kv true
    some (result, db)

/-- `gc_check_cb`: the number of empty sectors, and the address of the last. -/
def gcCheckCb (db : FdbKvdb) (sector : KvdbSecInfo) (s : Nat × Nat) :
    Option (Bool × FdbKvdb × (Nat × Nat)) :=
  if sector.checkOk then some (false, db, (s.1 + 1, sector.addr)) else some (false, db, s)

/-- The loop of `do_gc` over the records of a sector. -/
def gcSectorLoop : Nat → FdbKvdb → KvdbSecInfo → FdbKv → Option FdbKvdb
  | 0, _, _, _ => none
  | n + 1, db, sector, kv => do
    let (_, kv, db) ← readKv db kv
    let db ←
      if kv.crcIsOk ∧ (kv.status = .write ∨ kv.status = .preDelete) then do
        let (_, db) ← moveKv db kv
        some db
      else some db
    let next := getNextKvAddr db sector kv
    if next = failedAddr then some db else gcSectorLoop n db sector { kv with addrStart := next }

/-- `do_gc`; the state is `last_gc_sec_addr`. -/
def doGc (settingFreeSize : Nat) (db : FdbKvdb) (sector : KvdbSecInfo) (lastGcSecAddr : Nat) :
    Option (Bool × FdbKvdb × Nat) :=
  if sector.checkOk ∧ (sector.dirty = .yes ∨ sector.dirty = .gc) then do
    let (_, db) :=
      db.writeStatus (sector.addr + sectorDirtyOffset) fdbSectorStatusNum
        FdbSectorDirtyStatus.gc.code
    let db ← gcSectorLoop db.secSize db sector (.fresh (sector.addr + sectorHdrDataSize))
    let (_, db) ← formatSector db sector.addr sectorNotCombined
    let db := { db with oldestAddr := getNextSectorAddr db sector 0 }
    let (result, lastGcSector, db) ← readSectorInfo db lastGcSecAddr .fresh true
    some (result = .noErr && decide (lastGcSector.remain > settingFreeSize), db, sector.addr)
  else some (false, db, lastGcSecAddr)

/-- `gc_collect_by_free_size` -/
def gcCollectByFreeSize (db : FdbKvdb) (freeSize : Nat) : Option FdbKvdb := do
  let (sector, db, emptySecNum, emptySecAddr) ←
    sectorIterator db .fresh .empty (0, 0) gcCheckCb false
  if emptySecNum ≤ fdbGcEmptySecThreshold then do
    let (_, db, _) ← sectorIterator db sector .unused emptySecAddr (doGc freeSize) false
    some { db with gcRequest := false }
  else some { db with gcRequest := false }

/-- `gc_collect` -/
def gcCollect (db : FdbKvdb) : Option FdbKvdb := gcCollectByFreeSize db db.maxSize

/-! ## Setting a value -/

/-- `new_kv`: when nothing is free, once more after a collection. -/
def newKv (db : FdbKvdb) (sector : KvdbSecInfo) (kvSize : Nat) :
    Option (Nat × KvdbSecInfo × FdbKvdb) := do
  let (emptyKv, sector, db) ← allocKv db sector kvSize
  if emptyKv = failedAddr ∧ db.gcRequest then do
    let db ← gcCollectByFreeSize db kvSize
    let (emptyKv, sector, db) ← allocKv db sector kvSize
    if emptyKv = failedAddr then some (emptyKv, sector, { db with gcRequest := false })
    else some (emptyKv, sector, db)
  else some (emptyKv, sector, db)

/-- The header of a record behind its status, padded as `memset` leaves it. -/
def kvHdrData (len : Nat) (crc : UInt32) (nameLen valueLen : Nat) : List UInt8 :=
  u32Bytes kvMagicWord ++ u32Bytes len ++ u32Bytes crc.toNat ++
    [UInt8.ofNat nameLen, 0xFF, 0xFF, 0xFF] ++ u32Bytes valueLen

/-- The CRC32 of a record: the lengths in its header, the name and the value. -/
def kvCrc (key value : List UInt8) : UInt32 :=
  let crc := fdbCalcCrc32 0 [UInt8.ofNat key.length, 0xFF, 0xFF, 0xFF]
  let crc := fdbCalcCrc32 crc (u32Bytes value.length)
  fdbCalcCrc32 (fdbCalcCrc32 crc key) value

/-- `write_kv_hdr` -/
def writeKvHdr (db : FdbKvdb) (addr : Nat) (hdr : List UInt8) : FdbErr × FdbKvdb :=
  match db.writeStatus addr fdbKvStatusNum FdbKvStatus.preWrite.code with
  | (.noErr, db) => db.flashWrite (addr + kvMagicOffset) hdr
  | (result, db) => (result, db)

/-- The writes of `create_kv_blob`, each made when the one before succeeded. -/
def writeKv (db : FdbKvdb) (sector : KvdbSecInfo) (kvAddr : Nat) (key value : List UInt8)
    (isFull : Bool) : FdbErr × FdbKvdb :=
  let len := kvHdrDataSize + key.length + value.length
  match writeKvHdr db kvAddr (kvHdrData len (kvCrc key value) key.length value.length) with
  | (.noErr, db) =>
    let (result, db) := db.flashWrite (kvAddr + kvHdrDataSize) key
    let db := if !isFull then updateSectorEmptyAddrCache db sector.addr (kvAddr + len) else db
    let db := updateKvCache db key kvAddr
    if result ≠ .noErr then (result, db)
    else match db.flashWrite (kvAddr + kvHdrDataSize + key.length) value with
      | (.noErr, db) => db.writeStatus kvAddr fdbKvStatusNum FdbKvStatus.write.code
      | (result, db) => (result, db)
  | (result, db) => (result, db)

/-- `create_kv_blob` -/
def createKvBlob (db : FdbKvdb) (sector : KvdbSecInfo) (key value : List UInt8) :
    Option (FdbErr × KvdbSecInfo × FdbKvdb) :=
  if key.length > fdbKvNameMax then some (.kvNameErr, sector, db)
  else
    let len := kvHdrDataSize + key.length + value.length
    if len > db.secSize - sectorHdrDataSize then some (.savedFull, sector, db)
    else do
      let (kvAddr, sector, db) ←
        if sector.emptyKv ≠ failedAddr then some (sector.emptyKv, sector, db)
        else newKv db sector len
      if kvAddr = failedAddr then some (.savedFull, sector, db)
      else
        match updateSecStatus db sector len false with
        | (.noErr, isFull, db) =>
          let (result, db) := writeKv db sector kvAddr key value isFull
          some (result, sector,
            if result = .noErr ∧ isFull then { db with gcRequest := true } else db)
        | (result, _, db) => some (result, sector, db)

/-- `del_kv(db, key, NULL, true)`: the record is looked up first. -/
def delKvByKey (db : FdbKvdb) (key : List UInt8) : Option (FdbErr × FdbKvdb) := do
  let (findOk, kv, db) ← findKv db key (.fresh failedAddr)
  if findOk then delKv db key kv true else some (.kvNameErr, db)

/-- `set_kv` of a value that is not `NULL`. -/
def setKv (db : FdbKvdb) (key value : List UInt8) : Option (FdbErr × FdbKvdb) := do
  let kvSize := kvHdrDataSize + key.length + value.length
  let (emptyKv, curSector, db) ← newKv db db.curSector kvSize
  let db := { db with curSector }
  if emptyKv = failedAddr then some (.savedFull, db)
  else do
    let (kvIsFound, curKv, db) ← findKv db key db.curKv
    let db := { db with curKv }
    let (result, db) ← if kvIsFound then delKv db key curKv false else some (.noErr, db)
    let (result, db) ←
      if result = .noErr then do
        let (result, curSector, db) ← createKvBlob db db.curSector key value
        some (result, { db with curSector })
      else some (result, db)
    let (result, db) ←
      if kvIsFound ∧ result = .noErr then delKv db key curKv true else some (result, db)
    let db ← if db.gcRequest then gcCollectByFreeSize db kvSize else some db
    some (result, db)

/-- `fdb_kv_del` -/
def fdbKvDel (db : FdbKvdb) (key : List UInt8) : Option (FdbErr × FdbKvdb) :=
  if !db.initOk then some (.initFailed, db) else delKvByKey db key

/-- `fdb_kv_set_blob` of a blob that is not `NULL`. -/
def fdbKvSetBlob (db : FdbKvdb) (key value : List UInt8) : Option (FdbErr × FdbKvdb) :=
  if !db.initOk then some (.initFailed, db) else setKv db key value

/-- `fdb_kv_set` of a string that is not `NULL`, up to its terminator. -/
def fdbKvSetStr (db : FdbKvdb) (key value : List UInt8) : Option (FdbErr × FdbKvdb) :=
  fdbKvSetBlob db key (CString.cstr value)

/-- `fdb_kv_get` -/
def fdbKvGetStr (db : FdbKvdb) (key : List UInt8) : Option (Option (List UInt8) × FdbKvdb) := do
  let (value, _, db) ← fdbKvGetBlob db key fdbStrKvValueMaxSize
  some (if value.length > 0 ∧ fdbIsStr value then some value else none, db)

end DoorLock
