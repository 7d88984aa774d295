import DoorLock.FdbUtils
import DoorLock.System

/-!
# The key-value store: reading (`fdb_kvdb.c`, up to `fdb_kv_get`)

The database keeps records in sectors, one behind the other, and finds them by reading the flash;
two caches spare some of it. A function has no result where it uses a buffer that could not be read,
and where a loop goes on past its fuel. `FAILED_ADDR` and `FDB_DATA_UNUSED` are no addresses.
-/

namespace DoorLock

/-- `FAILED_ADDR` -/
def failedAddr : Nat := 0xFFFFFFFF

/-- `FDB_DATA_UNUSED` -/
def fdbDataUnused : Nat := 0xFFFFFFFF

/-- `SECTOR_MAGIC_WORD` -/
def sectorMagicWord : Nat := 0x30424446

/-- `KV_MAGIC_WORD` -/
def kvMagicWord : Nat := 0x3030564B

/-- `SECTOR_NOT_COMBINED` -/
def sectorNotCombined : Nat := 0xFFFFFFFF

/-- `SECTOR_COMBINED` -/
def sectorCombined : Nat := 0

/-- `SECTOR_HDR_DATA_SIZE` -/
def sectorHdrDataSize : Nat := 16

/-- `SECTOR_DIRTY_OFFSET` -/
def sectorDirtyOffset : Nat := 1

/-- `KV_HDR_DATA_SIZE` -/
def kvHdrDataSize : Nat := 24

/-- `KV_MAGIC_OFFSET` -/
def kvMagicOffset : Nat := 4

/-- `FDB_KV_NAME_MAX` -/
def fdbKvNameMax : Nat := 64

/-- `FDB_SEC_REMAIN_THRESHOLD` -/
def fdbSecRemainThreshold : Nat := kvHdrDataSize + fdbKvNameMax

/-- `FDB_GC_EMPTY_SEC_THRESHOLD` -/
def fdbGcEmptySecThreshold : Nat := 1

/-- `FDB_KV_CACHE_TABLE_SIZE` -/
def fdbKvCacheTableSize : Nat := 64

/-- `FDB_SECTOR_CACHE_TABLE_SIZE` -/
def fdbSectorCacheTableSize : Nat := 8

/-- `fdb_kv_status_t` -/
inductive FdbKvStatus
  | unused | preWrite | write | preDelete | deleted | errHdr
  deriving DecidableEq, Repr

/-- `fdb_sector_store_status_t` -/
inductive FdbSectorStoreStatus
  | unused | empty | using | full
  deriving DecidableEq, Repr

/-- `fdb_sector_dirty_status_t` -/
inductive FdbSectorDirtyStatus
  | unused | no | yes | gc
  deriving DecidableEq, Repr

/-- `FDB_KV_STATUS_NUM` -/
def fdbKvStatusNum : Nat := 6

/-- `FDB_SECTOR_STORE_STATUS_NUM`, which is also `FDB_SECTOR_DIRTY_STATUS_NUM`. -/
def fdbSectorStatusNum : Nat := 4

def FdbKvStatus.code : FdbKvStatus → Nat
  | .unused => 0 | .preWrite => 1 | .write => 2 | .preDelete => 3 | .deleted => 4 | .errHdr => 5

def FdbKvStatus.ofCode : Nat → FdbKvStatus
  | 0 => .unused | 1 => .preWrite | 2 => .write | 3 => .preDelete | 4 => .deleted | _ => .errHdr

def FdbSectorStoreStatus.code : FdbSectorStoreStatus → Nat
  | .unused => 0 | .empty => 1 | .using => 2 | .full => 3

def FdbSectorStoreStatus.ofCode : Nat → FdbSectorStoreStatus
  | 0 => .unused | 1 => .empty | 2 => .using | _ => .full

def FdbSectorDirtyStatus.code : FdbSectorDirtyStatus → Nat
  | .unused => 0 | .no => 1 | .yes => 2 | .gc => 3

def FdbSectorDirtyStatus.ofCode : Nat → FdbSectorDirtyStatus
  | 0 => .unused | 1 => .no | 2 => .yes | _ => .gc

/-- `struct fdb_kv`; of `name`, what stands in front of the terminator. -/
structure FdbKv where
  status : FdbKvStatus
  crcIsOk : Bool
  nameLen : Nat
  len : Nat
  valueLen : Nat
  name : List UInt8
  addrStart : Nat
  addrValue : Nat
  deriving DecidableEq, Repr

/-- `struct kvdb_sec_info` -/
structure KvdbSecInfo where
  checkOk : Bool
  store : FdbSectorStoreStatus
  dirty : FdbSectorDirtyStatus
  addr : Nat
  combined : Nat
  remain : Nat
  emptyKv : Nat
  deriving DecidableEq, Repr

/-- `struct kv_cache_node` -/
structure KvCacheNode where
  nameCrc : UInt16
  active : UInt16
  addr : Nat
  deriving DecidableEq, Repr

/-- `struct fdb_default_kv_node` -/
structure FdbDefaultKvNode where
  key : List UInt8
  value : List UInt8
  valueLen : Nat

/-- `struct fdb_kvdb`; `db_max_size` is the length of the partition. -/
structure FdbKvdb where
  part : FalPartition
  secSize : Nat
  oldestAddr : Nat
  initOk : Bool
  notFormatable : Bool
  defaultKvs : List FdbDefaultKvNode
  gcRequest : Bool
  inRecoveryCheck : Bool
  curKv : FdbKv
  curSector : KvdbSecInfo
  lastIsCompleteDel : Bool
  kvCacheTable : List KvCacheNode
  sectorCacheTable : List KvdbSecInfo

/-- `db_max_size` -/
abbrev FdbKvdb.maxSize (db : FdbKvdb) : Nat := db.part.len

/-- A value of type `uint32_t` or `size_t`. -/
def u32 (i : Int) : Nat := (i % 0x100000000).toNat

/-- The `uint32_t` at the start of a buffer. -/
def u32At (buf : List UInt8) : Nat :=
  (buf.getD 0 0).toNat + (buf.getD 1 0).toNat <<< 8 + (buf.getD 2 0).toNat <<< 16 +
    (buf.getD 3 0).toNat <<< 24

/-- `FDB_ALIGN_DOWN` to a sector. -/
def FdbKvdb.secAddr (db : FdbKvdb) (addr : Nat) : Nat := addr / db.secSize * db.secSize

/-! ## The sector cache -/

/-- The loop of `update_sector_cache`; `emptyIndex` is the last unused entry passed. -/
def updateSectorLoop (sector : KvdbSecInfo) (table : List KvdbSecInfo) :
    Nat → Nat → Option Nat → List KvdbSecInfo
  | 0, _, emptyIndex =>
    match emptyIndex with
    | some j => if sector.checkOk then table.set j sector else table
    | none => table
  | n + 1, i, emptyIndex =>
    match table[i]? with
    | none => table
    | some e =>
      if e.addr = sector.addr then
        table.set i (if sector.checkOk then sector else { e with addr := fdbDataUnused })
      else
        updateSectorLoop sector table n (i + 1)
          (if e.addr = fdbDataUnused then some i else emptyIndex)

def updateSectorCache (db : FdbKvdb) (sector : KvdbSecInfo) : FdbKvdb :=
  { db with
    sectorCacheTable :=
      updateSectorLoop sector db.sectorCacheTable fdbSectorCacheTableSize 0 none }

def getSectorFromCache (db : FdbKvdb) (secAddr : Nat) : Option KvdbSecInfo :=
  db.sectorCacheTable.find? fun e => e.addr = secAddr

/-- Change the entry of the sector cache that `get_sector_from_cache` finds. -/
def modifySectorCache (db : FdbKvdb) (secAddr : Nat) (f : KvdbSecInfo → KvdbSecInfo) : FdbKvdb :=
  match db.sectorCacheTable.findIdx? fun e => e.addr = secAddr with
  | some i => { db with sectorCacheTable := db.sectorCacheTable.modify i f }
  | none => db

def updateSectorEmptyAddrCache (db : FdbKvdb) (secAddr emptyAddr : Nat) : FdbKvdb :=
  modifySectorCache db secAddr fun e =>
    { e with emptyKv := emptyAddr, remain := u32 (db.secSize - (emptyAddr - e.addr : Int)) }

def updateSectorStatusStoreCache (db : FdbKvdb) (secAddr : Nat) (status : FdbSectorStoreStatus) :
    FdbKvdb :=
  modifySectorCache db secAddr fun e => { e with store := status }

/-! ## The KV cache -/

/-- The high half of the CRC of a name. -/
def nameCrcOf (name : List UInt8) : UInt16 := (fdbCalcCrc32 0 name >>> 16).toUInt16

/-- The loop of `update_kv_cache` over the entries from number `i` on. -/
def updateKvLoop (nameCrc : UInt16) (addr : Nat) (table : List KvCacheNode) :
    Nat → Nat → Option Nat → Option Nat → UInt16 → List KvCacheNode
  | 0, _, emptyIndex, minActivityIndex, _ =>
    let node : KvCacheNode := ⟨nameCrc, UInt16.ofNat fdbKvCacheTableSize, addr⟩
    match emptyIndex, minActivityIndex with
    | some j, _ => table.set j node
    | none, some j => table.set j node
    | none, none => table
  | n + 1, i, emptyIndex, minActivityIndex, minActivity =>
    match table[i]? with
    | none => table
    | some e =>
      if addr ≠ fdbDataUnused then
        if e.nameCrc = nameCrc then table.set i { e with addr := addr }
        else if e.addr = fdbDataUnused ∧ emptyIndex = none then
          updateKvLoop nameCrc addr table n (i + 1) (some i) minActivityIndex minActivity
        else if e.addr ≠ fdbDataUnused then
          let e := if e.active > 0 then { e with active := e.active - 1 } else e
          if e.active < minActivity then
            updateKvLoop nameCrc addr (table.set i e) n (i + 1) emptyIndex (some i) e.active
          else
            updateKvLoop nameCrc addr (table.set i e) n (i + 1) emptyIndex minActivityIndex
              minActivity
        else updateKvLoop nameCrc addr table n (i + 1) emptyIndex minActivityIndex minActivity
      else if e.nameCrc = nameCrc then table.set i { e with addr := fdbDataUnused, active := 0 }
      else updateKvLoop nameCrc addr table n (i + 1) emptyIndex minActivityIndex minActivity

def updateKvCache (db : FdbKvdb) (name : List UInt8) (addr : Nat) : FdbKvdb :=
  { db with
    kvCacheTable :=
      updateKvLoop (nameCrcOf name) addr db.kvCacheTable fdbKvCacheTableSize 0 none none 0xFFFF }

/-- `strncmp` of `n` bytes; neither text has a terminator among them but at its end. -/
def strncmpEq (a b : List UInt8) (n : Nat) : Bool := CString.strcmpEq (a.take n) (b.take n)

/-- The loop of `get_kv_from_cache` over the entries from number `i` on. -/
def getKvLoop (name : List UInt8) (db : FdbKvdb) : Nat → Nat → Option Nat × FdbKvdb
  | 0, _ => (none, db)
  | n + 1, i =>
    match db.kvCacheTable[i]? with
    | none => (none, db)
    | some e =>
      let savedName :=
        (fdbFlashRead db.part (e.addr + kvHdrDataSize) fdbKvNameMax).getD
          (List.replicate fdbKvNameMax 0)
      if e.addr ≠ fdbDataUnused ∧ e.nameCrc = nameCrcOf name ∧
          strncmpEq name savedName name.length then
        let active :=
          if e.active.toNat ≥ 0xFFFF - fdbKvCacheTableSize then 0xFFFF
          else e.active + UInt16.ofNat fdbKvCacheTableSize
        (some e.addr,
          { db with kvCacheTable := db.kvCacheTable.set i { e with active := active } })
      else getKvLoop name db n (i + 1)

/-- `get_kv_from_cache`; the address of a hit. -/
def getKvFromCache (db : FdbKvdb) (name : List UInt8) : Option Nat × FdbKvdb :=
  getKvLoop name db fdbKvCacheTableSize 0

/-! ## Records -/

/-- The loop of `find_next_kv_addr` over a buffer, from byte number `i` on. -/
def findMagic (buf : List UInt8) (start startBak stop : Nat) : Nat → Nat → Option Nat
  | 0, _ => none
  | n + 1, i =>
    if start + i < stop then
      let addr := u32 (start + i - kvMagicOffset : Int)
      if u32At (buf.drop i) = kvMagicWord ∧ addr ≥ startBak then some addr
      else findMagic buf start startBak stop n (i + 1)
    else none

/-- The loop of `find_next_kv_addr` over the buffers; `n` is at least what is left. -/
def findNextLoop (part : FalPartition) (startBak stop : Nat) : Nat → Nat → Nat
  | 0, _ => failedAddr
  | n + 1, start =>
    if start < stop ∧ start + 32 < stop then
      match fdbFlashRead part start 32 with
      | none => failedAddr
      | some buf =>
        match findMagic buf start startBak stop 28 0 with
        | some addr => addr
        | none => findNextLoop part startBak stop n (start + 28)
    else failedAddr

def findNextKvAddr (db : FdbKvdb) (start stop : Nat) : Nat :=
  match getSectorFromCache db (db.secAddr start) with
  | some sector =>
    if start = sector.emptyKv then failedAddr
    else findNextLoop db.part start stop (stop - start) start
  | none => findNextLoop db.part start stop (stop - start) start

def getNextKvAddr (db : FdbKvdb) (sector : KvdbSecInfo) (preKv : FdbKv) : Nat :=
  if sector.store = .empty then failedAddr
  else if preKv.addrStart = failedAddr then sector.addr + sectorHdrDataSize
  else if preKv.addrStart ≤ sector.addr + db.secSize then
    let start := if preKv.crcIsOk then preKv.addrStart + preKv.len else preKv.addrStart + 1
    let addr := findNextKvAddr db start (sector.addr + db.secSize - sectorHdrDataSize)
    if addr = failedAddr ∨ addr > sector.addr + db.secSize ∨ preKv.len = 0 then failedAddr
    else addr
  else failedAddr

/-- The loop of `read_kv` over the name and the value, from byte number `len` on. -/
def crcDataLoop (part : FalPartition) (addr crcDataLen : Nat) :
    Nat → Nat → UInt32 → Option UInt32
  | 0, _, crc => some crc
  | n + 1, len, crc =>
    if len < crcDataLen then do
      let size := if len + 32 < crcDataLen then 32 else crcDataLen - len
      let buf ← fdbFlashRead part (addr + len) size
      crcDataLoop part addr crcDataLen n (len + size) (fdbCalcCrc32 crc buf)
    else some crc

/-- `read_kv` of the record at `addr.start`. -/
def readKv (db : FdbKvdb) (kv : FdbKv) : Option (FdbErr × FdbKv × FdbKvdb) := do
  let hdr ← fdbFlashRead db.part kv.addrStart kvHdrDataSize
  let kv :=
    { kv with status := .ofCode (fdbGetStatus hdr fdbKvStatusNum), len := u32At (hdr.drop 8) }
  let nameLen := (hdr.getD 16 0).toNat
  let nameAddr := kv.addrStart + kvHdrDataSize
  if kv.len = 0xFFFFFFFF ∨ kv.len > db.maxSize ∨ kv.len < kvHdrDataSize then
    let kv := { kv with len := kvHdrDataSize, crcIsOk := false }
    if kv.status ≠ .errHdr then
      let (_, part) := fdbWriteStatus db.part kv.addrStart fdbKvStatusNum FdbKvStatus.errHdr.code
      some (.readErr, { kv with status := .errHdr }, { db with part })
    else some (.readErr, kv, db)
  else do
    let crc := fdbCalcCrc32 (fdbCalcCrc32 0 ((hdr.drop 16).take 4)) ((hdr.drop 20).take 4)
    let crcDataLen := kv.len - kvHdrDataSize
    let crc ← crcDataLoop db.part nameAddr crcDataLen crcDataLen 0 crc
    if crc.toNat ≠ u32At (hdr.drop 12) then
      let name ← fdbFlashRead db.part nameAddr (min nameLen fdbKvNameMax)
      some (.readErr, { kv with crcIsOk := false, name := name }, db)
    else do
      let name ← fdbFlashRead db.part nameAddr nameLen
      some (.noErr,
        { kv with
          crcIsOk := true
          name := name.take (fdbKvNameMax - 1)
          addrValue := nameAddr + nameLen
          valueLen := u32At (hdr.drop 20)
          nameLen := nameLen }, db)

/-! ## Sectors -/

/-- The loop of `read_sector_info` over the records of a sector. -/
def remainLoop : Nat → FdbKvdb → KvdbSecInfo → FdbKv → Option (FdbErr × KvdbSecInfo × FdbKvdb)
  | 0, _, _, _ => none
  | n + 1, db, sector, kv => do
    let (_, kv, db) ← readKv db kv
    if kv.crcIsOk = false ∧ kv.status ≠ .preWrite ∧ kv.status ≠ .errHdr then
      some (.readErr, { sector with remain := 0 }, db)
    else
      let sector :=
        { sector with
          emptyKv := sector.emptyKv + kv.len, remain := u32 (sector.remain - kv.len : Int) }
      let next := getNextKvAddr db sector kv
      if next = failedAddr then some (.noErr, sector, db)
      else remainLoop n db sector { kv with addrStart := next }

/-- A record before anything is read. -/
def FdbKv.fresh (addr : Nat) : FdbKv := ⟨.unused, false, 0, 0, 0, [], addr, 0⟩

/-- The part of `read_sector_info` that traverses the records. -/
def sectorRemain (db : FdbKvdb) (sector : KvdbSecInfo) : Option (FdbErr × KvdbSecInfo × FdbKvdb) :=
  let sector := { sector with remain := 0, emptyKv := sector.addr + sectorHdrDataSize }
  match sector.store with
  | .empty => some (.noErr, { sector with remain := db.secSize - sectorHdrDataSize }, db)
  | .using => do
    let (result, sector, db) ← remainLoop db.secSize db
      { sector with remain := db.secSize - sectorHdrDataSize }
      (.fresh (sector.addr + sectorHdrDataSize))
    let ffAddr ← fdbContinueFfAddr db.part sector.emptyKv (sector.addr + db.secSize)
    if sector.emptyKv ≠ ffAddr then
      some (result,
        { sector with
          emptyKv := ffAddr, remain := u32 (db.secSize - (ffAddr - sector.addr : Int)) }, db)
    else some (result, sector, db)
  | _ => some (.noErr, sector, db)

/-- `read_sector_info` where the cache is of no use. -/
def readSectorFlash (db : FdbKvdb) (addr : Nat) (sector : KvdbSecInfo) (traversal : Bool) :
    Option (FdbErr × KvdbSecInfo × FdbKvdb) := do
  let hdr ← fdbFlashRead db.part addr sectorHdrDataSize
  let sector := { sector with store := .unused, dirty := .unused, addr := addr }
  let combined := u32At (hdr.drop 8)
  if u32At (hdr.drop 4) ≠ sectorMagicWord ∨
      (combined ≠ sectorNotCombined ∧ combined ≠ sectorCombined) then
    some (.initFailed, { sector with checkOk := false, combined := sectorNotCombined }, db)
  else do
    let sector :=
      { sector with
        checkOk := true
        combined := combined
        store := .ofCode (fdbGetStatus hdr fdbSectorStatusNum)
        dirty := .ofCode (fdbGetStatus (hdr.drop sectorDirtyOffset) fdbSectorStatusNum) }
    if traversal then do
      let (result, sector, db) ← sectorRemain db sector
      some (result, sector, updateSectorCache db sector)
    else if (getSectorFromCache db sector.addr).isNone then
      let sector := { sector with emptyKv := failedAddr, remain := 0 }
      some (.noErr, sector, updateSectorCache db sector)
    else some (.noErr, sector, db)

/-- `read_sector_info`; what it does not set of `sector` is left. An address within a sector fails
`FDB_ASSERT`. -/
def readSectorInfo (db : FdbKvdb) (addr : Nat) (sector : KvdbSecInfo) (traversal : Bool) :
    Option (FdbErr × KvdbSecInfo × FdbKvdb) :=
  if addr % db.secSize ≠ 0 then none
  else match getSectorFromCache db addr with
  | some e =>
    if !traversal || e.emptyKv ≠ failedAddr then some (.noErr, e, db)
    else readSectorFlash db addr sector traversal
  | none => readSectorFlash db addr sector traversal

def getNextSectorAddr (db : FdbKvdb) (preSec : KvdbSecInfo) (traversedLen : Nat) : Nat :=
  let curBlockSize :=
    if preSec.combined = sectorNotCombined then db.secSize else preSec.combined * db.secSize
  if traversedLen + curBlockSize ≤ db.maxSize then
    if preSec.addr + curBlockSize < db.maxSize then preSec.addr + curBlockSize else 0
  else failedAddr

/-! ## Iteration -/

section
variable {σ : Type}

/-- The loop of `kv_iterator` over the records of a sector; `true` when the callback stopped it. -/
def kvIteratorSector (callback : FdbKvdb → FdbKv → σ → Option (Bool × FdbKvdb × σ)) :
    Nat → FdbKvdb → KvdbSecInfo → FdbKv → σ → Option (Bool × FdbKv × FdbKvdb × σ)
  | 0, _, _, _, _ => none
  | n + 1, db, sector, kv, s => do
    let (_, kv, db) ← readKv db kv
    let (stop, db, s) ← callback db kv s
    if stop then some (true, kv, db, s)
    else
      let next := getNextKvAddr db sector kv
      if next = failedAddr then some (false, { kv with addrStart := next }, db, s)
      else kvIteratorSector callback n db sector { kv with addrStart := next } s

/-- The loop of `kv_iterator` over the sectors. -/
def kvIteratorLoop (callback : FdbKvdb → FdbKv → σ → Option (Bool × FdbKvdb × σ)) :
    Nat → FdbKvdb → Nat → KvdbSecInfo → Nat → FdbKv → σ → Option (FdbKv × FdbKvdb × σ)
  | 0, _, _, _, _, _, _ => none
  | n + 1, db, secAddr, sector, traversedLen, kv, s => do
    let traversedLen := traversedLen + db.secSize
    let (result, sector, db) ← readSectorInfo db secAddr sector false
    let (stop, kv, db, s) ←
      if result = .noErr ∧ (sector.store = .using ∨ sector.store = .full) then
        kvIteratorSector callback db.secSize db sector
          { kv with addrStart := sector.addr + sectorHdrDataSize } s
      else some (false, kv, db, s)
    if stop then some (kv, db, s)
    else
      let next := getNextSectorAddr db sector traversedLen
      if next = failedAddr then some (kv, db, s)
      else kvIteratorLoop callback n db next sector traversedLen kv s

/-- What a `struct kvdb_sec_info` holds before it is set. -/
def KvdbSecInfo.fresh : KvdbSecInfo := ⟨false, .unused, .unused, 0, 0, 0, 0⟩

/-- `kv_iterator` -/
def kvIterator (callback : FdbKvdb → FdbKv → σ → Option (Bool × FdbKvdb × σ)) (db : FdbKvdb)
    (kv : FdbKv) (s : σ) : Option (FdbKv × FdbKvdb × σ) :=
  kvIteratorLoop callback (db.maxSize / db.secSize + 2) db db.oldestAddr .fresh 0 kv s

end

/-! ## Getting a value -/

/-- `find_kv_cb` -/
def findKvCb (key : List UInt8) (db : FdbKvdb) (kv : FdbKv) (findOk : Bool) :
    Option (Bool × FdbKvdb × Bool) :=
  if key.length ≠ kv.nameLen then some (false, db, findOk)
  else if kv.crcIsOk ∧ kv.status = .write ∧ strncmpEq kv.name key key.length then
    some (true, db, true)
  else some (false, db, findOk)

/-- `find_kv_no_cache` -/
def findKvNoCache (db : FdbKvdb) (key : List UInt8) (kv : FdbKv) :
    Option (Bool × FdbKv × FdbKvdb) := do
  let (kv, db, findOk) ← kvIterator (findKvCb key) db kv false
  some (findOk, kv, db)

/-- `find_kv` -/
def findKv (db : FdbKvdb) (key : List UInt8) (kv : FdbKv) : Option (Bool × FdbKv × FdbKvdb) :=
  match getKvFromCache db key with
  | (some addr, db) => do
    let (_, kv, db) ← readKv db { kv with addrStart := addr }
    some (true, kv, db)
  | (none, db) => do
    let (findOk, kv, db) ← findKvNoCache db key kv
    some (findOk, kv, if findOk then updateKvCache db key kv.addrStart else db)

/-- `get_kv`: the bytes read, and the length of the value. -/
def getKv (db : FdbKvdb) (key : List UInt8) (bufLen : Nat) :
    Option (List UInt8 × Nat × FdbKvdb) := do
  let (findOk, kv, db) ← findKv db key (.fresh failedAddr)
  if findOk then do
    let readLen := if bufLen > kv.valueLen then kv.valueLen else bufLen
    let value ← fdbFlashRead db.part kv.addrValue readLen
    some (value, kv.valueLen, db)
  else some ([], 0, db)

/-- `fdb_kv_get_blob` -/
def fdbKvGetBlob (db : FdbKvdb) (key : List UInt8) (size : Nat) :
    Option (List UInt8 × Nat × FdbKvdb) :=
  if !db.initOk then some ([], 0, db) else getKv db key size

end DoorLock
