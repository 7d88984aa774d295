import DoorLock.KvAlloc

/-!
# Writing and deleting a record

What the writes of a record leave in the flash and in the cache of sectors: the sector gets one more
record, or one of its records a later status, and everything else is as it was.
-/

namespace DoorLock

open Nor CString

variable {G : KvGeom} {A : KvSectors} {db db' : FdbKvdb} {sector : KvdbSecInfo} {i a n : Nat}
  {r : KvRec} {pre post : List KvRec} {name key value bytes : List UInt8} {m : Memory}

/-! ## Writes -/

/-- The database with other contents of its flash. -/
def FdbKvdb.withFlash (db : FdbKvdb) (m : Memory) : FdbKvdb :=
  { db with part := { db.part with flash := m } }

theorem FdbKvdb.flashWrite_eq (h : a + bytes.length ≤ db.part.len) :
    db.flashWrite a bytes = (.noErr, db.withFlash (program db.part.flash a bytes)) := by
  unfold FdbKvdb.flashWrite fdbFlashWriteAlign fdbFlashWrite
  rcases bytes with _ | ⟨b, bytes⟩
  · rw [program_nil]
    rfl
  · rw [if_pos (by rw [List.length_cons]; omega), if_neg (by omega)]
    rfl

theorem FdbKvdb.writeStatus_eq {num code : Nat} (hn : 0 < num) (hn' : num ≤ 8) (hc : code < 8)
    (hc0 : code ≠ 0) (ha : a < db.part.len) :
    db.writeStatus a num code =
      (.noErr, db.withFlash (program db.part.flash a [statusByte code])) := by
  unfold FdbKvdb.writeStatus
  rw [fdbWriteStatus_eq hn hn' hc hc0 ha]
  rfl

/-! ## Deleting -/

/-- The dirty status of a sector one of whose records is deleted. -/
def FdbSectorDirtyStatus.mark (dirty : FdbSectorDirtyStatus) : FdbSectorDirtyStatus :=
  if dirty = .no then .yes else dirty

/-- A sector after `del_kv` of the record behind `pre`. -/
def KvSector.marked (s : KvSector) (pre : List KvRec) (r : KvRec) (t : FdbKvStatus)
    (post : List KvRec) : KvSector where
  store := s.store
  dirty := s.dirty.mark
  recs := pre ++ { r with status := t } :: post

/-- The status that `del_kv` writes. -/
def delStatus (completeDel : Bool) : FdbKvStatus := if completeDel then .deleted else .preDelete

theorem KvSector.marked_used {s : KvSector} (hrecs : s.recs = pre ++ r :: post) {t : FdbKvStatus} :
    (s.marked pre r t post).used = s.used := by
  simp only [KvSector.used, KvSector.marked, hrecs, recsSize_append, recsSize_cons]
  rfl

theorem recAddr_marked {S : Nat} {s : KvSector} (hrecs : s.recs = pre ++ r :: post)
    {t : FdbKvStatus} : recAddr S i (s.marked pre r t post).recs = recAddr S i s.recs := by
  simp only [recAddr, KvSector.marked, hrecs, recsSize_append, recsSize_cons]
  rfl

theorem KvSector.Ok.marked {S : Nat} {s : KvSector} (h : s.Ok S) (hrecs : s.recs = pre ++ r :: post)
    {t : FdbKvStatus} : (s.marked pre r t post).Ok S where
  fits := by
    rw [KvSector.marked_used hrecs]
    exact h.fits
  store := by
    rcases h.store with ⟨-, hnil, -⟩ | ⟨hstore, -⟩
    · rw [hrecs] at hnil
      cases pre <;> cases hnil
    · exact .inr ⟨hstore, by simp [KvSector.marked]⟩
  dirty := by
    change s.dirty.mark ≠ .unused
    unfold FdbSectorDirtyStatus.mark
    split
    case isTrue => decide
    case isFalse => exact h.dirty
  recs := by
    intro x hx
    have hmem {y : KvRec} (hy : y ∈ pre ∨ y ∈ r :: post) : y ∈ s.recs := by
      rw [hrecs]
      exact List.mem_append.mpr hy
    rcases List.mem_append.mp hx with hx | hx
    · exact h.recs x (hmem (.inl hx))
    · rcases List.mem_cons.mp hx with rfl | hx
      · obtain ⟨hkeyLen, hnoNul⟩ := h.recs r (hmem (.inr List.mem_cons_self))
        exact ⟨hkeyLen, hnoNul⟩
      · exact h.recs x (hmem (.inr (List.mem_cons_of_mem _ hx)))

/-- What the cache says of a sector one of whose records is deleted. -/
theorem SecInfoOk.marked {S : Nat} {s : KvSector} {e : KvdbSecInfo} (h : SecInfoOk S i s e)
    (hrecs : s.recs = pre ++ r :: post) {t : FdbKvStatus} {dirty : FdbSectorDirtyStatus}
    (hdirty : dirty = .no ↔ (s.marked pre r t post).dirty = .no) (hne : dirty ≠ .unused) :
    SecInfoOk S i (s.marked pre r t post) { e with dirty := dirty } where
  addr := h.addr
  checkOk := h.checkOk
  store := h.store
  dirty := hdirty
  dirty_ne := hne
  combined := h.combined
  room := by
    rw [recAddr_marked hrecs, KvSector.marked_used hrecs]
    exact h.room

/-- The byte of the dirty status. -/
theorem Holds.read_dirty {part : FalPartition} (h : Holds G.S G.n A part.flash) (hi : i < G.n)
    (hlen : part.len = G.n * G.S) :
    fdbReadStatus part (i * G.S + sectorDirtyOffset) fdbSectorStatusNum =
      some (A i).dirty.code := by
  have hbig := G.big
  have hsec := sector_le (S := G.S) hi
  have hbyte := (at_cons.mp (at_cons.mp (h.hdr hi)).2).1
  have hread : read part.flash (i * G.S + 1) ((fdbSectorStatusNum + 7) / 8) =
      [statusByte (A i).dirty.code] := congrArg (fun b => [b]) hbyte
  have hle : i * G.S + 1 + (fdbSectorStatusNum + 7) / 8 ≤ part.len := by
    change i * G.S + 1 + 1 ≤ _
    omega
  unfold sectorDirtyOffset fdbReadStatus
  rw [fdbFlashRead_eq hle, hread, Option.map_some, fdbGetStatus_dirty]

/-- `del_kv`, once the status of the record is written. -/
theorem markDirty_eq (db : FdbKvdb) {addr : Nat} (hsize : db.secSize = G.S)
    (hlen : db.part.len = G.n * G.S) (hholds : Holds G.S G.n A db.part.flash)
    (hused : ∀ i < G.n, (A i).used ≤ G.S) (hi : i < G.n)
    (hlo : i * G.S ≤ addr) (hhi : addr < i * G.S + G.S) :
    ∃ m, (do
      let dirty ← fdbReadStatus db.part (db.secAddr addr + sectorDirtyOffset) fdbSectorStatusNum
      if dirty = FdbSectorDirtyStatus.no.code then
        let (result, db') := db.writeStatus (db.secAddr addr + sectorDirtyOffset)
          fdbSectorStatusNum FdbSectorDirtyStatus.yes.code
        some (result, modifySectorCache db' (db.secAddr addr) fun e => { e with dirty := .yes })
      else some (.noErr, db)) = some (FdbErr.noErr, { db.withFlash m with
        sectorCacheTable :=
          if (A i).dirty = .no then
            modifyTable db.sectorCacheTable (i * G.S) fun e => { e with dirty := .yes }
          else db.sectorCacheTable }) ∧
      Holds G.S G.n (A.set i { A i with dirty := (A i).dirty.mark }) m := by
  have hbig := G.big
  have hsec := sector_le (S := G.S) hi
  have haddr : db.secAddr addr = i * G.S := by
    rw [FdbKvdb.secAddr, hsize, Nat.div_eq_of_lt_le hlo (by rwa [Nat.succ_mul])]
  rw [haddr, hholds.read_dirty hi hlen, Option.bind_eq_bind, Option.bind_some]
  rcases Decidable.em ((A i).dirty = .no) with hd | hd
  · have hwrite : db.writeStatus (i * G.S + sectorDirtyOffset) fdbSectorStatusNum
        FdbSectorDirtyStatus.yes.code = (.noErr, db.withFlash (program db.part.flash
          (i * G.S + sectorDirtyOffset) [statusByte FdbSectorDirtyStatus.yes.code])) :=
      FdbKvdb.writeStatus_eq (by decide) (by decide) (by decide) (by decide)
        (by unfold sectorDirtyOffset; omega)
    have hmark : (A i).dirty.mark = .yes := if_pos hd
    rw [hmark, hd, if_pos rfl, if_pos rfl, hwrite]
    dsimp only
    rw [modifySectorCache_eq]
    exact ⟨_, rfl, hholds.setDirty hused hi (by rw [hd]; decide)⟩
  · have hcode : ¬(A i).dirty.code = FdbSectorDirtyStatus.no.code := by
      intro hc
      apply hd
      cases hdirty : (A i).dirty <;> rw [hdirty] at hc <;> first | rfl | cases hc
    have hmark : (A i).dirty.mark = (A i).dirty := if_neg hd
    rw [hmark, if_neg hcode, if_neg hd]
    refine ⟨db.part.flash, rfl, ?_⟩
    rw [KvSectors.set, Function.update_eq_self]
    exact hholds

/-- `del_kv` of a record that was found. -/
theorem KvdbOk.delKv_ok (h : KvdbOk G A db) (name : List UInt8) (hi : i < G.n)
    (hrecs : (A i).recs = pre ++ r :: post) {completeDel : Bool}
    (hle : r.status.code ≤ (delStatus completeDel).code) :
    ∃ m table, delKv db name (r.toKv (recAddr G.S i pre)) completeDel = some (.noErr,
        { db.withFlash m with
          sectorCacheTable := table
          kvCacheTable :=
            if completeDel && !db.lastIsCompleteDel then
              (updateKvCache db name fdbDataUnused).kvCacheTable
            else db.kvCacheTable
          lastIsCompleteDel := !completeDel }) ∧
      KvdbOk G (A.set i ((A i).marked pre r (delStatus completeDel) post))
        { db.withFlash m with sectorCacheTable := table } := by
  have hend := h.rec_end hi hrecs
  have hlo : i * G.S + sectorHdrDataSize ≤ recAddr G.S i pre := le_recAddr
  have hsec := sector_le (S := G.S) hi
  have hlen := h.len
  obtain ⟨t, ht⟩ : ∃ t, t = delStatus completeDel := ⟨_, rfl⟩
  rw [← ht] at hle ⊢
  have hcode : t.code < 8 ∧ t.code ≠ 0 := by
    rw [ht]
    cases completeDel <;> decide
  obtain ⟨m₁, hm₁⟩ : ∃ m, m = program db.part.flash (recAddr G.S i pre) [statusByte t.code] :=
    ⟨_, rfl⟩
  obtain ⟨A₁, hA₁⟩ :
      ∃ A₁, A₁ = A.set i { A i with recs := pre ++ { r with status := t } :: post } :=
    ⟨_, rfl⟩
  have hwrite : db.writeStatus (recAddr G.S i pre) fdbKvStatusNum t.code =
      (.noErr, db.withFlash m₁) := by
    rw [hm₁]
    exact FdbKvdb.writeStatus_eq (by decide) (by decide) hcode.1 hcode.2 (by omega)
  have hholds : Holds G.S G.n A₁ m₁ := hm₁ ▸ hA₁ ▸ h.holds.setStatus h.used_le hi hrecs hle
  have hself : A₁ i = { A i with recs := pre ++ { r with status := t } :: post } := by
    rw [hA₁, KvSectors.set, Function.update_self]
  have hset : A₁.set i { A₁ i with dirty := (A₁ i).dirty.mark } =
      A.set i ((A i).marked pre r t post) := by
    rw [hself, hA₁]
    exact Function.update_idem ..
  have hused : ∀ j < G.n, (A₁ j).used ≤ G.S := by
    intro j hj
    rcases Decidable.eq_or_ne j i with rfl | hne
    · rw [hself]
      exact (KvSector.marked_used hrecs (t := t)).trans_le (h.used_le j hj)
    · rw [hA₁, KvSectors.set, Function.update_of_ne hne]
      exact h.used_le j hj
  have htail (kt : List KvCacheNode) (b : Bool) :=
    markDirty_eq { db.withFlash m₁ with kvCacheTable := kt, lastIsCompleteDel := b }
      h.secSize h.len hholds hused hi (by omega) (by omega : recAddr G.S i pre < _)
  have hok {m table} (hm : Holds G.S G.n (A₁.set i { A₁ i with dirty := (A₁ i).dirty.mark }) m)
      (htable : table = if (A₁ i).dirty = .no then
        modifyTable db.sectorCacheTable (i * G.S) fun e => { e with dirty := .yes }
        else db.sectorCacheTable) :
      KvdbOk G (A.set i ((A i).marked pre r t post))
        { db.withFlash m with sectorCacheTable := table } := by
    refine ⟨h.secSize, h.len, h.oldest, hset ▸ hm, fun j hj => ?_, ?_⟩
    · rcases Decidable.eq_or_ne j i with rfl | hne
      · rw [KvSectors.set, Function.update_self]
        exact (h.sector j hj).marked hrecs
      · rw [KvSectors.set, Function.update_of_ne hne]
        exact h.sector j hj
    · have hmark : ((A i).marked pre r t post).dirty = (A i).dirty.mark := rfl
      rw [htable, hself]
      dsimp only
      split
      case isTrue hd =>
        refine h.cache.modify hi fun e he => he.marked hrecs ?_ (by decide)
        rw [hmark, FdbSectorDirtyStatus.mark, if_pos hd]
      case isFalse hd =>
        refine h.cache.same fun e he => he.marked hrecs ?_ he.dirty_ne
        rw [hmark, FdbSectorDirtyStatus.mark, if_neg hd]
        exact he.dirty
  cases completeDel with
  | false =>
    obtain rfl : t = .preDelete := ht
    obtain ⟨m, heq, hm⟩ := htail db.kvCacheTable true
    refine ⟨m, _, ?_, hok hm rfl⟩
    simp only [delKv, KvRec.addrStart_toKv, Bool.not_false, if_true, hwrite]
    exact heq
  | true =>
    obtain rfl : t = .deleted := ht
    cases hlast : db.lastIsCompleteDel with
    | false =>
      have hlast' : (db.withFlash m₁).lastIsCompleteDel = false := hlast
      obtain ⟨m, heq, hm⟩ := htail (updateKvCache db name fdbDataUnused).kvCacheTable false
      refine ⟨m, _, ?_, hok hm rfl⟩
      simp only [delKv, KvRec.addrStart_toKv, Bool.not_true, Bool.not_false, if_false, hwrite,
        Bool.false_eq_true, hlast', and_true, Bool.true_and, if_true]
      exact heq
    | true =>
      have hlast' : (db.withFlash m₁).lastIsCompleteDel = true := hlast
      obtain ⟨m, heq, hm⟩ := htail db.kvCacheTable false
      refine ⟨m, _, ?_, hok hm rfl⟩
      simp only [delKv, KvRec.addrStart_toKv, Bool.not_true, if_false, hwrite,
        Bool.false_eq_true, hlast', and_true, Bool.true_and, if_true]
      exact heq

/-! ## Writing -/

/-- The sector that a record of `kvSize` bytes is written to, as `alloc_kv` described it. -/
structure Target (G : KvGeom) (A : KvSectors) (kvSize i : Nat) (sector : KvdbSecInfo) (addr : Nat) :
    Prop where
  lt : i < G.n
  secAddr : sector.addr = i * G.S
  store : sector.store = (A i).store
  remain : sector.remain = G.S - (A i).used
  emptyKv : sector.emptyKv = addr
  addr : addr = recAddr G.S i (A i).recs
  room : (A i).Room G.S kvSize

theorem Chosen.target {gc : Bool} {kvSize : Nat} (h : KvdbOk G A db)
    (hc : Chosen G A gc kvSize i sector a) : Target G A kvSize i sector a where
  lt := hc.lt
  secAddr := hc.info.addr
  store := hc.info.store
  remain := (hc.info.room.resolve_left (hc.emptyKv ▸ hc.ne_failed h)).2
  emptyKv := hc.emptyKv
  addr := hc.addr
  room := hc.room

/-- A record that was deleted leaves as much room. -/
theorem Target.marked {kvSize j : Nat} {t : FdbKvStatus} (h : Target G A kvSize i sector a)
    (hrecs : (A j).recs = pre ++ r :: post) :
    Target G (A.set j ((A j).marked pre r t post)) kvSize i sector a := by
  rcases Decidable.eq_or_ne i j with rfl | hne
  · have hself : (A.set i ((A i).marked pre r t post)) i = (A i).marked pre r t post :=
      Function.update_self ..
    refine ⟨h.lt, h.secAddr, ?_, ?_, h.emptyKv, ?_, ?_⟩ <;> rw [hself]
    · exact h.store
    · rw [KvSector.marked_used hrecs]
      exact h.remain
    · rw [recAddr_marked hrecs]
      exact h.addr
    · rw [KvSector.Room, KvSector.marked_used hrecs]
      exact h.room
  · have hother : (A.set j ((A j).marked pre r t post)) i = A i := Function.update_of_ne hne _ _
    refine ⟨h.lt, h.secAddr, ?_, ?_, h.emptyKv, ?_, ?_⟩ <;> rw [hother]
    · exact h.store
    · exact h.remain
    · exact h.addr
    · exact h.room

/-- `update_sec_status`: the sector is in use, and not full. -/
theorem KvdbOk.updateSecStatus_ok {kvSize : Nat} (h : KvdbOk G A db)
    (hc : Target G A kvSize i sector a) :
    ∃ m table, updateSecStatus db sector kvSize false =
        (.noErr, false, { db.withFlash m with sectorCacheTable := table }) ∧
      Holds G.S G.n (A.set i { A i with store := .using }) m ∧
      SectorCacheOk G (A.set i { A i with store := .using }) table := by
  have hi := hc.lt
  have hbig := G.big
  have hsec := sector_le (S := G.S) hi
  have hlen := h.len
  rcases (h.sector i hi).store with ⟨hstore, -, -⟩ | ⟨hstore, -⟩
  · have hwrite : db.writeStatus (i * G.S) fdbSectorStatusNum FdbSectorStoreStatus.using.code =
        (.noErr, db.withFlash (program db.part.flash (i * G.S)
          [statusByte FdbSectorStoreStatus.using.code])) :=
      FdbKvdb.writeStatus_eq (by decide) (by decide) (by decide) (by decide) (by omega)
    refine ⟨_, modifyTable db.sectorCacheTable (i * G.S) fun e => { e with store := .using }, ?_,
      h.holds.setStore h.used_le hi (by rw [hstore]; decide), h.cache.modify hi fun e he => ?_⟩
    · unfold updateSecStatus
      rw [hc.store, hstore]
      dsimp only
      rw [hc.secAddr, hwrite, updateSectorStatusStoreCache, modifySectorCache_eq]
      rfl
    · exact { he with store := rfl }
  · have hself : A.set i { A i with store := .using } = A := by
      rw [← hstore]
      exact Function.update_eq_self i A
    rw [hself]
    refine ⟨db.part.flash, db.sectorCacheTable, ?_, h.holds, h.cache⟩
    have hroom := hc.room
    have hremain := hc.remain
    have hlt := G.sector_lt hi
    unfold KvSector.Room fdbSecRemainThreshold kvHdrDataSize fdbKvNameMax at hroom
    have hfull : ¬(sector.remain < fdbSecRemainThreshold ∨
        u32 (sector.remain - kvSize : Int) < fdbSecRemainThreshold) := by
      rw [u32_sub (by omega) (by omega)]
      unfold fdbSecRemainThreshold kvHdrDataSize fdbKvNameMax
      omega
    unfold updateSecStatus
    rw [hc.store, hstore]
    dsimp only
    rw [if_neg hfull]
    rfl

/-- The bytes of a record from its magic word on, between two writes of its status. -/
theorem record_written {m₁ : Memory}
    (hfree : ∀ p, a ≤ p → p < a + r.size → m p = 0xFF) (hbody : At m₁ (a + kvMagicOffset) r.body)
    (hframe : ∀ p, p < a + kvMagicOffset ∨ a + r.size ≤ p →
      m₁ p = program m a [statusByte FdbKvStatus.preWrite.code] p) :
    At (program m₁ a [statusByte FdbKvStatus.write.code]) a { r with status := .write }.image ∧
      ∀ p, p < a ∨ a + r.size ≤ p →
        program m₁ a [statusByte FdbKvStatus.write.code] p = m p := by
  have hsize : r.size = kvMagicOffset + r.body.length := by
    rw [KvRec.length_body, KvRec.size]
    unfold kvHdrDataSize kvMagicOffset
    omega
  unfold kvMagicOffset at hsize hbody hframe
  have hother {p : Nat} (hp : p ≠ a) (hp' : p < a + 4 ∨ a + r.size ≤ p) : m₁ p = m p := by
    rw [hframe p hp']
    rcases Nat.lt_or_gt_of_ne hp with hlt | hgt
    · exact program_apply_of_lt hlt
    · exact program_apply_of_ge (by rw [List.length_singleton]; omega)
  have hsb (c : Nat) {m : Memory} : program m a [statusByte c] a = m a &&& statusByte c := by
    simp [program]
  have hat {p : Nat} (hp : a < p) (c : Nat) : program m₁ a [statusByte c] p = m₁ p :=
    program_apply_of_ge (by rw [List.length_singleton]; omega)
  refine ⟨?_, fun p hp => ?_⟩
  · rw [KvRec.image, at_cons, at_cons, at_cons, at_cons]
    refine ⟨?_, ?_, ?_, ?_, hbody.program_disjoint (.inr (by rw [List.length_singleton]; omega))⟩
    · rw [hsb, hframe a (.inl (by omega)), hsb, hfree a (Nat.le_refl a) (by omega)]
      exact (by decide : (0xFF : UInt8) &&& statusByte FdbKvStatus.preWrite.code &&&
        statusByte FdbKvStatus.write.code = statusByte FdbKvStatus.write.code)
    · rw [hat (by omega), hother (by omega) (.inl (by omega)), hfree _ (by omega) (by omega)]
    · rw [hat (by omega), hother (by omega) (.inl (by omega)), hfree _ (by omega) (by omega)]
    · rw [hat (by omega), hother (by omega) (.inl (by omega)), hfree _ (by omega) (by omega)]
  · rcases hp with hp | hp
    · rw [program_apply_of_lt hp, hother (by omega) (.inl (by omega))]
    · rw [hat (by omega), hother (by omega) (.inr hp)]

/-- The bytes that `create_kv_blob` writes between the two writes of the status. -/
def programBody (m : Memory) (a : Nat) (r : KvRec) : Memory :=
  program
    (program
      (program m (a + kvMagicOffset)
        (kvHdrData r.size (kvCrc r.key r.value) r.key.length r.value.length))
      (a + kvHdrDataSize) r.key)
    (a + kvHdrDataSize + r.key.length) r.value

theorem programBody_at (hfree : ∀ p, a + kvMagicOffset ≤ p → p < a + r.size → m p = 0xFF) :
    At (programBody m a r) (a + kvMagicOffset) r.body := by
  have hsize : r.size = 24 + r.key.length + r.value.length := rfl
  have hlen {len nameLen valueLen : Nat} {crc : UInt32} :
      (kvHdrData len crc nameLen valueLen).length = 20 := rfl
  unfold programBody kvMagicOffset kvHdrDataSize at *
  have hhdr : At (program m (a + 4)
      (kvHdrData r.size (kvCrc r.key r.value) r.key.length r.value.length)) (a + 4)
      (kvHdrData r.size (kvCrc r.key r.value) r.key.length r.value.length) :=
    (at_replicate.mpr fun p hle hlt => hfree p hle (by rw [hlen] at hlt; omega)).program_erased
  refine At.program_next (At.program_next hhdr rfl fun p hle hlt => ?_) ?_ fun p hle hlt => ?_
  · rw [program_apply_of_ge (by rw [hlen]; exact hle)]
    exact hfree p (by omega) (by omega)
  · rw [List.length_append, hlen]
    omega
  · rw [program_apply_of_ge hle, program_apply_of_ge (by rw [hlen]; omega)]
    exact hfree p (by omega) (by omega)

theorem programBody_frame {p : Nat} (hp : p < a + kvMagicOffset ∨ a + r.size ≤ p) :
    programBody m a r p = m p := by
  have hsize : r.size = 24 + r.key.length + r.value.length := rfl
  have hlen {len nameLen valueLen : Nat} {crc : UInt32} :
      (kvHdrData len crc nameLen valueLen).length = 20 := rfl
  unfold programBody kvMagicOffset kvHdrDataSize at *
  rcases hp with hp | hp
  · rw [program_apply_of_lt (by omega), program_apply_of_lt (by omega), program_apply_of_lt hp]
  · rw [program_apply_of_ge (by omega), program_apply_of_ge (by omega),
      program_apply_of_ge (by rw [hlen]; omega)]

/-- The record that `create_kv_blob` writes. -/
def KvRec.new (key value : List UInt8) : KvRec := ⟨.write, key, value⟩

/-- The entry of a sector behind whose records there is a new one, up to `a`. -/
def KvdbSecInfo.extend (S a : Nat) (e : KvdbSecInfo) : KvdbSecInfo :=
  { e with emptyKv := a, remain := u32 (S - (a - e.addr : Int)) }

/-- The writes of `create_kv_blob`. -/
theorem writeKv_eq (db : FdbKvdb) (hend : a + (KvRec.new key value).size ≤ db.part.len) :
    writeKv db sector a key value false = (.noErr,
      { db.withFlash (program
          (programBody (program db.part.flash a [statusByte FdbKvStatus.preWrite.code]) a
            (.new key value)) a [statusByte FdbKvStatus.write.code]) with
        sectorCacheTable := modifyTable db.sectorCacheTable sector.addr
          (KvdbSecInfo.extend db.secSize (a + (KvRec.new key value).size))
        kvCacheTable := (updateKvCache db key a).kvCacheTable }) := by
  have hsize : (KvRec.new key value).size = kvHdrDataSize + key.length + value.length := rfl
  have hpos : a < db.part.len := by
    unfold kvHdrDataSize at hsize
    omega
  have hpre : db.writeStatus a fdbKvStatusNum FdbKvStatus.preWrite.code =
      (.noErr, db.withFlash (program db.part.flash a [statusByte FdbKvStatus.preWrite.code])) :=
    FdbKvdb.writeStatus_eq (by decide) (by decide) (by decide) (by decide) hpos
  have hdata {m} : (db.withFlash m).flashWrite (a + kvMagicOffset)
      (kvHdrData (kvHdrDataSize + key.length + value.length) (kvCrc key value) key.length
        value.length) = (.noErr, db.withFlash (program m (a + kvMagicOffset)
      (kvHdrData (kvHdrDataSize + key.length + value.length) (kvCrc key value) key.length
        value.length))) :=
    FdbKvdb.flashWrite_eq (by
      rw [length_kvHdrData]
      change _ ≤ db.part.len
      unfold kvMagicOffset
      unfold kvHdrDataSize at hsize
      omega)
  have hkey {m} : (db.withFlash m).flashWrite (a + kvHdrDataSize) key =
      (.noErr, db.withFlash (program m (a + kvHdrDataSize) key)) :=
    FdbKvdb.flashWrite_eq (by change _ ≤ db.part.len; omega)
  have hok : ¬FdbErr.noErr ≠ FdbErr.noErr := fun hne => hne rfl
  rw [writeKv, writeKvHdr, hpre]
  dsimp only
  rw [hdata]
  dsimp only
  rw [hkey]
  dsimp only
  rw [Bool.not_false, if_pos rfl, updateSectorEmptyAddrCache, modifySectorCache_eq, if_neg hok,
    FdbKvdb.flashWrite_eq (by change _ ≤ db.part.len; omega)]
  dsimp only
  rw [FdbKvdb.writeStatus_eq (by decide) (by decide) (by decide) (by decide) (by exact hpos)]
  rfl

/-- A sector with one more record. -/
def KvSector.pushed (s : KvSector) (r : KvRec) : KvSector where
  store := .using
  dirty := s.dirty
  recs := s.recs ++ [r]

theorem KvSector.pushed_used {s : KvSector} : (s.pushed r).used = s.used + r.size := by
  simp only [KvSector.used, KvSector.pushed, recsSize_append, recsSize_cons, recsSize_nil,
    Nat.add_zero, Nat.add_assoc]

theorem KvSector.Ok.pushed {S : Nat} {s : KvSector} (h : s.Ok S) (hroom : s.Room S r.size)
    (hr : r.Ok) : (s.pushed r).Ok S where
  fits := by
    rw [KvSector.pushed_used]
    exact hroom
  store := .inr ⟨rfl, by simp [KvSector.pushed]⟩
  dirty := h.dirty
  recs := by
    intro x hx
    rcases List.mem_append.mp hx with hx | hx
    · exact h.recs x hx
    · rwa [List.mem_singleton.mp hx]

theorem SecInfoOk.extend {S : Nat} {s : KvSector} {e : KvdbSecInfo}
    (h : SecInfoOk S i { s with store := .using } e) (hroom : s.Room S r.size)
    (hmax : i * S + S < 0xFFFFFFFF) :
    SecInfoOk S i (s.pushed r) (e.extend S (recAddr S i s.recs + r.size)) where
  addr := h.addr
  checkOk := h.checkOk
  store := h.store
  dirty := h.dirty
  dirty_ne := h.dirty_ne
  combined := h.combined
  room := by
    have haddr := h.addr
    refine .inr ⟨recAddr_append.symm, ?_⟩
    rw [KvSector.pushed_used]
    change u32 (S - ((recAddr S i s.recs + r.size : Nat) - e.addr : Int)) = _
    unfold KvSector.Room KvSector.used at hroom
    unfold u32 recAddr KvSector.used
    omega

/-- The sectors after a record was written. -/
theorem KvdbOk.push_ok {m m' : Memory} {table : List KvdbSecInfo} (h : KvdbOk G A db)
    (hc : Target G A r.size i sector a) (hr : r.Ok)
    (hm : Holds G.S G.n (A.set i { A i with store := .using }) m)
    (htable : SectorCacheOk G (A.set i { A i with store := .using }) table)
    (hat : At m' a r.image) (hframe : ∀ p, p < a ∨ a + r.size ≤ p → m' p = m p) :
    KvdbOk G (A.set i ((A i).pushed r)) { db.withFlash m' with
      sectorCacheTable := modifyTable table (i * G.S) (KvdbSecInfo.extend G.S (a + r.size)) } := by
  have hi := hc.lt
  have haddr := hc.addr
  have hself : (A.set i { A i with store := .using }) i = { A i with store := .using } :=
    Function.update_self ..
  have hset : (A.set i { A i with store := .using }).set i ((A i).pushed r) =
      A.set i ((A i).pushed r) :=
    Function.update_idem ..
  have hused : ∀ j < G.n, ((A.set i { A i with store := .using }) j).used ≤ G.S := by
    intro j hj
    rcases Decidable.eq_or_ne j i with rfl | hne
    · rw [hself]
      exact h.used_le j hj
    · rw [KvSectors.set, Function.update_of_ne hne]
      exact h.used_le j hj
  have hroom := hc.room
  refine ⟨h.secSize, h.len, h.oldest, ?_, fun j hj => ?_, ?_⟩
  · have hset' : (A.set i { A i with store := .using }).set i
        { (A.set i { A i with store := .using }) i with
          recs := ((A.set i { A i with store := .using }) i).recs ++ [r] } =
          A.set i ((A i).pushed r) := by
      rw [hself]
      exact hset
    rw [← hset']
    refine hm.push hused hi ?_ ?_ ?_ <;> rw [hself]
    · unfold KvSector.Room at hroom
      change (A i).used + r.size ≤ G.S
      omega
    · exact haddr ▸ hat
    · exact haddr ▸ hframe
  · rcases Decidable.eq_or_ne j i with rfl | hne
    · rw [KvSectors.set, Function.update_self]
      exact (h.sector j hj).pushed hroom hr
    · rw [KvSectors.set, Function.update_of_ne hne]
      exact h.sector j hj
  · rw [← hset, haddr]
    refine htable.modify hi fun e he => ?_
    rw [hself] at he
    exact he.extend hroom (G.sector_lt hi)

theorem Target.ne_failed {kvSize : Nat} (h : KvdbOk G A db) (hc : Target G A kvSize i sector a) :
    a ≠ failedAddr := by
  have hend := h.end_lt hc.lt
  have hlt := G.sector_lt hc.lt
  have haddr := hc.addr
  unfold failedAddr
  omega

/-- `create_kv_blob` in a sector that has room. -/
theorem KvdbOk.createKvBlob_ok (h : KvdbOk G A db)
    (hc : Target G A (KvRec.new key value).size i sector a) (hr : (KvRec.new key value).Ok) :
    ∃ m table, createKvBlob db sector key value = some (.noErr, sector,
        { db.withFlash m with
          sectorCacheTable := table, kvCacheTable := (updateKvCache db key a).kvCacheTable }) ∧
      KvdbOk G (A.set i ((A i).pushed (.new key value)))
        { db.withFlash m with sectorCacheTable := table } := by
  have hi := hc.lt
  have haddr := hc.addr
  have hsize : (KvRec.new key value).size = kvHdrDataSize + key.length + value.length := rfl
  have hkeyLen := hr.keyLen
  have hroom := hc.room
  have hsec := sector_le (S := G.S) hi
  have hlen := h.len
  have hend : a + (KvRec.new key value).size ≤ db.part.len := by
    unfold KvSector.Room KvSector.used at hroom
    unfold recAddr at haddr
    omega
  have hlong : ¬key.length > fdbKvNameMax := by
    change key.length < fdbKvNameMax at hkeyLen
    omega
  have hfits : ¬kvHdrDataSize + key.length + value.length > db.secSize - sectorHdrDataSize := by
    rw [h.secSize]
    unfold KvSector.Room KvSector.used at hroom
    omega
  have hempty : sector.emptyKv ≠ failedAddr := hc.emptyKv ▸ hc.ne_failed h
  obtain ⟨m₁, table₁, hstatus, hm₁, htable₁⟩ := h.updateSecStatus_ok hc
  have hself : (A.set i { A i with store := .using }) i = { A i with store := .using } :=
    Function.update_self ..
  have hfree : ∀ p, a ≤ p → p < a + (KvRec.new key value).size → m₁ p = 0xFF := by
    intro p hle hlt
    have hfreeI := hm₁.free (p := p) hi
    rw [hself] at hfreeI
    refine hfreeI (h.used_le i hi) (haddr ▸ hle) ?_
    unfold KvSector.Room KvSector.used at hroom
    unfold recAddr at haddr
    omega
  obtain ⟨hat, hframe⟩ := record_written (r := .new key value) hfree
    (programBody_at fun p hle hlt => by
      unfold kvMagicOffset at hle
      rw [program_apply_of_ge (by rw [List.length_singleton]; omega)]
      exact hfree p (by omega) hlt)
    fun p hp => programBody_frame hp
  have hok := h.push_ok hc hr hm₁ htable₁ hat hframe
  have hwrite : writeKv { db.withFlash m₁ with sectorCacheTable := table₁ } sector a key value
      false = _ :=
    writeKv_eq { db.withFlash m₁ with sectorCacheTable := table₁ } hend
  refine ⟨_, _, ?_, hok⟩
  have hgc : ¬(FdbErr.noErr = FdbErr.noErr ∧ false = true) := fun hf => Bool.noConfusion hf.2
  rw [createKvBlob, if_neg hlong]
  dsimp only
  rw [if_neg hfits, if_pos hempty]
  dsimp only [Option.bind_eq_bind, Option.bind_some]
  rw [hc.emptyKv, if_neg (hc.ne_failed h), ← hsize, hstatus]
  dsimp only
  rw [hwrite]
  dsimp only
  rw [if_neg hgc, hc.secAddr]
  rw [← h.secSize]
  rfl

end DoorLock
