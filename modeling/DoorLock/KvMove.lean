import DoorLock.KvWrite

/-!
# Moving a record

`move_kv` copies a record piece by piece behind those of another sector, and deletes the old one.
-/

namespace DoorLock

open Nor CString

variable {G : KvGeom} {A : KvSectors} {db : FdbKvdb} {sector : KvdbSecInfo}
  {i j a src dst pos : Nat} {r : KvRec} {pre post : List KvRec} {bytes : List UInt8}
  {m : Memory} {kv : FdbKv}

theorem fdbFlashWrite_eq {part : FalPartition} (h : a + bytes.length ≤ part.len) :
    fdbFlashWrite part a bytes =
      (.noErr, { part with flash := program part.flash a bytes }) :=
  if_neg (by omega)

/-- The pieces of a record are copied one behind the other. -/
theorem copyLoop_ok (db : FdbKvdb) {fuel : Nat} (hsrc : At db.part.flash src bytes)
    (hdst : At db.part.flash dst (bytes.take pos))
    (hfree : ∀ p, dst + pos ≤ p → p < dst + bytes.length → db.part.flash p = 0xFF)
    (hdisj : src + bytes.length ≤ dst ∨ dst + bytes.length ≤ src)
    (hsrcLe : src + bytes.length ≤ db.part.len) (hdstLe : dst + bytes.length ≤ db.part.len)
    (hpos : pos ≤ bytes.length) (hfuel : bytes.length ≤ pos + fuel) :
    ∃ m, copyLoop src dst bytes.length fuel pos .noErr db = some (.noErr, db.withFlash m) ∧
      At m dst bytes ∧ ∀ p, p < dst ∨ dst + bytes.length ≤ p → m p = db.part.flash p := by
  induction fuel generalizing db pos with
  | zero =>
    rw [List.take_of_length_le (by omega)] at hdst
    exact ⟨db.part.flash, rfl, hdst, fun _ _ => rfl⟩
  | succ fuel ih =>
    rw [copyLoop]
    split
    case isTrue hlt =>
      obtain ⟨size, hsize⟩ : ∃ k, k = if pos + 32 < bytes.length then 32 else bytes.length - pos :=
        ⟨_, rfl⟩
      have hin : 0 < size ∧ pos + size ≤ bytes.length := by split at hsize <;> omega
      have hlen : ((bytes.drop pos).take size).length = size :=
        List.length_take_of_le (by rw [List.length_drop]; omega)
      have hread : fdbFlashRead db.part (src + pos) size = some ((bytes.drop pos).take size) := by
        rw [fdbFlashRead_eq (by omega), hsrc.read_drop_take hin.2]
      have htake : bytes.take pos ++ (bytes.drop pos).take size = bytes.take (pos + size) :=
        List.take_add.symm
      have hnext := hdst.program_next (b := dst + pos) (by rw [List.length_take_of_le hpos])
        fun p hle hp => hfree p hle (by rw [hlen] at hp; omega)
      rw [htake] at hnext
      have hsrc' : At (db.withFlash (program db.part.flash (dst + pos)
          ((bytes.drop pos).take size))).part.flash src bytes :=
        hsrc.program_disjoint (by rw [hlen]; omega)
      obtain ⟨m, hloop, hat, hframe⟩ := ih _ hsrc' hnext
        (fun p hle hp => (program_apply_of_ge (by rw [hlen]; omega)).trans (hfree p (by omega) hp))
        hsrcLe hdstLe hin.2 (by omega)
      refine ⟨m, ?_, hat, fun p hp => (hframe p hp).trans ?_⟩
      · rw [← hsize]
        dsimp only
        rw [hread, Option.bind_eq_bind, Option.bind_some]
        rw [fdbFlashWrite_eq (by rw [hlen]; omega)]
        exact hloop
      · rcases hp with hp | hp
        · exact program_apply_of_lt (by omega)
        · exact program_apply_of_ge (by rw [hlen]; omega)
    case isFalse hge =>
      rw [List.take_of_length_le (Nat.le_of_not_lt hge)] at hdst
      exact ⟨db.part.flash, rfl, hdst, fun _ _ => rfl⟩

/-- Two records of a store do not overlap. -/
theorem KvdbOk.record_disjoint {kvSize : Nat} (h : KvdbOk G A db)
    (hc : Target G A kvSize i sector a) (hj : j < G.n) (hrecs : (A j).recs = pre ++ r :: post) :
    recAddr G.S j pre + r.size ≤ a ∨ a + kvSize ≤ recAddr G.S j pre := by
  have haddr := hc.addr
  have hend := h.rec_end hj hrecs
  have hroom := hc.room
  have hle : recAddr G.S j (pre ++ [r]) ≤ recAddr G.S j (A j).recs :=
    recAddr_le (by rw [hrecs, List.append_assoc, List.singleton_append])
  rw [recAddr_append] at hle
  have hlo : i * G.S + sectorHdrDataSize ≤ recAddr G.S i (A i).recs := le_recAddr
  have hlo' : j * G.S + sectorHdrDataSize ≤ recAddr G.S j pre := le_recAddr
  unfold KvSector.Room KvSector.used at hroom
  rcases Decidable.eq_or_ne j i with rfl | hne
  · exact .inl (haddr ▸ hle)
  · unfold recAddr at *
    rcases sector_disjoint (S := G.S) hne with hd | hd <;> rw [Nat.succ_mul] at hd <;> omega

/-- `move_kv` copies a record to a sector that has room. -/
theorem KvdbOk.copyKv_ok {t : FdbKvStatus} (h : KvdbOk G A db) (hc : Target G A r.size i sector a)
    (hj : j < G.n) (hrecs : (A j).recs = pre ++ { r with status := t } :: post) :
    ∃ m table, copyKv db (r.toKv (recAddr G.S j pre)) sector a = some (.noErr,
        { db.withFlash m with
          sectorCacheTable := table, kvCacheTable := (updateKvCache db r.key a).kvCacheTable }) ∧
      KvdbOk G (A.set i ((A i).pushed (.new r.key r.value)))
        { db.withFlash m with sectorCacheTable := table } := by
  have hi := hc.lt
  have haddr := hc.addr
  have hroom := hc.room
  have hsec := sector_le (S := G.S) hi
  have hlen := h.len
  have hdisj := h.record_disjoint hc hj hrecs
  have hendJ := h.rec_end hj hrecs
  have hsecJ := sector_le (S := G.S) hj
  have hr := (h.sector j hj).recs _ (by
    rw [hrecs]
    exact List.mem_append_right _ List.mem_cons_self)
  have hsize : r.size = kvMagicOffset + r.body.length := by
    rw [KvRec.length_body, KvRec.size]
    unfold kvHdrDataSize kvMagicOffset
    omega
  have hsizeT : KvRec.size { r with status := t } = r.size := rfl
  rw [hsizeT] at hdisj hendJ
  unfold KvSector.Room KvSector.used at hroom
  have haddr' : a = i * G.S + sectorHdrDataSize + recsSize (A i).recs := haddr
  obtain ⟨m₁, table₁, hstatus, hm₁, htable₁⟩ := h.updateSecStatus_ok hc
  have hself : (A.set i { A i with store := .using }) i = { A i with store := .using } :=
    Function.update_self ..
  have hfree : ∀ p, a ≤ p → p < a + r.size → m₁ p = 0xFF := by
    intro p hle hlt
    have hfreeI := hm₁.free (p := p) hi
    rw [hself] at hfreeI
    exact hfreeI (h.used_le i hi) (haddr ▸ hle) (by omega)
  have hrecs₁ : ((A.set i { A i with store := .using }) j).recs =
      pre ++ { r with status := t } :: post := by
    rcases Decidable.eq_or_ne j i with rfl | hne
    · rw [hself]
      exact hrecs
    · rw [KvSectors.set, Function.update_of_ne hne, hrecs]
  have hbody : At m₁ (recAddr G.S j pre + kvMagicOffset) r.body :=
    (at_cons.mp (at_cons.mp (at_cons.mp (at_cons.mp (hm₁.rec hj hrecs₁)).2).2).2).2
  obtain ⟨m₂, hm₂⟩ : ∃ m, m = program m₁ a [statusByte FdbKvStatus.preWrite.code] := ⟨_, rfl⟩
  have hbody₂ : At m₂ (recAddr G.S j pre + kvMagicOffset) r.body := by
    rw [hm₂]
    exact hbody.program_disjoint (by rw [List.length_singleton]; omega)
  have hfree₂ : ∀ p, a + kvMagicOffset + 0 ≤ p → p < a + kvMagicOffset + r.body.length →
      m₂ p = 0xFF := by
    intro p hle hlt
    unfold kvMagicOffset at *
    rw [hm₂, program_apply_of_ge (by rw [List.length_singleton]; omega)]
    exact hfree p (by omega) (by omega)
  obtain ⟨m₃, hloop, hat₃, hframe₃⟩ := copyLoop_ok { db.withFlash m₂ with
      sectorCacheTable := table₁ } hbody₂ at_nil hfree₂ (by omega)
    (by change _ ≤ db.part.len; omega) (by change _ ≤ db.part.len; omega) (Nat.zero_le _)
    (Nat.le_add_left _ _)
  obtain ⟨hat, hframe⟩ := record_written (r := .new r.key r.value) hfree hat₃ fun p hp => by
    rw [← hm₂]
    exact hframe₃ p (by unfold kvMagicOffset at *; change p < a + 4 ∨ a + r.size ≤ p at hp; omega)
  have hok := h.push_ok (r := .new r.key r.value) hc ⟨hr.keyLen, hr.noNul⟩ hm₁ htable₁ hat hframe
  refine ⟨_, _, ?_, hok⟩
  have hkvLen : (r.toKv (recAddr G.S j pre)).len = r.size := rfl
  have hbodyLen : r.size - kvMagicOffset = r.body.length := by omega
  have hwrite (db' : FdbKvdb) (hpart : db'.part.len = db.part.len) {code : Nat} (hcode : code < 8)
      (hcode0 : code ≠ 0) : db'.writeStatus a fdbKvStatusNum code =
        (.noErr, db'.withFlash (program db'.part.flash a [statusByte code])) :=
    FdbKvdb.writeStatus_eq (by decide) (by decide) hcode hcode0 (by omega)
  have hsecAddr (m : Memory) : ((({ db.withFlash m₂ with
      sectorCacheTable := table₁ } : FdbKvdb).withFlash m₃).withFlash m).secAddr a = i * G.S :=
    h.secAddr_eq (by omega) (by omega)
  have hname : (r.toKv (recAddr G.S j pre)).name.take (r.toKv (recAddr G.S j pre)).nameLen =
      r.key := List.take_length
  have hendAddr : a + kvHdrDataSize + (r.toKv (recAddr G.S j pre)).nameLen +
      (r.toKv (recAddr G.S j pre)).valueLen = a + r.size := by
    change a + kvHdrDataSize + r.key.length + r.value.length =
      a + (kvHdrDataSize + r.key.length + r.value.length)
    omega
  rw [copyKv, hkvLen, hstatus]
  dsimp only
  rw [hwrite _ (by exact rfl) (by decide) (by decide)]
  dsimp only
  rw [hbodyLen, r.addrStart_toKv]
  change (copyLoop _ _ _ _ _ _ { db.withFlash (program m₁ a
    [statusByte FdbKvStatus.preWrite.code]) with sectorCacheTable := table₁ } >>= _) = _
  rw [← hm₂, hloop, Option.bind_eq_bind, Option.bind_some]
  dsimp only
  rw [hwrite _ (by exact rfl) (by decide) (by decide)]
  dsimp only
  rw [hsecAddr, hendAddr, hname, updateSectorEmptyAddrCache, modifySectorCache_eq]
  rw [← h.secSize]
  rfl

end DoorLock
