import DoorLock.KvMoved

/-!
# Collection

`do_gc` moves the valid records of a dirty sector to clean ones and erases it. The records of one
sector fit an erased one, so one that is kept empty is enough, and no value is lost.
-/

namespace DoorLock

variable {G : KvGeom} {K : KvNames} {A A' : KvSectors} {db db' db'' : FdbKvdb} {i j a : Nat}
  {r x : KvRec} {pre post : List KvRec} {key value : List UInt8}

/-! ## The records of a sector -/

/-- Where a collection of sector `j` is when the records `pre` have been passed: none of them is
valid, and a clean sector holds no more than they do. -/
structure GcAt (G : KvGeom) (A : KvSectors) (j : Nat) (pre post : List KvRec) : Prop where
  halted : KvHalted G A
  lt : j < G.n
  recs : (A j).recs = pre ++ post
  dirty : (A j).dirty ≠ .no
  dead : ∀ x ∈ pre, x.status = .deleted
  free : ∃ e < G.n, (A e).dirty = .no ∧ (A e).used ≤ sectorHdrDataSize + recsSize pre

/-- The next record is deleted by now, and the other sectors have got no more than a copy of it. -/
theorem GcAt.next (hg : GcAt G A j pre (r :: post)) (hm : Moved G A A')
    (hdirty : (A' j).dirty ≠ .no) (hx : x.status = .deleted) (hsize : x.size = r.size)
    (hrecs : (A' j).recs = pre ++ x :: post) (hused : ∀ k ≠ j, (A' k).used ≤ (A k).used + r.size) :
    GcAt G A' j (pre ++ [x]) post := by
  obtain ⟨e, he, hclean, hfree⟩ := hg.free
  have hej : e ≠ j := by
    rintro rfl
    exact hg.dirty hclean
  refine ⟨hm.halted, hg.lt, ?_, hdirty, fun y hy => ?_, e, he, hm.clean hclean, ?_⟩
  · rw [hrecs, List.append_assoc, List.singleton_append]
  · rcases List.mem_append.mp hy with hy | hy
    · exact hg.dead y hy
    · rwa [List.mem_singleton.mp hy]
  · have hle := hused e hej
    rw [recsSize_append, recsSize_cons, recsSize_nil]
    omega

/-- A deletion that was only prepared is met in the recovery only. -/
def Recovers (G : KvGeom) (A : KvSectors) (db : FdbKvdb) : Prop :=
  db.inRecoveryCheck = true ∨ ∀ i < G.n, (A i).Quiet

theorem Recovers.next (h : Recovers G A db) (hw : KvWrites G K A' db db') (hm : Moved G A A') :
    Recovers G A' db' :=
  h.imp hw.recovery.trans fun hq i hi => hm.quiet (hq i hi)

/-- A collection that has come to a record has room for it in a clean sector. -/
theorem GcAt.room (hg : GcAt G A j pre (r :: post)) (h : KvOk G K A db) :
    ∃ e < G.n, (A e).dirty = .no ∧ (A e).Room G.S r.size := by
  obtain ⟨e, he, hclean, hused⟩ := hg.free
  have hfits := (h.sector j hg.lt).fits
  rw [KvSector.used, hg.recs, recsSize_append, recsSize_cons] at hfits
  refine ⟨e, he, hclean, ?_⟩
  unfold KvSector.Room
  omega

/-- `do_gc` moves a record that is valid or prepared for deletion, and passes a deleted one. -/
theorem GcAt.step (hg : GcAt G A j pre (r :: post)) (h : KvOk G K A db)
    (hgc : db.gcRequest = true) (hlast : db.lastIsCompleteDel = false)
    (hrecovers : Recovers G A db) {kv : FdbKv} (hkv : kv = r.toKv (recAddr G.S j pre)) :
    Yields (if kv.crcIsOk ∧ (kv.status = .write ∨ kv.status = .preDelete) then do
        let (_, db) ← moveKv db kv
        some db
      else some db) fun db' => ∃ A' r', KvWrites G K A' db db' ∧ Moved G A A' ∧
        r'.size = r.size ∧ GcAt G A' j (pre ++ [r']) post := by
  have hj := hg.lt
  have hmem : r ∈ (A j).recs := by
    rw [hg.recs]
    exact List.mem_append_right _ List.mem_cons_self
  have hnew : (KvRec.new r.key r.value).size = r.size := rfl
  obtain ⟨e, he, hclean, hroom⟩ := hg.room h
  subst hkv
  refine .ite (fun hyes => ?_) fun hno => .pure ?_
  · rcases hyes.2 with hr | hr
    · have hr : r.status = .write := hr
      refine (h.moveKv_ok hgc hj hg.recs hr hg.dirty ⟨e, he, hclean, hroom⟩).bind ?_
      rintro ⟨result, db'⟩ ⟨-, i, hi, hij, -, hw⟩
      have hself : A.replaced j pre r post i (.new r.key r.value) j =
        (A j).marked pre r .deleted post := KvSectors.replaced_of_ne hij
      have hm := h.moved_replaced hg.halted hj hi hij hg.recs hr hg.dirty
      refine .pure ⟨_, { r with status := .deleted }, hw, hm, rfl,
        hg.next hm ?_ rfl rfl ?_ fun k hk => ?_⟩
      · rw [hself]
        exact (A j).dirty.mark_ne_no
      · rw [hself]
        rfl
      · rw [KvSectors.replaced_apply hij hk]
        split
        case isTrue heq =>
          rw [KvSector.pushed_used, hnew, heq]
        case isFalse => exact Nat.le_add_right _ _
    · have hr : r.status = .preDelete := hr
      have hrecovery : db.inRecoveryCheck = true :=
        hrecovers.resolve_right fun hq => hq j hj r hmem hr
      refine (h.movePrepared_ok hrecovery hlast hg.halted hj hg.recs hr hg.dirty).bind ?_
      rintro ⟨result, db'⟩ (⟨-, sector, gc, halloc, -⟩ | ⟨-, A', hres, hm, hw⟩)
      · rw [hgc] at halloc
        exact absurd hroom (halloc.no_room h.toKvdbOk he hclean)
      obtain @⟨A₁, post₁, hcopied, hrecs₁⟩ := hres
      obtain ⟨post', hrecs', hpost⟩ := hcopied.recs hg.recs
      obtain rfl : post₁ = post := by
        have heq := hrecs₁.symm.trans hrecs'
        rw [List.append_cancel_left_eq, List.cons_inj_right] at heq
        exact heq.trans (hpost hgc hg.dirty)
      have hself : (A₁.set j ((A₁ j).marked pre r .deleted post₁)) j =
        (A₁ j).marked pre r .deleted post₁ := Function.update_self ..
      refine .pure ⟨_, { r with status := .deleted }, hw, hm, rfl,
        hg.next hm ?_ rfl rfl ?_ fun k hk => ?_⟩
      · rw [hself]
        exact (A₁ j).dirty.mark_ne_no
      · rw [hself]
        rfl
      · rw [KvSectors.set, Function.update_of_ne hk]
        exact hcopied.used_le k
  · have hr : r.status = .deleted := by
      rcases hg.halted.status j hj r hmem with hr | ⟨hr | hr, -⟩
      · exact absurd ⟨rfl, .inl hr⟩ hno
      · exact hr
      · exact absurd ⟨rfl, .inr hr⟩ hno
    exact ⟨A, r, .refl h hlast, .refl hg.halted, rfl,
      hg.next (.refl hg.halted) hg.dirty hr rfl hg.recs fun _ _ => Nat.le_add_right _ _⟩

theorem gcSectorLoop_succ {fuel : Nat} {sector : KvdbSecInfo} {kv kv' : FdbKv} {result : FdbErr}
    (hread : readKv db kv = some (result, kv', db)) :
    gcSectorLoop (fuel + 1) db sector kv =
      (if kv'.crcIsOk ∧ (kv'.status = .write ∨ kv'.status = .preDelete) then do
        let (_, db) ← moveKv db kv'
        some db
      else some db) >>= fun db =>
        let next := getNextKvAddr db sector kv'
        if next = failedAddr then some db
        else gcSectorLoop fuel db sector { kv' with addrStart := next } := by
  rw [gcSectorLoop, hread, Option.bind_eq_bind, Option.bind_some]
  dsimp only
  split
  case isTrue =>
    rw [Option.bind_eq_bind]
    cases moveKv db kv' <;> rfl
  case isFalse => rfl

/-- The loop of `do_gc` over the records of a sector. -/
theorem GcAt.loop {fuel : Nat} {sector : KvdbSecInfo} {kv : FdbKv}
    (hg : GcAt G A j pre (r :: post)) (h : KvOk G K A db) (hgc : db.gcRequest = true)
    (hlast : db.lastIsCompleteDel = false) (hrecovers : Recovers G A db)
    (hstore : sector.store ≠ .empty) (hsec : sector.addr = j * G.S)
    (hkv : kv.addrStart = recAddr G.S j pre) (hfuel : post.length < fuel) :
    Yields (gcSectorLoop fuel db sector kv) fun db' => ∃ A' pre', KvWrites G K A' db db' ∧
      Moved G A A' ∧ GcAt G A' j pre' [] := by
  induction post generalizing pre r A db kv fuel with
  | nil =>
    obtain ⟨fuel, rfl⟩ : ∃ f, fuel = f + 1 := ⟨fuel - 1, by omega⟩
    rw [gcSectorLoop_succ (h.readKv_eq hg.lt hg.recs hkv)]
    refine (hg.step h hgc hlast hrecovers rfl).bind ?_
    rintro db₁ ⟨A₁, r₁, hw, hm, hsize, hg₁⟩
    have hnext := hw.ok.getNextKvAddr_last hg.lt (hg₁.recs.trans (List.append_nil _))
      (r.addrStart_toKv _) hsec rfl hsize.symm
    dsimp only
    rw [hnext, if_pos rfl]
    exact .pure ⟨A₁, _, hw, hm, hg₁⟩
  | cons r' post ih =>
    obtain ⟨fuel, rfl⟩ : ∃ f, fuel = f + 1 := ⟨fuel - 1, by omega⟩
    rw [gcSectorLoop_succ (h.readKv_eq hg.lt hg.recs hkv)]
    refine (hg.step h hgc hlast hrecovers rfl).bind ?_
    rintro db₁ ⟨A₁, r₁, hw, hm, hsize, hg₁⟩
    have hrecs : (A₁ j).recs = pre ++ r₁ :: r' :: post := by
      rw [hg₁.recs, List.append_assoc, List.singleton_append]
    have hnext :=
      hw.ok.getNextKvAddr_rec hg.lt hrecs hstore hsec (r.addrStart_toKv _) rfl hsize.symm
    have hne : recAddr G.S j (pre ++ [r₁]) ≠ failedAddr := by
      have hle := recAddr_le (S := G.S) (i := j) hg₁.recs
      have hend := hw.ok.end_lt hg.lt
      have hlt := G.sector_lt hg.lt
      unfold failedAddr
      omega
    obtain ⟨hgc₁, hlast₁, -⟩ := hw.frame
    dsimp only
    rw [hnext, if_neg hne]
    refine (ih hg₁ hw.ok (hgc₁.trans hgc) hlast₁ (hrecovers.next hw hm) rfl ?_).mono ?_
    · rw [List.length_cons] at hfuel
      omega
    · rintro db₂ ⟨A₂, pre₂, hw₂, hm₂, hg₂⟩
      exact ⟨A₂, pre₂, hw.trans hw₂, hm.trans hm₂, hg₂⟩

/-! ## Formatting -/

theorem formatSector_eq (hsize : db.secSize = G.S) (hlen : db.part.len = G.n * G.S)
    (hi : i < G.n) :
    formatSector db (i * G.S) sectorNotCombined = some (.noErr,
      { db.withFlash (Nor.program (Nor.erase db.part.flash (i * G.S) G.S) (i * G.S)
          (sectorHdr sectorNotCombined)) with
        sectorCacheTable := (updateSectorCache db { KvdbSecInfo.fresh with
          addr := i * G.S, checkOk := false, emptyKv := failedAddr }).sectorCacheTable }) := by
  have hmod : ¬i * G.S % db.secSize ≠ 0 := by
    rw [hsize, Nat.mul_mod_left]
    exact fun hne => hne rfl
  have hsec := sector_le (S := G.S) hi
  have hbig := G.big
  have hend : ¬i * G.S + db.secSize > db.part.len := by
    rw [hsize, hlen]
    omega
  have hhdr : (sectorHdr sectorNotCombined).length = 16 := rfl
  have hwrite (part : FalPartition) (hpart : part.len = db.part.len) :
      FdbKvdb.flashWrite { db with part := part } (i * G.S) (sectorHdr sectorNotCombined) = _ :=
    FdbKvdb.flashWrite_eq (by
      change _ ≤ part.len
      rw [hhdr, hpart]
      omega)
  rw [formatSector, if_neg hmod, fdbFlashErase, if_neg hend]
  dsimp only
  rw [hwrite { db.part with flash := Nor.erase db.part.flash (i * G.S) db.secSize } rfl, ← hsize]
  rfl

theorem KvSector.Ok.formatted : KvSector.formatted.Ok G.S where
  fits := G.room
  store := .inl ⟨rfl, rfl, rfl⟩
  dirty := by decide
  recs := fun r hr => by cases hr

/-- `format_sector` -/
theorem KvdbOk.format_ok (h : KvdbOk G A db) (hi : i < G.n) :
    ∃ m table, formatSector db (i * G.S) sectorNotCombined =
        some (.noErr, { db.withFlash m with sectorCacheTable := table }) ∧
      KvdbOk G (A.set i .formatted) { db.withFlash m with sectorCacheTable := table } := by
  have hS : sectorHdrDataSize ≤ G.S := by
    have := G.room
    omega
  refine ⟨_, _, formatSector_eq h.secSize h.len hi, h.secSize, h.len, h.oldest,
    h.holds.format h.used_le hS, fun j hj => ?_, h.cache.update hi rfl (.inl rfl)⟩
  rcases Decidable.eq_or_ne j i with rfl | hne
  · rw [KvSectors.set, Function.update_self]
    exact .formatted
  · rw [KvSectors.set, Function.update_of_ne hne]
    exact h.sector j hj

theorem KvOk.format_ok (h : KvOk G K A db) (hi : i < G.n)
    (hdead : ∀ x ∈ (A i).recs, x.status = .deleted) :
    ∃ m table, formatSector db (i * G.S) sectorNotCombined =
        some (.noErr, { db.withFlash m with sectorCacheTable := table }) ∧
      KvOk G K (A.set i .formatted) { db.withFlash m with sectorCacheTable := table } := by
  obtain ⟨m, table, heq, hok⟩ := h.toKvdbOk.format_ok hi
  refine ⟨m, table, heq, hok, ?_, ?_, h.kvCache.length, h.kvCache.first, fun hk ha => ?_⟩
  · intro a x hat
    exact h.keys ((recAt_set_formatted h.used_le hi).mp hat).1
  · intro a a' x x' hat hat' hs hs'
    exact h.one ((recAt_set_formatted h.used_le hi).mp hat).1
      ((recAt_set_formatted h.used_le hi).mp hat').1 hs hs'
  · obtain ⟨x, hat, hs, hcrc⟩ := h.kvCache.entry hk ha
    exact ⟨x, (h.recAt_formatted hi hdead (by rw [hs]; decide)).mpr hat, hs, hcrc⟩

/-! ## `do_gc` -/

/-- The sector behind another, or the first. -/
theorem KvdbOk.getNextSectorAddr_zero {sector : KvdbSecInfo} (h : KvdbOk G A db)
    (haddr : sector.addr = i * G.S) (hcombined : sector.combined = sectorNotCombined) :
    ∃ o < G.n, getNextSectorAddr db sector 0 = o * G.S := by
  have hmax : db.maxSize = G.n * G.S := h.len
  have hle : 0 + G.S ≤ G.n * G.S := by
    rw [Nat.zero_add]
    exact Nat.le_mul_of_pos_left _ G.num_pos
  rw [getNextSectorAddr, if_pos hcombined, h.secSize, hmax, haddr, if_pos hle, ← Nat.succ_mul]
  split
  case isTrue hlt => exact ⟨i + 1, Nat.lt_of_mul_lt_mul_right hlt, rfl⟩
  case isFalse => exact ⟨0, G.num_pos, (Nat.zero_mul _).symm⟩

/-- A sector is being collected. -/
theorem KvOk.setGc_ok (h : KvOk G K A db) (hj : j < G.n) (hdirty : (A j).dirty ≠ .no) :
    ∃ m, db.writeStatus (j * G.S + sectorDirtyOffset) fdbSectorStatusNum
        FdbSectorDirtyStatus.gc.code = (.noErr, db.withFlash m) ∧
      KvOk G K (A.set j { A j with dirty := .gc }) (db.withFlash m) := by
  have hbig := G.big
  have hsec := sector_le (S := G.S) hj
  have hlen := h.len
  have hrec {a x} : RecAt G (A.set j { A j with dirty := .gc }) a x ↔ RecAt G A a x :=
    recAt_set_of_recs hj rfl
  have hcode : (A j).dirty.code ≤ FdbSectorDirtyStatus.gc.code := by
    cases (A j).dirty <;> decide
  have hrecs : (A j).recs ≠ [] := by
    rcases (h.sector j hj).store with hst | hst
    · exact absurd hst.2.2 hdirty
    · exact hst.2
  refine ⟨_, FdbKvdb.writeStatus_eq (by decide) (by decide) (by decide) (by decide)
    (by unfold sectorDirtyOffset; omega), ⟨h.secSize, h.len, h.oldest,
      h.holds.setDirty h.used_le hj hcode, fun k hk => ?_, ?_⟩, ?_, ?_, ?_⟩
  · rcases Decidable.eq_or_ne k j with rfl | hne
    · rw [KvSectors.set, Function.update_self]
      have hok := h.sector k hk
      refine ⟨hok.fits, hok.store.imp (fun hst => absurd hst.2.2 hdirty) id, ?_, hok.recs⟩
      exact fun hf => by cases hf
    · rw [KvSectors.set, Function.update_of_ne hne]
      exact h.sector k hk
  · refine h.cache.same fun e he => { he with dirty := ?_ }
    exact ⟨fun hno => absurd (he.dirty.mp hno) hdirty, fun hno => by cases hno⟩
  · exact fun hat => h.keys (hrec.mp hat)
  · exact fun hat hat' => h.one (hrec.mp hat) (hrec.mp hat')
  · refine ⟨h.kvCache.length, h.kvCache.first, fun hk ha => ?_⟩
    obtain ⟨x, hat, hs, hcrc⟩ := h.kvCache.entry hk ha
    exact ⟨x, hrec.mpr hat, hs, hcrc⟩

/-- A sector is kept empty. -/
def HasEmpty (G : KvGeom) (A : KvSectors) : Prop := ∃ e < G.n, (A e).store = .empty

/-- Two sectors hold no deleted records. -/
def TwoClean (G : KvGeom) (A : KvSectors) : Prop :=
  ∃ i < G.n, ∃ j < G.n, i ≠ j ∧ (A i).dirty = .no ∧ (A j).dirty = .no

theorem KvdbOk.clean_of_empty (h : KvdbOk G A db) (hi : i < G.n) (hst : (A i).store = .empty) :
    (A i).dirty = .no ∧ (A i).recs = [] := by
  rcases (h.sector i hi).store with ⟨-, hrecs, hdirty⟩ | ⟨hst', -⟩
  · exact ⟨hdirty, hrecs⟩
  · rw [hst] at hst'
    cases hst'

/-- `do_gc` passes a clean sector, and of a dirty one moves what is valid and erases it. -/
theorem KvOk.doGc_ok {sector : KvdbSecInfo} {freeSize l : Nat} (h : KvOk G K A db)
    (hgc : db.gcRequest = true) (hlast : db.lastIsCompleteDel = false) (hh : KvHalted G A)
    (hrecovers : Recovers G A db) (hempty : HasEmpty G A) (hj : j < G.n)
    (hinfo : SecInfoOk G.S j (A j) sector) (hl : l < G.n) :
    Yields (doGc freeSize db sector (l * G.S)) fun x => ∃ A', KvWrites G K A' db x.2.1 ∧
      Moved G A A' ∧ HasEmpty G A' ∧ (∃ l' < G.n, x.2.2 = l' * G.S) ∧ (A' j).dirty = .no ∧
        (x.1 = true → TwoClean G A' ∧ freeSize < G.S) := by
  rw [doGc]
  refine .ite (fun hyes => ?_) fun hno => .pure ?_
  · have hdirty : (A j).dirty ≠ .no := by
      intro hclean
      rw [hinfo.dirty.mpr hclean] at hyes
      rcases hyes.2 with hf | hf <;> cases hf
    obtain ⟨e, he, hst⟩ := hempty
    obtain ⟨hclean, hnil⟩ := h.clean_of_empty he hst
    have hej : e ≠ j := by
      rintro rfl
      exact hdirty hclean
    obtain ⟨m, hwrite, hok⟩ := h.setGc_ok hj hdirty
    have hm := moved_setGc hh hj hdirty
    have hself : (A.set j { A j with dirty := .gc }) j = { A j with dirty := .gc } :=
      Function.update_self ..
    have hother : (A.set j { A j with dirty := .gc }) e = A e := Function.update_of_ne hej _ _
    have hstore : (A j).store = .using ∧ (A j).recs ≠ [] := by
      rcases (h.sector j hj).store with hst | hst
      · exact absurd hst.2.2 hdirty
      · exact hst
    obtain ⟨r, post, hrecs⟩ := List.exists_cons_of_ne_nil hstore.2
    have hg : GcAt G (A.set j { A j with dirty := .gc }) j [] (r :: post) := by
      refine ⟨hm.halted, hj, by rw [hself]; exact hrecs, ?_, ?_, e, he, ?_, ?_⟩
      · rw [hself]
        exact fun hf => by cases hf
      · exact fun x hx => by cases hx
      · rw [hother]
        exact hclean
      · rw [hother, KvSector.used, hnil]
    have hsecNe : sector.store ≠ .empty := by
      rw [hinfo.store, hstore.1]
      decide
    rw [hinfo.addr, hwrite]
    dsimp only
    have hcount := length_le_recsSize (A j).recs
    have hused := h.used_le j hj
    have hfuel : post.length < db.secSize := by
      rw [hrecs, List.length_cons, ← hrecs] at hcount
      unfold KvSector.used kvHdrDataSize sectorHdrDataSize at *
      rw [h.secSize]
      omega
    have hrecovers' : Recovers G (A.set j { A j with dirty := .gc }) (db.withFlash m) :=
      hrecovers.imp id fun hq i hi => hm.quiet (hq i hi)
    refine (hg.loop hok hgc hlast hrecovers' hsecNe hinfo.addr rfl hfuel).bind ?_
    rintro db₁ ⟨A₁, pre', hw₁, hm₁, hg₁⟩
    have hdead : ∀ x ∈ (A₁ j).recs, x.status = .deleted := by
      rw [hg₁.recs, List.append_nil]
      exact hg₁.dead
    have hcleanE : (A₁ e).dirty = .no := hm₁.clean (hother.symm ▸ hclean)
    obtain ⟨m₂, t₂, hformat, hok₂⟩ := hw₁.ok.format_ok hj hdead
    have hm₂ := hw₁.ok.moved_formatted hg₁.halted hj hdead
    obtain ⟨o, ho, hnext⟩ := hok₂.getNextSectorAddr_zero hinfo.addr hinfo.combined
    obtain ⟨db₂, heq₂⟩ : ∃ d, d = { db₁.withFlash m₂ with
      sectorCacheTable := t₂, oldestAddr := o * G.S } := ⟨_, rfl⟩
    have hdb₂ : KvOk G K (A₁.set j .formatted) db₂ := by
      rw [heq₂]
      exact { hok₂ with oldest := ⟨o, ho, rfl⟩ }
    have hself₂ : (A₁.set j .formatted) j = .formatted := Function.update_self ..
    have hother₂ : (A₁.set j .formatted) e = A₁ e := Function.update_of_ne hej _ _
    rw [hformat, Option.bind_eq_bind, Option.bind_some]
    dsimp only
    rw [hnext]
    change Yields (readSectorInfo _ _ _ _ >>= _) _
    have hread : Yields (readSectorInfo db₂ (l * G.S) .fresh true) _ :=
      hdb₂.toKvdbOk.readSectorInfo_ok hl
    rw [heq₂] at hread
    refine hread.bind ?_
    rintro ⟨result, lastGc, db₃⟩ ⟨-, hlastGc, hro, htrav⟩
    rw [← heq₂] at hro
    refine .pure ⟨A₁.set j .formatted, ⟨(hdb₂.reads hro).ok, ?_⟩, hm.trans (hm₁.trans hm₂),
      ⟨j, hj, by rw [hself₂]; rfl⟩, ⟨j, hj, rfl⟩, by rw [hself₂]; rfl, fun hstop => ⟨?_, ?_⟩⟩
    · obtain ⟨m₁, t₁, t₁', o₁, rfl⟩ := hw₁.same
      obtain ⟨t₃, hsame⟩ := hro.same
      dsimp only at hsame ⊢
      rw [hsame, heq₂]
      exact ⟨_, _, _, _, rfl⟩
    · exact ⟨e, he, j, hj, hej, by rw [hother₂]; exact hcleanE, by rw [hself₂]; rfl⟩
    · have hremain := (hlastGc.room.resolve_left (htrav rfl)).2
      have hmore := of_decide_eq_true (Bool.and_elim_right hstop)
      dsimp only at hremain hmore
      omega
  · have hclean : (A j).dirty = .no := by
      rw [← hinfo.dirty]
      have hne := hinfo.dirty_ne
      cases hd : sector.dirty with
      | unused => exact absurd hd hne
      | no => rfl
      | yes => exact absurd ⟨hinfo.checkOk, .inl hd⟩ hno
      | gc => exact absurd ⟨hinfo.checkOk, .inr hd⟩ hno
    exact ⟨A, .refl h hlast, .refl hh, hempty, ⟨l, hl, rfl⟩, hclean, Bool.noConfusion⟩

/-! ## `gc_collect` -/

/-- `gc_collect_by_free_size` counts the empty sectors. -/
theorem KvdbOk.gcCheck_ok {o : Nat} (h : KvdbOk G A db) (ho : o < G.n)
    (holdest : db.oldestAddr = o * G.S) :
    Yields (sectorIterator db .fresh .empty (0, 0) gcCheckCb false) fun x =>
      ReadsOnly G A db x.2.1 ∧ x.2.2.1 = countStore G A o .empty G.n ∧
        ∃ l < G.n, x.2.2.2 = l * G.S := by
  refine sectorIterator_yields (G := G) (A := A) (o := o)
    (I := fun k A' db' (s : Nat × Nat) => A' = A ∧ ReadsOnly G A db db' ∧
      s.1 = countStore G A o .empty k ∧ ∃ l < G.n, s.2 = l * G.S)
    (Q := fun _ db' s => ReadsOnly G A db db' ∧ s.1 = countStore G A o .empty G.n ∧
      ∃ l < G.n, s.2 = l * G.S)
    ?_ ?_ ?_ ?_ ?_ ho holdest ⟨rfl, .refl h, rfl, 0, G.num_pos, (Nat.zero_mul _).symm⟩
  · rintro k A' db' s ⟨rfl, hro, -⟩
    exact hro.ok
  · rintro k A' db' db'' s ⟨rfl, hro, hs⟩ hro'
    exact ⟨rfl, hro.trans hro', hs⟩
  · rintro k A' db' s sector hk ⟨rfl, hro, hcount, -⟩ hinfo - hst
    have hst := (hst.resolve_left (by decide)).symm
    rw [gcCheckCb, hinfo.checkOk, if_pos rfl]
    refine .pure ⟨A', rfl, hro, ?_, _, G.nth_lt, hinfo.addr⟩
    rw [countStore_succ, if_pos hst, ← hcount]
  · rintro k A' db' s hk ⟨rfl, hro, hcount, hl⟩ hst
    refine ⟨rfl, hro, ?_, hl⟩
    rw [countStore_succ, if_neg fun heq => hst (.inr heq.symm), ← hcount, Nat.add_zero]
  · rintro A' db' s sector ⟨-, hro, hs⟩
    exact ⟨hro, hs⟩

/-- The sectors are collected one after the other. -/
theorem KvOk.gcSectors_ok {o freeSize l : Nat} {sector : KvdbSecInfo} (h : KvOk G K A db)
    (hgc : db.gcRequest = true) (hlast : db.lastIsCompleteDel = false) (hh : KvHalted G A)
    (hrecovers : Recovers G A db) (hempty : HasEmpty G A) (ho : o < G.n)
    (holdest : db.oldestAddr = o * G.S) (hl : l < G.n) :
    Yields (sectorIterator db sector .unused (l * G.S) (doGc freeSize) false) fun x =>
      ∃ A', KvWrites G K A' db x.2.1 ∧ Moved G A A' ∧ HasEmpty G A' ∧ TwoClean G A' ∧
        (G.S ≤ freeSize → ∀ i < G.n, (A' i).dirty = .no) := by
  refine sectorIterator_yields (G := G) (A := A) (o := o)
    (I := fun k A' db' s => KvWrites G K A' db db' ∧ Moved G A A' ∧ HasEmpty G A' ∧
      (∃ l < G.n, s = l * G.S) ∧ ∀ k' < k, (A' (G.nth o k')).dirty = .no)
    (Q := fun _ db' _ => ∃ A', KvWrites G K A' db db' ∧ Moved G A A' ∧ HasEmpty G A' ∧
      TwoClean G A' ∧ (G.S ≤ freeSize → ∀ i < G.n, (A' i).dirty = .no))
    ?_ ?_ ?_ ?_ ?_ ho holdest
    ⟨.refl h hlast, .refl hh, hempty, ⟨l, hl, rfl⟩, fun k hk => absurd hk (Nat.not_lt_zero k)⟩
  · rintro k A' db' s ⟨hw, -⟩
    exact hw.ok.toKvdbOk
  · rintro k A' db' db'' s ⟨hw, hrest⟩ hro
    exact ⟨hw.reads hro, hrest⟩
  · rintro k A' db' s sector hk ⟨hw, hm, hempty, ⟨l, hl, rfl⟩, hclean⟩ hinfo - -
    obtain ⟨hgc', hlast', -⟩ := hw.frame
    refine (hw.ok.doGc_ok (hgc'.trans hgc) hlast' hm.halted (hrecovers.next hw hm) hempty G.nth_lt
      hinfo hl).mono ?_
    rintro ⟨stop, db'', s⟩ ⟨A'', hw', hm', hempty', hl', hcl, hstop⟩
    have hw'' := hw.trans hw'
    have hm'' := hm.trans hm'
    dsimp only at hw'' hl' hstop ⊢
    split
    case isTrue ht =>
      obtain ⟨htwo, hfree⟩ := hstop ht
      exact ⟨A'', hw'', hm'', hempty', htwo, fun hle => absurd hfree (Nat.not_lt_of_le hle)⟩
    case isFalse =>
      refine ⟨A'', hw'', hm'', hempty', hl', fun k' hk' => ?_⟩
      rcases Nat.lt_succ_iff_lt_or_eq.mp hk' with hlt | rfl
      · exact hm'.clean (hclean k' hlt)
      · exact hcl
  · rintro k A' db' s hk - hst
    exact absurd (.inl rfl) hst
  · rintro A' db' s sector ⟨hw, hm, hempty, -, hall⟩
    have htwo := G.two
    refine ⟨A', hw, hm, hempty, ⟨_, G.nth_lt, _, G.nth_lt,
      fun heq => Nat.zero_ne_one (G.nth_inj (by omega) (by omega) heq),
      hall 0 (by omega), hall 1 (by omega)⟩, fun _ i hi => ?_⟩
    obtain ⟨k, hk, rfl⟩ := G.exists_nth ho hi
    exact hall k hk

/-- `gc_collect_by_free_size` loses nothing, and leaves two clean sectors; a whole collection, made
as no two sectors are empty, leaves all sectors clean. -/
theorem KvOk.gcCollect_ok {freeSize : Nat} (h : KvOk G K A db) (hgc : db.gcRequest = true)
    (hlast : db.lastIsCompleteDel = false) (hh : KvHalted G A) (hrecovers : Recovers G A db)
    (hempty : HasEmpty G A) :
    Yields (gcCollectByFreeSize db freeSize) fun db' => ∃ A',
      KvWrites G K A' { db with gcRequest := false } db' ∧ Moved G A A' ∧ HasEmpty G A' ∧
        TwoClean G A' ∧ ((∃ i, ∀ j < G.n, (A j).store = .empty → j = i) → G.S ≤ freeSize →
          ∀ i < G.n, (A' i).dirty = .no) := by
  obtain ⟨o, ho, holdest⟩ := h.oldest
  rw [gcCollectByFreeSize]
  refine (h.toKvdbOk.gcCheck_ok ho holdest).bind ?_
  rintro ⟨sector, db₁, emptySecNum, emptySecAddr⟩ ⟨hro, hcount, l, hl, haddr⟩
  have hw₁ := (KvWrites.refl h hlast).reads hro
  obtain ⟨t, hsame⟩ := hro.same
  dsimp only at hcount haddr hsame hw₁ ⊢
  subst hcount haddr hsame
  refine .ite (fun hfew => ?_) fun hmany => .pure ⟨A, hw₁.withGc false, .refl hh, hempty, ?_⟩
  · refine (hw₁.ok.gcSectors_ok hgc hlast hh hrecovers hempty ho holdest hl).bind ?_
    rintro ⟨sector, db₂, s⟩ ⟨A', hw, hm, hempty', htwo, hall⟩
    exact .pure ⟨A', (hw₁.trans hw).withGc false, hm, hempty', htwo, fun _ => hall⟩
  · obtain ⟨i, hi, j, hj, hne, hsi, hsj⟩ :=
      (one_lt_countStore ho).mp (Nat.lt_of_not_le hmany)
    refine ⟨⟨i, hi, j, hj, hne, (h.clean_of_empty hi hsi).1, (h.clean_of_empty hj hsj).1⟩, ?_⟩
    rintro ⟨e, honly⟩
    exact absurd ((honly i hi hsi).trans (honly j hj hsj).symm) hne

end DoorLock
