import DoorLock.KvBoot

/-!
# Starting with new flash

When no sector has a valid header, `_fdb_kv_load` formats them all and `fdb_kv_set_default` writes
the defaults.
-/

namespace DoorLock

open Nor CString

variable {G : KvGeom} {K : KvNames} {A A' : KvSectors} {db db' : FdbKvdb} {i k fuel count : Nat}
  {sector sector' : KvdbSecInfo} {part : FalPartition} {M : KvMap}
  {key value : List UInt8} {keys : List (List UInt8)} {L : Nat}
  {nodes defaultKvs : List FdbDefaultKvNode}

/-! ## Formatting all sectors -/

/-- There is no valid header at `a`. -/
def NoHdr (m : Memory) (a : Nat) : Prop :=
  let hdr := read m a sectorHdrDataSize
  u32At (hdr.drop 4) ≠ sectorMagicWord ∨
    u32At (hdr.drop 8) ≠ sectorNotCombined ∧ u32At (hdr.drop 8) ≠ sectorCombined

/-- Nothing is in the sector cache. -/
def Uncached (table : List KvdbSecInfo) : Prop :=
  table.length = fdbSectorCacheTableSize ∧ ∀ e ∈ table, e.addr = fdbDataUnused

theorem Uncached.get (h : Uncached db.sectorCacheTable) (hi : i < G.n) :
    getSectorFromCache db (i * G.S) = none := by
  refine List.find?_eq_none.mpr fun e he => ?_
  have hne := G.addr_ne hi
  rw [h.2 e he]
  simpa using hne.symm

/-- A sector that is not in the cache is formatted. -/
theorem Uncached.update (h : Uncached db.sectorCacheTable) (hi : i < G.n)
    (haddr : sector.addr = i * G.S) (hbad : sector.checkOk = false) :
    updateSectorCache db sector = db := by
  have hlen : 0 + fdbSectorCacheTableSize = db.sectorCacheTable.length := by rw [h.1, Nat.zero_add]
  have hloop : updateSectorLoop sector db.sectorCacheTable fdbSectorCacheTableSize 0 none =
      db.sectorCacheTable := by
    rcases updateSectorLoop_cases hlen with
      ⟨k, e, hk, hek, -⟩ | ⟨-, heq | ⟨hok, -⟩⟩
    · have hunused := h.2 e (List.mem_of_getElem? hk)
      exact absurd (haddr.symm.trans (hek.symm.trans hunused)) (G.addr_ne hi)
    · exact heq
    · rw [hbad] at hok
      cases hok
  rw [updateSectorCache, hloop]

/-- A header that is not valid. -/
theorem readSectorInfo_noHdr (hS : db.secSize = G.S) (hlen : db.part.len = G.n * G.S)
    (hcache : Uncached db.sectorCacheTable) (hi : i < G.n) (hbad : NoHdr db.part.flash (i * G.S)) :
    readSectorInfo db (i * G.S) sector false = some (.initFailed, { sector with
      store := .unused
      dirty := .unused
      addr := i * G.S
      checkOk := false
      combined := sectorNotCombined }, db) := by
  have hmod : ¬i * G.S % db.secSize ≠ 0 := by
    rw [hS, Nat.mul_mod_left]
    exact fun hne => hne rfl
  have hsec := sector_le (S := G.S) hi
  have hroom := G.room
  rw [readSectorInfo, if_neg hmod, hcache.get hi]
  dsimp only
  rw [readSectorFlash, fdbFlashRead_eq (by omega), Option.bind_eq_bind, Option.bind_some]
  dsimp only
  exact if_pos hbad

/-- `check_sec_hdr_cb` formats the sectors one after the other. -/
theorem checkSecHdrLoop_format (hS : db.secSize = G.S) (hlen : db.part.len = G.n * G.S)
    (hfmt : db.notFormatable = false) (hcache : Uncached db.sectorCacheTable)
    (hdone : ∀ i < k, At db.part.flash (i * G.S) (KvSector.formatted.image G.S))
    (hbad : ∀ i, k ≤ i → i < G.n → NoHdr db.part.flash (i * G.S)) (hk : k < G.n)
    (hfuel : G.n ≤ k + fuel) :
    ∃ sector' m, sectorIteratorLoop .unused false checkSecHdrCb fuel db (k * G.S) sector (k * G.S)
        count = some (sector', db.withFlash m, count + (G.n - k)) ∧
      ∀ i < G.n, At m (i * G.S) (KvSector.formatted.image G.S) := by
  have hroom : sectorHdrDataSize ≤ G.S := by
    have := G.room
    omega
  have himg : (KvSector.formatted.image G.S).length = G.S := KvSector.length_image hroom
  induction fuel generalizing k db sector count with
  | zero => omega
  | succ fuel ih =>
    obtain ⟨m, hm⟩ : ∃ m, m = program (erase db.part.flash (k * G.S) G.S) (k * G.S)
      (sectorHdr sectorNotCombined) := ⟨_, rfl⟩
    have hframe {p : Nat} (hp : p < k * G.S ∨ k * G.S + G.S ≤ p) : m p = db.part.flash p := by
      rw [hm]
      exact formatted_frame hroom hp
    have hother {i : Nat} (hne : i ≠ k) {p : Nat} (hle : i * G.S ≤ p) (hlt : p < i * G.S + G.S) :
        m p = db.part.flash p := by
      refine hframe ?_
      rcases sector_disjoint (S := G.S) hne with hd | hd <;> rw [Nat.succ_mul] at hd <;> omega
    have hdone' : ∀ i < k + 1, At m (i * G.S) (KvSector.formatted.image G.S) := by
      intro i hi
      rcases Nat.lt_succ_iff_lt_or_eq.mp hi with hlt | rfl
      · refine (hdone i hlt).congr fun p hle hp => hother (Nat.ne_of_lt hlt) hle ?_
        rwa [himg] at hp
      · rw [hm]
        exact at_formatted hroom
    have hbad' : ∀ i, k + 1 ≤ i → i < G.n → NoHdr m (i * G.S) := by
      intro i hle hi
      have hread : read m (i * G.S) sectorHdrDataSize =
          read db.part.flash (i * G.S) sectorHdrDataSize :=
        read_congr fun p hlo hhi => hother (by omega) hlo (by omega)
      unfold NoHdr
      rw [hread]
      exact hbad i (by omega) hi
    have hformat : formatSector db (k * G.S) sectorNotCombined =
        some (.noErr, db.withFlash m) := by
      rw [formatSector_eq hS hlen hk, ← hm]
      rw [hcache.update hk rfl rfl]
      rfl
    have hsize : k * G.S + db.secSize = (k + 1) * G.S := by rw [hS, Nat.succ_mul]
    have hnth {k : Nat} (hk : k < G.n) : G.nth 0 k = k := by
      rw [KvGeom.nth, Nat.zero_add, Nat.mod_eq_of_lt hk]
    rw [sectorIteratorLoop, readSectorInfo_noHdr hS hlen hcache hk (hbad k (Nat.le_refl k) hk),
      hsize, Option.bind_eq_bind, Option.bind_some]
    dsimp only
    rw [if_pos (.inl rfl), if_neg Bool.false_ne_true]
    simp only [checkSecHdrCb, hfmt, hformat, Option.bind_eq_bind, Option.bind_some,
      if_neg Bool.false_ne_true]
    have hnext {sector} (haddr : sector.addr = G.nth 0 k * G.S)
        (hcombined : sector.combined = sectorNotCombined) :
        getNextSectorAddr (db.withFlash m) sector ((k + 1) * G.S) =
          if k + 1 < G.n then G.nth 0 (k + 1) * G.S else failedAddr :=
      getNextSectorAddr_eq hS hlen haddr hcombined hk
    rw [hnext (by rw [hnth hk]) rfl]
    rcases Nat.lt_or_ge (k + 1) G.n with hlt | hge
    · have hne : G.nth 0 (k + 1) * G.S ≠ failedAddr := G.addr_ne G.nth_lt
      rw [if_pos hlt, if_neg hne, hnth hlt]
      obtain ⟨sector', m', hloop, hall⟩ := ih (show (db.withFlash m).secSize = G.S from hS)
        hlen hfmt hcache hdone' hbad'
        hlt (by omega)
      refine ⟨sector', m', ?_, hall⟩
      rw [hloop]
      have hcount : count + 1 + (G.n - (k + 1)) = count + (G.n - k) := by omega
      rw [hcount]
      rfl
    · have hge' : ¬k + 1 < G.n := Nat.not_lt_of_ge hge
      rw [if_neg hge', if_pos rfl]
      have hcount : count + 1 = count + (G.n - k) := by omega
      refine ⟨_, m, by rw [hcount], fun i hi => hdone' i (by omega)⟩

/-- The store in formatted sectors. -/
theorem atRest_formatted (hlen : part.len = G.n * G.S)
    (h : ∀ i < G.n, At part.flash (i * G.S) (KvSector.formatted.image G.S)) :
    AtRest G K (fun _ => .formatted) part := by
  have hno {a r} : ¬RecAt G (fun _ => .formatted) a r := by
    rintro ⟨i, -, hin⟩
    cases hin.mem
  exact ⟨hlen, h, fun _ _ => .formatted, fun hat => absurd hat hno, fun hat => absurd hat hno,
    fun _ _ x hx => (by cases hx), ⟨0, G.num_pos, rfl⟩⟩

theorem stored_formatted : ¬Stored G (fun _ => .formatted) key value := by
  rintro ⟨a, r, ⟨⟨i, -, hin⟩, -⟩, -⟩
  cases hin.mem

/-! ## The defaults -/

/-- The bytes that `fdb_kv_set_default` writes. -/
def FdbDefaultKvNode.data (node : FdbDefaultKvNode) : List UInt8 :=
  node.value.take (if node.valueLen = 0 then (cstr node.value).length else node.valueLen)

/-- A map with the defaults of a table added. -/
def KvMap.defaults : KvMap → List FdbDefaultKvNode → KvMap
  | M, [] => M
  | M, node :: nodes => KvMap.defaults (Function.update M node.key (some node.data)) nodes

/-- `create_kv_blob`, which asks for a place itself. -/
theorem createKvBlob_newKv {addr : Nat} (hS : db.secSize = db'.secSize)
    (hlen : key.length ≤ fdbKvNameMax)
    (hroom : kvHdrDataSize + key.length + value.length ≤ db.secSize - sectorHdrDataSize)
    (hnew : newKv db { sector with emptyKv := failedAddr }
      (kvHdrDataSize + key.length + value.length) = some (addr, sector', db'))
    (haddr : sector'.emptyKv = addr) (hne : addr ≠ failedAddr) :
    createKvBlob db { sector with emptyKv := failedAddr } key value =
      createKvBlob db' sector' key value := by
  have hroom' : ¬kvHdrDataSize + key.length + value.length > db.secSize - sectorHdrDataSize :=
    Nat.not_lt_of_ge hroom
  have hself : ¬failedAddr ≠ failedAddr := fun hne => hne rfl
  rw [createKvBlob, createKvBlob, if_neg (Nat.not_lt_of_ge hlen), if_neg (Nat.not_lt_of_ge hlen)]
  dsimp only
  rw [← hS, if_neg hroom', if_neg hroom', if_neg hself, hnew, haddr, if_pos hne]

/-- A default is created, where the map has room for it. -/
theorem Stores.create (h : Stores G K db M) (hkey : K.mem key) (hnone : M key = none)
    (hfits : M.Fits G (KvRec.new key value).size) :
    Yields (createKvBlob db { sector with emptyKv := failedAddr } key value) fun x =>
      x.1 = .noErr ∧ x.2.2.initOk = db.initOk ∧
        Stores G K x.2.2 (Function.update M key (some value)) := by
  obtain ⟨A, hok, hM⟩ := h
  have hsize : (KvRec.new key value).size = kvHdrDataSize + key.length + value.length := rfl
  have hroom := hfits [] List.nodup_nil fun e he => by cases he
  have hnewKv :
      Yields (newKv db { sector with emptyKv := failedAddr } (KvRec.new key value).size) _ :=
    hok.newKv_ok
  obtain ⟨⟨addr, sector', db₁⟩, hnew, A₁, hw, hm, hempty, hres⟩ := hnewKv
  have h₁ := hok.writes hw (hm.settled hok.settled) hempty
  have hM₁ {key value} : Stored G A₁ key value ↔ M key = some value :=
    (hm.stored hok.settled).trans hM
  dsimp only at h₁ hres
  cases hres with
  | full hi hclean hno => exact absurd (h₁.room_of_fits hM₁ hfits hi hclean) hno
  | target hc hempty' =>
    have hno : ∀ a x, ¬ValidAt G A₁ key a x := fun a x hv => by
      have hs := hM₁.mp ⟨a, x, hv, rfl⟩
      rw [hnone] at hs
      cases hs
    have hle : kvHdrDataSize + key.length + value.length ≤ db.secSize - sectorHdrDataSize := by
      rw [hok.secSize, ← hsize]
      unfold entriesSize at hroom
      omega
    rw [createKvBlob_newKv (hok.secSize.trans h₁.secSize.symm) (Nat.le_of_lt (K.keyLen hkey)) hle
      (hsize ▸ hnew) hc.emptyKv (hc.ne_failed h₁.toKvdbOk)]
    obtain ⟨db₂, hcreate, hw₂, hrep⟩ := h₁.create_ok hkey hc hno h₁.lastDel
    rw [hcreate]
    obtain ⟨-, -, hinit₁⟩ := hw.frame
    obtain ⟨-, -, hinit₂⟩ := hw₂.frame
    refine .pure ⟨rfl, hinit₂.trans hinit₁, _,
      h₁.writes hw₂ (h₁.settled.pushed hc.lt rfl) (hasEmpty_pushed hempty'), ?_⟩
    intro key' value'
    rw [hrep.stored_new, hM₁]
    rcases Decidable.eq_or_ne key' key with rfl | hne
    · rw [if_pos rfl, Function.update_self, Option.some_inj, eq_comm]
    · rw [if_neg hne, Function.update_of_ne hne]

/-- The defaults are created one after the other. -/
theorem defaultLoop_ok (h : Stores G K db M) (hM : M.Within keys L) (hcap : Capacity G K keys L)
    (hnew : ∀ node ∈ nodes, M node.key = none)
    (hnodup : (nodes.map FdbDefaultKvNode.key).Nodup)
    (hnodes : ∀ node ∈ nodes, node.key ∈ keys ∧ node.data.length ≤ L) :
    Yields (defaultLoop nodes db sector) fun x =>
      x.1 = .noErr ∧ x.2.initOk = db.initOk ∧ Stores G K x.2 (M.defaults nodes) := by
  induction nodes generalizing M db sector with
  | nil => exact .pure ⟨rfl, rfl, h⟩
  | cons node nodes ih =>
    obtain ⟨hkey, hlen⟩ := hnodes node List.mem_cons_self
    rw [List.map_cons, List.nodup_cons] at hnodup
    rw [defaultLoop]
    refine (h.create (hcap.mem _ hkey) (hnew node List.mem_cons_self)
      (hM.fits hcap hkey hlen)).bind ?_
    rintro ⟨result, sector', db₁⟩ ⟨rfl, hinit, h₁⟩
    dsimp only at hinit h₁ ⊢
    rw [if_neg fun hne => hne rfl, ← hinit]
    refine ih h₁ (hM.update hkey hlen) (fun node' hmem => ?_) hnodup.2
      fun node' hmem => hnodes node' (List.mem_cons_of_mem node hmem)
    have hne : node'.key ≠ node.key := fun heq => hnodup.1 (heq ▸ List.mem_map_of_mem hmem)
    rw [Function.update_of_ne hne]
    exact hnew node' (List.mem_cons_of_mem node hmem)

theorem KvSectors.set_formatted (i : Nat) :
    KvSectors.set (fun _ => .formatted) i .formatted = fun _ => .formatted :=
  Function.update_eq_self i _

/-- Formatted sectors are formatted again. -/
theorem formatLoop_ok (h : StoreOk G K (fun _ => .formatted) db) (hk : k ≤ G.n)
    (hfuel : G.n ≤ k + fuel) :
    ∃ m table, formatLoop fuel db (k * G.S) =
        some (.noErr, { db.withFlash m with sectorCacheTable := table }) ∧
      StoreOk G K (fun _ => .formatted) { db.withFlash m with sectorCacheTable := table } := by
  induction fuel generalizing k db with
  | zero => exact ⟨_, _, rfl, h⟩
  | succ fuel ih =>
    rw [formatLoop]
    have hmax : db.maxSize = G.n * G.S := h.len
    rcases Nat.lt_or_ge k G.n with hlt | hge
    · obtain ⟨m, t, hformat, hok⟩ := h.format_ok hlt fun x hx => by cases hx
      rw [KvSectors.set_formatted] at hok
      have h₁ : StoreOk G K (fun _ => .formatted)
          { db.withFlash m with sectorCacheTable := t } := { h with toKvOk := hok }
      have hsize : k * G.S + db.secSize = (k + 1) * G.S := by rw [h.secSize, Nat.succ_mul]
      obtain ⟨m', t', hloop, h'⟩ := ih h₁ hlt (by omega)
      rw [hmax, if_pos (Nat.mul_lt_mul_of_pos_right hlt G.pos), hformat, Option.bind_eq_bind,
        Option.bind_some]
      dsimp only
      rw [if_neg fun hne => hne rfl]
      change ∃ m table, formatLoop fuel _ (k * G.S + db.secSize) = _ ∧ _
      rw [hsize]
      exact ⟨m', t', hloop, h'⟩
    · have hge' : ¬k * G.S < db.maxSize := by
        rw [hmax]
        exact Nat.not_lt_of_ge (Nat.mul_le_mul_right _ hge)
      rw [if_neg hge']
      exact ⟨_, _, rfl, h⟩

/-- The names of a table of defaults are different, and the map has room for all of them. -/
structure DefaultsOk (keys : List (List UInt8)) (L : Nat) (nodes : List FdbDefaultKvNode) :
    Prop where
  nodup : (nodes.map FdbDefaultKvNode.key).Nodup
  within : ∀ node ∈ nodes, node.key ∈ keys ∧ node.data.length ≤ L

/-- `fdb_kv_set_default` -/
theorem StoreOk.setDefault_ok (h : StoreOk G K (fun _ => .formatted) db)
    (hcap : Capacity G K keys L) (hdefaults : DefaultsOk keys L db.defaultKvs) :
    Yields (fdbKvSetDefault db) fun x => x.1 = .noErr ∧ x.2.initOk = db.initOk ∧
      Stores G K x.2 (KvMap.defaults (fun _ => none) db.defaultKvs) := by
  obtain ⟨db₀, heq₀⟩ : ∃ d : FdbKvdb, d = { db with
    kvCacheTable := db.kvCacheTable.map fun e => { e with addr := fdbDataUnused } } := ⟨_, rfl⟩
  have h₀ : StoreOk G K (fun _ => .formatted) db₀ := by
    rw [heq₀]
    have hcache : KvCacheOk G (fun _ => .formatted)
        (db.kvCacheTable.map fun e => { e with addr := fdbDataUnused }) := by
      refine kvCacheOk_unused ((List.length_map _).trans h.kvCache.length) fun e he => ?_
      obtain ⟨e', -, rfl⟩ := List.mem_map.mp he
      rfl
    exact { h with kvCache := hcache }
  have hfuel : G.n ≤ 0 + db₀.maxSize := by
    rw [Nat.zero_add, FdbKvdb.maxSize, h₀.len]
    exact Nat.le_mul_of_pos_right _ G.pos
  obtain ⟨m, t, hloop, h₁⟩ := formatLoop_ok (k := 0) h₀ (Nat.zero_le _) hfuel
  rw [Nat.zero_mul] at hloop
  have hdefaults₀ : db₀.defaultKvs = db.defaultKvs := by rw [heq₀]
  have hinit₀ : db₀.initOk = db.initOk := by rw [heq₀]
  have h₂ : Stores G K { db₀.withFlash m with sectorCacheTable := t } fun _ => none :=
    ⟨_, h₁, fun {key value} => ⟨fun hs => absurd hs stored_formatted, fun hf => by cases hf⟩⟩
  rw [fdbKvSetDefault, ← heq₀]
  dsimp only
  rw [hloop, Option.bind_eq_bind, Option.bind_some]
  dsimp only
  rw [if_neg fun hne => hne rfl]
  refine (defaultLoop_ok h₂ (fun key value hf => by cases hf) hcap (fun _ _ => rfl)
    (hdefaults₀ ▸ hdefaults.nodup) (hdefaults₀ ▸ hdefaults.within)).bind ?_
  rintro ⟨result, db₃⟩ ⟨rfl, hinit, A, hok, hM⟩
  refine .pure ⟨rfl, hinit.trans hinit₀, A,
    { hok with oldest := ⟨0, G.num_pos, (Nat.zero_mul _).symm⟩ }, ?_⟩
  intro key value
  rw [← hdefaults₀]
  exact hM

/-! ## `fdb_kvdb_init` -/

/-- `fdb_kvdb_init` where no sector has a valid header. -/
theorem init_first (hlen : part.len = G.n * G.S)
    (hbad : ∀ i < G.n, NoHdr part.flash (i * G.S)) (hcap : Capacity G K keys L)
    (hdefaults : DefaultsOk keys L defaultKvs) (hfuel : 0 < fuel) :
    Yields (fdbKvdbInit fuel (.zero part) G.S defaultKvs) fun x => x.1 = .noErr ∧
      StoreKeeps G K x.2 (KvMap.defaults (fun _ => none) defaultKvs) := by
  rw [fdbKvdbInit_eq hlen]
  refine Yields.bind (P := fun x => x.1 = .noErr ∧
    Stores G K x.2 (KvMap.defaults (fun _ => none) defaultKvs)) ?_ ?_
  · obtain ⟨db₀, heq₀⟩ : ∃ d, d = { FdbKvdb.started part G.S defaultKvs with
      inRecoveryCheck := true } := ⟨_, rfl⟩
    have hS : db₀.secSize = G.S := by rw [heq₀]; rfl
    have hlen₀ : db₀.part.len = G.n * G.S := by rw [heq₀]; exact hlen
    have hfmt : db₀.notFormatable = false := by rw [heq₀]; rfl
    have hdef₀ : db₀.defaultKvs = defaultKvs := by rw [heq₀]; rfl
    have hcache : Uncached db₀.sectorCacheTable := by
      rw [heq₀]
      refine ⟨rfl, fun e he => ?_⟩
      obtain ⟨e', -, rfl⟩ := List.mem_map.mp he
      rfl
    have hkvs {A} : KvCacheOk G A db₀.kvCacheTable := by
      rw [heq₀]
      refine kvCacheOk_unused rfl fun e he => ?_
      obtain ⟨e', -, rfl⟩ := List.mem_map.mp he
      rfl
    have hnum : db₀.maxSize / db₀.secSize = G.n := by
      rw [FdbKvdb.maxSize, hlen₀, hS, Nat.mul_div_cancel _ G.pos]
    have hbad₀ : ∀ i, 0 ≤ i → i < G.n → NoHdr db₀.part.flash (i * G.S) := by
      rw [heq₀]
      exact fun i _ hi => hbad i hi
    obtain ⟨sector', m, hloop, hall⟩ : ∃ sector' m,
        sectorIteratorLoop .unused false checkSecHdrCb (G.n + 2) db₀ (0 * G.S) .fresh (0 * G.S) 0 =
          some (sector', db₀.withFlash m, 0 + (G.n - 0)) ∧
        ∀ i < G.n, At m (i * G.S) (KvSector.formatted.image G.S) :=
      checkSecHdrLoop_format hS hlen₀ hfmt hcache (fun i hi => absurd hi (Nat.not_lt_zero i)) hbad₀
        G.num_pos (by omega)
    have hiter : sectorIterator db₀ .fresh .unused 0 checkSecHdrCb false =
        some (sector', db₀.withFlash m, G.n) := by
      have holdest : db₀.oldestAddr = 0 * G.S := by rw [heq₀, Nat.zero_mul]; rfl
      rw [sectorIterator, hnum, holdest]
      rw [Nat.zero_add, Nat.sub_zero] at hloop
      rw [Nat.zero_mul] at hloop ⊢
      exact hloop
    have hrest : AtRest G K (fun _ => .formatted) (db₀.withFlash m).part :=
      atRest_formatted hlen₀ hall
    have hhalted : StoreHalted G K (fun _ => .formatted) (db₀.withFlash m) :=
      hrest.interrupted.storeHalted hS (by rw [heq₀]; rfl)
        (sectorCacheOk_unused hcache.1 hcache.2) hkvs (by rw [heq₀]; rfl) (by rw [heq₀]; rfl)
    have hok := hhalted.storeOk fun _ _ x hx => by cases hx
    rw [fdbKvLoad, ← heq₀]
    dsimp only
    rw [hiter, Option.bind_eq_bind, Option.bind_some]
    dsimp only
    have hfmt₁ : ¬((db₀.withFlash m).notFormatable = true ∧ G.n > 0) :=
      fun hand => Bool.false_ne_true (hfmt.symm.trans hand.1)
    have hnum₁ : G.n = (db₀.withFlash m).maxSize / (db₀.withFlash m).secSize := hnum.symm
    rw [if_neg hfmt₁, if_pos hnum₁]
    obtain ⟨⟨result, db₁⟩, hset, -, -, A, hok₁, hM⟩ :=
      hok.setDefault_ok hcap (show DefaultsOk keys L db₀.defaultKvs from hdef₀ ▸ hdefaults)
    rw [hset, Option.map_some, Option.bind_eq_bind, Option.bind_some]
    have hquiet : ∀ i < G.n, (A i).Quiet := fun _ hi => hok₁.settled.quiet hi
    refine (hok₁.storeHalted.recover_ok (.inr hquiet) (.inr ⟨hfuel, hquiet⟩)).mono ?_
    rintro ⟨result, db₂⟩ ⟨rfl, -, A', hok₂, hm⟩
    refine ⟨rfl, A', hok₂, ?_⟩
    intro key value
    rw [← hdef₀]
    exact (hm.stored hok₁.settled).trans hM
  · rintro ⟨result, db⟩ ⟨rfl, A, hok, hM⟩
    exact .pure ⟨rfl, Bool.or_true _, A, { hok with }, hM⟩

end DoorLock
