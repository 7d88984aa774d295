import DoorLock.KvRead
import DoorLock.Lib.Yields

/-!
# Sectors and their cache

The invariant of a store in flash, and what the cache of sectors may hold of it: an entry is the
sector's header, with the end of its records once they have been traversed. Under it
`read_sector_info` returns what the sector is, from the cache or from the flash.
-/

namespace DoorLock

open Nor CString

/-- The sectors of a partition: one can be kept back, the size of each is a power of two, and each
holds a record. -/
structure KvGeom where
  S : Nat
  n : Nat
  two : 2 ≤ n
  pow : S &&& (S - 1) = 0
  room : sectorHdrDataSize + fdbSecRemainThreshold < S
  max : n * S < 0xFFFFFFFF

/-- A sector as the program leaves it. -/
structure KvSector.Ok (S : Nat) (s : KvSector) : Prop where
  fits : s.used + fdbSecRemainThreshold < S
  store : s.store = .empty ∧ s.recs = [] ∧ s.dirty = .no ∨ s.store = .using ∧ s.recs ≠ []
  dirty : s.dirty ≠ .unused
  recs : ∀ r ∈ s.recs, r.Ok

/-- What the cache may hold of sector `i`: its records have not been traversed, or the entry is
exact. Of a sector that is being collected the entry may still say that it is dirty. -/
structure SecInfoOk (S i : Nat) (s : KvSector) (e : KvdbSecInfo) : Prop where
  addr : e.addr = i * S
  checkOk : e.checkOk = true
  store : e.store = s.store
  dirty : e.dirty = .no ↔ s.dirty = .no
  dirty_ne : e.dirty ≠ .unused
  combined : e.combined = sectorNotCombined
  room : e.emptyKv = failedAddr ∨ e.emptyKv = recAddr S i s.recs ∧ e.remain = S - s.used

structure SectorCacheOk (G : KvGeom) (A : KvSectors) (table : List KvdbSecInfo) : Prop where
  length : table.length = fdbSectorCacheTableSize
  entry : ∀ {k : Nat} {e}, table[k]? = some e → e.addr ≠ fdbDataUnused →
    ∃ i < G.n, SecInfoOk G.S i (A i) e
  unique : ∀ {k k' : Nat} {e e'}, table[k]? = some e → table[k']? = some e' →
    e.addr = e'.addr → e.addr ≠ fdbDataUnused → k = k'

/-- The database `db` keeps the sectors `A` in its flash. -/
structure KvdbOk (G : KvGeom) (A : KvSectors) (db : FdbKvdb) : Prop where
  secSize : db.secSize = G.S
  len : db.part.len = G.n * G.S
  oldest : ∃ o < G.n, db.oldestAddr = o * G.S
  holds : Holds G.S G.n A db.part.flash
  sector : ∀ i < G.n, (A i).Ok G.S
  cache : SectorCacheOk G A db.sectorCacheTable

variable {G : KvGeom} {A : KvSectors} {db : FdbKvdb} {table : List KvdbSecInfo}
  {i j k addr : Nat} {e sector : KvdbSecInfo} {s : KvSector} {f : KvdbSecInfo → KvdbSecInfo}
  {r r' : KvRec} {pre post : List KvRec} {kv : FdbKv}

theorem KvGeom.pos (G : KvGeom) : 0 < G.S := by
  have := G.room
  omega

theorem KvGeom.big (G : KvGeom) : 104 < G.S := G.room

theorem KvGeom.sector_lt (G : KvGeom) (hi : i < G.n) : i * G.S + G.S < 0xFFFFFFFF :=
  Nat.lt_of_le_of_lt (sector_le hi) G.max

theorem KvGeom.addr_ne (G : KvGeom) (hi : i < G.n) : i * G.S ≠ fdbDataUnused := by
  have := G.sector_lt hi
  unfold fdbDataUnused
  omega

theorem KvGeom.addr_inj (G : KvGeom) (h : i * G.S = j * G.S) : i = j :=
  Nat.eq_of_mul_eq_mul_right G.pos h

/-! ## The cache -/

theorem SectorCacheOk.of_get (h : SectorCacheOk G A db.sectorCacheTable) (hi : i < G.n)
    (he : getSectorFromCache db (i * G.S) = some e) : SecInfoOk G.S i (A i) e := by
  have haddr : e.addr = i * G.S := by simpa using List.find?_some he
  obtain ⟨k, hk⟩ := List.mem_iff_getElem?.mp (List.mem_of_find?_eq_some he)
  obtain ⟨j, -, hj⟩ := h.entry hk (haddr ▸ G.addr_ne hi)
  obtain rfl : j = i := G.addr_inj (hj.addr.symm.trans haddr)
  exact hj

/-- An entry is put in place of the one of its sector, or is taken away. -/
theorem SectorCacheOk.set (h : SectorCacheOk G A table) (hi : i < G.n)
    (hone : ∀ {k' : Nat} {e}, table[k']? = some e → e.addr = i * G.S → k' = k)
    (he : e.addr = fdbDataUnused ∨ SecInfoOk G.S i s e) :
    SectorCacheOk G (A.set i s) (table.set k e) := by
  have hcases {k' : Nat} {e' : KvdbSecInfo} (hk' : (table.set k e)[k']? = some e') :
      k' = k ∧ e' = e ∨ k' ≠ k ∧ table[k']? = some e' := by
    rcases Decidable.eq_or_ne k' k with rfl | hne
    · rw [List.getElem?_set_self'] at hk'
      cases htable : table[k']? with
      | none => rw [htable] at hk'; cases hk'
      | some _ => rw [htable] at hk'; cases hk'; exact .inl ⟨rfl, rfl⟩
    · rw [List.getElem?_set_ne hne.symm] at hk'
      exact .inr ⟨hne, hk'⟩
  have haddr (hused : e.addr ≠ fdbDataUnused) : e.addr = i * G.S :=
    (he.resolve_left hused).addr
  refine ⟨(List.length_set ..).trans h.length, ?_, ?_⟩
  · intro k' e' hk' hused
    rcases hcases hk' with ⟨rfl, rfl⟩ | ⟨hne, hk'⟩
    · exact ⟨i, hi, by rw [KvSectors.set, Function.update_self]; exact he.resolve_left hused⟩
    · obtain ⟨j, hj, hinfo⟩ := h.entry hk' hused
      have hji : j ≠ i := by
        rintro rfl
        exact hne (hone hk' hinfo.addr)
      exact ⟨j, hj, by rwa [KvSectors.set, Function.update_of_ne hji]⟩
  · intro k₁ k₂ e₁ e₂ h₁ h₂ heq hused
    rcases hcases h₁ with ⟨rfl, rfl⟩ | ⟨-, ht₁⟩ <;> rcases hcases h₂ with ⟨rfl, rfl⟩ | ⟨-, ht₂⟩
    · rfl
    · exact (hone ht₂ (heq ▸ haddr hused)).symm
    · exact hone ht₁ (heq ▸ haddr (heq ▸ hused))
    · exact h.unique ht₁ ht₂ heq hused

/-- A sector that is not in the cache changes. -/
theorem SectorCacheOk.miss (h : SectorCacheOk G A table)
    (hnone : ∀ {k' : Nat} {e}, table[k']? = some e → e.addr ≠ i * G.S) :
    SectorCacheOk G (A.set i s) table := by
  refine ⟨h.length, fun he hused => ?_, h.unique⟩
  obtain ⟨j, hj, hinfo⟩ := h.entry he hused
  have hji : j ≠ i := by
    rintro rfl
    exact hnone he hinfo.addr
  exact ⟨j, hj, by rwa [KvSectors.set, Function.update_of_ne hji]⟩

theorem SectorCacheOk.one (h : SectorCacheOk G A table) (hi : i < G.n)
    (hk : table[k]? = some e) (haddr : e.addr = i * G.S) {k' : Nat} {e' : KvdbSecInfo}
    (hk' : table[k']? = some e') (haddr' : e'.addr = i * G.S) : k' = k :=
  h.unique hk' hk (haddr'.trans haddr.symm) (haddr' ▸ G.addr_ne hi)

/-- The cache of sectors with the entry of an address changed. -/
def modifyTable (table : List KvdbSecInfo) (secAddr : Nat) (f : KvdbSecInfo → KvdbSecInfo) :
    List KvdbSecInfo :=
  match table.findIdx? fun e => e.addr = secAddr with
  | some i => table.modify i f
  | none => table

theorem modifySectorCache_eq {secAddr : Nat} :
    modifySectorCache db secAddr f =
      { db with sectorCacheTable := modifyTable db.sectorCacheTable secAddr f } := by
  unfold modifySectorCache modifyTable
  cases db.sectorCacheTable.findIdx? fun e => e.addr = secAddr <;> rfl

/-- The entry of a sector whose contents change. -/
theorem SectorCacheOk.modify (h : SectorCacheOk G A table) (hi : i < G.n)
    (hf : ∀ e, SecInfoOk G.S i (A i) e → SecInfoOk G.S i s (f e)) :
    SectorCacheOk G (A.set i s) (modifyTable table (i * G.S) f) := by
  unfold modifyTable
  split
  case h_1 x k hk =>
    obtain ⟨hlt, hpos, -⟩ := List.findIdx?_eq_some_iff_getElem.mp hk
    have he := List.getElem?_eq_getElem hlt
    have haddr : table[k].addr = i * G.S := by simpa using hpos
    obtain ⟨j, -, hinfo⟩ := h.entry he (haddr ▸ G.addr_ne hi)
    obtain rfl : j = i := G.addr_inj (hinfo.addr.symm.trans haddr)
    have hset : table.modify k f = table.set k (f table[k]) := by
      refine List.ext_getElem? fun k' => ?_
      rw [List.getElem?_modify, List.getElem?_set]
      rcases Decidable.eq_or_ne k k' with rfl | hne
      · simp only [if_pos, hlt, he, Option.map_eq_map, Option.map_some]
      · simp only [if_neg hne, Option.map_eq_map, Option.map_id_fun', id]
    rw [hset]
    exact h.set hi (h.one hi he haddr) (.inr (hf _ hinfo))
  case h_2 x hk =>
    rw [List.findIdx?_eq_none_iff] at hk
    exact h.miss fun he => by simpa using hk _ (List.mem_of_getElem? he)

/-- A change that the entry of the sector does not tell. -/
theorem SectorCacheOk.same (h : SectorCacheOk G A table)
    (hf : ∀ e, SecInfoOk G.S i (A i) e → SecInfoOk G.S i s e) :
    SectorCacheOk G (A.set i s) table := by
  refine ⟨h.length, fun he hused => ?_, h.unique⟩
  obtain ⟨j, hj, hinfo⟩ := h.entry he hused
  refine ⟨j, hj, ?_⟩
  rcases Decidable.eq_or_ne j i with rfl | hne
  · rw [KvSectors.set, Function.update_self]
    exact hf _ hinfo
  · rwa [KvSectors.set, Function.update_of_ne hne]

/-- `update_sector_cache` puts the sector in place of its entry or of an unused one. -/
theorem updateSectorLoop_cases {fuel : Nat} {emptyIndex : Option Nat}
    (hfuel : k + fuel = table.length) :
    (∃ k' e, table[k']? = some e ∧ e.addr = sector.addr ∧
      updateSectorLoop sector table fuel k emptyIndex =
        table.set k' (if sector.checkOk then sector else { e with addr := fdbDataUnused })) ∨
    (∀ k' e, k ≤ k' → table[k']? = some e → e.addr ≠ sector.addr) ∧
      (updateSectorLoop sector table fuel k emptyIndex = table ∨
        sector.checkOk = true ∧ ∃ k', updateSectorLoop sector table fuel k emptyIndex =
          table.set k' sector) := by
  induction fuel generalizing k emptyIndex with
  | zero =>
    refine .inr ⟨fun k' e hle hk' => ?_, ?_⟩
    · rw [List.getElem?_eq_none (by omega)] at hk'
      cases hk'
    · cases emptyIndex with
      | none => exact .inl rfl
      | some j =>
        rw [updateSectorLoop]
        split
        case isTrue hok => exact .inr ⟨hok, j, rfl⟩
        case isFalse => exact .inl rfl
  | succ fuel ih =>
    have hlt : k < table.length := by omega
    have he := List.getElem?_eq_getElem hlt
    rw [updateSectorLoop, he]
    dsimp only
    split
    case isTrue haddr => exact .inl ⟨k, _, he, haddr, rfl⟩
    case isFalse haddr =>
      refine (ih (by omega)).imp id (And.imp_left fun hrest k' e hle hk' => ?_)
      rcases Nat.eq_or_lt_of_le hle with rfl | hlt'
      · rw [he] at hk'
        cases hk'
        exact haddr
      · exact hrest k' e hlt' hk'

/-- `update_sector_cache` of a sector as it is, or of one whose header is not valid. -/
theorem SectorCacheOk.update (h : SectorCacheOk G A db.sectorCacheTable) (hi : i < G.n)
    (haddr : sector.addr = i * G.S) (hs : sector.checkOk = false ∨ SecInfoOk G.S i s sector) :
    SectorCacheOk G (A.set i s) (updateSectorCache db sector).sectorCacheTable := by
  have hlen : 0 + fdbSectorCacheTableSize = db.sectorCacheTable.length := by
    rw [h.length, Nat.zero_add]
  have hnew {e : KvdbSecInfo} :
      (if sector.checkOk then sector else { e with addr := fdbDataUnused }).addr = fdbDataUnused ∨
        SecInfoOk G.S i s
          (if sector.checkOk then sector else { e with addr := fdbDataUnused }) := by
    split
    case isTrue hok => exact .inr (hs.resolve_left (by rw [hok]; decide))
    case isFalse => exact .inl rfl
  unfold updateSectorCache
  dsimp only
  rcases updateSectorLoop_cases hlen with
    ⟨k, e, hk, hek, heq⟩ | ⟨hnone, heq | ⟨hok, k, heq⟩⟩
  · rw [heq]
    exact h.set hi (h.one hi hk (hek.trans haddr)) hnew
  · rw [heq]
    exact h.miss fun he => haddr ▸ hnone _ _ (Nat.zero_le _) he
  · rw [heq]
    refine h.set hi (fun he hei => absurd (hei.trans haddr.symm) ?_)
      (.inr (hs.resolve_left (by rw [hok]; decide)))
    exact hnone _ _ (Nat.zero_le _) he

/-! ## The records of a sector -/

theorem KvdbOk.used_le (h : KvdbOk G A db) : ∀ i < G.n, (A i).used ≤ G.S := fun i hi => by
  have := (h.sector i hi).fits
  omega

theorem KvdbOk.end_lt (h : KvdbOk G A db) (hi : i < G.n) :
    recAddr G.S i (A i).recs + fdbSecRemainThreshold < i * G.S + G.S := by
  have := (h.sector i hi).fits
  unfold KvSector.used at this
  unfold recAddr
  omega

theorem recAddr_append {S : Nat} :
    recAddr S i (pre ++ [r]) = recAddr S i pre + r.size := by
  simp only [recAddr, recsSize_append, recsSize_cons, recsSize_nil]
  omega

theorem recAddr_le {S : Nat} (hrecs : s.recs = pre ++ post) :
    recAddr S i pre ≤ recAddr S i s.recs := by
  simp only [recAddr, hrecs, recsSize_append]
  omega

/-- A record and the threshold behind it are within its sector. -/
theorem KvdbOk.rec_end (h : KvdbOk G A db) (hi : i < G.n) (hrecs : (A i).recs = pre ++ r :: post) :
    recAddr G.S i pre + r.size + fdbSecRemainThreshold < i * G.S + G.S := by
  have hend := h.end_lt hi
  have hle : recAddr G.S i (pre ++ [r]) ≤ recAddr G.S i (A i).recs :=
    recAddr_le (by rw [hrecs, List.append_assoc, List.singleton_append])
  rw [recAddr_append] at hle
  omega

theorem le_recAddr {S : Nat} : i * S + sectorHdrDataSize ≤ recAddr S i pre :=
  Nat.le_add_right _ _

/-- An address within sector `i`. -/
theorem KvdbOk.secAddr_eq (h : KvdbOk G A db) (hle : i * G.S ≤ addr) (hlt : addr < i * G.S + G.S) :
    db.secAddr addr = i * G.S := by
  have hdiv : addr / G.S = i := Nat.div_eq_of_lt_le hle (by rwa [Nat.succ_mul])
  rw [FdbKvdb.secAddr, h.secSize, hdiv]

theorem KvdbOk.readKv_eq (h : KvdbOk G A db) (hi : i < G.n) (hrecs : (A i).recs = pre ++ r :: post)
    (hkv : kv.addrStart = recAddr G.S i pre) :
    readKv db kv = some (.noErr, r.toKv (recAddr G.S i pre), db) := by
  have hend := h.end_lt hi
  have hle : recAddr G.S i (pre ++ [r]) ≤ recAddr G.S i (A i).recs :=
    recAddr_le (by rw [hrecs, List.append_assoc, List.singleton_append])
  have hsec := sector_le (S := G.S) hi
  have hmax := G.max
  have hlen := h.len
  rw [recAddr_append] at hle
  refine DoorLock.readKv_eq (h.holds.rec hi hrecs) (by omega) (by omega) ?_ hkv
  exact (h.sector i hi).recs r (by rw [hrecs]; exact List.mem_append_right _ List.mem_cons_self)

/-- The record at the start is found. -/
theorem KvdbOk.findNextKvAddr_rec (h : KvdbOk G A db) (hi : i < G.n)
    (hrecs : (A i).recs = pre ++ r :: post) :
    findNextKvAddr db (recAddr G.S i pre) (i * G.S + G.S - sectorHdrDataSize) =
      recAddr G.S i pre := by
  have hend := h.end_lt hi
  have hle : recAddr G.S i (pre ++ [r]) ≤ recAddr G.S i (A i).recs :=
    recAddr_le (by rw [hrecs, List.append_assoc, List.singleton_append])
  rw [recAddr_append] at hle
  have hsize := r.le_size
  have hlo : i * G.S + sectorHdrDataSize ≤ recAddr G.S i pre := le_recAddr
  have hsec := sector_le (S := G.S) hi
  have hmax := G.max
  have hlen := h.len
  unfold fdbSecRemainThreshold kvHdrDataSize fdbKvNameMax at hend
  unfold kvHdrDataSize at hsize
  unfold sectorHdrDataSize at hlo
  have hloop : findNextLoop db.part (recAddr G.S i pre) (i * G.S + G.S - sectorHdrDataSize)
      (i * G.S + G.S - sectorHdrDataSize - recAddr G.S i pre) (recAddr G.S i pre) =
        recAddr G.S i pre := by
    obtain ⟨fuel, hfuel⟩ : ∃ fuel,
        i * G.S + G.S - sectorHdrDataSize - recAddr G.S i pre = fuel + 1 :=
      ⟨_, (Nat.succ_pred_eq_of_pos (by unfold sectorHdrDataSize; omega)).symm⟩
    rw [hfuel]
    unfold sectorHdrDataSize
    exact findNextLoop_rec (h.holds.rec hi hrecs) (by unfold kvMagicOffset; omega) (by omega)
      (by omega) (by omega)
  rw [findNextKvAddr, h.secAddr_eq (i := i) (by omega) (by omega)]
  split
  case h_1 e he =>
    have hroom := (h.cache.of_get hi he).room
    have hne : recAddr G.S i pre ≠ e.emptyKv := by
      unfold failedAddr at hroom
      omega
    rw [if_neg hne, hloop]
  case h_2 => exact hloop

/-- Behind the last record there is none. -/
theorem KvdbOk.findNextKvAddr_end (h : KvdbOk G A db) (hi : i < G.n) :
    findNextKvAddr db (recAddr G.S i (A i).recs) (i * G.S + G.S - sectorHdrDataSize) =
      failedAddr := by
  have hsec := sector_le (S := G.S) hi
  have hlen := h.len
  have hloop {fuel : Nat} : findNextLoop db.part (recAddr G.S i (A i).recs)
      (i * G.S + G.S - sectorHdrDataSize) fuel (recAddr G.S i (A i).recs) = failedAddr :=
    findNextLoop_erased
      (fun p hle hlt => h.holds.free hi (h.used_le i hi) hle (Nat.lt_of_lt_of_le hlt (by omega)))
      (by omega)
  unfold findNextKvAddr
  split
  case h_1 e he =>
    split
    case isTrue => rfl
    case isFalse => exact hloop
  case h_2 => exact hloop

/-- The next record of a sector. -/
theorem KvdbOk.getNextKvAddr_rec (h : KvdbOk G A db) (hi : i < G.n)
    (hrecs : (A i).recs = pre ++ r :: r' :: post) (hstore : sector.store ≠ .empty)
    (hsec : sector.addr = i * G.S) (hkv : kv.addrStart = recAddr G.S i pre)
    (hcrc : kv.crcIsOk = true) (hlen : kv.len = r.size) :
    getNextKvAddr db sector kv = recAddr G.S i (pre ++ [r]) := by
  have hrecs' : (A i).recs = (pre ++ [r]) ++ r' :: post := by
    rw [hrecs, List.append_assoc, List.singleton_append]
  have hend := h.end_lt hi
  have hle := recAddr_le (S := G.S) (i := i) hrecs'
  have hlt := G.sector_lt hi
  have hsize := r.le_size
  have happ : recAddr G.S i (pre ++ [r]) = recAddr G.S i pre + r.size := recAddr_append
  unfold kvHdrDataSize at hsize
  have hpre : ¬recAddr G.S i pre = failedAddr := by
    unfold failedAddr
    omega
  have hin : recAddr G.S i pre ≤ i * G.S + G.S := by omega
  have hnext : ¬(recAddr G.S i (pre ++ [r]) = failedAddr ∨
      recAddr G.S i (pre ++ [r]) > i * G.S + G.S ∨ r.size = 0) := by
    unfold failedAddr
    omega
  rw [getNextKvAddr, if_neg hstore, hkv, if_neg hpre, hsec, h.secSize, if_pos hin,
    if_pos hcrc, hlen, ← happ]
  dsimp only
  rw [h.findNextKvAddr_rec hi hrecs', if_neg hnext]

/-- The last record of a sector. -/
theorem KvdbOk.getNextKvAddr_last (h : KvdbOk G A db) (hi : i < G.n)
    (hrecs : (A i).recs = pre ++ [r]) (hkv : kv.addrStart = recAddr G.S i pre)
    (hsec : sector.addr = i * G.S) (hcrc : kv.crcIsOk = true) (hlen : kv.len = r.size) :
    getNextKvAddr db sector kv = failedAddr := by
  have hend := h.end_lt hi
  have hlt := G.sector_lt hi
  have happ : recAddr G.S i (pre ++ [r]) = recAddr G.S i pre + r.size := recAddr_append
  rw [hrecs] at hend
  have hpre : ¬recAddr G.S i pre = failedAddr := by
    unfold failedAddr
    omega
  have hin : recAddr G.S i pre ≤ i * G.S + G.S := by omega
  have hfind := h.findNextKvAddr_end hi
  rw [hrecs] at hfind
  rcases Decidable.em (sector.store = .empty) with hstore | hstore
  · exact if_pos hstore
  · rw [getNextKvAddr, if_neg hstore, hkv, if_neg hpre, hsec, h.secSize, if_pos hin, if_pos hcrc,
      hlen, ← happ]
    dsimp only
    rw [hfind, if_pos (.inl rfl)]

/-! ## The header of a sector -/

/-- What `read_sector_info` makes of sector `i` without traversing it. -/
def KvSector.info (S i : Nat) (s : KvSector) : KvdbSecInfo where
  checkOk := true
  store := s.store
  dirty := s.dirty
  addr := i * S
  combined := sectorNotCombined
  remain := 0
  emptyKv := failedAddr

/-- The same with its records traversed. -/
def KvSector.fullInfo (S i : Nat) (s : KvSector) : KvdbSecInfo :=
  { s.info S i with remain := S - s.used, emptyKv := recAddr S i s.recs }

theorem KvSector.Ok.info {S : Nat} (h : s.Ok S) : SecInfoOk S i s (s.info S i) where
  addr := rfl
  checkOk := rfl
  store := rfl
  dirty := Iff.rfl
  dirty_ne := h.dirty
  combined := rfl
  room := .inl rfl

theorem KvSector.Ok.fullInfo {S : Nat} (h : s.Ok S) : SecInfoOk S i s (s.fullInfo S i) where
  addr := rfl
  checkOk := rfl
  store := rfl
  dirty := Iff.rfl
  dirty_ne := h.dirty
  combined := rfl
  room := .inr ⟨rfl, rfl⟩

theorem u32_sub {a b : Nat} (hle : b ≤ a) (ha : a < 0xFFFFFFFF) : u32 (a - b : Int) = a - b := by
  unfold u32
  omega

/-- The entry of a sector whose first records are `pre`, as the loop over the records has it. -/
def KvdbSecInfo.upTo (S i : Nat) (pre : List KvRec) (sector : KvdbSecInfo) : KvdbSecInfo :=
  { sector with
    emptyKv := recAddr S i pre, remain := S - (sectorHdrDataSize + recsSize pre) }

theorem KvdbOk.remainLoop_step {fuel : Nat} (h : KvdbOk G A db) (hi : i < G.n)
    (hrecs : (A i).recs = pre ++ r :: post) (hkv : kv.addrStart = recAddr G.S i pre) :
    remainLoop (fuel + 1) db (sector.upTo G.S i pre) kv =
      (let next := getNextKvAddr db (sector.upTo G.S i (pre ++ [r]))
        (r.toKv (recAddr G.S i pre))
      if next = failedAddr then some (.noErr, sector.upTo G.S i (pre ++ [r]), db)
      else remainLoop fuel db (sector.upTo G.S i (pre ++ [r]))
        { r.toKv (recAddr G.S i pre) with addrStart := next }) := by
  have hlt := G.sector_lt hi
  have hused := h.used_le i hi
  have hread := h.readKv_eq hi hrecs hkv
  have hok : ¬((r.toKv (recAddr G.S i pre)).crcIsOk = false ∧
      (r.toKv (recAddr G.S i pre)).status ≠ .preWrite ∧
      (r.toKv (recAddr G.S i pre)).status ≠ .errHdr) := fun hbad => Bool.noConfusion hbad.1
  have hfits : sectorHdrDataSize + recsSize pre + r.size ≤ G.S := by
    rw [KvSector.used, hrecs, recsSize_append, recsSize_cons] at hused
    omega
  have hnextEmpty : recAddr G.S i pre + (r.toKv (recAddr G.S i pre)).len =
      recAddr G.S i (pre ++ [r]) :=
    recAddr_append.symm
  have hnextRemain : u32 ((G.S - (sectorHdrDataSize + recsSize pre) : Nat) -
      (r.toKv (recAddr G.S i pre)).len : Int) =
        G.S - (sectorHdrDataSize + recsSize (pre ++ [r])) := by
    have hlen : (r.toKv (recAddr G.S i pre)).len = r.size := rfl
    rw [hlen, u32_sub (by omega) (by omega), recsSize_append, recsSize_cons, recsSize_nil]
    omega
  rw [remainLoop, hread, Option.bind_eq_bind, Option.bind_some]
  dsimp only
  rw [if_neg hok]
  simp only [KvdbSecInfo.upTo, hnextEmpty, hnextRemain]
  rfl

/-- The loop over the records adds up their lengths. -/
theorem KvdbOk.remainLoop_eq {fuel : Nat} (h : KvdbOk G A db) (hi : i < G.n)
    (hrecs : (A i).recs = pre ++ r :: post) (hstore : sector.store ≠ .empty)
    (hsec : sector.addr = i * G.S) (hkv : kv.addrStart = recAddr G.S i pre)
    (hfuel : post.length < fuel) :
    remainLoop fuel db (sector.upTo G.S i pre) kv =
      some (.noErr, sector.upTo G.S i (A i).recs, db) := by
  have hsec' {pre : List KvRec} : (sector.upTo G.S i pre).addr = i * G.S := hsec
  have hstore' {pre : List KvRec} : (sector.upTo G.S i pre).store ≠ .empty := hstore
  induction post generalizing pre r kv fuel with
  | nil =>
    obtain ⟨fuel, rfl⟩ : ∃ f, fuel = f + 1 := ⟨fuel - 1, by omega⟩
    rw [h.remainLoop_step hi hrecs hkv]
    dsimp only
    rw [h.getNextKvAddr_last hi hrecs (r.addrStart_toKv _) hsec' rfl rfl, if_pos rfl, hrecs]
  | cons r' post ih =>
    obtain ⟨fuel, rfl⟩ : ∃ f, fuel = f + 1 := ⟨fuel - 1, by omega⟩
    have hrecs' : (A i).recs = (pre ++ [r]) ++ r' :: post := by
      rw [hrecs, List.append_assoc, List.singleton_append]
    have hne : recAddr G.S i (pre ++ [r]) ≠ failedAddr := by
      have hle := recAddr_le (S := G.S) (i := i) hrecs'
      have hend := h.end_lt hi
      have hlt := G.sector_lt hi
      unfold failedAddr
      omega
    rw [h.remainLoop_step hi hrecs hkv]
    dsimp only
    rw [h.getNextKvAddr_rec hi hrecs hstore' hsec' (r.addrStart_toKv _) rfl rfl, if_neg hne]
    exact ih hrecs' rfl (by rw [List.length_cons] at hfuel; omega)

/-- Bytes that are all erased go on from the first. -/
theorem ffScan_erased {pos : Nat} {lastData : UInt8} :
    ffScan (List.replicate (k + 1) 0xFF) pos lastData addr =
      (0xFF, if lastData = 0xFF then addr else pos) := by
  induction k generalizing pos lastData addr with
  | zero =>
    simp only [List.replicate_succ, List.replicate_zero, ffScan, and_true, ne_eq, ite_not]
  | succ k ih =>
    rw [List.replicate_succ, ffScan, ih, if_pos rfl]
    simp only [and_true, ne_eq, ite_not]

theorem fdbContinueFfLoop_step {part : FalPartition} {start stop fuel : Nat} {lastData : UInt8}
    (hfree : ∀ p, start ≤ p → p < stop → part.flash p = 0xFF) (hle : stop ≤ part.len)
    (hlt : start < stop) :
    fdbContinueFfLoop part stop (fuel + 1) start lastData addr =
      fdbContinueFfLoop part stop fuel (start + 32) 0xFF
        (if lastData = 0xFF then addr else start) := by
  obtain ⟨k, hk⟩ : ∃ k, k + 1 = if start + 32 < stop then 32 else stop - start := by
    split
    case isTrue => exact ⟨31, rfl⟩
    case isFalse => exact ⟨stop - start - 1, by omega⟩
  have hin : start + (k + 1) ≤ stop := by split at hk <;> omega
  have hbuf : read part.flash start (k + 1) = List.replicate (k + 1) 0xFF :=
    (at_replicate.mpr fun p hp hp' => hfree p hp (by omega)).read_eq List.length_replicate
  rw [fdbContinueFfLoop, if_pos hlt, ← hk]
  dsimp only
  rw [fdbFlashRead_eq (by omega), hbuf, Option.bind_eq_bind, Option.bind_some, ffScan_erased]

theorem fdbContinueFfLoop_erased {part : FalPartition} {start stop fuel : Nat}
    (hfree : ∀ p, start ≤ p → p < stop → part.flash p = 0xFF) (hle : stop ≤ part.len) :
    fdbContinueFfLoop part stop fuel start 0xFF addr = some (0xFF, addr) := by
  induction fuel generalizing start with
  | zero => rfl
  | succ fuel ih =>
    rcases Nat.lt_or_ge start stop with hlt | hge
    · rw [fdbContinueFfLoop_step hfree hle hlt, if_pos rfl]
      exact ih fun p hp => hfree p (by omega)
    · rw [fdbContinueFfLoop, if_neg (by omega)]

/-- Where all is erased, the end of the data is the start. -/
theorem fdbContinueFfAddr_erased {part : FalPartition} {start stop : Nat}
    (hfree : ∀ p, start ≤ p → p < stop → part.flash p = 0xFF) (hle : stop ≤ part.len)
    (hlt : start < stop) : fdbContinueFfAddr part start stop = some start := by
  obtain ⟨fuel, hfuel⟩ : ∃ fuel, stop - start = fuel + 1 := ⟨stop - start - 1, by omega⟩
  have hne : ¬(0x00 : UInt8) = 0xFF := by decide
  rw [fdbContinueFfAddr, hfuel, fdbContinueFfLoop_step hfree hle hlt, if_neg hne,
    fdbContinueFfLoop_erased (fun p hp => hfree p (by omega)) hle, Option.bind_eq_bind,
    Option.bind_some]
  exact if_pos rfl

/-! ## `read_sector_info` -/

/-- Nothing was changed but the cache of sectors, which is right. -/
structure ReadsOnly (G : KvGeom) (A : KvSectors) (db db' : FdbKvdb) : Prop where
  ok : KvdbOk G A db'
  same : ∃ table, db' = { db with sectorCacheTable := table }

theorem ReadsOnly.refl (h : KvdbOk G A db) : ReadsOnly G A db db := ⟨h, _, rfl⟩

theorem ReadsOnly.trans {db' db'' : FdbKvdb} (h : ReadsOnly G A db db')
    (h' : ReadsOnly G A db' db'') : ReadsOnly G A db db'' := by
  obtain ⟨table, rfl⟩ := h.same
  obtain ⟨table', rfl⟩ := h'.same
  exact ⟨h'.ok, table', rfl⟩

theorem KvdbOk.cached (h : KvdbOk G A db) (hi : i < G.n)
    (hs : SecInfoOk G.S i (A i) sector) : ReadsOnly G A db (updateSectorCache db sector) := by
  refine ⟨{ h with cache := ?_ }, _, rfl⟩
  have := h.cache.update hi hs.addr (.inr hs)
  rwa [KvSectors.set, Function.update_eq_self] at this

/-- The traversal of a sector. -/
theorem KvdbOk.sectorRemain_eq (h : KvdbOk G A db) (hi : i < G.n) :
    sectorRemain db ((A i).info G.S i) = some (.noErr, (A i).fullInfo G.S i, db) := by
  have hS := h.secSize
  rcases (h.sector i hi).store with ⟨hstore, hrecs, -⟩ | ⟨hstore, hrecs⟩
  · have hinfo : ((A i).info G.S i).store = .empty := hstore
    simp only [sectorRemain, hinfo, hS]
    simp only [KvSector.fullInfo, KvSector.info, KvSector.used, recAddr, hrecs, hstore,
      recsSize_nil, Nat.add_zero]
  · obtain ⟨r, post, hcons⟩ := List.exists_cons_of_ne_nil hrecs
    have hinfo : ((A i).info G.S i).store = .using := hstore
    have hne : ((A i).info G.S i).store ≠ .empty := by rw [hinfo]; decide
    have hcount := length_le_recsSize (A i).recs
    have hused := h.used_le i hi
    have hend := h.end_lt hi
    have hsec := sector_le (S := G.S) hi
    have hlen := h.len
    have hfuel : post.length < db.secSize := by
      rw [hcons, List.length_cons, ← hcons] at hcount
      unfold KvSector.used kvHdrDataSize at *
      omega
    have hloop : remainLoop db.secSize db (((A i).info G.S i).upTo G.S i [])
        (.fresh (i * G.S + sectorHdrDataSize)) = _ := h.remainLoop_eq hi hcons hne rfl rfl hfuel
    have hff : fdbContinueFfAddr db.part (recAddr G.S i (A i).recs) (i * G.S + G.S) =
        some (recAddr G.S i (A i).recs) :=
      fdbContinueFfAddr_erased (fun p => h.holds.free hi hused) (by omega) (by omega)
    rw [hS] at hloop
    simp only [sectorRemain, hinfo, hS]
    rw [← hinfo]
    change (remainLoop G.S db (((A i).info G.S i).upTo G.S i [])
      (.fresh (i * G.S + sectorHdrDataSize)) >>= _) = _
    rw [hloop, Option.bind_eq_bind, Option.bind_some]
    dsimp only
    change (fdbContinueFfAddr db.part (recAddr G.S i (A i).recs) (i * G.S + db.secSize) >>= _) = _
    rw [hS, hff, Option.bind_eq_bind, Option.bind_some]
    exact if_neg fun hne => hne rfl

/-- The header is read back from the flash. -/
theorem KvdbOk.readSectorFlash_eq (h : KvdbOk G A db) (hi : i < G.n) {traversal : Bool} :
    readSectorFlash db (i * G.S) sector traversal =
      if traversal then
        some (.noErr, (A i).fullInfo G.S i, updateSectorCache db ((A i).fullInfo G.S i))
      else if (getSectorFromCache db (i * G.S)).isNone then
        some (.noErr, (A i).info G.S i, updateSectorCache db ((A i).info G.S i))
      else some (.noErr, { (A i).info G.S i with
        remain := sector.remain, emptyKv := sector.emptyKv }, db) := by
  have hsec := sector_le (S := G.S) hi
  have hlen := h.len
  have hroom := G.room
  have hread : fdbFlashRead db.part (i * G.S) sectorHdrDataSize =
      some (KvSector.hdr (A i).store (A i).dirty) := by
    rw [fdbFlashRead_eq (by omega), (h.holds.hdr hi).read_eq KvSector.length_hdr]
  have hmagic : u32At ((KvSector.hdr (A i).store (A i).dirty).drop 4) = sectorMagicWord :=
    u32At_u32Bytes (n := sectorMagicWord) (by decide) _
  have hcombined : u32At ((KvSector.hdr (A i).store (A i).dirty).drop 8) = sectorNotCombined :=
    u32At_u32Bytes (n := sectorNotCombined) (by decide) _
  have hstore : FdbSectorStoreStatus.ofCode
      (fdbGetStatus (KvSector.hdr (A i).store (A i).dirty) fdbSectorStatusNum) = (A i).store := by
    rw [KvSector.hdr, List.cons_append, List.cons_append, List.cons_append, fdbGetStatus_store,
      FdbSectorStoreStatus.ofCode_code]
  have hdirty : FdbSectorDirtyStatus.ofCode
      (fdbGetStatus ((KvSector.hdr (A i).store (A i).dirty).drop sectorDirtyOffset)
        fdbSectorStatusNum) = (A i).dirty := by
    rw [KvSector.hdr, sectorDirtyOffset, List.cons_append, List.cons_append, List.cons_append,
      List.cons_append, List.cons_append, List.cons_append, List.drop_succ_cons, List.drop_zero,
      fdbGetStatus_dirty, FdbSectorDirtyStatus.ofCode_code]
  have hbad : ¬(sectorMagicWord ≠ sectorMagicWord ∨
      (sectorNotCombined ≠ sectorNotCombined ∧ sectorNotCombined ≠ sectorCombined)) := by decide
  rw [readSectorFlash, hread, Option.bind_eq_bind, Option.bind_some]
  dsimp only
  rw [hmagic, hcombined, if_neg hbad, hstore, hdirty]
  cases traversal with
  | true =>
    rw [if_pos rfl, if_pos rfl]
    change (sectorRemain db ((A i).info G.S i) >>= _) = _
    rw [h.sectorRemain_eq hi]
    rfl
  | false =>
    rw [if_neg Bool.false_ne_true, if_neg Bool.false_ne_true]
    rfl

/-- `read_sector_info` returns what the sector is; exactly where it is told to traverse it. -/
theorem KvdbOk.readSectorInfo_ok (h : KvdbOk G A db) (hi : i < G.n) {traversal : Bool} :
    Yields (readSectorInfo db (i * G.S) sector traversal) fun x =>
      x.1 = .noErr ∧ SecInfoOk G.S i (A i) x.2.1 ∧ ReadsOnly G A db x.2.2 ∧
        (traversal = true → x.2.1.emptyKv ≠ failedAddr) := by
  have hmod : ¬i * G.S % db.secSize ≠ 0 := by
    rw [h.secSize, Nat.mul_mod_left]
    exact fun hne => hne rfl
  have hfull : ((A i).fullInfo G.S i).emptyKv ≠ failedAddr := by
    have hend := h.end_lt hi
    have hlt := G.sector_lt hi
    change recAddr G.S i (A i).recs ≠ failedAddr
    unfold failedAddr
    omega
  have hok := h.sector i hi
  rw [readSectorInfo, if_neg hmod]
  cases hget : getSectorFromCache db (i * G.S) with
  | some e =>
    have he := h.cache.of_get hi hget
    dsimp only
    split
    case isTrue hcached =>
      refine .pure ⟨rfl, he, .refl h, fun htrav => ?_⟩
      rw [htrav] at hcached
      simpa using hcached
    case isFalse hcached =>
      have htrav : traversal = true := by
        cases traversal with
        | true => rfl
        | false => exact absurd rfl hcached
      rw [h.readSectorFlash_eq hi, if_pos htrav]
      exact .pure ⟨rfl, hok.fullInfo, h.cached hi hok.fullInfo, fun _ => hfull⟩
  | none =>
    dsimp only
    rw [h.readSectorFlash_eq hi]
    split
    case isTrue => exact .pure ⟨rfl, hok.fullInfo, h.cached hi hok.fullInfo, fun _ => hfull⟩
    case isFalse htrav =>
      rw [hget, if_pos Option.isNone_none]
      exact .pure ⟨rfl, hok.info, h.cached hi hok.info, fun ht => absurd ht htrav⟩

end DoorLock
