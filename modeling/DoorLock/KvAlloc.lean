import DoorLock.KvFind
import Mathlib.Data.Nat.Count
import Mathlib.Data.Finset.Card

/-!
# Allocation

`alloc_kv` returns the end of the records of a sector that has room, one in use if there is any; the
last empty sector is kept back for a collection. When it returns no address, no clean sector in use
has room.
-/

namespace DoorLock

variable {G : KvGeom} {A : KvSectors} {db db' : FdbKvdb} {sector : KvdbSecInfo} {i k o kvSize : Nat}
  {status : FdbSectorStoreStatus}

/-- A sector has room for `kvSize` bytes and the threshold. -/
def KvSector.Room (S kvSize : Nat) (s : KvSector) : Prop :=
  s.used + kvSize + fdbSecRemainThreshold < S

/-- A sector that `alloc_kv_cb` takes: it may hold deleted records unless a collection was
requested. -/
structure Chosen (G : KvGeom) (A : KvSectors) (gcRequest : Bool) (kvSize i : Nat)
    (sector : KvdbSecInfo) (addr : Nat) : Prop where
  lt : i < G.n
  info : SecInfoOk G.S i (A i) sector
  emptyKv : sector.emptyKv = addr
  addr : addr = recAddr G.S i (A i).recs
  room : (A i).Room G.S kvSize
  dirty : (A i).dirty = .no ∨ gcRequest = false

/-- The condition of `alloc_kv_cb` on a sector that was traversed. -/
theorem SecInfoOk.hasRoom_iff {S : Nat} {s : KvSector} {gcRequest : Bool}
    (h : SecInfoOk S i s sector) (htrav : sector.emptyKv ≠ failedAddr) :
    sector.hasRoom gcRequest kvSize = true ↔
      s.Room S kvSize ∧ (s.dirty = .no ∨ sector.dirty = .yes ∧ gcRequest = false) := by
  have hremain := (h.room.resolve_left htrav).2
  have hroom : sector.remain > kvSize + fdbSecRemainThreshold ↔ s.Room S kvSize := by
    rw [hremain, KvSector.Room]
    omega
  have hdirty := h.dirty
  simp only [KvdbSecInfo.hasRoom, h.checkOk, Bool.true_and, Bool.and_eq_true, decide_eq_true_eq,
    Bool.or_eq_true, Bool.not_eq_true', hroom, hdirty]

/-- The search of `alloc_kv` among the sectors with a status. -/
theorem KvdbOk.allocSearch_ok (h : KvdbOk G A db) (hstatus : status ≠ .unused) :
    Yields (sectorIterator db sector status failedAddr (allocKvCb kvSize) true) fun x =>
      ReadsOnly G A db x.2.1 ∧
        (x.2.2 = failedAddr ∧ (∀ i < G.n, (A i).store = status → (A i).dirty = .no →
          ¬(A i).Room G.S kvSize) ∨
        ∃ i, (A i).store = status ∧ Chosen G A db.gcRequest kvSize i x.1 x.2.2) := by
  obtain ⟨o, ho, holdest⟩ := h.oldest
  refine sectorIterator_yields (G := G) (A := A) (o := o)
    (I := fun k A' db' s => A' = A ∧ ReadsOnly G A db db' ∧ s = failedAddr ∧
      ∀ k' < k, (A (G.nth o k')).store = status → (A (G.nth o k')).dirty = .no →
        ¬(A (G.nth o k')).Room G.S kvSize)
    (Q := fun sector db' s => ReadsOnly G A db db' ∧
      (s = failedAddr ∧ (∀ i < G.n, (A i).store = status → (A i).dirty = .no →
        ¬(A i).Room G.S kvSize) ∨
      ∃ i, (A i).store = status ∧ Chosen G A db.gcRequest kvSize i sector s))
    ?_ ?_ ?_ ?_ ?_ ho holdest
    ⟨rfl, .refl h, rfl, fun k hk => absurd hk (Nat.not_lt_zero k)⟩
  · rintro k A' db' s ⟨rfl, hro, -, -⟩
    exact hro.ok
  · rintro k A' db' db'' s ⟨rfl, hro, hs, hno⟩ hro'
    exact ⟨rfl, hro.trans hro', hs, hno⟩
  · rintro k A' db' s sector hk ⟨rfl, hro, rfl, hno⟩ hinfo htrav hst
    have hst := hst.resolve_left hstatus
    have hgc : db'.gcRequest = db.gcRequest := by
      obtain ⟨table, rfl⟩ := hro.same
      rfl
    have hroom : sector.hasRoom db'.gcRequest kvSize = true ↔ _ := hinfo.hasRoom_iff (htrav rfl)
    rw [allocKvCb]
    refine .ite (fun hyes => .pure ?_) fun hno' => .pure ?_
    · obtain ⟨hr, hd⟩ := hroom.mp hyes
      obtain ⟨haddr, -⟩ := hinfo.room.resolve_left (htrav rfl)
      exact ⟨hro, .inr ⟨_, hst.symm, G.nth_lt, hinfo, rfl, haddr, hr,
        hd.imp_right (hgc ▸ And.right)⟩⟩
    · refine ⟨A', rfl, hro, rfl, fun k' hk' hst' hd hr => ?_⟩
      rcases Nat.lt_succ_iff_lt_or_eq.mp hk' with hlt | rfl
      · exact hno k' hlt hst' hd hr
      · exact hno' (hroom.mpr ⟨hr, .inl hd⟩)
  · rintro k A' db' s hk ⟨rfl, hro, hs, hno⟩ hst
    refine ⟨rfl, hro, hs, fun k' hk' hst' hd hr => ?_⟩
    rcases Nat.lt_succ_iff_lt_or_eq.mp hk' with hlt | rfl
    · exact hno k' hlt hst' hd hr
    · exact hst (.inr hst'.symm)
  · rintro A' db' s sector ⟨rfl, hro, rfl, hno⟩
    refine ⟨hro, .inl ⟨rfl, fun i hi => ?_⟩⟩
    obtain ⟨k, hk, rfl⟩ := G.exists_nth ho hi
    exact hno k hk

/-! ## Counting -/

/-- The number of sectors with a status among the first `k` that are visited. -/
def countStore (G : KvGeom) (A : KvSectors) (o : Nat) (status : FdbSectorStoreStatus) (k : Nat) :
    Nat :=
  Nat.count (fun k => (A (G.nth o k)).store = status) k

theorem countStore_succ :
    countStore G A o status (k + 1) =
      countStore G A o status k + if (A (G.nth o k)).store = status then 1 else 0 :=
  Nat.count_succ _ k

theorem countStore_pos (ho : o < G.n) :
    0 < countStore G A o status G.n ↔ ∃ i < G.n, (A i).store = status := by
  rw [countStore, Nat.count_eq_card_filter_range, Finset.card_pos]
  constructor
  · rintro ⟨k, hk⟩
    rw [Finset.mem_filter, Finset.mem_range] at hk
    exact ⟨_, G.nth_lt, hk.2⟩
  · rintro ⟨i, hi, hst⟩
    obtain ⟨k, hk, rfl⟩ := G.exists_nth ho hi
    exact ⟨k, Finset.mem_filter.mpr ⟨Finset.mem_range.mpr hk, hst⟩⟩

theorem one_lt_countStore (ho : o < G.n) :
    1 < countStore G A o status G.n ↔
      ∃ i < G.n, ∃ j < G.n, i ≠ j ∧ (A i).store = status ∧ (A j).store = status := by
  rw [countStore, Nat.count_eq_card_filter_range, Finset.one_lt_card]
  constructor
  · rintro ⟨k, hk, k', hk', hne⟩
    rw [Finset.mem_filter, Finset.mem_range] at hk hk'
    exact ⟨_, G.nth_lt, _, G.nth_lt, mt (G.nth_inj hk.1 hk'.1) hne, hk.2, hk'.2⟩
  · rintro ⟨i, hi, j, hj, hne, hst, hst'⟩
    obtain ⟨k, hk, rfl⟩ := G.exists_nth ho hi
    obtain ⟨k', hk', rfl⟩ := G.exists_nth ho hj
    refine ⟨k, Finset.mem_filter.mpr ⟨Finset.mem_range.mpr hk, hst⟩, k',
      Finset.mem_filter.mpr ⟨Finset.mem_range.mpr hk', hst'⟩, ?_⟩
    rintro rfl
    exact hne rfl

/-- `alloc_kv` counts the empty sectors and those in use. -/
theorem KvdbOk.sectorStatistics_ok (h : KvdbOk G A db) (ho : o < G.n)
    (holdest : db.oldestAddr = o * G.S) :
    Yields (sectorIterator db sector .unused (0, 0) sectorStatisticsCb false) fun x =>
      ReadsOnly G A db x.2.1 ∧
        x.2.2 = (countStore G A o .empty G.n, countStore G A o .using G.n) := by
  refine sectorIterator_yields (G := G) (A := A) (o := o)
    (I := fun k A' db' s => A' = A ∧ ReadsOnly G A db db' ∧
      s = (countStore G A o .empty k, countStore G A o .using k))
    (Q := fun _ db' s => ReadsOnly G A db db' ∧
      s = (countStore G A o .empty G.n, countStore G A o .using G.n))
    ?_ ?_ ?_ ?_ ?_ ho holdest ⟨rfl, .refl h, rfl⟩
  · rintro k A' db' s ⟨rfl, hro, -⟩
    exact hro.ok
  · rintro k A' db' db'' s ⟨rfl, hro, hs⟩ hro'
    exact ⟨rfl, hro.trans hro', hs⟩
  · rintro k A' db' s sector hk ⟨rfl, hro, rfl⟩ hinfo - -
    have hcases := (hro.ok.sector _ (G.nth_lt (o := o) (k := k))).store
    rw [sectorStatisticsCb, hinfo.checkOk, hinfo.store]
    refine .ite (fun hempty => .pure ⟨A', rfl, hro, ?_⟩) fun hempty =>
      .ite (fun husing => .pure ⟨A', rfl, hro, ?_⟩) fun husing => ?_
    · simp [countStore_succ, hempty.2]
    · simp [countStore_succ, husing.2]
    · rcases hcases with hst | hst
      · exact absurd ⟨rfl, hst.1⟩ hempty
      · exact absurd ⟨rfl, hst.1⟩ husing
  · rintro k A' db' s hk - hst
    exact absurd (.inl rfl) hst
  · rintro A' db' s sector ⟨-, hro, hs⟩
    exact ⟨hro, hs⟩

/-- What `alloc_kv` returns, with `gc_request` before and after it: the end of a sector that has
room; no address, when none has; or no address and a request, to keep back the only empty sector. -/
inductive Alloc (G : KvGeom) (A : KvSectors) (kvSize : Nat) (gc : Bool) :
    Nat → KvdbSecInfo → Bool → Prop
  | chosen {i : Nat} {sector : KvdbSecInfo} {addr : Nat} (h : Chosen G A gc kvSize i sector addr)
    (hkeep : (A i).store = .empty → gc = true ∨ ∃ j < G.n, j ≠ i ∧ (A j).store = .empty) :
    Alloc G A kvSize gc addr sector gc
  | full {sector : KvdbSecInfo} (husing : ∀ i < G.n, (A i).store = .using → (A i).dirty = .no →
      ¬(A i).Room G.S kvSize)
    (hempty : ∀ i < G.n, (A i).store = .empty → ¬(A i).Room G.S kvSize) :
    Alloc G A kvSize gc failedAddr sector gc
  | request {i : Nat} {sector : KvdbSecInfo}
      (husing : ∀ i < G.n, (A i).store = .using → (A i).dirty = .no → ¬(A i).Room G.S kvSize)
      (hgc : gc = false) (hi : i < G.n) (hempty : (A i).store = .empty)
    (honly : ∀ j < G.n, (A j).store = .empty → j = i) :
    Alloc G A kvSize gc failedAddr sector true

theorem Chosen.ne_failed (h : KvdbOk G A db) {gc : Bool} {addr : Nat}
    (hc : Chosen G A gc kvSize i sector addr) : addr ≠ failedAddr := by
  have hend := h.end_lt hc.lt
  have hlt := G.sector_lt hc.lt
  have haddr := hc.addr
  unfold failedAddr
  omega

/-- `alloc_kv` -/
theorem KvdbOk.allocKv_ok (h : KvdbOk G A db) :
    Yields (allocKv db sector kvSize) fun x => ∃ gc,
      ReadsOnly G A { db with gcRequest := gc } x.2.2 ∧
      Alloc G A kvSize db.gcRequest x.1 x.2.1 gc := by
  obtain ⟨o, ho, holdest⟩ := h.oldest
  rw [allocKv]
  refine (h.sectorStatistics_ok ho holdest).bind ?_
  rintro ⟨sector, db₁, emptySector, usingSector⟩ ⟨hro, hcount⟩
  cases hcount
  -- what is left to do after the search among the sectors in use
  have hrest {sector db₂ emptyKv} (hro : ReadsOnly G A db db₂)
      (hfound : emptyKv = failedAddr ∧ (∀ i < G.n, (A i).store = .using → (A i).dirty = .no →
          ¬(A i).Room G.S kvSize) ∨
        ∃ i, (A i).store = .using ∧ Chosen G A db.gcRequest kvSize i sector emptyKv) :
      Yields (if countStore G A o .empty G.n > 0 ∧ emptyKv = failedAddr then
          if countStore G A o .empty G.n > fdbGcEmptySecThreshold ∨ db₂.gcRequest then do
            let x ← sectorIterator db₂ sector .empty failedAddr (allocKvCb kvSize) true
            some (x.2.2, x.1, x.2.1)
          else some (failedAddr, sector, { db₂ with gcRequest := true })
        else some (emptyKv, sector, db₂)) fun x =>
          ∃ gc, ReadsOnly G A { db with gcRequest := gc } x.2.2 ∧
            Alloc G A kvSize db.gcRequest x.1 x.2.1 gc := by
    obtain ⟨table, rfl⟩ := hro.same
    refine .ite (fun hempty => ?_) fun hempty => .pure ⟨db.gcRequest, hro, ?_⟩
    · have husing := hfound.resolve_right fun ⟨i, _, hc⟩ => hc.ne_failed h hempty.2
      refine .ite (fun hgc => ?_) fun hgc => .pure ⟨true, ?_, ?_⟩
      · refine (hro.ok.allocSearch_ok (by decide)).bind ?_
        rintro ⟨sector, db₃, emptyKv⟩ ⟨hro', hres⟩
        refine .pure ⟨db.gcRequest, hro.trans hro', ?_⟩
        rcases hres with ⟨rfl, hno⟩ | ⟨i, hst, hc⟩
        · refine .full husing.2 fun i hi hst => hno i hi hst ?_
          rcases (h.sector i hi).store with hcl | hcl
          · exact hcl.2.2
          · rw [hst] at hcl
            cases hcl.1
        · refine .chosen hc fun _ => hgc.symm.imp id fun hlt => ?_
          obtain ⟨j, hj, j', hj', hne, hstj, hstj'⟩ := (one_lt_countStore ho).mp hlt
          rcases Decidable.eq_or_ne j i with rfl | hji
          · exact ⟨j', hj', hne.symm, hstj'⟩
          · exact ⟨j, hj, hji, hstj⟩
      · exact ⟨{ hro.ok with }, table, rfl⟩
      · obtain ⟨i, hi, hst⟩ := (countStore_pos ho).mp hempty.1
        rw [not_or] at hgc
        refine .request husing.2 (Bool.eq_false_iff.mpr hgc.2) hi hst fun j hj hstj => ?_
        by_contra hne
        exact hgc.1 ((one_lt_countStore ho).mpr ⟨j, hj, i, hi, hne, hstj, hst⟩)
    · rcases hfound with ⟨rfl, hno⟩ | ⟨i, hst, hc⟩
      · refine .full hno fun i hi hst => absurd ⟨?_, rfl⟩ hempty
        exact (countStore_pos ho).mpr ⟨i, hi, hst⟩
      · refine .chosen hc fun hst' => ?_
        rw [hst] at hst'
        cases hst'
  refine .ite (fun hpos => ?_) fun hpos => hrest hro (.inl ⟨rfl, fun i hi hst => ?_⟩)
  · refine (hro.ok.allocSearch_ok (by decide)).bind ?_
    rintro ⟨sector, db₂, emptyKv⟩ ⟨hro', hres⟩
    refine hrest (hro.trans hro') ?_
    obtain ⟨table, rfl⟩ := hro.same
    exact hres
  · exact absurd ((countStore_pos ho).mpr ⟨i, hi, hst⟩) hpos

end DoorLock
