import DoorLock.KvFirst

/-!
# The life of a store

Power cycles of a store, from new flash on, and what a collection leaves of it.
-/

namespace DoorLock

open Nor CString Refine

variable {G : KvGeom} {K : KvNames} {db : FdbKvdb} {fuel : Nat} {part : FalPartition} {M : KvMap}
  {keys : List (List UInt8)} {L : Nat} {defaultKvs : List FdbDefaultKvNode}

/-- The flash while the power is off: of a store that keeps `M`, or new, and then it stands for the
defaults. -/
def Rests (G : KvGeom) (K : KvNames) (defaultKvs : List FdbDefaultKvNode) (part : FalPartition)
    (M : KvMap) : Prop :=
  (∃ A, AtRest G K A part ∧ ∀ {key value}, Stored G A key value ↔ M key = some value) ∨
    part.len = G.n * G.S ∧ (∀ i < G.n, NoHdr part.flash (i * G.S)) ∧
      M = KvMap.defaults (fun _ => none) defaultKvs

theorem StoreKeeps.rests (h : StoreKeeps G K db M) : Rests G K defaultKvs db.part M := by
  obtain ⟨-, A, hok, hM⟩ := h
  exact .inl ⟨A, hok.atRest, hM⟩

/-- `fdb_kvdb_init` -/
theorem Rests.init (h : Rests G K defaultKvs part M) (hcap : Capacity G K keys L)
    (hdefaults : DefaultsOk keys L defaultKvs) (hfuel : 0 < fuel) :
    Yields (fdbKvdbInit fuel (.zero part) G.S defaultKvs) fun x => x.1 = .noErr ∧
      StoreKeeps G K x.2 M := by
  rcases h with ⟨A, hrest, hM⟩ | ⟨hlen, hbad, rfl⟩
  · have hquiet : ∀ i < G.n, (A i).Quiet := fun _ hi => hrest.settled.quiet hi
    refine (hrest.interrupted.init_ok (.inr ⟨hfuel, hquiet⟩) _).mono ?_
    rintro ⟨result, db⟩ ⟨hres, hinit, A', hok, hheld⟩
    exact ⟨hres, hinit, A', hok, (hheld.trans (held_iff_stored hquiet)).trans hM⟩
  · exact init_first hlen hbad hcap hdefaults hfuel

/-- A partition that was erased. -/
def FalPartition.erased (len : Nat) : FalPartition := ⟨fun _ => 0xFF, len⟩

theorem noHdr_erased (a : Nat) : NoHdr (fun _ => 0xFF) a := by
  have hread :
      read (fun _ => 0xFF) a sectorHdrDataSize = List.replicate sectorHdrDataSize 0xFF := by
    rfl
  unfold NoHdr
  rw [hread]
  exact .inl (by decide)

theorem rests_erased : Rests G K defaultKvs (.erased (G.n * G.S))
    (KvMap.defaults (fun _ => none) defaultKvs) :=
  .inr ⟨rfl, fun _ _ => noHdr_erased _, rfl⟩

/-! ## A small store -/

/-- Two sectors of 256 bytes. -/
def twoSectors : KvGeom := ⟨256, 2, by decide, by decide, by decide, by decide⟩

theorem noNul_of_all {s : List UInt8} (h : s.all (· != 0) = true) : NoNul s := by
  intro c hc
  simpa using List.all_eq_true.mp h c hc

/-- The name `k` alone. -/
def oneName : KvNames where
  mem := (· = lit "k")
  keyLen := by
    rintro _ rfl
    decide
  noNul := by
    rintro _ rfl
    exact noNul_of_all (by decide)
  inj := by
    rintro _ _ rfl rfl -
    rfl

/-- The default of this name. -/
def oneDefault : List FdbDefaultKvNode := [⟨lit "k", lit "v", 1⟩]

theorem capacity_oneName : Capacity twoSectors oneName [lit "k"] 1 where
  mem := fun _ h => List.mem_singleton.mp h
  room := by
    intro key h
    rw [List.mem_singleton.mp h]
    decide

theorem defaultsOk_oneDefault : DefaultsOk [lit "k"] 1 oneDefault where
  nodup := by decide
  within := by decide

/-! ## Power cycles -/

/-- The calls that are made between `fdb_kvdb_init` and the loss of power. -/
def kvCycle (fuel S : Nat) (defaultKvs : List FdbDefaultKvNode) (part : FalPartition)
    (cs : List KvCall) : Option (List KvAnswer × FalPartition) := do
  let (_, db) ← fdbKvdbInit fuel (.zero part) S defaultKvs
  let (bs, db) ← calls kvCall db cs
  some (bs, db.part)

/-- Over any number of power cycles, each with any calls, the store answers as one map does, but for
sets that find no room for all values in one sector. -/
theorem kvCycles_behave {css : List (List KvCall)} (h : Rests G K defaultKvs part M)
    (hcap : Capacity G K keys L) (hdefaults : DefaultsOk keys L defaultKvs) (hfuel : 0 < fuel)
    (hkeys : ∀ cs ∈ css, ∀ c ∈ cs, K.mem c.key) :
    Yields (calls (kvCycle fuel G.S defaultKvs) part css) fun x => ∃ M',
      Behaves (Behaves (KvMap.Allows G)) M css x.1 M' ∧ Rests G K defaultKvs x.2 M' := by
  have hcycle : Refines (kvCycle fuel G.S defaultKvs) (Behaves (KvMap.Allows G))
      (Rests G K defaultKvs) fun cs => ∀ c ∈ cs, K.mem c.key := by
    intro part M cs h hcs
    refine (h.init hcap hdefaults hfuel).bind ?_
    rintro ⟨result, db⟩ ⟨-, hk⟩
    refine (kvCalls_behave hk hcs).bind ?_
    rintro ⟨bs, db'⟩ ⟨M', hbs, hk'⟩
    exact .pure ⟨M', hbs, StoreKeeps.rests hk'⟩
  exact hcycle.run h hkeys

theorem kvCycles_behave_erased :
    Yields (calls (kvCycle 1 twoSectors.S oneDefault)
      (.erased (twoSectors.n * twoSectors.S))
      [[.set (lit "k") (lit "w"), .get (lit "k")], [.del (lit "k"), .get (lit "k")]])
      fun x => ∃ M', Behaves (Behaves (KvMap.Allows twoSectors))
        (KvMap.defaults (fun _ => none) oneDefault)
        [[.set (lit "k") (lit "w"), .get (lit "k")], [.del (lit "k"), .get (lit "k")]] x.1 M' ∧
        Rests twoSectors oneName oneDefault x.2 M' := by
  refine kvCycles_behave rests_erased capacity_oneName defaultsOk_oneDefault Nat.one_pos
    fun cs hcs c hc => ?_
  simp only [List.mem_cons, List.not_mem_nil, or_false] at hcs
  rcases hcs with rfl | rfl <;> simp only [List.mem_cons, List.not_mem_nil, or_false] at hc <;>
    rcases hc with rfl | rfl <;> rfl

/-! ## Collecting -/

/-- A collection that was asked for changes no value, and then two sectors hold no deleted
records. -/
theorem gcCollect_keeps {freeSize : Nat} (h : StoreKeeps G K { db with gcRequest := false } M)
    (hgc : db.gcRequest = true) :
    Yields (gcCollectByFreeSize db freeSize) fun db' => StoreKeeps G K db' M ∧
      ∃ A, StoreOk G K A db' ∧ TwoClean G A := by
  obtain ⟨hinit, A, hok, hM⟩ := h
  have hdb : KvOk G K A db := { hok with }
  have hrecovers : Recovers G A db := .inr fun _ hi => hok.settled.quiet hi
  refine (hdb.gcCollect_ok hgc hok.lastDel hok.settled.halted hrecovers hok.empty).mono ?_
  rintro db' ⟨A', hw, hm, hempty, htwo, -⟩
  have hok' := hok.writes hw (hm.settled hok.settled) hempty
  obtain ⟨-, -, hinit'⟩ := hw.frame
  exact ⟨⟨hinit'.trans hinit, A', hok', (hm.stored hok.settled).trans hM⟩, A', hok', htwo⟩

/-- The store as it is started on erased flash. -/
theorem init_erased : Yields (fdbKvdbInit 1 (.zero (.erased (twoSectors.n * twoSectors.S)))
    twoSectors.S oneDefault) fun x => x.1 = .noErr ∧
      StoreKeeps twoSectors oneName x.2 (KvMap.defaults (fun _ => none) oneDefault) :=
  rests_erased.init capacity_oneName defaultsOk_oneDefault Nat.one_pos

theorem gcCollect_keeps_erased : Yields (do
      let (_, db) ← fdbKvdbInit 1 (.zero (.erased (twoSectors.n * twoSectors.S))) twoSectors.S
        oneDefault
      gcCollectByFreeSize { db with gcRequest := true } 64) fun db' =>
    StoreKeeps twoSectors oneName db' (KvMap.defaults (fun _ => none) oneDefault) ∧
      ∃ A, StoreOk twoSectors oneName A db' ∧ TwoClean twoSectors A := by
  refine init_erased.bind ?_
  rintro ⟨result, db⟩ ⟨-, hinit, A, hok, hM⟩
  have h : StoreKeeps twoSectors oneName { { db with gcRequest := true } with gcRequest := false }
      (KvMap.defaults (fun _ => none) oneDefault) := ⟨hinit, A, { hok with gcRequest := rfl }, hM⟩
  exact gcCollect_keeps h rfl

end DoorLock
