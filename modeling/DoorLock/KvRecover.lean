import DoorLock.KvSet
import DoorLock.KvdbInit

/-!
# Recovery

`_fdb_kv_load` once the headers are valid: a collection is brought to an end, and what a loss of
power left of a change is resolved. When there is no room for a record that has to be moved, the
sectors are collected, and then nothing is left to be resolved.
-/

namespace DoorLock

variable {G : KvGeom} {K : KvNames} {A A' : KvSectors} {db db' : FdbKvdb} {j fuel : Nat}
  {sector : KvdbSecInfo} {r : KvRec} {pre post : List KvRec} {kv : FdbKv}

/-- A store in which a change was cut short. -/
structure StoreHalted (G : KvGeom) (K : KvNames) (A : KvSectors) (db : FdbKvdb) : Prop
    extends KvOk G K A db where
  halted : KvHalted G A
  empty : HasEmpty G A
  gcRequest : db.gcRequest = false
  lastDel : db.lastIsCompleteDel = false

theorem StoreOk.storeHalted (h : StoreOk G K A db) : StoreHalted G K A db :=
  { h with halted := h.settled.halted }

theorem StoreHalted.storeOk (h : StoreHalted G K A db) (hquiet : ∀ i < G.n, (A i).Quiet) :
    StoreOk G K A db :=
  { h with settled := h.halted.settled hquiet }

theorem StoreHalted.writes (h : StoreHalted G K A db) (hw : KvWrites G K A' db db')
    (hm : Moved G A A') (hempty : HasEmpty G A') : StoreHalted G K A' db' := by
  obtain ⟨hgc, hlast, -⟩ := hw.frame
  exact ⟨hw.ok, hm.halted, hempty, hgc.trans h.gcRequest, hlast⟩

/-! ## Collections -/

/-- `check_and_recovery_gc_cb` on every sector: a collection is brought to an end. -/
theorem StoreHalted.recoverGc_ok (h : StoreHalted G K A db) (hrecovers : Recovers G A db) :
    Yields (sectorIterator db sector .unused () checkAndRecoveryGcCb false) fun x =>
      ∃ A', KvWrites G K A' db x.2.1 ∧ Moved G A A' ∧ HasEmpty G A' := by
  obtain ⟨o, ho, holdest⟩ := h.oldest
  refine sectorIterator_yields (G := G) (A := A) (o := o)
    (I := fun _ A' db' _ => KvWrites G K A' db db' ∧ Moved G A A' ∧ HasEmpty G A')
    (Q := fun _ db' _ => ∃ A', KvWrites G K A' db db' ∧ Moved G A A' ∧ HasEmpty G A')
    ?_ ?_ ?_ ?_ ?_ ho holdest
    ⟨.refl h.toKvOk h.lastDel, .refl h.halted, h.empty⟩
  · rintro k A' db' s ⟨hw, -⟩
    exact hw.ok.toKvdbOk
  · rintro k A' db' db'' s ⟨hw, hrest⟩ hro
    exact ⟨hw.reads hro, hrest⟩
  · rintro k A' db' s sector hk ⟨hw, hm, hempty⟩ - - -
    obtain ⟨hgc, hlast, -⟩ := hw.frame
    rw [checkAndRecoveryGcCb]
    refine .ite (fun _ => ?_) fun _ => .pure ?_
    · have hok : KvOk G K A' { db' with gcRequest := true } := { hw.ok with }
      have hrecovers' : Recovers G A' db' := hrecovers.next hw hm
      refine (hok.gcCollect_ok rfl hlast hm.halted hrecovers' hempty).bind ?_
      rintro db'' ⟨A'', hw', hm', hempty', -⟩
      have hsame : { db' with gcRequest := false } = db' := by rw [← h.gcRequest, ← hgc]
      refine .pure ?_
      rw [if_neg Bool.false_ne_true]
      exact ⟨A'', hw.trans (hsame ▸ hw'), hm.trans hm', hempty'⟩
    · rw [if_neg Bool.false_ne_true]
      exact ⟨A', hw, hm, hempty⟩
  · rintro k A' db' s hk - hst
    exact absurd (.inl rfl) hst
  · rintro A' db' s sector hI
    exact ⟨A', hI⟩

/-! ## Records -/

/-- A sector stays empty when no collection was requested. -/
theorem Copied.empty {A₁ : KvSectors} {x : KvRec} (h : Copied G A false x A₁)
    (hempty : HasEmpty G A) : ∃ e < G.n, A₁ e = A e ∧ (A e).store = .empty := by
  obtain ⟨e, he, hst⟩ := hempty
  cases h with
  | none => exact ⟨e, he, rfl, hst⟩
  | @copy i _ _ hc hkeep =>
    rcases Decidable.eq_or_ne e i with rfl | hne
    · obtain ⟨e', he', hne', hst'⟩ := (hkeep hst).resolve_left Bool.false_ne_true
      exact ⟨e', he', Function.update_of_ne hne' _ _, hst'⟩
    · exact ⟨e, he, Function.update_of_ne hne _ _, hst⟩

theorem Resolved.hasEmpty (h : Resolved G A false j pre r A') (hok : KvdbOk G A db)
    (hrecs : (A j).recs = pre ++ r :: post) (hempty : HasEmpty G A) : HasEmpty G A' := by
  obtain ⟨hcopied, -⟩ := h
  obtain ⟨e, he, heq, hst⟩ := hcopied.empty hempty
  have hej : e ≠ j := by
    rintro rfl
    have hnil := (hok.clean_of_empty he hst).2
    rw [hrecs] at hnil
    cases pre <;> cases hnil
  exact ⟨e, he, by rw [KvSectors.set, Function.update_of_ne hej, heq]; exact hst⟩

/-- An empty sector has room for a record that is in another. -/
theorem KvdbOk.room_of_empty {e : Nat} (h : KvdbOk G A db) (hj : j < G.n)
    (hrecs : (A j).recs = pre ++ r :: post) (he : e < G.n) (hst : (A e).store = .empty) :
    (A e).Room G.S r.size := by
  have hfits := (h.sector j hj).fits
  have hnil := (h.clean_of_empty he hst).2
  rw [KvSector.used, hrecs, recsSize_append, recsSize_cons] at hfits
  rw [KvSector.Room, KvSector.used, hnil, recsSize_nil]
  omega

/-- After the records were checked nothing is left to be resolved, or there was no room, a
collection is requested, and one sector is empty. -/
inductive KvChecked (G : KvGeom) (A A' : KvSectors) : Bool → Prop
  | done (h : ∀ i < G.n, (A' i).Quiet) : KvChecked G A A' false
  | request (hquiet : ¬∀ i < G.n, (A i).Quiet)
    (honly : ∃ i, ∀ j < G.n, (A' j).store = .empty → j = i) : KvChecked G A A' true

/-- `check_and_recovery_kv_cb` on every record. -/
theorem StoreHalted.recoverKv_ok (h : StoreHalted G K A db) (hrecovers : Recovers G A db) :
    Yields (kvIterator checkAndRecoveryKvCb db kv ()) fun x => ∃ gc A',
      KvWrites G K A' { db with gcRequest := gc } x.2.1 ∧ Moved G A A' ∧ HasEmpty G A' ∧
        KvChecked G A A' gc := by
  obtain ⟨o, ho, holdest⟩ := h.oldest
  refine kvIterator_yields (G := G) (A := A) (o := o)
    (I := fun k pre A' db' _ => KvWrites G K A' db db' ∧ Moved G A A' ∧ HasEmpty G A' ∧
      (∀ k' < k, (A' (G.nth o k')).Quiet) ∧ ∀ x ∈ pre, x.status ≠ .preDelete)
    (Q := fun _ db' _ => ∃ gc A', KvWrites G K A' { db with gcRequest := gc } db' ∧ Moved G A A' ∧
      HasEmpty G A' ∧ KvChecked G A A' gc)
    ?_ ?_ ?_ ?_ ?_ ho holdest
    ⟨.refl h.toKvOk h.lastDel, .refl h.halted, h.empty, fun k hk => absurd hk (Nat.not_lt_zero k),
      fun x hx => by cases hx⟩
  · rintro k pre A' db' s ⟨hw, -⟩
    exact hw.ok.toKvdbOk
  · rintro k pre A' db' db'' s ⟨hw, hrest⟩ hro
    exact ⟨hw.reads hro, hrest⟩
  · rintro k pre A' db' s r post hk ⟨hw, hm, hempty, hquiet, hpre⟩ hrecs
    have hj := G.nth_lt (o := o) (k := k)
    have hat : RecAt G A' (recAddr G.S (G.nth o k) pre) r := .intro hj hrecs
    have hmem : r ∈ (A' (G.nth o k)).recs := by
      rw [hrecs]
      exact List.mem_append_right _ List.mem_cons_self
    have hstatus := hm.halted.status _ hj r hmem
    have hname : (r.toKv (recAddr G.S (G.nth o k) pre)).name.take
        (r.toKv (recAddr G.S (G.nth o k) pre)).nameLen = r.key := List.take_length
    obtain ⟨hgc, hlast, -⟩ := hw.frame
    have hgc := hgc.trans h.gcRequest
    have hpast {r' : KvRec} (hr' : r'.status ≠ .preDelete) :
        ∀ x ∈ pre ++ [r'], x.status ≠ .preDelete := by
      intro x hx
      rcases List.mem_append.mp hx with hx | hx
      · exact hpre x hx
      · rwa [List.mem_singleton.mp hx]
    rw [checkAndRecoveryKvCb]
    refine .ite (fun hprep => ?_) fun hno => .ite (fun hbad => ?_) fun _ =>
      .ite (fun hvalid => .pure ?_) fun _ => .pure ?_
    · have hr : r.status = .preDelete := hprep.2
      have hdirty : (A' (G.nth o k)).dirty ≠ .no := by
        rcases hstatus with hs | ⟨-, hd⟩
        · rw [hr] at hs
          cases hs
        · exact hd
      have hrecovery := ((hrecovers.next hw hm).resolve_right fun hq => hq _ hj r hmem hr)
      refine (hw.ok.movePrepared_ok hrecovery hlast hm.halted hj hrecs hr hdirty).bind ?_
      rintro ⟨result, db''⟩ (⟨rfl, sector, gc, halloc, hw'⟩ | ⟨rfl, A'', hres, hm', hw'⟩)
      · obtain ⟨e, he, hst⟩ := hempty
        have hroom := hw.ok.toKvdbOk.room_of_empty hj hrecs he hst
        obtain ⟨rfl, honly⟩ := halloc.request_of_room hw.ok.toKvdbOk he hst hroom
        refine .pure ?_
        dsimp only
        rw [if_pos (by decide)]
        refine ⟨true, A', (hw.withGc true).trans hw', hm, ⟨e, he, hst⟩, .request ?_ honly⟩
        exact fun hq => hm.quiet (hq _ hj) r hmem hr
      · refine .pure ?_
        dsimp only
        rw [if_neg (by decide)]
        rw [hgc] at hres
        have hempty' := hres.hasEmpty hw.ok.toKvdbOk hrecs hempty
        obtain @⟨A₁, post₁, hcopied, hrecs₁⟩ := hres
        refine ⟨_, { r with status := .deleted }, post₁, ⟨hw.trans hw', hm.trans hm', hempty',
          fun k' hk' => hm'.quiet (hquiet k' hk'), hpast fun hf => by cases hf⟩, ?_, rfl⟩
        rw [KvSectors.set, Function.update_self]
        rfl
    · have hbad : r.status = .preWrite := hbad
      rw [hbad] at hstatus
      rcases hstatus with hs | ⟨hs | hs, -⟩ <;> cases hs
    · rw [if_neg Bool.false_ne_true]
      have hr : r.status = .write := hvalid.2
      refine ⟨A', r, post, ⟨?_, hm, hempty, hquiet, hpast (by rw [hr]; decide)⟩, hrecs, rfl⟩
      obtain ⟨m, t, t', o, rfl⟩ := hw.same
      refine ⟨{ hw.ok with kvCache := ?_ }, m, t, _, o, rfl⟩
      rw [hname]
      exact hw.ok.kvCache.update (fun hat _ _ => hat) (.inr ⟨r, hat, hr, rfl⟩)
    · rw [if_neg Bool.false_ne_true]
      exact ⟨A', r, post, ⟨hw, hm, hempty, hquiet, hpast fun hr => hno ⟨rfl, hr⟩⟩, hrecs, rfl⟩
  · rintro k A' db' s hk ⟨hw, hm, hempty, hquiet, hpre⟩
    refine ⟨hw, hm, hempty, fun k' hk' => ?_, fun x hx => by cases hx⟩
    rcases Nat.lt_succ_iff_lt_or_eq.mp hk' with hlt | rfl
    · exact hquiet k' hlt
    · exact hpre
  · rintro A' db' s kv ⟨hw, hm, hempty, hquiet, -⟩
    have hsame : { db with gcRequest := false } = db := by rw [← h.gcRequest]
    refine ⟨false, A', hsame.symm ▸ hw, hm, hempty, .done fun i hi => ?_⟩
    obtain ⟨k, hk, rfl⟩ := G.exists_nth ho hi
    exact hquiet k hk

/-! ## Loading -/

/-- `_fdb_kv_load` from `__retry` on, when nothing is left to be resolved. -/
theorem StoreOk.recoverLoop_ok (h : StoreOk G K A db) (hfuel : 0 < fuel) :
    Yields (recoverLoop fuel db) fun db' => db'.initOk = db.initOk ∧
      ∃ A', StoreOk G K A' db' ∧ Moved G A A' := by
  obtain ⟨fuel, rfl⟩ : ∃ f, fuel = f + 1 := ⟨fuel - 1, by omega⟩
  have hquiet : ∀ i < G.n, (A i).Quiet := fun _ hi => h.settled.quiet hi
  rw [recoverLoop]
  refine (h.storeHalted.recoverKv_ok (.inr hquiet)).bind ?_
  rintro ⟨kv, db₁, s⟩ ⟨gc, A', hw, hm, hempty, hres⟩
  cases hres with
  | request hno => exact absurd hquiet hno
  | done hquiet' =>
    have hsame : { db with gcRequest := false } = db := by rw [← h.gcRequest]
    rw [hsame] at hw
    have h₁ := h.storeHalted.writes hw hm hempty
    obtain ⟨-, -, hinit⟩ := hw.frame
    dsimp only at h₁ hinit ⊢
    rw [h₁.gcRequest, if_neg Bool.false_ne_true]
    exact .pure ⟨hinit, A', h₁.storeOk hquiet', hm⟩

/-- `_fdb_kv_load` from `__retry` on: one retry is enough. -/
theorem StoreHalted.recoverLoop_ok (h : StoreHalted G K A db) (hrecovers : Recovers G A db)
    (hfuel : 1 < fuel) :
    Yields (recoverLoop fuel db) fun db' => db'.initOk = db.initOk ∧
      ∃ A', StoreOk G K A' db' ∧ Moved G A A' := by
  obtain ⟨fuel, rfl⟩ : ∃ f, fuel = f + 1 := ⟨fuel - 1, by omega⟩
  rw [recoverLoop]
  refine (h.recoverKv_ok hrecovers).bind ?_
  rintro ⟨kv, db₁, s⟩ ⟨gc, A₁, hw, hm, hempty, hres⟩
  obtain ⟨hgc₁, hlast₁, hinit₁⟩ := hw.frame
  dsimp only at hw hgc₁ hlast₁ hinit₁ ⊢
  rw [hgc₁]
  cases hres with
  | done hquiet =>
    have hsame : { db with gcRequest := false } = db := by rw [← h.gcRequest]
    rw [hsame] at hw
    rw [if_neg Bool.false_ne_true]
    exact .pure ⟨hinit₁, A₁, (h.writes hw hm hempty).storeOk hquiet, hm⟩
  | request hno honly =>
    rw [if_pos rfl]
    have hrecovers₁ : Recovers G A₁ db₁ :=
      hrecovers.imp (fun hr => hw.recovery.trans hr) fun hq i hi => hm.quiet (hq i hi)
    refine (hw.ok.gcCollect_ok hgc₁ hlast₁ hm.halted hrecovers₁ hempty).bind ?_
    rintro db₂ ⟨A₂, hw₂, hm₂, hempty₂, -, hall⟩
    have hsize : G.S ≤ db₁.maxSize := by
      rw [FdbKvdb.maxSize, hw.ok.len]
      exact Nat.le_mul_of_pos_left _ G.num_pos
    have hclean := hall honly hsize
    have hquiet : ∀ i < G.n, (A₂ i).Quiet := fun i hi => hm₂.halted.quiet hi (hclean i hi)
    obtain ⟨hgc₂, hlast₂, hinit₂⟩ := hw₂.frame
    have h₂ : StoreOk G K A₂ db₂ :=
      ⟨hw₂.ok, hm₂.halted.settled hquiet, hempty₂, hgc₂, hlast₂⟩
    refine (h₂.recoverLoop_ok (by omega)).mono ?_
    rintro db₃ ⟨hinit₃, A₃, h₃, hm₃⟩
    exact ⟨hinit₃.trans (hinit₂.trans hinit₁), A₃, h₃, hm.trans (hm₂.trans hm₃)⟩

/-- `_fdb_kv_load` once the headers are valid. -/
theorem StoreHalted.recover_ok (h : StoreHalted G K A db) (hrecovers : Recovers G A db)
    (hfuel : 1 < fuel ∨ 0 < fuel ∧ ∀ i < G.n, (A i).Quiet) :
    Yields (do
      let (_, db, _) ← sectorIterator db sector .unused () checkAndRecoveryGcCb false
      let db ← recoverLoop fuel db
      some (FdbErr.noErr, { db with inRecoveryCheck := false })) fun x => x.1 = .noErr ∧
        x.2.initOk = db.initOk ∧ ∃ A', StoreOk G K A' x.2 ∧ Moved G A A' := by
  refine (h.recoverGc_ok hrecovers).bind ?_
  rintro ⟨sector, db₁, s⟩ ⟨A₁, hw, hm, hempty⟩
  have h₁ := h.writes hw hm hempty
  obtain ⟨-, -, hinit⟩ := hw.frame
  dsimp only at h₁ hinit ⊢
  refine Yields.bind (P := fun db' => db'.initOk = db₁.initOk ∧
    ∃ A', StoreOk G K A' db' ∧ Moved G A₁ A') ?_ ?_
  · rcases hfuel with hfuel | ⟨hfuel, hquiet⟩
    · exact h₁.recoverLoop_ok (hrecovers.next hw hm) hfuel
    · exact (h₁.storeOk fun i hi => hm.quiet (hquiet i hi)).recoverLoop_ok hfuel
  · rintro db₂ ⟨hinit₂, A₂, h₂, hm₂⟩
    exact .pure ⟨rfl, hinit₂.trans hinit, A₂, { h₂ with }, hm.trans hm₂⟩

end DoorLock
