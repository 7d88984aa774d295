import DoorLock.KvHalt

/-!
# Moving a record to another sector

`move_kv` as a collection and the recovery use it: a valid record is moved to a clean sector, and of
a record whose deletion was prepared a copy is made unless there is a valid one of its name.
-/

namespace DoorLock

variable {G : KvGeom} {K : KvNames} {A A' A₁ : KvSectors} {db db' db'' : FdbKvdb} {i j k a : Nat}
  {r x : KvRec} {pre post : List KvRec} {gc : Bool}

/-- The flash and the caches were changed, and no deletion is left half done. -/
structure KvWrites (G : KvGeom) (K : KvNames) (A : KvSectors) (db db' : FdbKvdb) : Prop where
  ok : KvOk G K A db'
  same : ∃ m table table' oldest, db' = { db.withFlash m with
    sectorCacheTable := table
    kvCacheTable := table'
    lastIsCompleteDel := false
    oldestAddr := oldest }

theorem KvWrites.refl (h : KvOk G K A db) (hlast : db.lastIsCompleteDel = false) :
    KvWrites G K A db db :=
  ⟨h, db.part.flash, _, _, _, by rw [← hlast]; rfl⟩

theorem KvWrites.trans (h : KvWrites G K A db db') (h' : KvWrites G K A' db' db'') :
    KvWrites G K A' db db'' := by
  obtain ⟨m, t, t', o, rfl⟩ := h.same
  obtain ⟨m₁, t₁, t₁', o₁, rfl⟩ := h'.same
  exact ⟨h'.ok, m₁, t₁, t₁', o₁, rfl⟩

theorem KvWrites.reads (h : KvWrites G K A db db') (hro : ReadsOnly G A db' db'') :
    KvWrites G K A db db'' := by
  obtain ⟨m, t, t', o, rfl⟩ := h.same
  obtain ⟨t₁, rfl⟩ := hro.same
  exact ⟨(h.ok.reads hro).ok, m, t₁, t', o, rfl⟩

theorem KvWrites.recovery (h : KvWrites G K A db db') :
    db'.inRecoveryCheck = db.inRecoveryCheck := by
  obtain ⟨m, t, t', o, rfl⟩ := h.same
  rfl

theorem KvWrites.frame (h : KvWrites G K A db db') :
    db'.gcRequest = db.gcRequest ∧ db'.lastIsCompleteDel = false ∧ db'.initOk = db.initOk := by
  obtain ⟨m, t, t', o, rfl⟩ := h.same
  exact ⟨rfl, rfl, rfl⟩

theorem KvWrites.withGc (h : KvWrites G K A db db') (gc : Bool) :
    KvWrites G K A { db with gcRequest := gc } { db' with gcRequest := gc } := by
  obtain ⟨m, t, t', o, rfl⟩ := h.same
  exact ⟨{ h.ok with }, m, t, t', o, rfl⟩

/-! ## Valid records -/

/-- `move_kv` of a valid record, while there is room in a clean sector. -/
theorem KvOk.moveKv_ok (h : KvOk G K A db) (hgc : db.gcRequest = true) (hj : j < G.n)
    (hrecs : (A j).recs = pre ++ r :: post) (hr : r.status = .write) (hdirty : (A j).dirty ≠ .no)
    (hroom : ∃ e < G.n, (A e).dirty = .no ∧ (A e).Room G.S r.size) :
    Yields (moveKv db (r.toKv (recAddr G.S j pre))) fun x => x.1 = .noErr ∧
      ∃ i < G.n, i ≠ j ∧ (A i).dirty = .no ∧
        KvWrites G K (A.replaced j pre r post i (.new r.key r.value)) db x.2 := by
  have hname : (r.toKv (recAddr G.S j pre)).name.take (r.toKv (recAddr G.S j pre)).nameLen =
      r.key := List.take_length
  have hstatus : (r.toKv (recAddr G.S j pre)).status = .write := hr
  have hlen : (r.toKv (recAddr G.S j pre)).len = r.size := rfl
  have hle : r.status.code ≤ (delStatus false).code := by rw [hr]; decide
  obtain ⟨m₁, t₁, hdel, hdb₁⟩ := h.delKv_ok r.key hj hrecs hle
  obtain ⟨A₁, hA₁⟩ : ∃ A₁, A₁ = A.set j ((A j).marked pre r .preDelete post) := ⟨_, rfl⟩
  have hself : A₁ j = (A j).marked pre r .preDelete post := by
    rw [hA₁, KvSectors.set, Function.update_self]
  have hother {k : Nat} (hne : k ≠ j) : A₁ k = A k := by
    rw [hA₁, KvSectors.set, Function.update_of_ne hne]
  obtain ⟨db₁, heq₁⟩ : ∃ d, d = { db.withFlash m₁ with
    sectorCacheTable := t₁, kvCacheTable := db.kvCacheTable, lastIsCompleteDel := true } := ⟨_, rfl⟩
  have hdel : delKv db r.key (r.toKv (recAddr G.S j pre)) false = some (.noErr, db₁) := by
    rw [heq₁]
    exact hdel
  have hdb₁ : KvdbOk G A₁ db₁ := by
    rw [heq₁, hA₁]
    exact { hdb₁ with }
  have hgc₁ : db₁.gcRequest = true := by
    rw [heq₁]
    exact hgc
  rw [moveKv, hname, hstatus, hlen, if_pos rfl, hdel, Option.bind_eq_bind, Option.bind_some]
  dsimp only
  refine hdb₁.allocKv_ok.bind ?_
  rintro ⟨kvAddr, sector, db₂⟩ ⟨gc, hro, halloc⟩
  rw [hgc₁] at halloc
  dsimp only at hro halloc ⊢
  -- the only room that counts is in clean sectors
  obtain ⟨e, he, hclean, hfree⟩ := hroom
  have hej : e ≠ j := by
    rintro rfl
    exact hdirty hclean
  cases halloc with
  | full husing hempty =>
    rcases (h.sector e he).store with hst | hst
    · exact absurd (hother hej ▸ hfree) (hempty e he (by rw [hother hej]; exact hst.1))
    · exact absurd (hother hej ▸ hfree)
        (husing e he (by rw [hother hej]; exact hst.1) (by rw [hother hej]; exact hclean))
  | request husing hno => cases hno
  | @chosen i _ _ hc =>
    have hi := hc.lt
    have hcleanI : (A₁ i).dirty = .no := hc.dirty.resolve_right (by decide)
    have hij : i ≠ j := by
      rintro rfl
      rw [hself] at hcleanI
      exact (A i).dirty.mark_ne_no hcleanI
    have hrecs₁ : (A₁ j).recs = pre ++ { r with status := .preDelete } :: post := by
      rw [hself]
      rfl
    have hne := hc.ne_failed hdb₁
    have hex : ¬(db₂.inRecoveryCheck = true ∧ FdbKvStatus.write = FdbKvStatus.preDelete) :=
      fun hand => by cases hand.2
    obtain ⟨m₂, t₂, hcopy, hdb₂⟩ := hro.ok.copyKv_ok (hc.target hro.ok) hj hrecs₁
    have haddr : kvAddr = recAddr G.S i (A i).recs := by
      rw [← hother hij]
      exact hc.addr
    obtain ⟨t, hsame⟩ := hro.same
    have hsame : db₂ = { db₁ with sectorCacheTable := t } := by
      rw [hsame, ← hgc₁]
    obtain ⟨db₃, heq₃⟩ : ∃ d, d = { db₂.withFlash m₂ with
      sectorCacheTable := t₂
      kvCacheTable := (updateKvCache db₂ r.key kvAddr).kvCacheTable } := ⟨_, rfl⟩
    have hcopy : copyKv db₂ (r.toKv (recAddr G.S j pre)) sector kvAddr = some (.noErr, db₃) := by
      rw [heq₃]
      exact hcopy
    have hdb₃ : KvdbOk G (A₁.set i ((A₁ i).pushed (.new r.key r.value))) db₃ := by
      rw [heq₃]
      exact { hdb₂ with }
    have hcache : db₃.kvCacheTable =
        (updateKvCache db r.key (recAddr G.S i (A i).recs)).kvCacheTable := by
      rw [heq₃, ← haddr, hsame, heq₁]
      rfl
    have hlast : db₃.lastIsCompleteDel = true := by
      rw [heq₃, hsame, heq₁]
      rfl
    obtain ⟨m₃, t₃, hdel₃, hok₃⟩ := h.finish_ok r.key hj hi hrecs hr
      (x := .new r.key r.value) rfl rfl hA₁ rfl hdb₃ hcache hlast (r.addrStart_toKv _)
    rw [if_neg hne, if_neg hex, Option.bind_eq_bind, Option.bind_some, if_neg Bool.false_ne_true,
      hcopy, Option.bind_some, hdel₃, Option.bind_some]
    refine .pure ⟨rfl, i, hi, hij, by rw [← hother hij]; exact hcleanI, hok₃, ?_⟩
    rw [heq₃, hsame, heq₁]
    exact ⟨_, _, _, _, rfl⟩

/-- When `alloc_kv` returns no address for a collection, no clean sector has room. -/
theorem Alloc.no_room {kvSize : Nat} {sector : KvdbSecInfo} {gc' : Bool}
    (halloc : Alloc G A kvSize true failedAddr sector gc') (h : KvdbOk G A db) (hi : i < G.n)
    (hclean : (A i).dirty = .no) : ¬(A i).Room G.S kvSize := by
  obtain ⟨addr, haddr⟩ : ∃ addr, addr = failedAddr := ⟨_, rfl⟩
  rw [← haddr] at halloc
  cases halloc with
  | chosen hc => exact absurd haddr (hc.ne_failed h)
  | full husing hempty =>
    rcases (h.sector i hi).store with hst | hst
    · exact hempty i hi hst.1
    · exact husing i hi hst.1 hclean
  | request _ hno => cases hno

/-- When `alloc_kv` returns no address and an empty sector has room, a collection is requested, as
this sector is kept back. -/
theorem Alloc.request_of_room {kvSize : Nat} {sector : KvdbSecInfo} {gc' : Bool}
    (halloc : Alloc G A kvSize gc failedAddr sector gc') (h : KvdbOk G A db)
    (hi : i < G.n) (hst : (A i).store = .empty) (hroom : (A i).Room G.S kvSize) :
    gc' = true ∧ ∃ i, ∀ j < G.n, (A j).store = .empty → j = i := by
  obtain ⟨addr, haddr⟩ : ∃ addr, addr = failedAddr := ⟨_, rfl⟩
  rw [← haddr] at halloc
  cases halloc with
  | chosen hc => exact absurd haddr (hc.ne_failed h)
  | full husing hempty => exact absurd hroom (hempty i hi hst)
  | request _ _ _ _ honly => exact ⟨rfl, _, honly⟩

/-! ## Records whose deletion was prepared -/

/-- The sectors with or without a copy of a record, which `alloc_kv` has found room for. -/
inductive Copied (G : KvGeom) (A : KvSectors) (gc : Bool) (x : KvRec) : KvSectors → Prop
  | none : Copied G A gc x A
  | copy {i : Nat} {sector : KvdbSecInfo} {addr : Nat} (h : Chosen G A gc x.size i sector addr)
    (hkeep : (A i).store = .empty → gc = true ∨ ∃ j < G.n, j ≠ i ∧ (A j).store = .empty) :
    Copied G A gc x (A.set i ((A i).pushed x))

namespace Copied

/-- A sector may have got the copy, a dirty one only when no collection was requested. -/
theorem apply (h : Copied G A gc x A₁) (k : Nat) :
    A₁ k = A k ∨ A₁ k = (A k).pushed x ∧ ((A k).dirty = .no ∨ gc = false) := by
  cases h with
  | none => exact .inl rfl
  | @copy i _ _ hc hkeep =>
    rcases Decidable.eq_or_ne k i with rfl | hne
    · exact .inr ⟨Function.update_self .., hc.dirty⟩
    · exact .inl (Function.update_of_ne hne _ _)

/-- The records of a sector stay in front. -/
theorem recs (h : Copied G A gc x A₁) (hrecs : (A j).recs = pre ++ r :: post) :
    ∃ post₁, (A₁ j).recs = pre ++ r :: post₁ ∧
      (gc = true → (A j).dirty ≠ .no → post₁ = post) := by
  rcases h.apply j with heq | ⟨heq, hd⟩
  · exact ⟨post, by rw [heq, hrecs], fun _ _ => rfl⟩
  · refine ⟨post ++ [x], ?_, fun hgc hdirty => ?_⟩
    · rw [heq, KvSector.pushed, hrecs, List.append_assoc, List.cons_append]
    · rw [hgc] at hd
      exact absurd (hd.resolve_right Bool.noConfusion) hdirty

theorem dirty (h : Copied G A gc x A₁) (k : Nat) : (A₁ k).dirty = (A k).dirty := by
  rcases h.apply k with heq | ⟨heq, -⟩ <;> rw [heq]
  rfl

theorem used_le (h : Copied G A gc x A₁) (k : Nat) : (A₁ k).used ≤ (A k).used + x.size := by
  rcases h.apply k with heq | ⟨heq, -⟩ <;> rw [heq]
  · exact Nat.le_add_right _ _
  · exact Nat.le_of_eq KvSector.pushed_used

end Copied

/-- What is left when `move_kv` succeeds on a record whose deletion was prepared: there is a valid
one of its name, here or before, and the record is deleted. -/
inductive Resolved (G : KvGeom) (A : KvSectors) (gc : Bool) (j : Nat) (pre : List KvRec)
    (r : KvRec) : KvSectors → Prop
  | intro {A₁ : KvSectors} {post₁ : List KvRec} (h : Copied G A gc (.new r.key r.value) A₁)
    (hrecs : (A₁ j).recs = pre ++ r :: post₁) :
    Resolved G A gc j pre r (A₁.set j ((A₁ j).marked pre r .deleted post₁))

/-- `del_kv` of a record whose deletion was prepared, with no other change open. -/
theorem KvOk.delPrepared_ok (h : KvOk G K A db) (hlast : db.lastIsCompleteDel = false)
    (hj : j < G.n) (hrecs : (A j).recs = pre ++ r :: post) (hr : r.status = .preDelete) :
    ∃ db', delKv db r.key (r.toKv (recAddr G.S j pre)) true = some (.noErr, db') ∧
      KvWrites G K (A.set j ((A j).marked pre r .deleted post)) db db' := by
  have hle : r.status.code ≤ (delStatus true).code := by rw [hr]; decide
  obtain ⟨m, table, hdel, hdb⟩ := h.delKv_ok r.key hj hrecs hle
  have hat {a x} (hx : x.status = .write) :
      RecAt G (A.set j ((A j).marked pre r .deleted post)) a x ↔ RecAt G A a x :=
    recAt_marked_of_ne h.used_le hj hrecs (by rw [hx, hr]; decide) (by rw [hx]; decide)
  have hkey : K.mem r.key := h.keys (.intro hj hrecs)
  rw [hlast] at hdel
  refine ⟨_, hdel, ⟨{ hdb with }, ?_, ?_, ?_⟩, m, table, _, db.oldestAddr, rfl⟩
  · intro a x hx
    rcases (recAt_marked h.used_le hj hrecs).mp hx with ⟨-, rfl⟩ | ⟨-, hx⟩
    · exact hkey
    · exact h.keys hx
  · exact fun hx hx' hs hs' => h.one ((hat hs).mp hx) ((hat hs').mp hx') hs hs'
  · exact h.kvCache.update (fun hx hs _ => (hat hs).mpr hx) (.inl rfl)

/-- A copy of a record whose deletion was prepared is written. -/
theorem KvOk.copyPrepared_ok {sector : KvdbSecInfo} (h : KvOk G K A db)
    (hlast : db.lastIsCompleteDel = false) (hc : Target G A r.size i sector a) (hj : j < G.n)
    (hrecs : (A j).recs = pre ++ r :: post) (hno : ∀ a x, ¬ValidAt G A r.key a x) :
    ∃ db', copyKv db (r.toKv (recAddr G.S j pre)) sector a = some (.noErr, db') ∧
      KvWrites G K (A.set i ((A i).pushed (.new r.key r.value))) db db' := by
  have hrecs' : (A j).recs = pre ++ { r with status := r.status } :: post := hrecs
  obtain ⟨m, table, hcopy, hdb⟩ := h.copyKv_ok hc hj hrecs'
  have hkey : K.mem r.key := h.keys (.intro hj hrecs)
  have hrep := replaces_push (r := .new r.key r.value) hc.lt hno rfl
  rw [← hc.addr] at hrep
  refine ⟨_, hcopy, hrep.ok h hkey { hdb with }
    (hrep.cache rfl rfl h.kvCache), m, table, (updateKvCache db r.key a).kvCacheTable,
    db.oldestAddr, ?_⟩
  simp only [FdbKvdb.withFlash, hlast]

/-- The copy has the value. -/
theorem stored_pushed (hi : i < G.n) :
    Stored G (A.set i ((A i).pushed (.new r.key r.value))) r.key r.value := by
  have hat : RecAt G (A.set i ((A i).pushed (.new r.key r.value))) (recAddr G.S i (A i).recs)
      (.new r.key r.value) := (recAt_set_push hi rfl).mpr (.inl ⟨rfl, rfl⟩)
  exact ⟨_, _, ⟨hat, rfl, rfl⟩, rfl⟩

/-- `move_kv` of a record whose deletion was prepared. -/
theorem KvOk.movePrepared_ok (h : KvOk G K A db) (hrecovery : db.inRecoveryCheck = true)
    (hlast : db.lastIsCompleteDel = false) (hh : KvHalted G A) (hj : j < G.n)
    (hrecs : (A j).recs = pre ++ r :: post) (hr : r.status = .preDelete)
    (hdirty : (A j).dirty ≠ .no) :
    Yields (moveKv db (r.toKv (recAddr G.S j pre))) fun x =>
      (x.1 = .savedFull ∧ ∃ sector gc, Alloc G A r.size db.gcRequest failedAddr sector gc ∧
        KvWrites G K A { db with gcRequest := gc } x.2) ∨
      x.1 = .noErr ∧ ∃ A', Resolved G A db.gcRequest j pre r A' ∧ Moved G A A' ∧
        KvWrites G K A' db x.2 := by
  have hname : (r.toKv (recAddr G.S j pre)).name.take (r.toKv (recAddr G.S j pre)).nameLen =
      r.key := List.take_length
  have hstatus : (r.toKv (recAddr G.S j pre)).status = .preDelete := hr
  have hlen : (r.toKv (recAddr G.S j pre)).len = r.size := rfl
  have hkey : K.mem r.key := h.keys (.intro hj hrecs)
  have hwrite : ¬FdbKvStatus.preDelete = FdbKvStatus.write := fun hf => by cases hf
  rw [moveKv, hname, hstatus, hlen, if_neg hwrite, Option.bind_eq_bind, Option.bind_some]
  dsimp only
  refine h.toKvdbOk.allocKv_ok.bind ?_
  rintro ⟨kvAddr, sector, db₁⟩ ⟨gc, hro, halloc⟩
  have hok₀ : KvOk G K A { db with gcRequest := gc } := { h with }
  have hw₀ := (KvWrites.refl hok₀ hlast).reads hro
  dsimp only at halloc hw₀ hro ⊢
  refine .ite (fun hfail => .pure (.inl ⟨rfl, sector, gc, hfail ▸ halloc, hw₀⟩)) fun hne => ?_
  cases halloc with
  | full => exact absurd rfl hne
  | request => exact absurd rfl hne
  | chosen hc hkeep =>
  have hw₀ : KvWrites G K A db db₁ := hw₀
  have hrecovery₁ : db₁.inRecoveryCheck = true := by
    obtain ⟨t, rfl⟩ := hro.same
    exact hrecovery
  rw [if_pos ⟨hrecovery₁, rfl⟩]
  refine (hw₀.ok.findKvNoCache_ok hkey).bind ?_
  rintro ⟨found, kv, db₂⟩ ⟨hreads, htrue, hfalse⟩
  have hw₂ : KvWrites G K A db db₂ := by
    obtain ⟨m, t, t', o, rfl⟩ := hw₀.same
    obtain ⟨t₁, t₁', hsame⟩ := hreads.same
    exact ⟨hreads.ok, m, t₁, t₁', o, hsame⟩
  obtain ⟨-, hlast₂, -⟩ := hw₂.frame
  dsimp only at htrue hfalse hw₂ hlast₂ ⊢
  cases found with
  | true =>
    obtain ⟨a, x, hv, -⟩ := htrue rfl
    obtain ⟨db₃, hdel, hw₃⟩ := hw₂.ok.delPrepared_ok hlast₂ hj hrecs hr
    rw [Option.bind_eq_bind, Option.bind_some]
    dsimp only
    rw [if_pos rfl, Option.bind_some, hdel, Option.bind_some]
    exact .pure (.inr ⟨rfl, _, Resolved.intro .none hrecs,
      h.moved_marked hh hj hrecs hr hdirty ⟨a, x, hv, rfl⟩, hw₂.trans hw₃⟩)
  | false =>
    obtain ⟨db₃, hcopy, hw₃⟩ := hw₂.ok.copyPrepared_ok hlast₂ (hc.target hw₂.ok.toKvdbOk) hj hrecs
      (hfalse rfl)
    have hcopied : Copied G A db.gcRequest (.new r.key r.value) _ := .copy hc hkeep
    have hm := h.moved_pushed hh hc.lt (.intro hj hrecs) hr (hfalse rfl)
    have hlive := stored_pushed (A := A) (r := r) hc.lt
    obtain ⟨post₁, hrecs₁, -⟩ := hcopied.recs hrecs
    obtain ⟨-, hlast₃, -⟩ := hw₃.frame
    obtain ⟨db₄, hdel, hw₄⟩ := hw₃.ok.delPrepared_ok hlast₃ hj hrecs₁ hr
    rw [Option.bind_eq_bind, Option.bind_some]
    dsimp only
    rw [if_neg Bool.false_ne_true, hcopy, Option.bind_some, hdel, Option.bind_some]
    refine .pure (.inr ⟨rfl, _, Resolved.intro hcopied hrecs₁, hm.trans ?_,
      (hw₂.trans hw₃).trans hw₄⟩)
    exact hw₃.ok.moved_marked hm.halted hj hrecs₁ hr (hcopied.dirty j ▸ hdirty) hlive

end DoorLock
