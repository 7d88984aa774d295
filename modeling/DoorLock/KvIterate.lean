import DoorLock.KvSector
import Mathlib.Data.Nat.ModEq

/-!
# Iterating over sectors and records

`sector_iterator` and `kv_iterator` go round the partition once, from the oldest sector on. Their
rules are those of a loop: what holds after `k` sectors, and in `kv_iterator` after the records
`pre` of the next one, is kept by reading and by the callback.
-/

namespace DoorLock

variable {G : KvGeom} {A : KvSectors} {db db' : FdbKvdb} {sector : KvdbSecInfo} {i k o : Nat}

/-- The sector that is visited after `k` others. -/
def KvGeom.nth (G : KvGeom) (o k : Nat) : Nat := (o + k) % G.n

theorem KvGeom.num_pos (G : KvGeom) : 0 < G.n := by
  have := G.two
  omega

theorem KvGeom.nth_lt (G : KvGeom) : G.nth o k < G.n := Nat.mod_lt _ G.num_pos

theorem KvGeom.nth_zero (G : KvGeom) (ho : o < G.n) : G.nth o 0 = o := Nat.mod_eq_of_lt ho

/-- Every sector is visited. -/
theorem KvGeom.exists_nth (G : KvGeom) (ho : o < G.n) (hi : i < G.n) :
    ∃ k < G.n, G.nth o k = i := by
  rcases Nat.lt_or_ge i o with h | h
  · refine ⟨i + G.n - o, by omega, ?_⟩
    rw [KvGeom.nth, show o + (i + G.n - o) = i + G.n by omega, Nat.add_mod_right,
      Nat.mod_eq_of_lt hi]
  · refine ⟨i - o, by omega, ?_⟩
    rw [KvGeom.nth, Nat.add_sub_cancel' h, Nat.mod_eq_of_lt hi]

/-- No sector is visited twice. -/
theorem KvGeom.nth_inj (G : KvGeom) {k k' : Nat} (hk : k < G.n) (hk' : k' < G.n)
    (h : G.nth o k = G.nth o k') : k = k' := by
  have hmod : k % G.n = k' % G.n := Nat.ModEq.add_left_cancel' o h
  rwa [Nat.mod_eq_of_lt hk, Nat.mod_eq_of_lt hk'] at hmod

/-- The address of the next sector, when `k` sectors have been visited. -/
theorem getNextSectorAddr_eq (hS : db.secSize = G.S) (hlen : db.part.len = G.n * G.S)
    (haddr : sector.addr = G.nth o k * G.S) (hcombined : sector.combined = sectorNotCombined)
    (hk : k < G.n) :
    getNextSectorAddr db sector ((k + 1) * G.S) =
      if k + 1 < G.n then G.nth o (k + 1) * G.S else failedAddr := by
  have hmax : db.maxSize = G.n * G.S := hlen
  have hnth := G.nth_lt (o := o) (k := k)
  have hnext : (if G.nth o k * G.S + G.S < G.n * G.S then G.nth o k * G.S + G.S else 0) =
      G.nth o (k + 1) * G.S := by
    have hmod : G.nth o (k + 1) = (G.nth o k + 1) % G.n := (Nat.mod_add_mod (o + k) G.n 1).symm
    rw [← Nat.succ_mul, hmod]
    split
    case isTrue hlt =>
      rw [Nat.mod_eq_of_lt (Nat.lt_of_mul_lt_mul_right hlt)]
    case isFalse hge =>
      have heq : G.nth o k + 1 = G.n := by
        have := mt (fun hlt => Nat.mul_lt_mul_of_pos_right hlt G.pos) hge
        omega
      rw [heq, Nat.mod_self, Nat.zero_mul]
  rw [getNextSectorAddr, if_pos hcombined, hS, hmax, haddr, hnext, ← Nat.succ_mul]
  rcases Nat.lt_or_ge (k + 1) G.n with hlt | hge
  · rw [if_pos (Nat.mul_le_mul_right _ hlt), if_pos hlt]
  · have hgt : ¬(k + 1).succ * G.S ≤ G.n * G.S := fun hle => by
      have := Nat.le_of_mul_le_mul_right hle G.pos
      omega
    rw [if_neg hgt, if_neg (by omega)]

theorem KvdbOk.getNextSectorAddr_eq (h : KvdbOk G A db) (haddr : sector.addr = G.nth o k * G.S)
    (hcombined : sector.combined = sectorNotCombined) (hk : k < G.n) :
    getNextSectorAddr db sector ((k + 1) * G.S) =
      if k + 1 < G.n then G.nth o (k + 1) * G.S else failedAddr :=
  DoorLock.getNextSectorAddr_eq h.secSize h.len haddr hcombined hk

variable {σ : Type} {s s₀ : σ}

/-! ## Sectors -/

/-- The loop of `sector_iterator`: `I k` holds when `k` sectors were visited, `Q` in the end. -/
theorem sectorIteratorLoop_yields {status : FdbSectorStoreStatus} {traversalKv : Bool}
    {callback : FdbKvdb → KvdbSecInfo → σ → Option (Bool × FdbKvdb × σ)}
    {I : Nat → KvSectors → FdbKvdb → σ → Prop} {Q : KvdbSecInfo → FdbKvdb → σ → Prop} {fuel : Nat}
    (hok : ∀ {k A db s}, I k A db s → KvdbOk G A db)
    (hread : ∀ {k A db db' s}, I k A db s → ReadsOnly G A db db' → I k A db' s)
    (hcb : ∀ {k A db s sector}, k < G.n → I k A db s →
      SecInfoOk G.S (G.nth o k) (A (G.nth o k)) sector →
      (traversalKv = true → sector.emptyKv ≠ failedAddr) →
      (status = .unused ∨ status = (A (G.nth o k)).store) →
      Yields (callback db sector s) fun x =>
        if x.1 then Q sector x.2.1 x.2.2 else ∃ A', I (k + 1) A' x.2.1 x.2.2)
    (hskip : ∀ {k A db s}, k < G.n → I k A db s →
      ¬(status = .unused ∨ status = (A (G.nth o k)).store) → I (k + 1) A db s)
    (hend : ∀ {A db s sector}, I G.n A db s → Q sector db s)
    (hk : k < G.n) (hfuel : G.n ≤ k + fuel) (hI : I k A db s) :
    Yields (sectorIteratorLoop status traversalKv callback fuel db (G.nth o k * G.S) sector
      (k * G.S) s) fun x => Q x.1 x.2.1 x.2.2 := by
  induction fuel generalizing k A db s sector with
  | zero => omega
  | succ fuel ih =>
    have hnth := G.nth_lt (o := o) (k := k)
    rw [sectorIteratorLoop]
    refine ((hok hI).readSectorInfo_ok hnth).bind ?_
    rintro ⟨res, sector, db'⟩ ⟨-, hsec, hro, -⟩
    have hsize : k * G.S + db.secSize = (k + 1) * G.S := by
      rw [(hok hI).secSize, Nat.succ_mul]
    have hI := hread hI hro
    dsimp only at hsec hI ⊢
    rw [hsize, hsec.store]
    -- what is left to do once the sector was dealt with
    have hrest {A' db sector s} (haddr : sector.addr = G.nth o k * G.S)
        (hcombined : sector.combined = sectorNotCombined) (hI : I (k + 1) A' db s) :
        Yields (if getNextSectorAddr db sector ((k + 1) * G.S) = failedAddr then
            some (sector, db, s)
          else sectorIteratorLoop status traversalKv callback fuel db
            (getNextSectorAddr db sector ((k + 1) * G.S)) sector ((k + 1) * G.S) s)
          fun x => Q x.1 x.2.1 x.2.2 := by
      rw [(hok hI).getNextSectorAddr_eq haddr hcombined hk]
      rcases Nat.lt_or_ge (k + 1) G.n with hlt | hge
      · have hne : G.nth o (k + 1) * G.S ≠ failedAddr := G.addr_ne G.nth_lt
        rw [if_pos hlt, if_neg hne]
        exact ih hlt (by omega) hI
      · have hge : ¬k + 1 < G.n := Nat.not_lt_of_ge hge
        rw [if_neg hge, if_pos rfl]
        have heq : k + 1 = G.n := by omega
        exact .pure (hend (heq ▸ hI))
    -- the callback, and then the rest
    have hcall {db sector} (hsec : SecInfoOk G.S (G.nth o k) (A (G.nth o k)) sector)
        (hI : I k A db s) (htrav : traversalKv = true → sector.emptyKv ≠ failedAddr)
        (hstatus : status = .unused ∨ status = (A (G.nth o k)).store) :
        Yields (callback db sector s >>= fun x =>
          if x.1 then some (sector, x.2.1, x.2.2)
          else if getNextSectorAddr x.2.1 sector ((k + 1) * G.S) = failedAddr then
            some (sector, x.2.1, x.2.2)
          else sectorIteratorLoop status traversalKv callback fuel x.2.1
            (getNextSectorAddr x.2.1 sector ((k + 1) * G.S)) sector ((k + 1) * G.S) x.2.2)
          fun x => Q x.1 x.2.1 x.2.2 := by
      refine (hcb hk hI hsec htrav hstatus).bind fun x hx => ?_
      refine .ite (fun ht => .pure ?_) fun hf => ?_
      · exact (if_pos ht).mp hx
      · obtain ⟨A', hI⟩ := (if_neg hf).mp hx
        exact hrest hsec.addr hsec.combined hI
    refine .ite (fun hstatus => .ite (fun ht => ?_) fun hf => ?_) fun hstatus => ?_
    · refine ((hok hI).readSectorInfo_ok hnth).bind fun x hx => ?_
      exact hcall hx.2.1 (hread hI hx.2.2.1) (fun _ => hx.2.2.2 rfl) hstatus
    · exact hcall hsec hI (fun ht => absurd ht hf) hstatus
    · exact hrest hsec.addr hsec.combined (hskip hk hI hstatus)

/-- `sector_iterator` -/
theorem sectorIterator_yields {status : FdbSectorStoreStatus} {traversalKv : Bool}
    {callback : FdbKvdb → KvdbSecInfo → σ → Option (Bool × FdbKvdb × σ)}
    {I : Nat → KvSectors → FdbKvdb → σ → Prop} {Q : KvdbSecInfo → FdbKvdb → σ → Prop}
    (hok : ∀ {k A db s}, I k A db s → KvdbOk G A db)
    (hread : ∀ {k A db db' s}, I k A db s → ReadsOnly G A db db' → I k A db' s)
    (hcb : ∀ {k A db s sector}, k < G.n → I k A db s →
      SecInfoOk G.S (G.nth o k) (A (G.nth o k)) sector →
      (traversalKv = true → sector.emptyKv ≠ failedAddr) →
      (status = .unused ∨ status = (A (G.nth o k)).store) →
      Yields (callback db sector s) fun x =>
        if x.1 then Q sector x.2.1 x.2.2 else ∃ A', I (k + 1) A' x.2.1 x.2.2)
    (hskip : ∀ {k A db s}, k < G.n → I k A db s →
      ¬(status = .unused ∨ status = (A (G.nth o k)).store) → I (k + 1) A db s)
    (hend : ∀ {A db s sector}, I G.n A db s → Q sector db s)
    (ho : o < G.n) (holdest : db.oldestAddr = o * G.S) (hI : I 0 A db s) :
    Yields (sectorIterator db sector status s callback traversalKv)
      fun x => Q x.1 x.2.1 x.2.2 := by
  have hfuel : G.n ≤ 0 + (db.maxSize / db.secSize + 2) := by
    rw [FdbKvdb.maxSize, (hok hI).len, (hok hI).secSize, Nat.mul_div_cancel _ G.pos]
    omega
  have hloop : Yields (sectorIteratorLoop status traversalKv callback
      (db.maxSize / db.secSize + 2) db (G.nth o 0 * G.S) sector (0 * G.S) s)
      fun x => Q x.1 x.2.1 x.2.2 :=
    sectorIteratorLoop_yields (I := I) hok hread hcb hskip hend G.num_pos hfuel hI
  rwa [G.nth_zero ho, Nat.zero_mul, ← holdest] at hloop

/-! ## Records -/

/-- The loop of `kv_iterator` over a sector: `I k pre` holds when the records `pre` of the sector
were visited. A callback may change the status of the record it is given, and add others. -/
theorem kvIteratorSector_yields
    {callback : FdbKvdb → FdbKv → σ → Option (Bool × FdbKvdb × σ)}
    {I : Nat → List KvRec → KvSectors → FdbKvdb → σ → Prop} {Q : FdbKv → FdbKvdb → σ → Prop}
    {fuel : Nat} {pre post : List KvRec} {r : KvRec} {kv : FdbKv}
    (hok : ∀ {k pre A db s}, I k pre A db s → KvdbOk G A db)
    (hcb : ∀ {k pre A db s r post}, k < G.n → I k pre A db s →
      (A (G.nth o k)).recs = pre ++ r :: post →
      Yields (callback db (r.toKv (recAddr G.S (G.nth o k) pre)) s) fun x =>
        if x.1 then Q (r.toKv (recAddr G.S (G.nth o k) pre)) x.2.1 x.2.2
        else ∃ A' r' post', I k (pre ++ [r']) A' x.2.1 x.2.2 ∧
          (A' (G.nth o k)).recs = pre ++ r' :: post' ∧ r'.size = r.size)
    (hk : k < G.n) (hI : I k pre A db s) (hrecs : (A (G.nth o k)).recs = pre ++ r :: post)
    (hstore : sector.store ≠ .empty) (hsec : sector.addr = G.nth o k * G.S)
    (hkv : kv.addrStart = recAddr G.S (G.nth o k) pre) (hfuel : G.S ≤ fuel + pre.length) :
    Yields (kvIteratorSector callback fuel db sector kv s) fun x =>
      if x.1 then Q x.2.1 x.2.2.1 x.2.2.2
      else ∃ A', I k (A' (G.nth o k)).recs A' x.2.2.1 x.2.2.2 := by
  induction fuel generalizing pre A db s r post kv with
  | zero =>
    have hcount := length_le_recsSize (A (G.nth o k)).recs
    have hused := (hok hI).used_le _ (G.nth_lt (o := o) (k := k))
    rw [hrecs, List.length_append, List.length_cons, ← hrecs] at hcount
    unfold KvSector.used sectorHdrDataSize at hused
    unfold kvHdrDataSize at hcount
    omega
  | succ fuel ih =>
    have hnth := G.nth_lt (o := o) (k := k)
    rw [kvIteratorSector, (hok hI).readKv_eq hnth hrecs hkv, Option.bind_eq_bind, Option.bind_some]
    refine (hcb hk hI hrecs).bind ?_
    rintro ⟨stop, db, s⟩ hx
    refine .ite (fun ht => .pure ?_) fun hf => ?_
    · exact (if_pos rfl).mpr ((if_pos ht).mp hx)
    obtain ⟨A', r', post', hI', hrecs', hsize⟩ := (if_neg hf).mp hx
    have hsize' : (r.toKv (recAddr G.S (G.nth o k) pre)).len = r'.size := hsize.symm
    dsimp only
    cases post' with
    | nil =>
      rw [(hok hI').getNextKvAddr_last hnth hrecs' (r.addrStart_toKv _) hsec rfl hsize', if_pos rfl]
      refine .pure ?_
      rw [if_neg Bool.false_ne_true]
      exact ⟨A', hrecs' ▸ hI'⟩
    | cons r'' post'' =>
      have happ : (A' (G.nth o k)).recs = (pre ++ [r']) ++ r'' :: post'' := by
        rw [hrecs', List.append_assoc, List.singleton_append]
      have hne : recAddr G.S (G.nth o k) (pre ++ [r']) ≠ failedAddr := by
        have hle := recAddr_le (S := G.S) (i := G.nth o k) happ
        have hend := (hok hI').end_lt hnth
        have hlt := G.sector_lt hnth
        unfold failedAddr
        omega
      rw [(hok hI').getNextKvAddr_rec hnth hrecs' hstore hsec (r.addrStart_toKv _) rfl hsize',
        if_neg hne]
      refine ih hI' happ rfl ?_
      rw [List.length_append, List.length_singleton]
      omega

/-- The loop of `kv_iterator` over the sectors. -/
theorem kvIteratorLoop_yields
    {callback : FdbKvdb → FdbKv → σ → Option (Bool × FdbKvdb × σ)}
    {I : Nat → List KvRec → KvSectors → FdbKvdb → σ → Prop} {Q : FdbKv → FdbKvdb → σ → Prop}
    {fuel : Nat} {kv : FdbKv}
    (hok : ∀ {k pre A db s}, I k pre A db s → KvdbOk G A db)
    (hread : ∀ {k pre A db db' s}, I k pre A db s → ReadsOnly G A db db' → I k pre A db' s)
    (hcb : ∀ {k pre A db s r post}, k < G.n → I k pre A db s →
      (A (G.nth o k)).recs = pre ++ r :: post →
      Yields (callback db (r.toKv (recAddr G.S (G.nth o k) pre)) s) fun x =>
        if x.1 then Q (r.toKv (recAddr G.S (G.nth o k) pre)) x.2.1 x.2.2
        else ∃ A' r' post', I k (pre ++ [r']) A' x.2.1 x.2.2 ∧
          (A' (G.nth o k)).recs = pre ++ r' :: post' ∧ r'.size = r.size)
    (hnext : ∀ {k A db s}, k < G.n → I k (A (G.nth o k)).recs A db s → I (k + 1) [] A db s)
    (hend : ∀ {A db s kv}, I G.n [] A db s → Q kv db s)
    (hk : k < G.n) (hfuel : G.n ≤ k + fuel) (hI : I k [] A db s) :
    Yields (kvIteratorLoop callback fuel db (G.nth o k * G.S) sector (k * G.S) kv s)
      fun x => Q x.1 x.2.1 x.2.2 := by
  induction fuel generalizing k A db s sector kv with
  | zero => omega
  | succ fuel ih =>
    have hnth := G.nth_lt (o := o) (k := k)
    rw [kvIteratorLoop]
    refine ((hok hI).readSectorInfo_ok hnth).bind ?_
    rintro ⟨res, sector, db'⟩ ⟨hres, hsec, hro, -⟩
    have hsize : k * G.S + db.secSize = (k + 1) * G.S := by
      rw [(hok hI).secSize, Nat.succ_mul]
    have hI := hread hI hro
    have hS := (hok hI).secSize
    dsimp only at hres hsec hI hS ⊢
    rw [hsize, hS, hsec.store]
    -- what is left to do once the sector was dealt with
    have hrest {A' db s kv} (hI : I k (A' (G.nth o k)).recs A' db s) :
        Yields (if getNextSectorAddr db sector ((k + 1) * G.S) = failedAddr then some (kv, db, s)
          else kvIteratorLoop callback fuel db (getNextSectorAddr db sector ((k + 1) * G.S)) sector
            ((k + 1) * G.S) kv s)
          fun x => Q x.1 x.2.1 x.2.2 := by
      have hI := hnext hk hI
      rw [(hok hI).getNextSectorAddr_eq hsec.addr hsec.combined hk]
      rcases Nat.lt_or_ge (k + 1) G.n with hlt | hge
      · have hne : G.nth o (k + 1) * G.S ≠ failedAddr := G.addr_ne G.nth_lt
        rw [if_pos hlt, if_neg hne]
        exact ih hlt (by omega) hI
      · have hge : ¬k + 1 < G.n := Nat.not_lt_of_ge hge
        rw [if_neg hge, if_pos rfl]
        have heq : k + 1 = G.n := by omega
        exact .pure (hend (heq ▸ hI))
    rcases ((hok hI).sector _ hnth).store with ⟨hstore, hrecs, -⟩ | ⟨hstore, hrecs⟩
    · have hskip : ¬(res = .noErr ∧ ((A (G.nth o k)).store = .using ∨
          (A (G.nth o k)).store = .full)) := by
        rw [hstore]
        rintro ⟨-, h | h⟩ <;> cases h
      rw [if_neg hskip]
      exact hrest (hrecs.symm ▸ hI)
    · obtain ⟨r, post, hcons⟩ := List.exists_cons_of_ne_nil hrecs
      have hvisit : res = .noErr ∧ ((A (G.nth o k)).store = .using ∨
          (A (G.nth o k)).store = .full) := ⟨hres, .inl hstore⟩
      have hne : sector.store ≠ .empty := by
        rw [hsec.store, hstore]
        decide
      rw [if_pos hvisit]
      refine (kvIteratorSector_yields hok hcb hk hI hcons hne hsec.addr
        (congrArg (· + sectorHdrDataSize) hsec.addr) (Nat.le_add_right _ _)).bind ?_
      rintro ⟨stop, kv, db, s⟩ hx
      refine .ite (fun ht => .pure ?_) fun hf => ?_
      · exact (if_pos ht).mp hx
      · obtain ⟨A', hI'⟩ := (if_neg hf).mp hx
        exact hrest hI'

/-- `kv_iterator` -/
theorem kvIterator_yields {callback : FdbKvdb → FdbKv → σ → Option (Bool × FdbKvdb × σ)}
    {I : Nat → List KvRec → KvSectors → FdbKvdb → σ → Prop} {Q : FdbKv → FdbKvdb → σ → Prop}
    {kv : FdbKv}
    (hok : ∀ {k pre A db s}, I k pre A db s → KvdbOk G A db)
    (hread : ∀ {k pre A db db' s}, I k pre A db s → ReadsOnly G A db db' → I k pre A db' s)
    (hcb : ∀ {k pre A db s r post}, k < G.n → I k pre A db s →
      (A (G.nth o k)).recs = pre ++ r :: post →
      Yields (callback db (r.toKv (recAddr G.S (G.nth o k) pre)) s) fun x =>
        if x.1 then Q (r.toKv (recAddr G.S (G.nth o k) pre)) x.2.1 x.2.2
        else ∃ A' r' post', I k (pre ++ [r']) A' x.2.1 x.2.2 ∧
          (A' (G.nth o k)).recs = pre ++ r' :: post' ∧ r'.size = r.size)
    (hnext : ∀ {k A db s}, k < G.n → I k (A (G.nth o k)).recs A db s → I (k + 1) [] A db s)
    (hend : ∀ {A db s kv}, I G.n [] A db s → Q kv db s)
    (ho : o < G.n) (holdest : db.oldestAddr = o * G.S) (hI : I 0 [] A db s) :
    Yields (kvIterator callback db kv s) fun x => Q x.1 x.2.1 x.2.2 := by
  have hfuel : G.n ≤ 0 + (db.maxSize / db.secSize + 2) := by
    rw [FdbKvdb.maxSize, (hok hI).len, (hok hI).secSize, Nat.mul_div_cancel _ G.pos]
    omega
  have hloop : Yields (kvIteratorLoop callback (db.maxSize / db.secSize + 2) db
      (G.nth o 0 * G.S) .fresh (0 * G.S) kv s) fun x => Q x.1 x.2.1 x.2.2 :=
    kvIteratorLoop_yields (I := I) hok hread hcb hnext hend G.num_pos hfuel hI
  rwa [G.nth_zero ho, Nat.zero_mul, ← holdest] at hloop

end DoorLock
