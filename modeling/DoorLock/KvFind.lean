import DoorLock.KvCache
import DoorLock.KvIterate

/-!
# Finding a record

Of every name there is at most one record that is written and not deleted. `find_kv` returns it,
from the cache or by reading all records, and what `get_kv` returns is its value.
-/

namespace DoorLock

open Nor CString

/-- Both caches are right, and every name has one valid record at most. -/
structure KvOk (G : KvGeom) (K : KvNames) (A : KvSectors) (db : FdbKvdb) : Prop
    extends KvdbOk G A db where
  keys : ∀ {a r}, RecAt G A a r → K.mem r.key
  one : ∀ {a a' r r'}, RecAt G A a r → RecAt G A a' r' → r.status = .write → r'.status = .write →
    r.key = r'.key → a = a'
  kvCache : KvCacheOk G A db.kvCacheTable

/-- Nothing was changed but the caches, which are right. -/
structure KvReads (G : KvGeom) (K : KvNames) (A : KvSectors) (db db' : FdbKvdb) : Prop where
  ok : KvOk G K A db'
  same : ∃ table table', db' = { db with sectorCacheTable := table, kvCacheTable := table' }

/-- The record of `key` that is valid. -/
def ValidAt (G : KvGeom) (A : KvSectors) (key : List UInt8) (a : Nat) (r : KvRec) : Prop :=
  RecAt G A a r ∧ r.status = .write ∧ r.key = key

/-- The value of `key`. -/
def Stored (G : KvGeom) (A : KvSectors) (key value : List UInt8) : Prop :=
  ∃ a r, ValidAt G A key a r ∧ r.value = value

variable {G : KvGeom} {K : KvNames} {A : KvSectors} {db db' db'' : FdbKvdb} {a a' i : Nat}
  {r r' : KvRec} {key value value' : List UInt8} {kv : FdbKv}

theorem KvReads.trans (h : KvReads G K A db db') (h' : KvReads G K A db' db'') :
    KvReads G K A db db'' := by
  obtain ⟨t₁, t₂, rfl⟩ := h.same
  obtain ⟨t₁', t₂', rfl⟩ := h'.same
  exact ⟨h'.ok, t₁', t₂', rfl⟩

theorem KvOk.reads (h : KvOk G K A db) (hr : ReadsOnly G A db db') : KvReads G K A db db' := by
  obtain ⟨table, rfl⟩ := hr.same
  exact ⟨{ h with toKvdbOk := hr.ok }, table, _, rfl⟩

theorem KvOk.valid_unique (h : KvOk G K A db) (hv : ValidAt G A key a r)
    (hv' : ValidAt G A key a' r') : a = a' ∧ r = r' := by
  obtain ⟨hat, hstatus, hkey⟩ := hv
  obtain ⟨hat', hstatus', hkey'⟩ := hv'
  obtain rfl := h.one hat hat' hstatus hstatus' (hkey.trans hkey'.symm)
  exact ⟨rfl, hat.unique h.used_le hat'⟩

theorem KvOk.stored_unique (h : KvOk G K A db) (hs : Stored G A key value)
    (hs' : Stored G A key value') : value = value' := by
  obtain ⟨a, r, hv, rfl⟩ := hs
  obtain ⟨a', r', hv', rfl⟩ := hs'
  rw [(h.valid_unique hv hv').2]

/-! ## Reading all records -/

theorem strncmpEq_iff {x y : List UInt8} (hx : NoNul x) (hy : NoNul y)
    (hlen : y.length = x.length) :
    strncmpEq x y y.length = true ↔ x = y := by
  rw [strncmpEq, strcmpEq_iff, List.take_of_length_le (Nat.le_refl _),
    List.take_of_length_le (Nat.le_of_eq hlen.symm), cstr_of_noNul hx, cstr_of_noNul hy]

/-- What `find_kv_no_cache` knows after `k` sectors and the records `pre` of the next. -/
structure NotFoundIn (G : KvGeom) (A : KvSectors) (key : List UInt8) (o k : Nat)
    (pre : List KvRec) : Prop where
  sectors : ∀ k' < k, ∀ r ∈ (A (G.nth o k')).recs, ¬(r.status = .write ∧ r.key = key)
  recs : ∀ r ∈ pre, ¬(r.status = .write ∧ r.key = key)

/-- `find_kv_no_cache` -/
theorem KvOk.findKvNoCache_ok (h : KvOk G K A db) (hkey : K.mem key) :
    Yields (findKvNoCache db key kv) fun x =>
      KvReads G K A db x.2.2 ∧ (x.1 = true → ∃ a r, ValidAt G A key a r ∧ x.2.1 = r.toKv a) ∧
        (x.1 = false → ∀ a r, ¬ValidAt G A key a r) := by
  obtain ⟨o, ho, holdest⟩ := h.oldest
  have hiter : Yields (kvIterator (findKvCb key) db kv false) fun x =>
      ReadsOnly G A db x.2.1 ∧ (x.2.2 = true → ∃ a r, ValidAt G A key a r ∧ x.1 = r.toKv a) ∧
        (x.2.2 = false → ∀ a r, ¬ValidAt G A key a r) := by
    refine kvIterator_yields (G := G) (A := A) (o := o)
      (I := fun k pre A' db' s => A' = A ∧ ReadsOnly G A db db' ∧ s = false ∧
        NotFoundIn G A key o k pre)
      (Q := fun kv db' s => ReadsOnly G A db db' ∧
        (s = true → ∃ a r, ValidAt G A key a r ∧ kv = r.toKv a) ∧
          (s = false → ∀ a r, ¬ValidAt G A key a r)) ?_ ?_ ?_ ?_ ?_ ho holdest
      ⟨rfl, .refl h.toKvdbOk, rfl,
        ⟨fun k hk => absurd hk (Nat.not_lt_zero k), fun r hr => by cases hr⟩⟩
    · rintro k pre A' db' s ⟨rfl, hro, -, -⟩
      exact hro.ok
    · rintro k pre A' db' db'' s ⟨rfl, hro, hs, hnot⟩ hro'
      exact ⟨rfl, hro.trans hro', hs, hnot⟩
    · rintro k pre A' db' s r post hk ⟨rfl, hro, rfl, hnot⟩ hrecs
      have hat : RecAt G A' (recAddr G.S (G.nth o k) pre) r := .intro G.nth_lt hrecs
      have hgo (hno : ¬(r.status = .write ∧ r.key = key)) :
          ∃ A'' r' post', (A'' = A' ∧ ReadsOnly G A' db db' ∧ false = false ∧
            NotFoundIn G A' key o k (pre ++ [r'])) ∧
            (A'' (G.nth o k)).recs = pre ++ r' :: post' ∧ r'.size = r.size := by
        refine ⟨A', r, post, ⟨rfl, hro, rfl, hnot.sectors, fun x hx => ?_⟩, hrecs, rfl⟩
        rcases List.mem_append.mp hx with hx | hx
        · exact hnot.recs x hx
        · rw [List.mem_singleton.mp hx]
          exact hno
      rw [findKvCb]
      refine .ite (fun hlen => .pure ?_) fun hlen => .ite (fun hhit => .pure ?_) fun hno => .pure ?_
      · refine hgo ?_
        rintro ⟨-, rfl⟩
        exact hlen rfl
      · refine ⟨hro, fun _ => ⟨_, r, ⟨hat, hhit.2.1, ?_⟩, rfl⟩, fun hf => by cases hf⟩
        exact (strncmpEq_iff (K.noNul (h.keys hat)) (K.noNul hkey) (Decidable.not_not.mp hlen)).mp
          hhit.2.2
      · refine hgo ?_
        rintro ⟨hstatus, rfl⟩
        exact hno ⟨rfl, hstatus, (strncmpEq_iff (K.noNul hkey) (K.noNul hkey) rfl).mpr rfl⟩
    · rintro k A' db' s hk ⟨rfl, hro, hs, hnot⟩
      refine ⟨rfl, hro, hs, fun k' hk' => ?_, fun r hr => by cases hr⟩
      rcases Nat.lt_succ_iff_lt_or_eq.mp hk' with hlt | rfl
      · exact hnot.sectors k' hlt
      · exact hnot.recs
    · rintro A' db' s kv ⟨rfl, hro, rfl, hnot⟩
      refine ⟨hro, fun ht => absurd ht Bool.false_ne_true, fun _ a r hv => ?_⟩
      obtain ⟨i, hi, hr⟩ := hv.1.mem
      obtain ⟨k, hk, rfl⟩ := G.exists_nth ho hi
      exact hnot.sectors k hk r hr hv.2
  rw [findKvNoCache]
  refine hiter.bind ?_
  rintro ⟨kv, db', s⟩ ⟨hro, htrue, hfalse⟩
  exact .pure ⟨h.reads hro, htrue, hfalse⟩

/-- `find_kv` -/
theorem KvOk.findKv_ok (h : KvOk G K A db) (hkey : K.mem key) :
    Yields (findKv db key kv) fun x =>
      KvReads G K A db x.2.2 ∧ (x.1 = true → ∃ a r, ValidAt G A key a r ∧ x.2.1 = r.toKv a) ∧
        (x.1 = false → ∀ a r, ¬ValidAt G A key a r) := by
  obtain ⟨table, hdb, hcache, hhit⟩ := getKvFromCache_ok h.kvCache h.keys hkey
  have hok : KvOk G K A { db with kvCacheTable := table } := { h with kvCache := hcache }
  have hreads : KvReads G K A db { db with kvCacheTable := table } := ⟨hok, _, _, rfl⟩
  unfold findKv
  generalize getKvFromCache db key = x at hdb hhit
  obtain ⟨hit, db₁⟩ := x
  obtain rfl := hdb
  cases hit with
  | some a =>
    obtain ⟨r, hat, hstatus, rfl⟩ := hhit a rfl
    obtain ⟨i, hi, pre, post, hrecs, rfl⟩ := hat.split
    dsimp only
    rw [hok.readKv_eq hi hrecs rfl]
    exact .pure ⟨hreads, fun _ => ⟨_, r, ⟨hat, hstatus, rfl⟩, rfl⟩,
      fun hf => Bool.noConfusion hf⟩
  | none =>
    refine (hok.findKvNoCache_ok hkey).bind ?_
    rintro ⟨findOk, kv, db₂⟩ ⟨hr, htrue, hfalse⟩
    refine .pure ⟨?_, htrue, hfalse⟩
    dsimp only
    split
    case isTrue hfound =>
      obtain ⟨a, r, hv, rfl⟩ := htrue hfound
      obtain ⟨t, t', rfl⟩ := hr.same
      refine hreads.trans ⟨{ hr.ok with kvCache := ?_ }, _, _, rfl⟩
      exact hr.ok.kvCache.update (fun hat _ _ => hat) (.inr ⟨r, hv.1, hv.2.1, hv.2.2 ▸ rfl⟩)
    case isFalse => exact hreads.trans hr

/-! ## Values -/

/-- A record is within the partition. -/
theorem KvOk.end_le (h : KvOk G K A db) (hat : RecAt G A a r) : a + r.size ≤ db.part.len := by
  obtain ⟨i, hi, hin⟩ := hat
  have hb := hin.bounds
  have hused := h.used_le i hi
  have hsec := sector_le (S := G.S) hi
  unfold KvSector.used at hused
  rw [h.len]
  omega

/-- The bytes of a value are where `struct fdb_kv` says. -/
theorem KvOk.read_value (h : KvOk G K A db) (hat : RecAt G A a r) {n : Nat}
    (hn : n ≤ r.value.length) :
    fdbFlashRead db.part (r.toKv a).addrValue n = some (r.value.take n) := by
  have hend := h.end_le hat
  obtain ⟨i, hi, pre, post, hrecs, rfl⟩ := hat.split
  have himg := h.holds.rec hi hrecs
  rw [KvRec.image_eq] at himg
  have hvalue := (at_append.mp (at_append.mp himg).2).2
  have hread := hvalue.read_drop_take (k := 0) (n := n) (by omega)
  unfold KvRec.size at hend
  rw [fdbFlashRead_eq (by change recAddr G.S i pre + kvHdrDataSize + r.key.length + n ≤ _; omega)]
  exact congrArg some hread

/-- `get_kv` -/
theorem KvOk.getKv_ok (h : KvOk G K A db) (hkey : K.mem key) {bufLen : Nat} :
    Yields (getKv db key bufLen) fun x => KvReads G K A db x.2.2 ∧
      ((∃ value, Stored G A key value ∧ x.1 = value.take bufLen ∧ x.2.1 = value.length) ∨
        (∀ value, ¬Stored G A key value) ∧ x.1 = [] ∧ x.2.1 = 0) := by
  rw [getKv]
  refine (h.findKv_ok hkey).bind ?_
  rintro ⟨findOk, kv, db'⟩ ⟨hr, htrue, hfalse⟩
  refine .ite (fun hfound => ?_) fun hmiss => .pure ⟨hr, .inr ⟨?_, rfl, rfl⟩⟩
  · obtain ⟨a, r, hv, rfl⟩ := htrue hfound
    have hlen : (if bufLen > r.value.length then r.value.length else bufLen) ≤ r.value.length := by
      split <;> omega
    have htake : r.value.take (if bufLen > r.value.length then r.value.length else bufLen) =
        r.value.take bufLen := by
      split
      case isTrue hgt => rw [List.take_length, List.take_of_length_le (Nat.le_of_lt hgt)]
      case isFalse => rfl
    have hread := hr.ok.read_value hv.1 hlen
    dsimp only at hread ⊢
    change Yields (fdbFlashRead db'.part (r.toKv a).addrValue
      (if bufLen > r.value.length then r.value.length else bufLen) >>= _) _
    rw [hread, htake]
    exact .pure ⟨hr, .inl ⟨r.value, ⟨a, r, hv, rfl⟩, rfl, rfl⟩⟩
  · rintro value ⟨a, r, hv, -⟩
    exact hfalse (Bool.eq_false_iff.mpr hmiss) a r hv

end DoorLock
