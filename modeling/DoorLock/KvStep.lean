import DoorLock.KvMove

/-!
# One value changes

What a set, a deletion or a move does to the valid records: those of one name are replaced, by a new
one or none, and those of the other names stay. The caches stay right, and the store holds what it
held but for that name.
-/

namespace DoorLock

variable {G : KvGeom} {K : KvNames} {A A' : KvSectors} {db db' : FdbKvdb} {i j a dst : Nat}
  {r x : KvRec} {pre post post' : List KvRec} {key key' value : List UInt8}
  {new : Option (Nat × KvRec)} {table : List KvCacheNode}

/-- From `A` to `A'` the valid record of `key` becomes `new`. -/
structure Replaces (G : KvGeom) (A A' : KvSectors) (key : List UInt8)
    (new : Option (Nat × KvRec)) : Prop where
  other : ∀ {a x}, x.status = .write → x.key ≠ key → (RecAt G A' a x ↔ RecAt G A a x)
  same : ∀ {a x}, x.status = .write → x.key = key → (RecAt G A' a x ↔ new = some (a, x))
  keys : ∀ {a x}, RecAt G A' a x → x.key = key ∨ ∃ a' x', RecAt G A a' x' ∧ x'.key = x.key

/-- The value of the new record, where there is one. -/
theorem Replaces.stored (h : Replaces G A A' key new)
    (hnew : ∀ {a x}, new = some (a, x) → x.status = .write ∧ x.key = key) :
    Stored G A' key' value ↔
      if key' = key then ∃ a x, new = some (a, x) ∧ x.value = value else Stored G A key' value := by
  split
  case isTrue hkey =>
    subst hkey
    constructor
    · rintro ⟨a, x, ⟨hat, hstatus, hkey⟩, hvalue⟩
      exact ⟨a, x, (h.same hstatus hkey).mp hat, hvalue⟩
    · rintro ⟨a, x, heq, hvalue⟩
      obtain ⟨hstatus, hkey⟩ := hnew heq
      exact ⟨a, x, ⟨(h.same hstatus hkey).mpr heq, hstatus, hkey⟩, hvalue⟩
  case isFalse hne =>
    constructor
    · rintro ⟨a, x, ⟨hat, hstatus, rfl⟩, hvalue⟩
      exact ⟨a, x, ⟨(h.other hstatus hne).mp hat, hstatus, rfl⟩, hvalue⟩
    · rintro ⟨a, x, ⟨hat, hstatus, rfl⟩, hvalue⟩
      exact ⟨a, x, ⟨(h.other hstatus hne).mpr hat, hstatus, rfl⟩, hvalue⟩

theorem Replaces.stored_self (h : Replaces G A A' key (some (dst, x))) (hx : x.status = .write)
    (hkey : x.key = key) : Stored G A' key value ↔ value = x.value := by
  rw [h.stored fun heq => by cases heq; exact ⟨hx, hkey⟩, if_pos rfl]
  constructor
  · rintro ⟨a, y, heq, rfl⟩
    cases heq
    rfl
  · rintro rfl
    exact ⟨dst, x, rfl, rfl⟩

theorem Replaces.key_mem (h : Replaces G A A' key new) (hok : KvOk G K A db) (hkey : K.mem key)
    (hat : RecAt G A' a x) : K.mem x.key := by
  rcases h.keys hat with rfl | ⟨a', x', hat', hx⟩
  · exact hkey
  · exact hx ▸ hok.keys hat'

/-- A name still has at most one valid record. -/
theorem Replaces.one (h : Replaces G A A' key new) (hok : KvOk G K A db) (hat : RecAt G A' a x)
    (hat' : RecAt G A' dst r) (hs : x.status = .write) (hs' : r.status = .write)
    (hkeys : x.key = r.key) : a = dst := by
  rcases Decidable.eq_or_ne x.key key with heq | hne
  · have hx := (h.same hs heq).mp hat
    have hx' := (h.same hs' (hkeys ▸ heq)).mp hat'
    cases hx.symm.trans hx'
    rfl
  · exact hok.one ((h.other hs hne).mp hat) ((h.other hs' (hkeys ▸ hne)).mp hat') hs hs' hkeys

/-- The invariant after the step, when the cache was told. -/
theorem Replaces.ok (h : Replaces G A A' key new) (hok : KvOk G K A db) (hkey : K.mem key)
    (hdb : KvdbOk G A' db') (hcache : KvCacheOk G A' db'.kvCacheTable) : KvOk G K A' db' where
  toKvdbOk := hdb
  keys := h.key_mem hok hkey
  one := h.one hok
  kvCache := hcache

/-- `update_kv_cache` with the address of the new record. -/
theorem Replaces.cache (h : Replaces G A A' key (some (dst, x))) (hx : x.status = .write)
    (hkey : x.key = key) (hcache : KvCacheOk G A db.kvCacheTable) :
    KvCacheOk G A' (updateKvCache db key dst).kvCacheTable :=
  hcache.update
    (fun hat hstatus hne => (h.other hstatus fun heq => hne (by rw [heq])).mpr hat)
    (.inr ⟨x, (h.same hx hkey).mpr rfl, hx, by rw [hkey]⟩)

/-- `update_kv_cache` when the record is gone. -/
theorem Replaces.cache_none (h : Replaces G A A' key none)
    (hcache : KvCacheOk G A db.kvCacheTable) :
    KvCacheOk G A' (updateKvCache db key fdbDataUnused).kvCacheTable :=
  hcache.update
    (fun hat hstatus hne => (h.other hstatus fun heq => hne (by rw [heq])).mpr hat) (.inl rfl)

theorem Replaces.trans {A₁ : KvSectors} {new₁ : Option (Nat × KvRec)}
    (h : Replaces G A A₁ key new₁) (h' : Replaces G A₁ A' key new) : Replaces G A A' key new where
  other := fun hs hne => (h'.other hs hne).trans (h.other hs hne)
  same := h'.same
  keys := by
    intro a x hat
    rcases h'.keys hat with heq | ⟨a₁, x₁, hat₁, heq₁⟩
    · exact .inl heq
    · rcases h.keys hat₁ with heq | ⟨a₀, x₀, hat₀, heq₀⟩
      · exact .inl (heq₁.symm.trans heq)
      · exact .inr ⟨a₀, x₀, hat₀, heq₀.trans heq₁⟩

/-! ## The steps -/

/-- A record is written, of a name that has none. -/
theorem replaces_push (hi : i < G.n) (hno : ∀ a x, ¬ValidAt G A r.key a x)
    (hr : r.status = .write) :
    Replaces G A (A.set i ((A i).pushed r)) r.key (some (recAddr G.S i (A i).recs, r)) where
  other := by
    intro a x hs hne
    rw [recAt_set_push hi rfl]
    constructor
    · rintro (⟨-, rfl⟩ | h)
      · exact absurd rfl hne
      · exact h
    · exact .inr
  same := by
    intro a x hs heq
    rw [recAt_set_push hi rfl]
    constructor
    · rintro (⟨rfl, rfl⟩ | h)
      · rfl
      · exact absurd ⟨h, hs, heq⟩ (hno a x)
    · intro h
      cases h
      exact .inl ⟨rfl, rfl⟩
  keys := by
    intro a x h
    rw [recAt_set_push hi rfl] at h
    rcases h with ⟨-, rfl⟩ | h
    · exact .inl rfl
    · exact .inr ⟨a, x, h, rfl⟩

/-- Where the records are after `del_kv`. -/
theorem recAt_marked {t : FdbKvStatus} (hused : ∀ i < G.n, (A i).used ≤ G.S) (hj : j < G.n)
    (hrecs : (A j).recs = pre ++ r :: post) :
    RecAt G (A.set j ((A j).marked pre r t post)) a x ↔
      a = recAddr G.S j pre ∧ x = { r with status := t } ∨
        a ≠ recAddr G.S j pre ∧ RecAt G A a x :=
  recAt_set_replace hused hj hrecs rfl rfl

/-- The valid record of a name is deleted. -/
theorem replaces_marked {t : FdbKvStatus} (h : KvOk G K A db) (hj : j < G.n)
    (hrecs : (A j).recs = pre ++ r :: post) (hr : r.status = .write) (ht : t ≠ .write) :
    Replaces G A (A.set j ((A j).marked pre r t post)) r.key none where
  other := by
    intro a x hs hne
    rw [recAt_marked h.used_le hj hrecs]
    constructor
    · rintro (⟨-, rfl⟩ | ⟨-, hat⟩)
      · exact absurd hs ht
      · exact hat
    · intro hat
      refine .inr ⟨?_, hat⟩
      rintro rfl
      exact hne (congrArg KvRec.key (hat.unique h.used_le (.intro hj hrecs)))
  same := by
    intro a x hs heq
    rw [recAt_marked h.used_le hj hrecs]
    constructor
    · rintro (⟨-, rfl⟩ | ⟨hne, hat⟩)
      · exact absurd hs ht
      · exact absurd (h.one hat (.intro hj hrecs) hs hr heq) hne
    · intro hnone
      cases hnone
  keys := by
    intro a x hat
    rw [recAt_marked h.used_le hj hrecs] at hat
    rcases hat with ⟨-, rfl⟩ | ⟨-, hat⟩
    · exact .inl rfl
    · exact .inr ⟨a, x, hat, rfl⟩

/-! ## A record in place of another -/

/-- The sectors after the record `r` behind `pre` was deleted, and `x` written behind the records of
sector `i`. -/
def KvSectors.replaced (A : KvSectors) (j : Nat) (pre : List KvRec) (r : KvRec) (post : List KvRec)
    (i : Nat) (x : KvRec) : KvSectors :=
  let A' := A.set j ((A j).marked pre r .deleted post)
  A'.set i ((A' i).pushed x)

theorem FdbSectorDirtyStatus.mark_mark (dirty : FdbSectorDirtyStatus) :
    dirty.mark.mark = dirty.mark := by
  cases dirty <;> rfl

theorem FdbSectorDirtyStatus.mark_ne_no (dirty : FdbSectorDirtyStatus) : dirty.mark ≠ .no := by
  cases dirty <;> decide

/-- The record is deleted in two steps, and `x` is written between them. -/
theorem KvSectors.replaced_eq {A₁ A₂ : KvSectors}
    (h₁ : A₁ = A.set j ((A j).marked pre r .preDelete post))
    (h₂ : A₂ = A₁.set i ((A₁ i).pushed x)) :
    ∃ post', (A₂ j).recs = pre ++ { r with status := .preDelete } :: post' ∧
      A₂.set j ((A₂ j).marked pre { r with status := .preDelete } .deleted post') =
        A.replaced j pre r post i x := by
  have hself : A₁ j = (A j).marked pre r .preDelete post := by rw [h₁, KvSectors.set,
    Function.update_self]
  rcases Decidable.eq_or_ne i j with rfl | hne
  · have hA₂ : A₂ i = ((A i).marked pre r .preDelete post).pushed x := by
      rw [h₂, KvSectors.set, Function.update_self, hself]
    refine ⟨post ++ [x], ?_, ?_⟩
    · rw [hA₂]
      exact List.append_assoc ..
    · rw [hA₂, h₂, h₁, KvSectors.replaced]
      simp only [KvSectors.set, Function.update_idem, Function.update_self]
      congr 1
      simp only [KvSector.marked, KvSector.pushed, FdbSectorDirtyStatus.mark_mark,
        List.append_assoc, List.cons_append]
  · have hA₂ : A₂ j = (A j).marked pre r .preDelete post := by
      rw [h₂, KvSectors.set, Function.update_of_ne hne.symm, hself]
    refine ⟨post, by rw [hA₂]; rfl, ?_⟩
    have hi : A₁ i = A i := by rw [h₁, KvSectors.set, Function.update_of_ne hne]
    have hi' : A.set j ((A j).marked pre r .deleted post) i = A i := Function.update_of_ne hne _ _
    have hmark : ((A j).marked pre r .preDelete post).marked pre { r with status := .preDelete }
        .deleted post = (A j).marked pre r .deleted post := by
      simp only [KvSector.marked, FdbSectorDirtyStatus.mark_mark]
    rw [hA₂, hmark, h₂, KvSectors.replaced, hi']
    rw [KvSectors.set, KvSectors.set, Function.update_comm hne, hi, h₁]
    simp only [KvSectors.set, Function.update_idem]

theorem KvSectors.replaced_of_ne (hne : i ≠ j) :
    A.replaced j pre r post i x j = (A j).marked pre r .deleted post := by
  simp only [KvSectors.replaced, KvSectors.set, Function.update_of_ne hne.symm,
    Function.update_self]

/-- The new record is the valid one of its name. -/
theorem replaces_replaced (h : KvOk G K A db) (hj : j < G.n) (hi : i < G.n)
    (hrecs : (A j).recs = pre ++ r :: post) (hr : r.status = .write) (hx : x.status = .write)
    (hkey : x.key = r.key) :
    Replaces G A (A.replaced j pre r post i x) r.key (some (recAddr G.S i (A i).recs, x)) := by
  have hdel : Replaces G A _ r.key none := replaces_marked h hj hrecs hr (t := .deleted) (by decide)
  have haddr : recAddr G.S i (A i).recs =
      recAddr G.S i ((A.set j ((A j).marked pre r .deleted post)) i).recs := by
    rcases Decidable.eq_or_ne i j with rfl | hne
    · rw [KvSectors.set, Function.update_self, recAddr_marked hrecs]
    · rw [KvSectors.set, Function.update_of_ne hne]
  rw [haddr]
  refine hdel.trans ?_
  rw [← hkey]
  refine replaces_push hi (fun a y hv => ?_) hx
  have hnone := (hdel.same hv.2.1 (hv.2.2.trans hkey)).mp hv.1
  cases hnone

/-- The old record is deleted once the new one is written. -/
theorem KvOk.finish_ok {kv : FdbKv} {db₂ : FdbKvdb} {A₁ A₂ : KvSectors} (h : KvOk G K A db)
    (name : List UInt8) (hj : j < G.n) (hi : i < G.n)
    (hrecs : (A j).recs = pre ++ r :: post) (hr : r.status = .write) (hx : x.status = .write)
    (hkey : x.key = r.key) (h₁ : A₁ = A.set j ((A j).marked pre r .preDelete post))
    (h₂ : A₂ = A₁.set i ((A₁ i).pushed x)) (hok : KvdbOk G A₂ db₂)
    (hcache : db₂.kvCacheTable =
      (updateKvCache db r.key (recAddr G.S i (A i).recs)).kvCacheTable)
    (hlast : db₂.lastIsCompleteDel = true) (hkv : kv.addrStart = recAddr G.S j pre) :
    ∃ m table, delKv db₂ name kv true = some (.noErr, { db₂.withFlash m with
        sectorCacheTable := table, lastIsCompleteDel := false }) ∧
      KvOk G K (A.replaced j pre r post i x) { db₂.withFlash m with
        sectorCacheTable := table, lastIsCompleteDel := false } := by
  obtain ⟨post', hrecs', heq⟩ := KvSectors.replaced_eq h₁ h₂
  have hle : FdbKvStatus.preDelete.code ≤ (delStatus true).code := by decide
  obtain ⟨m, table, hdel, hdb⟩ := hok.delKv_ok name hj hrecs' hle
  have hrep := replaces_replaced h hj hi hrecs hr hx hkey
  have hsame : delKv db₂ name kv true =
      delKv db₂ name (KvRec.toKv { r with status := .preDelete } (recAddr G.S j pre)) true := by
    unfold delKv
    rw [hkv]
    rfl
  rw [hlast] at hdel
  refine ⟨m, table, hsame.trans hdel, hrep.ok h (h.keys (.intro hj hrecs)) ?_ ?_⟩
  · rw [← heq]
    exact { hdb with }
  · change KvCacheOk G _ db₂.kvCacheTable
    rw [hcache]
    exact hrep.cache hx hkey h.kvCache

/-! ## Between the calls -/

/-- Every record is valid or deleted, and a clean sector holds no deleted ones. -/
def KvSettled (G : KvGeom) (A : KvSectors) : Prop :=
  ∀ i < G.n, ∀ x ∈ (A i).recs, x.status = .write ∨ x.status = .deleted ∧ (A i).dirty ≠ .no

theorem KvSettled.set {s : KvSector} (h : KvSettled G A)
    (hs : ∀ x ∈ s.recs, x.status = .write ∨ x.status = .deleted ∧ s.dirty ≠ .no) :
    KvSettled G (A.set i s) := by
  intro k hk x hx
  rcases Decidable.eq_or_ne k i with rfl | hne
  · rw [KvSectors.set, Function.update_self] at hx ⊢
    exact hs x hx
  · rw [KvSectors.set, Function.update_of_ne hne] at hx ⊢
    exact h k hk x hx

theorem KvSettled.marked (h : KvSettled G A) (hj : j < G.n)
    (hrecs : (A j).recs = pre ++ r :: post) :
    KvSettled G (A.set j ((A j).marked pre r .deleted post)) := by
  refine h.set fun x hx => ?_
  have hold (hx : x ∈ (A j).recs) :
      x.status = .write ∨ x.status = .deleted ∧ (A j).dirty.mark ≠ .no :=
    (h j hj x hx).imp_right fun hd => ⟨hd.1, (A j).dirty.mark_ne_no⟩
  rw [hrecs] at hold
  rcases List.mem_append.mp hx with hx | hx
  · exact hold (List.mem_append_left _ hx)
  · rcases List.mem_cons.mp hx with rfl | hx
    · exact .inr ⟨rfl, (A j).dirty.mark_ne_no⟩
    · exact hold (List.mem_append_right _ (List.mem_cons_of_mem _ hx))

theorem KvSettled.pushed (h : KvSettled G A) (hi : i < G.n) (hx : x.status = .write) :
    KvSettled G (A.set i ((A i).pushed x)) := by
  refine h.set fun y hy => ?_
  rcases List.mem_append.mp hy with hy | hy
  · exact h i hi y hy
  · rw [List.mem_singleton.mp hy]
    exact .inl hx

theorem KvSettled.replaced (h : KvSettled G A) (hj : j < G.n) (hi : i < G.n)
    (hrecs : (A j).recs = pre ++ r :: post) (hx : x.status = .write) :
    KvSettled G (A.replaced j pre r post i x) :=
  (h.marked hj hrecs).pushed hi hx

end DoorLock
