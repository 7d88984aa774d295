import DoorLock.KvRecords

/-!
# The KV cache

An entry stands for the name with its CRC16; the first entry of a CRC16 is the one in use. Of names
that have different ones the cache says where their record is, and `update_kv_cache` changes what it
says of one name only.
-/

namespace DoorLock

open Nor CString

/-- What an entry of the cache says: the record of which name is where. -/
def KvCacheNode.entry (e : KvCacheNode) : UInt16 × Nat := (e.nameCrc, e.addr)

/-- What the entries say, one by one. -/
def kvView (table : List KvCacheNode) : List (UInt16 × Nat) := table.map KvCacheNode.entry

/-- An entry in use is the first of its CRC16. -/
def FirstUsed (view : List (UInt16 × Nat)) : Prop :=
  ∀ {p q : Nat} {c a a'}, view[p]? = some (c, a) → a ≠ fdbDataUnused → view[q]? = some (c, a') →
    p ≤ q

variable {table : List KvCacheNode} {view : List (UInt16 × Nat)} {c : UInt16} {addr i k : Nat}
  {e : KvCacheNode}

/-! ## Changing the cache -/

theorem kvView_set : kvView (table.set i e) = (kvView table).set i e.entry :=
  (List.map_set ..)

/-- A change of the activity says nothing. -/
theorem kvView_set_of_entry {e' : KvCacheNode} (he : table[i]? = some e) (hs : e'.entry = e.entry) :
    kvView (table.set i e') = kvView table := by
  refine List.ext_getElem? fun k => ?_
  rw [kvView_set, List.getElem?_set]
  split
  case isTrue heq =>
    subst heq
    have hlt := (List.getElem?_eq_some_iff.mp he).1
    rw [if_pos (by rwa [kvView, List.length_map]), hs, kvView, List.getElem?_map, he]
    rfl
  case isFalse => rfl

/-- The entry of `c` becomes one for `addr`: the first with this CRC16, or if there is none and
`addr` is an address, any other. -/
def ViewUpdate (c : UInt16) (addr : Nat) (view view' : List (UInt16 × Nat)) : Prop :=
  (∃ k a, view[k]? = some (c, a) ∧ (∀ q < k, ∀ p, view[q]? = some p → p.1 ≠ c) ∧
    view' = view.set k (c, addr)) ∨
  (∀ p ∈ view, p.1 ≠ c) ∧
    (view' = view ∨ addr ≠ fdbDataUnused ∧ ∃ k, view' = view.set k (c, addr))

theorem updateKvLoop_view {fuel : Nat} {emptyIndex minIndex : Option Nat} {minActivity : UInt16}
    (hfuel : i + fuel = table.length)
    (hno : ∀ q < i, ∀ p, (kvView table)[q]? = some p → p.1 ≠ c)
    (hunused : addr = fdbDataUnused → emptyIndex = none ∧ minIndex = none) :
    ViewUpdate c addr (kvView table)
      (kvView (updateKvLoop c addr table fuel i emptyIndex minIndex minActivity)) := by
  induction fuel generalizing table i emptyIndex minIndex minActivity with
  | zero =>
    refine .inr ⟨fun p hp => ?_, ?_⟩
    · obtain ⟨q, hq⟩ := List.mem_iff_getElem?.mp hp
      have hlt := (List.getElem?_eq_some_iff.mp hq).1
      rw [kvView, List.length_map] at hlt
      exact hno q (by omega) p hq
    · cases emptyIndex with
      | some j =>
        have hused : addr ≠ fdbDataUnused := fun h => by cases (hunused h).1
        exact .inr ⟨hused, j, kvView_set⟩
      | none =>
        cases minIndex with
        | some j =>
          have hused : addr ≠ fdbDataUnused := fun h => by cases (hunused h).2
          exact .inr ⟨hused, j, kvView_set⟩
        | none => exact .inl rfl
  | succ fuel ih =>
    have hlt : i < table.length := by omega
    have he := List.getElem?_eq_getElem hlt
    generalize table[i] = e at he
    have hview : (kvView table)[i]? = some (e.nameCrc, e.addr) := by
      rw [kvView, List.getElem?_map, he]
      rfl
    have hfound (hcrc : e.nameCrc = c) {e' : KvCacheNode} (he' : e'.entry = (c, addr)) :
        ViewUpdate c addr (kvView table) (kvView (table.set i e')) :=
      .inl ⟨i, e.addr, hcrc ▸ hview, hno, by rw [kvView_set, he']⟩
    have hno' (hcrc : e.nameCrc ≠ c) :
        ∀ q < i + 1, ∀ p, (kvView table)[q]? = some p → p.1 ≠ c := by
      intro q hq p hp
      rcases Nat.lt_succ_iff_lt_or_eq.mp hq with hq | rfl
      · exact hno q hq p hp
      · rw [hview] at hp
        cases hp
        exact hcrc
    have haged (hcrc : e.nameCrc ≠ c) {e' : KvCacheNode} (hs : e'.entry = e.entry)
        {emptyIndex minIndex : Option Nat} {minActivity : UInt16} (hused : addr ≠ fdbDataUnused) :
        ViewUpdate c addr (kvView table)
          (kvView (updateKvLoop c addr (table.set i e') fuel (i + 1) emptyIndex minIndex
            minActivity)) := by
      rw [← kvView_set_of_entry he hs]
      refine ih (by rw [List.length_set]; omega) ?_ fun h => absurd h hused
      rw [kvView_set_of_entry he hs]
      exact hno' hcrc
    rw [updateKvLoop, he]
    dsimp only
    split
    case isTrue hused =>
      split
      case isTrue hcrc => exact hfound hcrc (by rw [← hcrc]; rfl)
      case isFalse hcrc =>
        split
        case isTrue => exact ih (by omega) (hno' hcrc) fun h => absurd h hused
        case isFalse =>
          split
          case isTrue =>
            have hs : (if e.active > 0 then { e with active := e.active - 1 } else e).entry =
                e.entry := by
              split <;> rfl
            generalize (if e.active > 0 then { e with active := e.active - 1 } else e) = e' at hs ⊢
            split
            case isTrue => exact haged hcrc hs hused
            case isFalse => exact haged hcrc hs hused
          case isFalse => exact ih (by omega) (hno' hcrc) fun h => absurd h hused
    case isFalse hunused' =>
      have haddr : addr = fdbDataUnused := Decidable.not_not.mp hunused'
      split
      case isTrue hcrc => exact hfound hcrc (by rw [← hcrc, haddr]; rfl)
      case isFalse hcrc => exact ih (by omega) (hno' hcrc) hunused

variable {view' : List (UInt16 × Nat)}

theorem ViewUpdate.length_eq (h : ViewUpdate c addr view view') : view'.length = view.length := by
  obtain ⟨k, _, -, -, rfl⟩ | ⟨-, rfl | ⟨-, k, rfl⟩⟩ := h
  · exact List.length_set ..
  · rfl
  · exact List.length_set ..

theorem getElem?_set_cases {α : Type} {l : List α} {x y : α} {p : Nat}
    (h : (l.set k x)[p]? = some y) : p = k ∧ y = x ∨ p ≠ k ∧ l[p]? = some y := by
  rcases Decidable.eq_or_ne p k with rfl | hne
  · have hlt := (List.getElem?_eq_some_iff.mp h).1
    rw [List.length_set] at hlt
    rw [List.getElem?_set_self hlt] at h
    exact .inl ⟨rfl, (Option.some.inj h).symm⟩
  · rw [List.getElem?_set_ne hne.symm] at h
    exact .inr ⟨hne, h⟩

/-- Entries in use stay the first of their CRC16. -/
theorem ViewUpdate.firstUsed (h : ViewUpdate c addr view view') (hfirst : FirstUsed view) :
    FirstUsed view' := by
  intro p q c' a a' hp ha hq
  obtain ⟨k, a₀, hk, hmin, rfl⟩ | ⟨hnone, rfl | ⟨-, k, rfl⟩⟩ := h
  · rcases getElem?_set_cases hp with ⟨rfl, hpc⟩ | ⟨-, hp'⟩ <;>
      rcases getElem?_set_cases hq with ⟨rfl, hqc⟩ | ⟨-, hq'⟩
    · exact Nat.le_refl _
    · cases hpc
      exact Nat.le_of_not_lt fun hlt => hmin q hlt _ hq' rfl
    · cases hqc
      exact hfirst hp' ha hk
    · exact hfirst hp' ha hq'
  · exact hfirst hp ha hq
  · rcases getElem?_set_cases hp with ⟨rfl, hpc⟩ | ⟨-, hp'⟩ <;>
      rcases getElem?_set_cases hq with ⟨rfl, hqc⟩ | ⟨-, hq'⟩
    · exact Nat.le_refl _
    · cases hpc
      exact (hnone _ (List.mem_of_getElem? hq') rfl).elim
    · cases hqc
      exact (hnone _ (List.mem_of_getElem? hp') rfl).elim
    · exact hfirst hp' ha hq'

/-- Of other names the cache says what it said. -/
theorem ViewUpdate.entry (h : ViewUpdate c addr view view') (hfirst : FirstUsed view) {c' : UInt16}
    {a : Nat} (hk : view'[k]? = some (c', a)) (ha : a ≠ fdbDataUnused) :
    c' = c ∧ a = addr ∨ c' ≠ c ∧ view[k]? = some (c', a) := by
  obtain ⟨k₀, a₀, hk₀, hmin, rfl⟩ | ⟨hnone, rfl | ⟨-, k₀, rfl⟩⟩ := h
  · rcases getElem?_set_cases hk with ⟨rfl, heq⟩ | ⟨hne, hk'⟩
    · cases heq
      exact .inl ⟨rfl, rfl⟩
    · refine .inr ⟨?_, hk'⟩
      rintro rfl
      have hle := hfirst hk' ha hk₀
      exact hmin k (by omega) _ hk' rfl
  · exact .inr ⟨hnone _ (List.mem_of_getElem? hk), hk⟩
  · rcases getElem?_set_cases hk with ⟨rfl, heq⟩ | ⟨-, hk'⟩
    · cases heq
      exact .inl ⟨rfl, rfl⟩
    · exact .inr ⟨hnone _ (List.mem_of_getElem? hk'), hk'⟩

/-! ## What the cache says -/

/-- Names that the cache tells apart, and that a record can keep. -/
structure KvNames where
  mem : List UInt8 → Prop
  keyLen : ∀ {key}, mem key → key.length < fdbKvNameMax
  noNul : ∀ {key}, mem key → NoNul key
  inj : ∀ {a b}, mem a → mem b → nameCrcOf a = nameCrcOf b → a = b

/-- The cache is right about the records of `A`. -/
structure KvCacheOk (G : KvGeom) (A : KvSectors) (table : List KvCacheNode) : Prop where
  length : table.length = fdbKvCacheTableSize
  first : FirstUsed (kvView table)
  entry : ∀ {k : Nat} {c a}, (kvView table)[k]? = some (c, a) → a ≠ fdbDataUnused →
    ∃ r, RecAt G A a r ∧ r.status = .write ∧ nameCrcOf r.key = c

variable {G : KvGeom} {A A' : KvSectors} {K : KvNames} {db : FdbKvdb} {name : List UInt8}
  {table' : List KvCacheNode}

theorem KvCacheOk.of_view (h : KvCacheOk G A table) (hview : kvView table' = kvView table) :
    KvCacheOk G A table' := by
  have hlen := congrArg List.length hview
  rw [kvView, kvView, List.length_map, List.length_map] at hlen
  exact ⟨hlen.trans h.length, hview ▸ h.first, fun hk => h.entry (hview ▸ hk)⟩

/-- The record of one name has moved to `addr`, or is gone; those of the other names are where they
were. -/
theorem KvCacheOk.update (h : KvCacheOk G A db.kvCacheTable)
    (hkeep : ∀ {a r}, RecAt G A a r → r.status = .write → nameCrcOf r.key ≠ nameCrcOf name →
      RecAt G A' a r)
    (hnew : addr = fdbDataUnused ∨
      ∃ r, RecAt G A' addr r ∧ r.status = .write ∧ nameCrcOf r.key = nameCrcOf name) :
    KvCacheOk G A' (updateKvCache db name addr).kvCacheTable := by
  have hview : ViewUpdate (nameCrcOf name) addr (kvView db.kvCacheTable)
      (kvView (updateKvCache db name addr).kvCacheTable) :=
    updateKvLoop_view (by rw [h.length, Nat.zero_add]) (fun q hq => absurd hq (Nat.not_lt_zero q))
      fun _ => ⟨rfl, rfl⟩
  refine ⟨?_, hview.firstUsed h.first, fun hk ha => ?_⟩
  · have hlen := hview.length_eq
    rw [kvView, kvView, List.length_map, List.length_map] at hlen
    exact hlen.trans h.length
  · rcases hview.entry h.first hk ha with ⟨rfl, rfl⟩ | ⟨hne, hk⟩
    · exact hnew.resolve_left ha
    · obtain ⟨r, hr, hstatus, rfl⟩ := h.entry hk ha
      exact ⟨r, hkeep hr hstatus hne, hstatus, rfl⟩

/-- A hit is the record of the name. -/
theorem getKvLoop_ok {fuel : Nat} (h : KvCacheOk G A db.kvCacheTable)
    (hkeys : ∀ {a r}, RecAt G A a r → K.mem r.key) (hname : K.mem name) :
    ∃ table, (getKvLoop name db fuel i).2 = { db with kvCacheTable := table } ∧
      KvCacheOk G A table ∧ ∀ a, (getKvLoop name db fuel i).1 = some a →
        ∃ r, RecAt G A a r ∧ r.status = .write ∧ r.key = name := by
  have hsame : ∃ table, db = { db with kvCacheTable := table } ∧ KvCacheOk G A table ∧
      ∀ a, (none : Option Nat) = some a → ∃ r, RecAt G A a r ∧ r.status = .write ∧ r.key = name :=
    ⟨_, rfl, h, fun a ha => by cases ha⟩
  induction fuel generalizing i with
  | zero => exact hsame
  | succ fuel ih =>
    rw [getKvLoop]
    split
    case h_1 => exact hsame
    case h_2 e he =>
      dsimp only
      split
      case isTrue hhit =>
        have hview : (kvView db.kvCacheTable)[i]? = some (e.nameCrc, e.addr) := by
          rw [kvView, List.getElem?_map, he]
          rfl
        refine ⟨_, rfl, h.of_view (kvView_set_of_entry he rfl), fun a ha => ?_⟩
        cases ha
        obtain ⟨r, hr, hstatus, hcrc⟩ := h.entry hview hhit.1
        exact ⟨r, hr, hstatus, K.inj (hkeys hr) hname (hcrc.trans hhit.2.1)⟩
      case isFalse => exact ih

theorem getKvFromCache_ok (h : KvCacheOk G A db.kvCacheTable)
    (hkeys : ∀ {a r}, RecAt G A a r → K.mem r.key) (hname : K.mem name) :
    ∃ table, (getKvFromCache db name).2 = { db with kvCacheTable := table } ∧
      KvCacheOk G A table ∧ ∀ a, (getKvFromCache db name).1 = some a →
        ∃ r, RecAt G A a r ∧ r.status = .write ∧ r.key = name :=
  getKvLoop_ok h hkeys hname

end DoorLock
