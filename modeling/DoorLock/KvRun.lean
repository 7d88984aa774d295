import DoorLock.KvSet
import DoorLock.Lib.Refine

/-!
# The store is a map

From outside the store is a map from names to values. Every run of calls is answered as the map
answers it, whatever was collected meanwhile; a set may find the store full, and changes nothing
then. It does not while the values of all names together leave room in one sector.
-/

namespace DoorLock

open CString Refine

/-- The values by name. -/
abbrev KvMap := List UInt8 → Option (List UInt8)

/-- A call of the store. -/
inductive KvCall
  | get (key : List UInt8)
  | getBlob (key : List UInt8) (size : Nat)
  | set (key value : List UInt8)
  | setBlob (key value : List UInt8)
  | del (key : List UInt8)

def KvCall.key : KvCall → List UInt8
  | .get key | .getBlob key _ | .set key _ | .setBlob key _ | .del key => key

/-- What a call returns. -/
inductive KvAnswer
  | str (value : Option (List UInt8))
  | blob (value : List UInt8) (len : Nat)
  | err (e : FdbErr)
  deriving DecidableEq

/-- The functions of `fdb_kvdb.c` behind the calls. -/
def kvCall (db : FdbKvdb) : KvCall → Option (KvAnswer × FdbKvdb)
  | .get key => do
    let (value, db) ← fdbKvGetStr db key
    some (.str value, db)
  | .getBlob key size => do
    let (value, len, db) ← fdbKvGetBlob db key size
    some (.blob value len, db)
  | .set key value => do
    let (result, db) ← fdbKvSetStr db key value
    some (.err result, db)
  | .setBlob key value => do
    let (result, db) ← fdbKvSetBlob db key value
    some (.err result, db)
  | .del key => do
    let (result, db) ← fdbKvDel db key
    some (.err result, db)

/-- The map's answer to a call, and the map after it. -/
def KvMap.answer (M : KvMap) : KvCall → KvAnswer × KvMap
  | .get key => (.str (fdbKvGet ⟨M key⟩), M)
  | .getBlob key size => (.blob (((M key).getD []).take size) ((M key).getD []).length, M)
  | .set key value => (.err .noErr, Function.update M key (cstr value))
  | .setBlob key value => (.err .noErr, Function.update M key value)
  | .del key => (.err (if (M key).isSome then .noErr else .kvNameErr), Function.update M key none)

/-- The bytes that entries take in the flash. -/
def entriesSize : List (List UInt8 × List UInt8) → Nat
  | [] => 0
  | e :: es => (KvRec.new e.1 e.2).size + entriesSize es

/-- One sector has room for all entries of the map and a record of `size` bytes. -/
def KvMap.Fits (G : KvGeom) (M : KvMap) (size : Nat) : Prop :=
  ∀ es : List (List UInt8 × List UInt8), (es.map Prod.fst).Nodup → (∀ e ∈ es, M e.1 = some e.2) →
    sectorHdrDataSize + entriesSize es + size + fdbSecRemainThreshold < G.S

/-- A set may also find the store full, unless the map and the new record fit a sector. -/
inductive KvMap.Allows (G : KvGeom) (M : KvMap) : KvCall → KvAnswer → KvMap → Prop
  | answer {c : KvCall} : M.Allows G c (M.answer c).1 (M.answer c).2
  | full {key value : List UInt8} (h : ¬M.Fits G (KvRec.new key (cstr value)).size) :
    M.Allows G (.set key value) (.err .savedFull) M
  | fullBlob {key value : List UInt8} (h : ¬M.Fits G (KvRec.new key value).size) :
    M.Allows G (.setBlob key value) (.err .savedFull) M

/-- What is stored is what `M` has. -/
def Stores (G : KvGeom) (K : KvNames) (db : FdbKvdb) (M : KvMap) : Prop :=
  ∃ A, StoreOk G K A db ∧ ∀ {key value}, Stored G A key value ↔ M key = some value

/-- The store keeps the map `M`. -/
def StoreKeeps (G : KvGeom) (K : KvNames) (db : FdbKvdb) (M : KvMap) : Prop :=
  db.initOk = true ∧ Stores G K db M

variable {G : KvGeom} {K : KvNames} {A : KvSectors} {db : FdbKvdb} {M : KvMap} {i : Nat}
  {pre post : List KvRec} {key value : List UInt8}

/-! ## The entries of a clean sector -/

/-- The names of valid records of a sector are different. -/
theorem KvOk.nodup_keys (h : KvOk G K A db) (hi : i < G.n) (hrecs : (A i).recs = pre ++ post)
    (hlive : ∀ x ∈ post, x.status = .write) : (post.map KvRec.key).Nodup := by
  induction post generalizing pre with
  | nil => exact List.nodup_nil
  | cons r post ih =>
    have hrecs' : (A i).recs = (pre ++ [r]) ++ post := by
      rw [hrecs, List.append_assoc, List.singleton_append]
    rw [List.map_cons, List.nodup_cons]
    refine ⟨fun hmem => ?_, ih hrecs' fun x hx => hlive x (List.mem_cons_of_mem r hx)⟩
    obtain ⟨x, hx, hkey⟩ := List.mem_map.mp hmem
    obtain ⟨mid, post', rfl⟩ := List.append_of_mem hx
    have hrecs'' : (A i).recs = (pre ++ [r] ++ mid) ++ x :: post' := by
      rw [hrecs', ← List.append_assoc]
    have haddr := h.one (.intro hi hrecs) (.intro hi hrecs'') (hlive r List.mem_cons_self)
      (hlive x (List.mem_cons_of_mem r hx)) hkey.symm
    have hsize := r.size_pos
    simp only [recAddr, recsSize_append, recsSize_cons, recsSize_nil] at haddr
    omega

/-- The entries that records stand for. -/
def KvRec.entry (r : KvRec) : List UInt8 × List UInt8 := (r.key, r.value)

theorem entriesSize_map (rs : List KvRec) : entriesSize (rs.map KvRec.entry) = recsSize rs := by
  induction rs with
  | nil => rfl
  | cons r rs ih =>
    rw [List.map_cons, entriesSize, ih]
    rfl

/-- A sector without deleted records has room when all of the map fits. -/
theorem StoreOk.room_of_fits {size : Nat} (h : StoreOk G K A db)
    (hM : ∀ {key value}, Stored G A key value ↔ M key = some value) (hfits : M.Fits G size)
    (hi : i < G.n) (hclean : (A i).dirty = .no) : (A i).Room G.S size := by
  have hlive : ∀ x ∈ (A i).recs, x.status = .write := fun x hx =>
    (h.settled i hi x hx).resolve_right fun hd => hd.2 hclean
  have hmap : ((A i).recs.map KvRec.entry).map Prod.fst = (A i).recs.map KvRec.key := by
    rw [List.map_map]
    rfl
  have hroom := hfits ((A i).recs.map KvRec.entry)
    (by rw [hmap]; exact h.nodup_keys hi (List.nil_append _).symm hlive) fun e he => by
      obtain ⟨x, hx, rfl⟩ := List.mem_map.mp he
      obtain ⟨a, hat⟩ := recAt_of_mem hi hx
      exact hM.mp ⟨a, x, ⟨hat, hlive x hx, rfl⟩, rfl⟩
  rwa [entriesSize_map] at hroom

/-! ## Calls -/

theorem StoreKeeps.getBlob (h : StoreKeeps G K db M) (hkey : K.mem key) {size : Nat} :
    Yields (fdbKvGetBlob db key size) fun x => StoreKeeps G K x.2.2 M ∧
      x.1 = ((M key).getD []).take size ∧ x.2.1 = ((M key).getD []).length := by
  obtain ⟨hinit, A, hok, hM⟩ := h
  rw [fdbKvGetBlob, hinit, if_neg (by decide)]
  refine (hok.getKv_ok hkey).mono ?_
  rintro ⟨value, len, db'⟩ ⟨hr, hres⟩
  have hinit' : db'.initOk = true := by
    obtain ⟨t, t', heq⟩ := hr.same
    exact (congrArg FdbKvdb.initOk heq).trans hinit
  refine ⟨⟨hinit', A, hok.reads hr, hM⟩, ?_⟩
  rcases hres with ⟨v, hs, hvalue, hlen⟩ | ⟨hno, hvalue, hlen⟩
  · rw [hM.mp hs]
    exact ⟨hvalue, hlen⟩
  · have hnone : M key = none := by
      cases hk : M key with
      | none => rfl
      | some v => exact absurd (hM.mpr hk) (hno v)
    rw [hnone, hvalue, hlen]
    exact ⟨List.take_nil.symm, rfl⟩

theorem StoreKeeps.get (h : StoreKeeps G K db M) (hkey : K.mem key) :
    Yields (fdbKvGetStr db key) fun x => StoreKeeps G K x.2 M ∧ x.1 = fdbKvGet ⟨M key⟩ := by
  rw [fdbKvGetStr]
  refine (h.getBlob hkey).bind ?_
  rintro ⟨value, len, db'⟩ ⟨hk, rfl, -⟩
  refine .pure ⟨hk, ?_⟩
  cases hv : M key with
  | none => rfl
  | some v => rfl

theorem StoreKeeps.setBlob (h : StoreKeeps G K db M) (hkey : K.mem key) :
    Yields (fdbKvSetBlob db key value) fun x =>
      x.1 = .noErr ∧ StoreKeeps G K x.2 (Function.update M key value) ∨
        x.1 = .savedFull ∧ StoreKeeps G K x.2 M ∧ ¬M.Fits G (KvRec.new key value).size := by
  obtain ⟨hinit, A, hok, hM⟩ := h
  rw [fdbKvSetBlob, hinit, if_neg (by decide)]
  refine (hok.setKv_ok hkey).mono ?_
  rintro ⟨result, db'⟩ ⟨A', hok', heq, hset⟩
  have hinit' := heq.trans hinit
  dsimp only at hok' hinit' hset ⊢
  cases hset with
  | done hs =>
    refine .inl ⟨rfl, hinit', A', hok', fun {key' value'} => ?_⟩
    rw [hs]
    rcases Decidable.eq_or_ne key' key with rfl | hne
    · rw [if_pos rfl, Function.update_self, Option.some_inj, eq_comm]
    · rw [if_neg hne, Function.update_of_ne hne, hM]
  | full hs hi hclean hroom =>
    have hM' {key value} : Stored G A' key value ↔ M key = some value := hs.trans hM
    exact .inr ⟨rfl, ⟨hinit', A', hok', hM'⟩,
      fun hfits => hroom (hok'.room_of_fits hM' hfits hi hclean)⟩

theorem StoreKeeps.del (h : StoreKeeps G K db M) (hkey : K.mem key) :
    Yields (fdbKvDel db key) fun x => StoreKeeps G K x.2 (Function.update M key none) ∧
      x.1 = if (M key).isSome then .noErr else .kvNameErr := by
  obtain ⟨hinit, A, hok, hM⟩ := h
  rw [fdbKvDel, hinit, if_neg (by decide)]
  refine (hok.delKvByKey_ok hkey).mono ?_
  rintro ⟨result, db'⟩ ⟨A', hok', hinit', hs, hres⟩
  refine ⟨⟨hinit'.trans hinit, A', hok', fun {key' value'} => ?_⟩, ?_⟩
  · rw [hs]
    rcases Decidable.eq_or_ne key' key with rfl | hne
    · rw [Function.update_self]
      exact ⟨fun hand => absurd rfl hand.1, fun hf => by cases hf⟩
    · rw [Function.update_of_ne hne, hM]
      exact ⟨And.right, fun hk => ⟨hne, hk⟩⟩
  · rcases hres with ⟨rfl, v, hv⟩ | ⟨rfl, hno⟩
    · rw [hM.mp hv]
      rfl
    · have hnone : M key = none := by
        cases hk : M key with
        | none => rfl
        | some v => exact absurd (hM.mpr hk) (hno v)
      rw [hnone]
      rfl

/-- Every call refines the map. -/
theorem kvCall_refines :
    Refines kvCall (KvMap.Allows G) (StoreKeeps G K) fun c => K.mem c.key := by
  intro db M c h hkey
  cases c with
  | get key =>
    refine (h.get hkey).bind ?_
    rintro ⟨value, db'⟩ ⟨hk, rfl⟩
    exact .pure ⟨M, .answer (c := .get key), hk⟩
  | getBlob key size =>
    refine (h.getBlob hkey).bind ?_
    rintro ⟨value, len, db'⟩ ⟨hk, rfl, rfl⟩
    exact .pure ⟨M, .answer (c := .getBlob key size), hk⟩
  | set key value =>
    refine (h.setBlob hkey).bind ?_
    rintro ⟨result, db'⟩ (⟨rfl, hk⟩ | ⟨rfl, hk, hno⟩)
    · exact .pure ⟨_, .answer (c := .set key value), hk⟩
    · exact .pure ⟨M, .full hno, hk⟩
  | setBlob key value =>
    refine (h.setBlob hkey).bind ?_
    rintro ⟨result, db'⟩ (⟨rfl, hk⟩ | ⟨rfl, hk, hno⟩)
    · exact .pure ⟨_, .answer (c := .setBlob key value), hk⟩
    · exact .pure ⟨M, .fullBlob hno, hk⟩
  | del key =>
    refine (h.del hkey).bind ?_
    rintro ⟨result, db'⟩ ⟨hk, rfl⟩
    exact .pure ⟨_, .answer (c := .del key), hk⟩

/-- Every run of calls is answered as the map answers it, but for sets that find no room for all
values in one sector. -/
theorem kvCalls_behave {cs : List KvCall} (h : StoreKeeps G K db M)
    (hkeys : ∀ c ∈ cs, K.mem c.key) :
    Yields (calls kvCall db cs) fun x => ∃ M', Behaves (KvMap.Allows G) M cs x.1 M' ∧
      StoreKeeps G K x.2 M' :=
  kvCall_refines.run h hkeys

/-! ## Values of a few names -/

/-- The bytes that records of these names take, with values of at most `L` bytes. -/
def keysSize (L : Nat) : List (List UInt8) → Nat
  | [] => 0
  | key :: keys => kvHdrDataSize + key.length + L + keysSize L keys

theorem keysSize_erase {L : Nat} {keys : List (List UInt8)} (h : key ∈ keys) :
    keysSize L keys = kvHdrDataSize + key.length + L + keysSize L (keys.erase key) := by
  induction keys with
  | nil => cases h
  | cons k keys ih =>
    rcases Decidable.eq_or_ne k key with rfl | hne
    · rw [List.erase_cons_head]
      rfl
    · rw [List.erase_cons_tail (by simpa using hne), keysSize, keysSize,
        ih ((List.mem_cons.mp h).resolve_left hne.symm)]
      omega

/-- Entries of different names are not larger than one for each name. -/
theorem entriesSize_le {L : Nat} {keys : List (List UInt8)} {es : List (List UInt8 × List UInt8)}
    (hnodup : (es.map Prod.fst).Nodup) (h : ∀ e ∈ es, e.1 ∈ keys ∧ e.2.length ≤ L) :
    entriesSize es ≤ keysSize L keys := by
  induction es generalizing keys with
  | nil => exact Nat.zero_le _
  | cons e es ih =>
    rw [List.map_cons, List.nodup_cons] at hnodup
    obtain ⟨hkey, hlen⟩ := h e List.mem_cons_self
    have hrest : entriesSize es ≤ keysSize L (keys.erase e.1) := ih hnodup.2 fun e' he' => by
      obtain ⟨hkey', hlen'⟩ := h e' (List.mem_cons_of_mem e he')
      refine ⟨(List.mem_erase_of_ne ?_).mpr hkey', hlen'⟩
      rintro heq
      exact hnodup.1 (heq ▸ List.mem_map_of_mem he')
    rw [entriesSize, keysSize_erase hkey]
    unfold KvRec.size KvRec.new
    dsimp only
    omega

/-- The map has values for these names only, of at most `L` bytes. -/
def KvMap.Within (keys : List (List UInt8)) (L : Nat) (M : KvMap) : Prop :=
  ∀ key value, M key = some value → key ∈ keys ∧ value.length ≤ L

/-- A call with one of the names, and a value of at most `L` bytes. -/
def KvCall.Within (keys : List (List UInt8)) (L : Nat) (c : KvCall) : Prop :=
  c.key ∈ keys ∧ match c with
    | .set _ value => (cstr value).length ≤ L
    | .setBlob _ value => value.length ≤ L
    | _ => True

theorem KvMap.Within.update {keys : List (List UInt8)} {L : Nat} (h : M.Within keys L)
    (hkey : key ∈ keys) (hlen : value.length ≤ L) :
    KvMap.Within keys L (Function.update M key (some value)) := by
  intro key' value' hk
  rcases Decidable.eq_or_ne key' key with rfl | hne
  · rw [Function.update_self] at hk
    cases hk
    exact ⟨hkey, hlen⟩
  · rw [Function.update_of_ne hne] at hk
    exact h key' value' hk

theorem KvMap.Within.erase {keys : List (List UInt8)} {L : Nat} (h : M.Within keys L) :
    KvMap.Within keys L (Function.update M key none) := by
  intro key' value' hk
  rcases Decidable.eq_or_ne key' key with rfl | hne
  · rw [Function.update_self] at hk
    cases hk
  · rw [Function.update_of_ne hne] at hk
    exact h key' value' hk

theorem KvMap.Within.answer {keys : List (List UInt8)} {L : Nat} (h : M.Within keys L)
    {c : KvCall} (hc : c.Within keys L) : KvMap.Within keys L (M.answer c).2 := by
  obtain ⟨hkey, hlen⟩ := hc
  cases c with
  | get | getBlob => exact h
  | set key value => exact h.update hkey hlen
  | setBlob key value => exact h.update hkey hlen
  | del key => exact h.erase

/-- One sector has room for a value of every name and one more. -/
structure Capacity (G : KvGeom) (K : KvNames) (keys : List (List UInt8)) (L : Nat) : Prop where
  mem : ∀ key ∈ keys, K.mem key
  room : ∀ key ∈ keys, sectorHdrDataSize + keysSize L keys + (kvHdrDataSize + key.length + L) +
    fdbSecRemainThreshold < G.S

/-- No set finds the store full. -/
theorem KvMap.Within.fits {keys : List (List UInt8)} {L : Nat} (h : M.Within keys L)
    (hcap : Capacity G K keys L) (hkey : key ∈ keys) (hlen : value.length ≤ L) :
    M.Fits G (KvRec.new key value).size := by
  intro es hnodup hes
  have hle := entriesSize_le hnodup fun e he => h e.1 e.2 (hes e he)
  have hroom := hcap.room key hkey
  unfold KvRec.size KvRec.new
  dsimp only
  omega

end DoorLock
