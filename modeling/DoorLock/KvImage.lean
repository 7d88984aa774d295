import DoorLock.KvdbWrite

/-!
# The image of a store

What the flash holds, as sectors of records. The bytes of a sector are its header, the records one
behind the other, and erased bytes up to its end; a store is in the flash when every sector is.
-/

namespace DoorLock

open Nor CString

/-! ## Numbers and statuses in bytes -/

/-- The byte of a status, as `_fdb_set_status` clears its bits. -/
def statusByte (code : Nat) : UInt8 := 0xFF >>> UInt8.ofNat code

@[simp] theorem length_u32Bytes (n : Nat) : (u32Bytes n).length = 4 := rfl

@[simp] theorem length_kvHdrData {len nameLen valueLen : Nat} {crc : UInt32} :
    (kvHdrData len crc nameLen valueLen).length = 20 := rfl

theorem u32At_eq (buf : List UInt8) : u32At buf =
    (buf.getD 0 0).toNat + (buf.getD 1 0).toNat * 256 + (buf.getD 2 0).toNat * 65536 +
      (buf.getD 3 0).toNat * 16777216 := by
  unfold u32At
  rw [Nat.shiftLeft_eq _ 8, Nat.shiftLeft_eq _ 16, Nat.shiftLeft_eq _ 24]

theorem u32At_u32Bytes {n : Nat} (h : n < 0x100000000) (rest : List UInt8) :
    u32At (u32Bytes n ++ rest) = n := by
  rw [u32At_eq, u32Bytes, Nat.shiftRight_eq_div_pow, Nat.shiftRight_eq_div_pow,
    Nat.shiftRight_eq_div_pow]
  simp only [List.cons_append, List.getD_cons_zero, List.getD_cons_succ, UInt8.toNat_ofNat']
  omega

theorem FdbKvStatus.ofCode_code (s : FdbKvStatus) : FdbKvStatus.ofCode s.code = s := by
  cases s <;> rfl

theorem FdbSectorStoreStatus.ofCode_code (s : FdbSectorStoreStatus) :
    FdbSectorStoreStatus.ofCode s.code = s := by
  cases s <;> rfl

theorem FdbSectorDirtyStatus.ofCode_code (s : FdbSectorDirtyStatus) :
    FdbSectorDirtyStatus.ofCode s.code = s := by
  cases s <;> rfl

theorem lastCleared_cons {b : UInt8} {rest : List UInt8} {n : Nat} (h : n ≤ 8) :
    lastCleared (b :: rest) n = lastCleared [b] n := by
  induction n with
  | zero => rfl
  | succ n ih =>
    have hbyte : n / 8 = 0 := by omega
    rw [lastCleared, lastCleared, hbyte, List.getD_cons_zero, List.getD_cons_zero, ih (by omega)]

theorem fdbGetStatus_cons {b : UInt8} {rest : List UInt8} {num : Nat} (h : num ≤ 9) :
    fdbGetStatus (b :: rest) num = fdbGetStatus [b] num :=
  lastCleared_cons (by omega)

theorem fdbGetStatus_kv (s : FdbKvStatus) (rest : List UInt8) :
    fdbGetStatus (statusByte s.code :: rest) fdbKvStatusNum = s.code := by
  rw [fdbGetStatus_cons (by decide)]
  cases s <;> decide

theorem fdbGetStatus_store (s : FdbSectorStoreStatus) (rest : List UInt8) :
    fdbGetStatus (statusByte s.code :: rest) fdbSectorStatusNum = s.code := by
  rw [fdbGetStatus_cons (by decide)]
  cases s <;> decide

theorem fdbGetStatus_dirty (s : FdbSectorDirtyStatus) (rest : List UInt8) :
    fdbGetStatus (statusByte s.code :: rest) fdbSectorStatusNum = s.code := by
  rw [fdbGetStatus_cons (by decide)]
  cases s <;> decide

/-- A later status may be programmed over an earlier one. -/
theorem statusByte_and {a b : Nat} (hab : a ≤ b) (hb : b < 8) :
    statusByte a &&& statusByte b = statusByte b := by
  have h : ∀ b < 8, ∀ a ≤ b, statusByte a &&& statusByte b = statusByte b := by decide
  exact h b hb a hab

theorem fdbSetStatus_eq {num i : Nat} (hn : 0 < num) (hn' : num ≤ 8) (hi : i < 8) :
    fdbSetStatus num i = ([statusByte i], if i = 0 then none else some 0) := by
  have h : ∀ num < 9, 0 < num → ∀ i < 8,
      fdbSetStatus num i = ([statusByte i], if i = 0 then none else some 0) := by decide
  exact h num (by omega) hn i hi

/-- `_fdb_write_status` programs one byte. -/
theorem fdbWriteStatus_eq {part : FalPartition} {addr num i : Nat} (hn : 0 < num) (hn' : num ≤ 8)
    (hi : i < 8) (hi0 : i ≠ 0) (ha : addr < part.len) :
    fdbWriteStatus part addr num i =
      (.noErr, { part with flash := program part.flash addr [statusByte i] }) := by
  have hlen : ¬addr + 0 + [statusByte i].length > part.len := by
    rw [List.length_singleton]
    omega
  unfold fdbWriteStatus
  rw [fdbSetStatus_eq hn hn' hi, if_neg hi0]
  exact if_neg hlen

/-! ## Records and sectors -/

/-- A record. -/
structure KvRec where
  status : FdbKvStatus
  key : List UInt8
  value : List UInt8

namespace KvRec

def size (r : KvRec) : Nat := kvHdrDataSize + r.key.length + r.value.length

/-- The record from its magic word on. -/
def body (r : KvRec) : List UInt8 :=
  kvHdrData r.size (kvCrc r.key r.value) r.key.length r.value.length ++ r.key ++ r.value

def image (r : KvRec) : List UInt8 := statusByte r.status.code :: 0xFF :: 0xFF :: 0xFF :: r.body

/-- The key fits the array for it, and is read back whole from it. -/
structure Ok (r : KvRec) : Prop where
  keyLen : r.key.length < fdbKvNameMax
  noNul : NoNul r.key

/-- `struct fdb_kv` of a record that was read at `addr`. -/
def toKv (r : KvRec) (addr : Nat) : FdbKv where
  status := r.status
  crcIsOk := true
  nameLen := r.key.length
  len := r.size
  valueLen := r.value.length
  name := r.key
  addrStart := addr
  addrValue := addr + kvHdrDataSize + r.key.length

@[simp] theorem addrStart_toKv (r : KvRec) (addr : Nat) : (r.toKv addr).addrStart = addr := rfl

@[simp] theorem length_body (r : KvRec) :
    r.body.length = 20 + r.key.length + r.value.length := by
  simp only [body, List.length_append, length_kvHdrData]

@[simp] theorem length_image (r : KvRec) : r.image.length = r.size := by
  simp only [image, List.length_cons, length_body, size, kvHdrDataSize]
  omega

theorem le_size (r : KvRec) : kvHdrDataSize ≤ r.size := by
  unfold size
  omega

end KvRec

/-- The bytes that records take. -/
def recsSize : List KvRec → Nat
  | [] => 0
  | r :: rs => r.size + recsSize rs

@[simp] theorem recsSize_append (rs rs' : List KvRec) :
    recsSize (rs ++ rs') = recsSize rs + recsSize rs' := by
  induction rs with
  | nil => exact (Nat.zero_add _).symm
  | cons r rs ih =>
    rw [List.cons_append, recsSize, ih, recsSize, Nat.add_assoc]

@[simp] theorem recsSize_nil : recsSize [] = 0 := rfl

@[simp] theorem recsSize_cons (r : KvRec) (rs : List KvRec) :
    recsSize (r :: rs) = r.size + recsSize rs := rfl

@[simp] theorem length_flatMap_image (rs : List KvRec) :
    (rs.flatMap KvRec.image).length = recsSize rs := by
  induction rs with
  | nil => rfl
  | cons r rs ih => rw [List.flatMap_cons, List.length_append, ih, KvRec.length_image, recsSize]

/-- Every record takes its header. -/
theorem length_le_recsSize (rs : List KvRec) : kvHdrDataSize * rs.length ≤ recsSize rs := by
  induction rs with
  | nil => exact Nat.le_refl _
  | cons r rs ih =>
    rw [List.length_cons, Nat.mul_succ, recsSize, Nat.add_comm r.size]
    exact Nat.add_le_add ih r.le_size

/-- A sector. -/
structure KvSector where
  store : FdbSectorStoreStatus
  dirty : FdbSectorDirtyStatus
  recs : List KvRec

namespace KvSector

/-- The header of a sector. -/
def hdr (store : FdbSectorStoreStatus) (dirty : FdbSectorDirtyStatus) : List UInt8 :=
  [statusByte store.code, statusByte dirty.code, 0xFF, 0xFF] ++ u32Bytes sectorMagicWord ++
    u32Bytes sectorNotCombined ++ u32Bytes 0xFFFFFFFF

def used (s : KvSector) : Nat := sectorHdrDataSize + recsSize s.recs

/-- The bytes of a sector of size `secSize`. -/
def image (secSize : Nat) (s : KvSector) : List UInt8 :=
  hdr s.store s.dirty ++ s.recs.flatMap KvRec.image ++ List.replicate (secSize - s.used) 0xFF

/-- A sector after `format_sector`. -/
def formatted : KvSector := ⟨.empty, .no, []⟩

@[simp] theorem length_hdr {store : FdbSectorStoreStatus} {dirty : FdbSectorDirtyStatus} :
    (hdr store dirty).length = sectorHdrDataSize := rfl

theorem length_image {secSize : Nat} {s : KvSector} (h : s.used ≤ secSize) :
    (s.image secSize).length = secSize := by
  simp only [image, List.length_append, length_hdr, length_flatMap_image, List.length_replicate]
  unfold used at h ⊢
  omega

end KvSector

/-- The sectors of a store by number. -/
abbrev KvSectors := Nat → KvSector

/-- The address of the record behind the records `pre` of sector `i`. -/
def recAddr (secSize i : Nat) (pre : List KvRec) : Nat :=
  i * secSize + sectorHdrDataSize + recsSize pre

/-- Sector `i` with other contents. -/
abbrev KvSectors.set (A : KvSectors) (i : Nat) (s : KvSector) : KvSectors := Function.update A i s

/-- The flash holds the first `n` sectors. -/
def Holds (secSize n : Nat) (A : KvSectors) (m : Memory) : Prop :=
  ∀ i < n, At m (i * secSize) ((A i).image secSize)

variable {S n i j a : Nat} {A : KvSectors} {m m' : Memory} {s : KvSector} {r : KvRec}
  {pre post : List KvRec}

theorem sector_disjoint (h : i ≠ j) : (i + 1) * S ≤ j * S ∨ (j + 1) * S ≤ i * S := by
  rcases Nat.lt_or_gt_of_ne h with h | h
  · exact .inl (Nat.mul_le_mul_right S h)
  · exact .inr (Nat.mul_le_mul_right S h)

theorem sector_le (hi : i < n) : i * S + S ≤ n * S := by
  rw [← Nat.succ_mul]
  exact Nat.mul_le_mul_right S hi

/-- A change within sector `i`. -/
theorem Holds.set (h : Holds S n A m) (hused : ∀ j < n, (A j).used ≤ S)
    (hat : At m' (i * S) (s.image S))
    (hframe : ∀ p, p < i * S ∨ i * S + S ≤ p → m' p = m p) : Holds S n (A.set i s) m' := by
  intro j hj
  rcases Decidable.eq_or_ne j i with rfl | hne
  · rwa [KvSectors.set, Function.update_self]
  · rw [KvSectors.set, Function.update_of_ne hne]
    refine (h j hj).congr fun p hle hlt => hframe p ?_
    rw [KvSector.length_image (hused j hj)] at hlt
    rcases sector_disjoint (S := S) hne with hd | hd <;> rw [Nat.succ_mul] at hd <;> omega

theorem Holds.hdr (h : Holds S n A m) (hi : i < n) :
    At m (i * S) (KvSector.hdr (A i).store (A i).dirty) :=
  (at_append.mp (at_append.mp (h i hi)).1).1

theorem Holds.rec (h : Holds S n A m) (hi : i < n) (hrecs : (A i).recs = pre ++ r :: post) :
    At m (recAddr S i pre) r.image := by
  have himg := (at_append.mp (at_append.mp (h i hi)).1).2
  rw [hrecs, List.flatMap_append, List.flatMap_cons, at_append, at_append] at himg
  rw [length_flatMap_image] at himg
  exact himg.2.1

theorem Holds.free (h : Holds S n A m) (hi : i < n) (hused : (A i).used ≤ S) {p : Nat}
    (hle : recAddr S i (A i).recs ≤ p) (hlt : p < i * S + S) : m p = 0xFF := by
  have hfree := (at_append.mp (h i hi)).2
  rw [List.length_append, KvSector.length_hdr, length_flatMap_image, at_replicate] at hfree
  unfold recAddr at hle
  unfold KvSector.used at hused hfree
  exact hfree p (by omega) (by omega)

/-- A later status of a record. -/
theorem Holds.setStatus (h : Holds S n A m) (hused : ∀ j < n, (A j).used ≤ S) (hi : i < n)
    (hrecs : (A i).recs = pre ++ r :: post) {t : FdbKvStatus} (hle : r.status.code ≤ t.code) :
    Holds S n (A.set i { A i with recs := pre ++ { r with status := t } :: post })
      (program m (recAddr S i pre) [statusByte t.code]) := by
  have hsize : KvRec.size { r with status := t } = r.size := rfl
  have hlt : recAddr S i pre < i * S + S := by
    have hfit := hused i hi
    have hsize := r.le_size
    rw [KvSector.used, hrecs, recsSize_append, recsSize_cons] at hfit
    unfold kvHdrDataSize at hsize
    unfold recAddr
    omega
  refine h.set hused ?_ fun p hp => ?_
  · have hcode : t.code < 8 := by cases t <;> decide
    have himg := h i hi
    simp only [KvSector.image, KvSector.used, hrecs, List.flatMap_append, List.flatMap_cons,
      KvRec.image, recsSize_append, recsSize_cons, hsize] at himg ⊢
    have hpos : recAddr S i pre =
        i * S + (KvSector.hdr (A i).store (A i).dirty ++ pre.flatMap KvRec.image).length := by
      rw [List.length_append, KvSector.length_hdr, length_flatMap_image, recAddr, Nat.add_assoc]
    have hnew : [statusByte t.code] =
        List.zipWith (· &&& ·) [statusByte r.status.code] [statusByte t.code] := by
      rw [List.zipWith_cons_cons, statusByte_and hle hcode, List.zipWith_nil_left]
    have hsplit {ys : List UInt8} (hm : At m (i * S)
        (KvSector.hdr (A i).store (A i).dirty ++ pre.flatMap KvRec.image ++
          [statusByte r.status.code] ++ ys)) :=
      hm.program_mid hpos (show [statusByte t.code].length = _ from rfl)
    rw [← hnew] at hsplit
    simp only [List.append_assoc, List.cons_append, List.nil_append] at hsplit himg ⊢
    exact hsplit himg
  · rcases hp with hp | hp
    · exact program_apply_of_lt (by unfold recAddr; omega)
    · exact program_apply_of_ge (by rw [List.length_singleton]; omega)

/-- A later status of a sector. -/
theorem Holds.setStore (h : Holds S n A m) (hused : ∀ j < n, (A j).used ≤ S) (hi : i < n)
    {t : FdbSectorStoreStatus} (hle : (A i).store.code ≤ t.code) :
    Holds S n (A.set i { A i with store := t }) (program m (i * S) [statusByte t.code]) := by
  have hfit := hused i hi
  unfold KvSector.used sectorHdrDataSize at hfit
  refine h.set hused ?_ fun p hp => ?_
  · have hcode : t.code < 8 := by cases t <;> decide
    have hnew : [statusByte t.code] =
        List.zipWith (· &&& ·) [statusByte (A i).store.code] [statusByte t.code] := by
      rw [List.zipWith_cons_cons, statusByte_and hle hcode, List.zipWith_nil_left]
    have hsplit {ys : List UInt8}
        (hm : At m (i * S) ([] ++ [statusByte (A i).store.code] ++ ys)) :=
      hm.program_mid (b := i * S) rfl (show [statusByte t.code].length = _ from rfl)
    rw [← hnew] at hsplit
    exact hsplit (h i hi)
  · rcases hp with hp | hp
    · exact program_apply_of_lt hp
    · exact program_apply_of_ge (by rw [List.length_singleton]; omega)

theorem Holds.setDirty (h : Holds S n A m) (hused : ∀ j < n, (A j).used ≤ S) (hi : i < n)
    {t : FdbSectorDirtyStatus} (hle : (A i).dirty.code ≤ t.code) :
    Holds S n (A.set i { A i with dirty := t })
      (program m (i * S + sectorDirtyOffset) [statusByte t.code]) := by
  have hfit := hused i hi
  unfold KvSector.used sectorHdrDataSize at hfit
  unfold sectorDirtyOffset
  refine h.set hused ?_ fun p hp => ?_
  · have hcode : t.code < 8 := by cases t <;> decide
    have hnew : [statusByte t.code] =
        List.zipWith (· &&& ·) [statusByte (A i).dirty.code] [statusByte t.code] := by
      rw [List.zipWith_cons_cons, statusByte_and hle hcode, List.zipWith_nil_left]
    have hsplit {ys : List UInt8} (hm : At m (i * S)
        ([statusByte (A i).store.code] ++ [statusByte (A i).dirty.code] ++ ys)) :=
      hm.program_mid (b := i * S + 1) rfl (show [statusByte t.code].length = _ from rfl)
    rw [← hnew] at hsplit
    exact hsplit (h i hi)
  · rcases hp with hp | hp
    · exact program_apply_of_lt (by omega)
    · exact program_apply_of_ge (by rw [List.length_singleton]; omega)

/-- A record behind the others of a sector. -/
theorem Holds.push (h : Holds S n A m) (hused : ∀ j < n, (A j).used ≤ S) (hi : i < n)
    (hfit : (A i).used + r.size ≤ S) (hat : At m' (recAddr S i (A i).recs) r.image)
    (hframe : ∀ p, p < recAddr S i (A i).recs ∨ recAddr S i (A i).recs + r.size ≤ p →
      m' p = m p) :
    Holds S n (A.set i { A i with recs := (A i).recs ++ [r] }) m' := by
  unfold recAddr at hat hframe
  unfold KvSector.used at hfit
  refine h.set hused ?_ fun p hp => hframe p (by omega)
  have hold := h i hi
  rw [KvSector.image, at_append, at_append] at hold
  obtain ⟨⟨hhdr, hrecs⟩, hfree⟩ := hold
  simp only [KvSector.image, KvSector.used, List.flatMap_append, List.flatMap_cons,
    List.flatMap_nil, List.append_nil, recsSize_append, recsSize_cons, recsSize_nil, at_append,
    List.length_append, KvSector.length_hdr, length_flatMap_image, KvRec.length_image] at *
  refine ⟨⟨hhdr.congr fun p _ hlt => hframe p ?_, hrecs.congr fun p _ hlt => hframe p ?_, ?_⟩, ?_⟩
  · rw [KvSector.length_hdr] at hlt
    omega
  · rw [length_flatMap_image] at hlt
    omega
  · exact hat
  · rw [at_replicate] at hfree ⊢
    intro p hle hlt
    rw [hframe p (by omega)]
    exact hfree p (by omega) (by omega)

/-- A sector that was erased and given its header. -/
theorem at_formatted (hS : sectorHdrDataSize ≤ S) :
    At (program (erase m (i * S) S) (i * S) (sectorHdr sectorNotCombined)) (i * S)
      (KvSector.formatted.image S) := by
  have herased : At (erase m (i * S) S) (i * S)
      (List.replicate sectorHdrDataSize 0xFF ++ List.replicate (S - sectorHdrDataSize) 0xFF) := by
    rw [List.replicate_append_replicate, Nat.add_sub_cancel' hS]
    exact at_erase
  obtain ⟨hhdr, hfree⟩ := at_append.mp herased
  rw [List.length_replicate] at hfree
  exact at_append.mpr ⟨hhdr.program_erased, hfree.program_disjoint (.inr (Nat.le_refl _))⟩

/-- The other sectors are as they were. -/
theorem formatted_frame {p : Nat} (hS : sectorHdrDataSize ≤ S) (hp : p < i * S ∨ i * S + S ≤ p) :
    program (erase m (i * S) S) (i * S) (sectorHdr sectorNotCombined) p = m p := by
  have hlen : (sectorHdr sectorNotCombined).length = sectorHdrDataSize := rfl
  have hp' : erase m (i * S) S p = m p := if_neg (by omega)
  rcases hp with hp | hp
  · rw [program_apply_of_lt hp, hp']
  · rw [program_apply_of_ge (by omega), hp']

theorem Holds.format (h : Holds S n A m) (hused : ∀ j < n, (A j).used ≤ S)
    (hS : sectorHdrDataSize ≤ S) :
    Holds S n (A.set i .formatted)
      (program (erase m (i * S) S) (i * S) (sectorHdr sectorNotCombined)) :=
  h.set hused (at_formatted hS) fun _ hp => formatted_frame hS hp

end DoorLock
