import DoorLock.KvImage

/-!
# Reading records back

`read_kv` returns what the image of a record says, and `get_next_kv_addr` goes from one record to
the next by the magic word, behind the last one to the end.
-/

namespace DoorLock

open Nor CString

variable {S n i a len pos : Nat} {A : KvSectors} {m : Memory} {db : FdbKvdb} {kv : FdbKv}
  {r r' : KvRec} {pre post : List KvRec} {bytes rest : List UInt8}

theorem fdbFlashRead_eq {part : FalPartition} (h : a + n ≤ part.len) :
    fdbFlashRead part a n = some (read part.flash a n) :=
  if_neg (by omega)

/-! ## A record -/

theorem fdbCalcCrc32_append {crc : UInt32} {as bs : List UInt8} :
    fdbCalcCrc32 crc (as ++ bs) = fdbCalcCrc32 (fdbCalcCrc32 crc as) bs :=
  Crc.sum_append

/-- The sum over the pieces is that over the rest of the bytes. -/
theorem crcDataLoop_eq {part : FalPartition} {fuel : Nat} {crc : UInt32}
    (hat : At part.flash a bytes) (hle : a + bytes.length ≤ part.len)
    (hfuel : bytes.length ≤ pos + fuel) :
    crcDataLoop part a bytes.length fuel pos crc = some (fdbCalcCrc32 crc (bytes.drop pos)) := by
  induction fuel generalizing pos crc with
  | zero =>
    rw [crcDataLoop, List.drop_eq_nil_of_le (by omega)]
    exact congrArg some Crc.sum_nil.symm
  | succ fuel ih =>
    rw [crcDataLoop]
    split
    case isTrue hlt =>
      obtain ⟨size, hsize⟩ : ∃ k, k = if pos + 32 < bytes.length then 32 else bytes.length - pos :=
        ⟨_, rfl⟩
      have hpos : 0 < size ∧ pos + size ≤ bytes.length := by split at hsize <;> omega
      have hread : fdbFlashRead part (a + pos) size = some ((bytes.drop pos).take size) := by
        rw [fdbFlashRead_eq (by omega), hat.read_drop_take hpos.2]
      rw [← hsize]
      dsimp only
      rw [hread, Option.bind_eq_bind, Option.bind_some, ih (by omega), ← fdbCalcCrc32_append,
        ← List.drop_drop, List.take_append_drop]
    case isFalse hge =>
      rw [List.drop_eq_nil_of_le (by omega)]
      exact congrArg some Crc.sum_nil.symm

/-- The header of a record. -/
def KvRec.hdr (r : KvRec) : List UInt8 :=
  statusByte r.status.code :: 0xFF :: 0xFF :: 0xFF ::
    kvHdrData r.size (kvCrc r.key r.value) r.key.length r.value.length

theorem KvRec.image_eq (r : KvRec) : r.image = r.hdr ++ (r.key ++ r.value) := by
  rw [image, hdr, body, List.append_assoc]
  rfl

theorem KvRec.length_hdr (r : KvRec) : r.hdr.length = kvHdrDataSize := rfl

/-- The sum of the writer. -/
theorem kvCrc_eq {key value : List UInt8} :
    kvCrc key value =
      fdbCalcCrc32 (fdbCalcCrc32 (fdbCalcCrc32 0 [UInt8.ofNat key.length, 0xFF, 0xFF, 0xFF])
        (u32Bytes value.length)) (key ++ value) := by
  rw [fdbCalcCrc32_append, kvCrc]

/-- `read_kv` returns the record. -/
theorem readKv_eq (hat : At db.part.flash a r.image) (hle : a + r.size ≤ db.part.len)
    (hmax : db.part.len < 0xFFFFFFFF) (hok : r.Ok) (hkv : kv.addrStart = a) :
    readKv db kv = some (.noErr, r.toKv a, db) := by
  subst hkv
  have hsize : r.size = kvHdrDataSize + (r.key.length + r.value.length) := Nat.add_assoc _ _ _
  have hdata : r.size - kvHdrDataSize = (r.key ++ r.value).length := by
    rw [List.length_append]
    omega
  have hkeyLen := hok.keyLen
  unfold fdbKvNameMax at hkeyLen
  have hmod : r.key.length % 256 = r.key.length := Nat.mod_eq_of_lt (by omega)
  rw [KvRec.image_eq] at hat
  obtain ⟨hhdr, hat'⟩ := at_append.mp hat
  rw [KvRec.length_hdr] at hat'
  have hkey := (at_append.mp hat').1
  have hreadHdr : fdbFlashRead db.part kv.addrStart kvHdrDataSize = some r.hdr := by
    rw [fdbFlashRead_eq (by omega), hhdr.read_eq r.length_hdr]
  have hreadKey :
      fdbFlashRead db.part (kv.addrStart + kvHdrDataSize) r.key.length = some r.key := by
    rw [fdbFlashRead_eq (by omega), hkey.read_eq rfl]
  have hstatus : FdbKvStatus.ofCode (fdbGetStatus r.hdr fdbKvStatusNum) = r.status := by
    rw [KvRec.hdr, fdbGetStatus_kv, FdbKvStatus.ofCode_code]
  have hlen : u32At (r.hdr.drop 8) = r.size := u32At_u32Bytes (by omega) _
  have hnameLen : (r.hdr.getD 16 0).toNat = r.key.length := by
    rw [← hmod]
    exact UInt8.toNat_ofNat'
  have hvalueLen : u32At (r.hdr.drop 20) = r.value.length := u32At_u32Bytes (by omega) []
  have hcrc : u32At (r.hdr.drop 12) = (kvCrc r.key r.value).toNat :=
    u32At_u32Bytes (UInt32.toNat_lt _) _
  have hsum : fdbCalcCrc32 (fdbCalcCrc32 (fdbCalcCrc32 0 ((r.hdr.drop 16).take 4))
      ((r.hdr.drop 20).take 4)) ((r.key ++ r.value).drop 0) = kvCrc r.key r.value := kvCrc_eq.symm
  have hloop {crc : UInt32} :
      crcDataLoop db.part (kv.addrStart + kvHdrDataSize) (r.key ++ r.value).length
        (r.key ++ r.value).length 0 crc = some (fdbCalcCrc32 crc ((r.key ++ r.value).drop 0)) :=
    crcDataLoop_eq hat' (by rw [List.length_append]; omega) (by omega)
  have hbad : ¬(r.size = 0xFFFFFFFF ∨ r.size > db.maxSize ∨ r.size < kvHdrDataSize) := by
    unfold FdbKvdb.maxSize
    omega
  rw [readKv, hreadHdr, Option.bind_eq_bind, Option.bind_some]
  simp only [hstatus, hlen, hnameLen, hvalueLen, hcrc, if_neg hbad, hdata, hloop, hsum, hreadKey,
    Option.bind_eq_bind, Option.bind_some, ne_eq, not_true_eq_false, if_false]
  rw [List.take_of_length_le (by unfold fdbKvNameMax; omega)]
  rfl

/-! ## The magic word of the next record -/

theorem findMagic_none {start startBak stop fuel : Nat} {buf : List UInt8}
    (h : ∀ j, i ≤ j → j < i + fuel → u32At (buf.drop j) ≠ kvMagicWord) :
    findMagic buf start startBak stop fuel i = none := by
  induction fuel generalizing i with
  | zero => rfl
  | succ fuel ih =>
    have hne := h i (Nat.le_refl i) (by omega)
    rw [findMagic]
    split
    case isTrue => rw [if_neg fun hm => hne hm.1, ih fun j hle hlt => h j (by omega) (by omega)]
    case isFalse => rfl

/-- A magic word in front of the record that is looked for does not count. -/
theorem findMagic_early {start stop fuel : Nat} {buf : List UInt8} (hi : i < kvMagicOffset)
    (hlo : kvMagicOffset ≤ start) (hlt : start + i < stop) (hmax : start < 0xFFFFFFFF) :
    findMagic buf start start stop (fuel + 1) i = findMagic buf start start stop fuel (i + 1) := by
  have haddr : ¬u32 (start + i - kvMagicOffset : Int) ≥ start := by
    unfold u32 kvMagicOffset at *
    omega
  rw [findMagic, if_pos hlt, if_neg fun h => haddr h.2]

/-- A record right at the start is found. -/
theorem findNextLoop_rec {part : FalPartition} {stop fuel : Nat} (hat : At part.flash a r.image)
    (hlo : kvMagicOffset ≤ a) (hstop : a + 32 < stop) (hle : stop ≤ part.len)
    (hmax : part.len < 0xFFFFFFFF) : findNextLoop part a stop (fuel + 1) a = a := by
  rw [KvRec.image_eq] at hat
  have hbuf : read part.flash a 32 = r.hdr ++ read part.flash (a + kvHdrDataSize) 8 := by
    rw [show 32 = kvHdrDataSize + 8 from rfl, read_add, (at_append.mp hat).1.read_eq r.length_hdr]
  have hmagic {rest : List UInt8} : u32At ((r.hdr ++ rest).drop kvMagicOffset) = kvMagicWord :=
    u32At_u32Bytes (n := kvMagicWord) (by decide) _
  have haddr : u32 (a + kvMagicOffset - kvMagicOffset : Int) = a := by
    unfold u32
    omega
  unfold kvMagicOffset at hlo
  have hfound {rest : List UInt8} :
      findMagic (r.hdr ++ rest) a a stop 28 0 = some a := by
    rw [findMagic_early (by decide) hlo (by omega) (by omega),
      findMagic_early (by decide) hlo (by omega) (by omega),
      findMagic_early (by decide) hlo (by omega) (by omega),
      findMagic_early (by decide) hlo (by omega) (by omega), findMagic, if_pos (by omega),
      show (0 + 1 + 1 + 1 + 1 : Nat) = kvMagicOffset from rfl, haddr,
      if_pos ⟨hmagic, Nat.le_refl a⟩]
  rw [findNextLoop, if_pos ⟨by omega, hstop⟩, fdbFlashRead_eq (by omega), hbuf]
  dsimp only
  rw [hfound]

/-- Erased bytes hold no record. -/
theorem findNextLoop_erased {part : FalPartition} {startBak start stop fuel : Nat}
    (hfree : ∀ p, start ≤ p → p < stop → part.flash p = 0xFF) (hle : stop ≤ part.len) :
    findNextLoop part startBak stop fuel start = failedAddr := by
  induction fuel generalizing start with
  | zero => rfl
  | succ fuel ih =>
    rw [findNextLoop]
    split
    case isTrue hlt =>
      have hbuf : read part.flash start 32 = List.replicate 32 0xFF :=
        (at_replicate.mpr fun p hp hp' => hfree p hp (by omega)).read_eq List.length_replicate
      have hnone : ∀ j, 0 ≤ j → j < 0 + 28 →
          u32At ((List.replicate 32 (0xFF : UInt8)).drop j) ≠ kvMagicWord := by decide +kernel
      rw [fdbFlashRead_eq (by omega), hbuf]
      dsimp only
      rw [findMagic_none hnone]
      exact ih fun p hp => hfree p (by omega)
    case isFalse => rfl

end DoorLock
