import DoorLock.KvLife

/-!
# The store of the door lock

The tasks use two names. `app_main` starts the store on new flash or on what the last run left, and
sees to it that a password can be read.
-/

namespace DoorLock

open CString Refine

/-- The names of `default_kv_table`. -/
def storeKeys : List (List UInt8) := defaultKvTable.map FdbDefaultKvNode.key

theorem storeKeys_cases {key : List UInt8} (h : key ∈ storeKeys) :
    key = lit "fdb_avalible" ∨ key = lit "doorlock_pasw" := by
  rcases List.mem_cons.mp h with h | h
  · exact .inl h
  · exact .inr (List.mem_singleton.mp h)

/-- The CRCs of the names that the KV cache keeps are different. -/
theorem storeKeys_crc : nameCrcOf (lit "fdb_avalible") ≠ nameCrcOf (lit "doorlock_pasw") := by
  decide +kernel

/-- The names of the door lock. -/
def doorLockNames : KvNames where
  mem := (· ∈ storeKeys)
  keyLen := by
    intro key h
    rcases storeKeys_cases h with rfl | rfl <;> decide
  noNul := by
    intro key h
    rcases storeKeys_cases h with rfl | rfl <;> exact noNul_of_all (by decide)
  inj := by
    intro a b ha hb heq
    rcases storeKeys_cases ha with rfl | rfl <;> rcases storeKeys_cases hb with rfl | rfl
    · rfl
    · exact absurd heq storeKeys_crc
    · exact absurd heq.symm storeKeys_crc
    · rfl

/-- The partition `fdb_kv`: 1 MB in sectors of 4 kB. -/
def doorLockGeom : KvGeom where
  S := 4096
  n := 256
  two := by decide
  pow := by decide
  room := by decide
  max := by decide

variable {G : KvGeom} {db : FdbKvdb} {M : KvMap} {L fuel : Nat} {part : FalPartition}
  {key value : List UInt8}

theorem avalible_mem : lit "fdb_avalible" ∈ storeKeys := List.mem_cons_self

theorem pasw_mem : lit "doorlock_pasw" ∈ storeKeys := List.mem_cons_of_mem _ List.mem_cons_self

/-- A sector has room for two values and one more. -/
theorem capacity_storeKeys (h : 3 * L + 214 < G.S) : Capacity G doorLockNames storeKeys L where
  mem := fun _ hkey => hkey
  room := by
    intro key hkey
    have hsize : keysSize L storeKeys = (24 + 12 + L) + ((24 + 13 + L) + 0) := rfl
    have hlen : key.length ≤ 13 := by
      rcases storeKeys_cases hkey with rfl | rfl <;> decide
    rw [hsize]
    unfold fdbSecRemainThreshold fdbKvNameMax kvHdrDataSize sectorHdrDataSize
    omega

theorem defaultsOk_table (hL : 5 ≤ L) : DefaultsOk storeKeys L defaultKvTable where
  nodup := by decide
  within := by
    intro node hnode
    refine ⟨List.mem_map_of_mem hnode, Nat.le_trans ?_ hL⟩
    rcases List.mem_cons.mp hnode with rfl | hnode
    · decide
    · rw [List.mem_singleton.mp hnode]
      decide

/-! ## `app_main` -/

/-- What `app_main` finds when it asks whether the store can be used. -/
def KvMap.checkAvalible (M : KvMap) : KvMap :=
  match fdbKvGet ⟨M (lit "fdb_avalible")⟩ with
  | none => Function.update M (lit "fdb_avalible") (some (lit "1"))
  | some str =>
    if str.getD 0 0 = 0x30 then Function.update M (lit "fdb_avalible") (some (lit "1")) else M

/-- The map after the boot. -/
def KvMap.boot (M : KvMap) : KvMap :=
  let M := M.checkAvalible
  Function.update M (lit "doorlock_pasw") (bootKvdb ⟨M (lit "doorlock_pasw")⟩).doorlockPasw

/-- A set that has room. -/
theorem StoreKeeps.set (h : StoreKeeps G doorLockNames db M) (hM : M.Within storeKeys L)
    (hcap : Capacity G doorLockNames storeKeys L) (hkey : key ∈ storeKeys)
    (hlen : (cstr value).length ≤ L) :
    Yields (fdbKvSetStr db key value) fun x => x.1 = .noErr ∧
      StoreKeeps G doorLockNames x.2 (Function.update M key (some (cstr value))) := by
  refine (h.setBlob (hcap.mem _ hkey)).mono ?_
  rintro x (hdone | ⟨-, -, hno⟩)
  · exact hdone
  · exact absurd (hM.fits hcap hkey hlen) hno

/-- `app_main` finds the store usable, or makes it so. -/
theorem StoreKeeps.checkAvalible_ok (h : StoreKeeps G doorLockNames db M)
    (hM : M.Within storeKeys L) (hcap : Capacity G doorLockNames storeKeys L) (hL : 5 ≤ L) :
    Yields (checkAvalible db) fun db' => StoreKeeps G doorLockNames db' M.checkAvalible := by
  have hone : fdbKvGet ⟨some (lit "1")⟩ = some (lit "1") := by decide
  have hlit : cstr (lit "1") = lit "1" := by decide
  have hset {db : FdbKvdb} (h : StoreKeeps G doorLockNames db M) : Yields (do
      let x ← fdbKvSetStr db (lit "fdb_avalible") (lit "1")
      let x ← fdbKvGetStr x.2 (lit "fdb_avalible")
      if x.1 = none then none else some x.2) fun db' => StoreKeeps G doorLockNames db'
        (Function.update M (lit "fdb_avalible") (some (lit "1"))) := by
    refine (h.set hM hcap avalible_mem (by rw [hlit]; exact Nat.le_trans (by decide) hL)).bind ?_
    rintro ⟨result, db₁⟩ ⟨-, h₁⟩
    rw [hlit] at h₁
    refine (h₁.get avalible_mem).bind ?_
    rintro ⟨str, db₂⟩ ⟨h₂, rfl⟩
    dsimp only at h₂ ⊢
    rw [Function.update_self, hone, if_neg (by decide)]
    exact .pure h₂
  rw [checkAvalible]
  refine (h.get avalible_mem).bind ?_
  rintro ⟨str, db₁⟩ ⟨h₁, rfl⟩
  dsimp only at h₁ ⊢
  rw [KvMap.checkAvalible]
  cases hget : fdbKvGet ⟨M (lit "fdb_avalible")⟩ with
  | none =>
    dsimp only
    rw [if_pos (.inl rfl)]
    exact hset h₁
  | some str =>
    dsimp only
    have hiff : (some str = none ∨ (some str).map (fun s => s.getD 0 0) = some 0x30) ↔
        str.getD 0 0 = 0x30 := by simp
    rw [if_congr hiff rfl rfl]
    split
    · exact hset h₁
    · exact .pure h₁

theorem KvMap.Within.checkAvalible (h : M.Within storeKeys L) (hL : 5 ≤ L) :
    KvMap.Within storeKeys L M.checkAvalible := by
  have hset := h.update avalible_mem (Nat.le_trans (show (lit "1").length ≤ 5 by decide) hL)
  unfold KvMap.checkAvalible
  split
  · exact hset
  · split
    · exact hset
    · exact h

theorem KvMap.Within.boot (h : M.Within storeKeys L) (hL : 5 ≤ L) :
    KvMap.Within storeKeys L M.boot := by
  have h₁ := h.checkAvalible hL
  unfold KvMap.boot bootKvdb
  dsimp only
  split
  · exact h₁.update pasw_mem (Nat.le_trans (show (cstr (lit "0000")).length ≤ 5 by decide) hL)
  · dsimp only
    rwa [Function.update_eq_self]

/-- The boot asks for the password as `bootKvdb` does. -/
theorem KvMap.boot_pasw :
    (⟨M.boot (lit "doorlock_pasw")⟩ : Kvdb) = bootKvdb ⟨M (lit "doorlock_pasw")⟩ := by
  have hne : lit "doorlock_pasw" ≠ lit "fdb_avalible" := by decide
  have hsame : M.checkAvalible (lit "doorlock_pasw") = M (lit "doorlock_pasw") := by
    rw [KvMap.checkAvalible]
    cases fdbKvGet ⟨M (lit "fdb_avalible")⟩ with
    | none => exact Function.update_of_ne hne _ _
    | some str =>
      dsimp only
      split
      · exact Function.update_of_ne hne _ _
      · rfl
  rw [KvMap.boot, Function.update_self, hsame]

/-- `app_main`, once the store has started. -/
theorem StoreKeeps.boot_ok (h : StoreKeeps G doorLockNames db M) (hM : M.Within storeKeys L)
    (hcap : Capacity G doorLockNames storeKeys L) (hL : 5 ≤ L) :
    Yields (do
      let db ← checkAvalible db
      let (str, db) ← fdbKvGetStr db (lit "doorlock_pasw")
      if str = none then (fdbKvSetStr db (lit "doorlock_pasw") (lit "0000")).map Prod.snd
      else some db) fun db' => StoreKeeps G doorLockNames db' M.boot := by
  refine (h.checkAvalible_ok hM hcap hL).bind ?_
  intro db₁ h₁
  have hM₁ := hM.checkAvalible hL
  refine (h₁.get pasw_mem).bind ?_
  rintro ⟨str, db₂⟩ ⟨h₂, rfl⟩
  dsimp only at h₂ ⊢
  rw [KvMap.boot]
  unfold bootKvdb
  cases hget : fdbKvGet ⟨M.checkAvalible (lit "doorlock_pasw")⟩ with
  | none =>
    have hlen : (cstr (lit "0000")).length ≤ L := Nat.le_trans (by decide) hL
    obtain ⟨x, hset, -, hk⟩ := h₂.set hM₁ hcap pasw_mem hlen
    rw [if_pos rfl, hset]
    exact .pure hk
  | some str =>
    have hne : ¬some str = none := fun hf => by cases hf
    rw [if_neg hne]
    dsimp only
    rw [Function.update_eq_self (lit "doorlock_pasw") M.checkAvalible]
    exact .pure h₂

/-! ## Power cycles -/

/-- `app_main`, on the flash of the last run. -/
theorem Rests.appMain (h : Rests G doorLockNames defaultKvTable part M) (hM : M.Within storeKeys L)
    (hcap : Capacity G doorLockNames storeKeys L) (hL : 5 ≤ L) (hfuel : 0 < fuel) :
    Yields (appMainStore fuel G.S part) fun db => StoreKeeps G doorLockNames db M.boot := by
  rw [appMainStore]
  refine (h.init hcap (defaultsOk_table hL) hfuel).bind ?_
  rintro ⟨result, db⟩ ⟨-, hk⟩
  exact StoreKeeps.boot_ok hk hM hcap hL

theorem within_defaults (hL : 5 ≤ L) :
    KvMap.Within storeKeys L (KvMap.defaults (fun _ => none) defaultKvTable) := by
  have hnone : KvMap.Within storeKeys L fun _ => none := fun key value hf => by cases hf
  have hnodes := (defaultsOk_table hL).within
  obtain ⟨hmem, hlen⟩ := hnodes _ List.mem_cons_self
  obtain ⟨hmem', hlen'⟩ := hnodes _ (List.mem_cons_of_mem _ List.mem_cons_self)
  exact (hnone.update hmem hlen).update hmem' hlen'

end DoorLock
