import DoorLock.UiChange
import DoorLock.System

/-!
# The copies of a password

A text typed on a page crosses up to five fixed-size arrays before `strcmp` or `fdb_kv_set` read
it: what each reader finds there, in terms of the text and of the bytes that lie behind the array.
-/

namespace DoorLock

open CString

/-- The text on an input page. -/
def Ui.text (u : Ui) (p : Page) : List UInt8 := cstr (u.inputPage p).ipgInptContent

/-! ## Texts -/

/-- The characters the keypad types. -/
def keypadChars : List UInt8 := lit "0123456789*"

/-- A text an input page can hold. -/
structure PageText (s : List UInt8) : Prop where
  length_le : s.length ≤ 63
  keypad : ∀ c ∈ s, c ∈ keypadChars

section
variable {s : List UInt8}

theorem PageText.printable (h : PageText s) : ∀ c ∈ s, c ≠ 0 ∧ isPrint c = true := by
  have hall : ∀ c ∈ keypadChars, c ≠ 0 ∧ isPrint c = true := by decide +kernel
  exact fun c hc => hall c (h.keypad c hc)

theorem PageText.noNul (h : PageText s) : NoNul s := fun c hc => (h.printable c hc).1

theorem PageText.cstr_eq (h : PageText s) : cstr s = s := cstr_of_noNul h.noNul

/-- A text typed on a page can be read once it is stored. -/
theorem PageText.fdbKvGet (h : PageText s) (hne : s ≠ []) : fdbKvGet ⟨some s⟩ = some s := by
  have hlen := h.length_le
  have htake : s.take fdbStrKvValueMaxSize = s :=
    List.take_of_length_le (by simp only [fdbStrKvValueMaxSize]; omega)
  have hstr : fdbIsStr s = true := List.all_eq_true.mpr fun c hc => (h.printable c hc).2
  simp [DoorLock.fdbKvGet, htake, hstr, List.length_pos_iff.mpr hne]

end

/-- A character put in place of the first NUL, with a new one behind it. -/
theorem cstr_set_set {c : UInt8} (hc : c ≠ 0) (buf : List UInt8) :
    cstr ((buf.set (buf.findIdx (· == 0)) c).set (buf.findIdx (· == 0) + 1) 0) = cstr buf ++ [c] ∨
      cstr ((buf.set (buf.findIdx (· == 0)) c).set (buf.findIdx (· == 0) + 1) 0) = cstr buf := by
  induction buf with
  | nil => exact .inr rfl
  | cons b bs ih =>
    by_cases hb : b = 0
    · left
      subst hb
      cases bs with
      | nil => simp [cstr, hc]
      | cons d ds => simp [cstr, List.findIdx_cons, hc]
    · have hidx : (b :: bs).findIdx (· == 0) = bs.findIdx (· == 0) + 1 := by
        simp [List.findIdx_cons, beq_false_of_ne hb]
      rw [hidx]
      simpa [cstr, hb] using ih

theorem cstr_inptAppend {c : UInt8} (hc : c ≠ 0) (buf : List UInt8) :
    cstr (inptAppend buf c) = cstr buf ++ [c] ∨ cstr (inptAppend buf c) = cstr buf := by
  unfold inptAppend
  dsimp only
  split
  · exact cstr_set_set hc buf
  · exact .inr rfl

/-! ## Copies -/

/-- What is read back from `strncpy(dst, text, 16)`: a text of sixteen characters and more loses
its tail and its terminator. -/
def readBack16 (text after : List UInt8) : List UInt8 :=
  if text.length < 16 then text else text.take 16 ++ cstr after

section
variable {text after : List UInt8}

theorem readBack16_of_lt (h : text.length < 16) : readBack16 text after = text := if_pos h

theorem readBack16_of_le (h : 16 ≤ text.length) :
    readBack16 text after = text.take 16 ++ cstr after := if_neg (Nat.not_lt.mpr h)

/-- A text that does not fit is never read back as one that does. -/
theorem le_length_readBack16 (h : 16 ≤ text.length) : 16 ≤ (readBack16 text after).length := by
  rw [readBack16_of_le h, List.length_append, List.length_take]
  omega

theorem cstr_strncpy16 (buf after : List UInt8) :
    cstr (strncpy buf 16 ++ after) = readBack16 (cstr buf) after := by
  by_cases h : (cstr buf).length < 16
  · rw [readBack16_of_lt h, cstr_strncpy_append h]
  · rw [readBack16_of_le (Nat.not_lt.mp h), cstr_strncpy_append_of_le (Nat.not_lt.mp h)]

end

section
variable (env : Env) (addr : Nat) (u : Ui)

/-- What `strcmp` compares with the stored password. -/
theorem cstr_paswStr :
    cstr (authEventOf env addr u).paswStr = readBack16 (u.text .pswAuth) (env.paswAfter addr) :=
  cstr_strncpy16 _ _

/-- What `fdb_kv_set` stores. -/
theorem cstr_newPaswStr : cstr (servSysopOf env addr u).opPara.newPaswStr =
    readBack16 (u.text .pswAlter) (env.newPaswAfter addr) :=
  cstr_strncpy16 _ _

/-- What `strcmp` compares with the stored password before it is altered. -/
theorem cstr_grantStr : cstr (servSysopOf env addr u).grantStr =
    readBack16 (cstr u.pswAlterCache) ServSysop.paswAlter.le32 :=
  cstr_strncpy16 _ _

theorem authResultOf_paswValid {corrPasw : List UInt8} (hc : NoNul corrPasw) (e : AuthEvent) :
    (authResultOf env addr corrPasw e).paswValid = 1 ↔ corrPasw = cstr e.paswStr := by
  have hstrcmp : strcmpEq corrPasw e.paswStr = true ↔ corrPasw = cstr e.paswStr := by
    rw [strcmpEq_iff, cstr_of_noNul hc]
  simp [authResultOf, hstrcmp]

/-- What the answer to a request carries: fifteen characters. -/
theorem cstr_authResult_paswStr (corrPasw : List UInt8) (e : AuthEvent) :
    cstr (authResultOf env addr corrPasw e).paswStr = (cstr e.paswStr).take 15 := by
  have h : (authResultOf env addr corrPasw e).paswStr =
      snprintf e.paswStr 16 ++ ((List.replicate 16 0).drop (snprintf e.paswStr 16).length ++
        e.authFor.le32) := by
    simp [AuthResult.paswStr, authResultOf, store]
  rw [h, cstr_snprintf_append]

/-- What is kept of an answer until the new password is confirmed. -/
theorem cstr_grantAlter (r : AuthResult) :
    cstr (grantAlter u r).pswAlterCache = (cstr r.paswStr).take 23 :=
  cstr_store_snprintf _ _ _

end

/-! ## The two operations of `system_service` -/

section
variable {env : Env} {kv : Kvdb} {m : EventMsg} {x : Kvdb × List Out}

/-- A request that is not trusted is answered on the password that is stored. -/
theorem systemService_untrusted {e : AuthEvent} (hr : m.recver = .servAuth)
    (ht : m.eventStruct = .authEvent) (hc : m.content = .authEvent e) (he : e.trusted = false)
    (h : systemService env kv m = .ok x) :
    ∃ corrPasw, fdbKvGet kv = some corrPasw ∧
      x = (kv, untrustedAuth env m.addr corrPasw e ++ [.free]) := by
  simp only [systemService, hr, ht, and_self, if_true, hc, systemAuth, he] at h
  cases hp : fdbKvGet kv with
  | none => simp [hp, Except.map] at h
  | some corrPasw => exact ⟨corrPasw, rfl, by simpa [hp, Except.map, eq_comm] using h⟩

/-- The password is altered when the grant matches the one that is stored. -/
theorem systemService_paswAlter {e : ServSysopMsg} (hr : m.recver = .servSysop)
    (ht : m.eventStruct = .servSysop) (hc : m.content = .servSysop e)
    (hop : e.operation = .paswAlter) (h : systemService env kv m = .ok x) :
    ∃ paswOld, fdbKvGet kv = some paswOld ∧
      x.1 = if strcmpEq paswOld e.grantStr ∧ env.kvOk m.addr then
        fdbKvSet kv e.opPara.newPaswStr else kv := by
  simp only [systemService, hr, ht, reduceCtorEq, if_false, and_self,
    if_true, hc, systemSysop, hop] at h
  cases hp : fdbKvGet kv with
  | none => simp [hp, Except.map] at h
  | some paswOld =>
    refine ⟨paswOld, rfl, ?_⟩
    by_cases hgrant : strcmpEq paswOld e.grantStr
    · by_cases hok : env.kvOk m.addr
      · simp only [hp, hgrant, hok, if_true, Except.map, Except.ok.injEq] at h
        simp [← h, hgrant, hok]
      · simp only [hp, hgrant, hok, if_true, Bool.false_eq_true, if_false, Except.map,
          Except.ok.injEq] at h
        simp [← h, hok]
    · simp only [hp, hgrant, Bool.false_eq_true, if_false, Except.map, Except.ok.injEq] at h
      simp [← h, hgrant]

/-- The key-value store only changes when the password is altered. -/
theorem systemService_kv_ne (h : systemService env kv m = .ok x) (hne : x.1 ≠ kv) :
    ∃ e paswOld, m.recver = .servSysop ∧ m.content = .servSysop e ∧ e.operation = .paswAlter ∧
      fdbKvGet kv = some paswOld ∧ strcmpEq paswOld e.grantStr = true ∧
        x.1 = fdbKvSet kv e.opPara.newPaswStr := by
  cases systemService_ok h with
  | auth _ _ _ => exact absurd rfl hne
  | other => exact absurd rfl hne
  | @sysop e y hr ht hc hy =>
    cases hop : e.operation with
    | paswAlter =>
      obtain ⟨paswOld, hp, hx⟩ := systemService_paswAlter hr ht hc hop h
      split at hx
      · rename_i hg
        exact ⟨e, paswOld, hr, hc, hop, hp, hg.1, hx⟩
      · exact absurd hx hne
    | doorUnlock =>
      unfold systemSysop at hy
      rw [hop] at hy
      cases hy
      exact absurd rfl hne

end

end DoorLock
