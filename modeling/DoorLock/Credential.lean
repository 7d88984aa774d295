import DoorLock.PaswCopy
import DoorLock.UiRun

/-!
# A usable credential

Whether the stored password can always be read, over runs that may be interrupted by a reboot
between any two steps. Every new password was confirmed on its page; it stays readable when the
confirmed text is not empty and fits, or runs on into printable bytes.
-/

namespace DoorLock

open Transition CString

/-! ## Texts typed along a run -/

section
variable {env : Env} {kv : Kvdb} {tr : List (Label World Action)} {w w' : World} {m : EventMsg}

theorem isKey_code (h : RunFrom env kv tr w) (hm : m ∈ w.queueUi) {content : UInt16}
    (hk : m.IsKey content) : ∃ k : Key, content = k.code := by
  rcases queued_origin (q := .ui) h hm with rfl | ⟨p, l, q, htr, hpub⟩
  · cases hk.content
  have hposts := hpub.posts (Run.split h htr).1
  rw [hk.content] at hposts
  generalize l.act = act at hposts
  generalize m.sender = s at hposts
  generalize m.recver = r at hposts
  generalize m.eventStruct = t at hposts
  generalize hc : MsgContent.inptEvent ⟨content⟩ = c at hposts
  cases hposts with
  | key k => exact ⟨k, by injection hc with hc; injection hc⟩
  | trusted _ _ _ _ ho =>
    subst hc
    simp [trustedAuth] at ho
  | _ => cases hc

theorem Key.code_keypad (k : Key) (hhash : k.code ≠ keyHash) (hhi : k.code < 0x80) :
    k.code.toUInt8 ∈ keypadChars ∧ k.code.toUInt8 ≠ 0 := by
  revert hhash hhi
  cases k <;> decide +kernel

/-- Every page holds characters of the keypad. -/
def Ui.Typed (u : Ui) : Prop := ∀ p, ∀ c ∈ u.text p, c ∈ keypadChars

theorem Ui.Typed.clearInpt {u : Ui} (h : u.Typed) (p : Page) : (u.clearInpt p).Typed := by
  intro q c hc
  by_cases hq : q = p
  · subst hq
    simp [Ui.text, Ui.clearInpt, Ui.setInputPage, store] at hc
  · refine h q c ?_
    simpa [Ui.text, Ui.clearInpt, Ui.setInputPage, hq] using hc

theorem Ui.Typed.agree {u u' : Ui} (h : u.Typed) (ha : u.Agree u') : u'.Typed := by
  intro p c hc
  refine h p c ?_
  rw [Ui.text, ha.inpt] at hc
  exact hc

/-- Opening the password page changes its title and its tips. -/
theorem Ui.Typed.launch {u : Ui} (h : u.Typed) (authFor : ServSysop) :
    (paswAuthActivityLaunch u authFor).Typed := by
  intro p c hc
  refine h p c ?_
  by_cases hp : p = .pswAuth
  · subst hp
    simpa [Ui.text, paswAuthActivityLaunch, Ui.run, Ui.setInputPage] using hc
  · simpa [Ui.text, paswAuthActivityLaunch, Ui.run, Ui.setInputPage, hp] using hc

theorem Ui.Typed.typed {u : Ui} (h : u.Typed) (p : Page) {content : UInt16}
    (hc : content.toUInt8 ∈ keypadChars) (hne : content.toUInt8 ≠ 0) :
    (typed u p content).Typed := by
  intro q c hmem
  by_cases hq : q = p
  · subst hq
    have hmem : c ∈ cstr (inptAppend (u.inputPage q).ipgInptContent content.toUInt8) := by
      simpa [Ui.text, DoorLock.typed, Ui.setInputPage] using hmem
    rcases cstr_inptAppend hne (u.inputPage q).ipgInptContent with heq | heq
    · rw [heq, List.mem_append, List.mem_singleton] at hmem
      rcases hmem with hmem | rfl
      · exact h q c hmem
      · exact hc
    · rw [heq] at hmem
      exact h q c hmem
  · refine h q c ?_
    simpa [Ui.text, DoorLock.typed, Ui.setInputPage, hq] using hmem

/-- In a run, texts are made of keypad characters. -/
theorem ui_typed (h : RunFrom env kv tr w) : w.ui.Typed := by
  induction h with
  | nil =>
    intro p c hc
    have hnil : ∀ p, appInit.text p = [] := by
      intro p
      cases p <;> decide +kernel
    simp [boot, hnil] at hc
  | snoc hrun hs ih =>
    rcases ui_step_change hs with ha | ⟨k, -, hk, hc⟩
    · exact ih.agree ha
    · generalize published (outsOf env _ .ui) = outs at hc
      cases hc with
      | agree ha => exact ih.agree ha
      | launch authFor hu' => exact hu' ▸ ih.launch authFor
      | home _ hu' => exact hu' ▸ (ih.clearInpt _).launch _
      | typed hu hkey hhash _ _ hhi hu' =>
        obtain ⟨key, rfl⟩ := isKey_code hrun (List.mem_of_head? hk) hkey
        obtain ⟨hchar, hne⟩ := key.code_keypad hhash hhi
        rw [hu']
        rcases hu with rfl | rfl
        · exact ih.typed _ hchar hne
        · exact ((ih.clearInpt _).launch _).typed _ hchar hne
      | confirmAuth _ _ ha => exact (ih.clearInpt _).agree ha
      | confirmAlter _ _ ha => exact (ih.clearInpt _).agree ha
      | grant _ hu' =>
        rw [hu']
        exact ih

end

/-! ## The condition -/

/-- The message of the key that confirms a new password in this step. -/
def alterConfirmation (w : World) : Action → Option EventMsg
  | .ui => w.queueUi.head?.filter fun k =>
      k.sender = .hwInpt && k.content = .inptEvent ⟨keyHash⟩ && w.ui.peek = some .pswAlter
  | _ => none

/-- A new password that is confirmed is not empty, and if it fills its array, what is stored with
it of the bytes behind is printable. -/
def KeepsPasw (env : Env) (w : World) (a : Action) : Prop :=
  ∀ k ∈ alterConfirmation w a, w.ui.text .pswAlter ≠ [] ∧
    (16 ≤ (w.ui.text .pswAlter).length →
      fdbIsStr ((cstr (env.newPaswAfter k.addr)).take (fdbStrKvValueMaxSize - 16)) = true)

instance (env : Env) (w : World) (a : Action) : Decidable (KeepsPasw env w a) :=
  inferInstanceAs (Decidable (∀ k ∈ alterConfirmation w a, _))

section
variable {env : Env} {kv : Kvdb} {tr : List (Label World Action)} {w w' : World} {m : EventMsg}

theorem fdbKvGet_ne_none {value : List UInt8} (hne : value ≠ [])
    (hstr : fdbIsStr (value.take fdbStrKvValueMaxSize) = true) : fdbKvGet ⟨some value⟩ ≠ none := by
  have hlen : 0 < (value.take fdbStrKvValueMaxSize).length := by
    have := List.length_pos_iff.mpr hne
    simp only [List.length_take, fdbStrKvValueMaxSize]
    omega
  simp only [fdbKvGet]
  rw [if_pos ⟨hlen, hstr⟩]
  exact Option.some_ne_none _

theorem keypadChars_print {s : List UInt8} (h : ∀ c ∈ s, c ∈ keypadChars) :
    fdbIsStr s = true := by
  have hall : ∀ c ∈ keypadChars, isPrint c = true := by decide +kernel
  exact List.all_eq_true.mpr fun c hc => hall c (h c hc)

/-- What is stored for a text that meets the condition can be read. -/
theorem readBack16_readable {text after : List UInt8} (hne : text ≠ [])
    (hkeypad : ∀ c ∈ text, c ∈ keypadChars)
    (hafter : 16 ≤ text.length → fdbIsStr ((cstr after).take (fdbStrKvValueMaxSize - 16)) = true) :
    fdbKvGet ⟨some (readBack16 text after)⟩ ≠ none := by
  by_cases hlt : text.length < 16
  · rw [readBack16_of_lt hlt]
    exact fdbKvGet_ne_none hne (keypadChars_print fun c hc => hkeypad c (List.mem_of_mem_take hc))
  · have hle : 16 ≤ text.length := Nat.not_lt.mp hlt
    have h16 : (text.take 16).length = 16 := by
      rw [List.length_take]
      omega
    rw [readBack16_of_le hle]
    refine fdbKvGet_ne_none ?_ ?_
    · intro hnil
      rw [(List.append_eq_nil_iff.mp hnil).1] at h16
      cases h16
    · rw [List.take_append, h16, fdbIsStr, List.all_append, Bool.and_eq_true]
      refine ⟨keypadChars_print fun c hc => hkeypad c ?_, hafter hle⟩
      exact List.mem_of_mem_take (List.mem_of_mem_take hc)

/-- Every request to alter the password carries a readable one. -/
theorem newPasw_readable (h : RunFrom env kv tr w) (hC : ∀ l ∈ tr, KeepsPasw env l.pre l.act)
    (hm : m ∈ w.queueSystem) {s : ServSysopMsg} (hc : m.content = .servSysop s) :
    fdbKvGet ⟨some (cstr s.opPara.newPaswStr)⟩ ≠ none := by
  rcases queued_origin (q := .system) h hm with rfl | ⟨p, l, q, htr, hpub⟩
  · cases hc
  have hp := (Run.split h htr).1
  have hposts := hpub.posts hp
  rw [hc] at hposts
  generalize hact : l.act = act at hposts
  generalize m.sender = sd at hposts
  generalize m.recver = rv at hposts
  generalize m.eventStruct = t at hposts
  generalize hs : MsgContent.servSysop s = ct at hposts
  cases hposts with
  | @confirmAlter k hk hkey hpeek =>
    obtain rfl := MsgContent.servSysop.inj hs
    have hconf : k ∈ alterConfirmation l.pre l.act := by
      simp [hact, alterConfirmation, hk, hkey.sender, hkey.content, hpeek, Option.filter]
    obtain ⟨hne, hafter⟩ := hC l (by simp [htr]) k hconf
    rw [cstr_newPaswStr]
    exact readBack16_readable hne (ui_typed hp .pswAlter) hafter
  | trusted _ _ _ _ ho =>
    subst hs
    simp [trustedAuth] at ho
  | _ => cases hs

theorem bootKvdb_readable (kv : Kvdb) : fdbKvGet (bootKvdb kv) ≠ none := by
  unfold bootKvdb
  cases hkv : fdbKvGet kv with
  | none => exact (by decide +kernel : fdbKvGet ⟨some (cstr (lit "0000"))⟩ ≠ none)
  | some pasw => simp [hkv]

/-- Since the last boot, the stored password could always be read. -/
theorem pasw_readable (h : RunFrom env kv tr w) (hC : ∀ l ∈ tr, KeepsPasw env l.pre l.act) :
    fdbKvGet w.kvdb ≠ none := by
  induction h with
  | nil => exact bootKvdb_readable kv
  | @snoc tr w a w' hrun hs ih =>
    have hC' : ∀ l ∈ tr, KeepsPasw env l.pre l.act :=
      fun l hl => hC l (List.mem_append_left _ hl)
    rcases kvdb_step hs with heq | ⟨-, m, x, hm, hx, heq⟩
    · rw [heq]
      exact ih hC'
    · rw [heq]
      by_cases hne : x.1 = w.kvdb
      · rw [hne]
        exact ih hC'
      · obtain ⟨s, pasw, -, hc, -, -, -, hset⟩ := systemService_kv_ne hx hne
        rw [hset]
        exact newPasw_readable hrun hC' (List.mem_of_head? hm) hc

end

/-! ## Runs with reboots -/

/-- The device is powered on and may be rebooted between any two steps, in surroundings that differ
from one boot to the next. The labels of all its steps are kept. -/
inductive Powered (kv₀ : Kvdb) : List (Env × Label World Action) → Env → World → Prop
  | on (env : Env) : Powered kv₀ [] env (boot kv₀)
  | step {tr env w a w'} (h : Powered kv₀ tr env w) (hs : DoorLock.step env w a = .ok w') :
      Powered kv₀ (tr ++ [(env, ⟨w, a, w'⟩)]) env w'
  | reboot {tr env w} (h : Powered kv₀ tr env w) (env' : Env) :
      Powered kv₀ tr env' (boot w.kvdb)

theorem Powered.since_boot {kv₀ : Kvdb} {tr : List (Env × Label World Action)} {env : Env}
    {w : World} (h : Powered kv₀ tr env w) :
    ∃ kv seg, RunFrom env kv seg w ∧ ∀ l ∈ seg, (env, l) ∈ tr := by
  induction h with
  | on env => exact ⟨kv₀, [], .nil, by simp⟩
  | step _ hs ih =>
    obtain ⟨kv, seg, hrun, hmem⟩ := ih
    refine ⟨kv, seg ++ [⟨_, _, _⟩], hrun.snoc hs, ?_⟩
    intro l hl
    rcases List.mem_append.mp hl with hl | hl
    · exact List.mem_append_left _ (hmem l hl)
    · rw [List.mem_singleton.mp hl]
      exact List.mem_append_right _ (List.mem_singleton_self _)
  | reboot _ env' _ => exact ⟨_, [], .nil, by simp⟩

theorem Powered.of_run {kv₀ : Kvdb} {tr : List (Label World Action)} {env : Env} {w : World}
    (h : RunFrom env kv₀ tr w) : Powered kv₀ (tr.map fun l => (env, l)) env w := by
  induction h with
  | nil => exact .on env
  | snoc _ hs ih =>
    rw [List.map_append]
    exact .step ih hs

/-- In every run with reboots in which each new password that is confirmed meets the condition,
`system_service` never passes `NULL` to `strcmp`, and a reboot behind it finds the password. -/
theorem credential_kept {kv₀ : Kvdb} {tr : List (Env × Label World Action)} {env : Env} {w : World}
    (h : Powered kv₀ tr env w) (hC : ∀ l ∈ tr, KeepsPasw l.1 l.2.pre l.2.act) :
    fdbKvGet w.kvdb ≠ none ∧ step env w .system ≠ .error (.fault .nullPasw) ∧
      bootKvdb w.kvdb = w.kvdb := by
  obtain ⟨kv, seg, hrun, hmem⟩ := h.since_boot
  have hget := pasw_readable hrun fun l hl => hC _ (hmem l hl)
  refine ⟨hget, ?_, ?_⟩
  · intro hstep
    simp only [step, stepSystem] at hstep
    split at hstep
    · cases hstep
    · exact hget ((systemService_error (handled_fault.mp hstep)).resolve_right nofun).2
  · obtain ⟨pasw, hp⟩ := Option.ne_none_iff_exists'.mp hget
    rw [bootKvdb, hp]

/-- The keys that alter `0000` to a new password, up to the write to the flash. -/
def alterBy (ks : List Key) : List Action :=
  press [.enter, .down, .enter, .k0, .k0, .k0, .k0, .dash] ++ [.system, .ui] ++ press ks ++
    [.system]

theorem credential_kept_1234 :
    fdbKvGet (after (step quietEnv) (boot defaultKvdb) (alterBy [.k1, .k2, .k3, .k4, .dash])).kvdb ≠
      none :=
  (credential_kept (.of_run (Run.of_isOk _ (by decide +kernel)))
    (by decide +kernel)).1

/-- The device after an empty new password was confirmed. -/
def emptyPasw : World := after (step quietEnv) (boot defaultKvdb) (alterBy [.dash])

/-- The next password that is checked makes `strcmp` dereference `NULL`; a reboot restores the
default password. -/
theorem emptyPasw_unreadable : (∃ tr, Powered defaultKvdb tr quietEnv emptyPasw) ∧
    fdbKvGet emptyPasw.kvdb = none ∧ (bootKvdb emptyPasw.kvdb).doorlockPasw = some (lit "0000") ∧
    exec (step quietEnv) emptyPasw
      ([.ui, .system] ++ press [.return, .return, .k1, .dash] ++ [.system]) =
        .error (.fault .nullPasw) :=
  ⟨⟨_, .of_run (Run.of_isOk _ (by decide +kernel))⟩, by decide +kernel,
    by decide +kernel, refused_eq_some.mp (by decide +kernel)⟩

end DoorLock
