import DoorLock.PaswCopy
import DoorLock.Origin
import DoorLock.DoorMessage

/-!
# Altering the password and checking it

The old password confirmed, the answer to it, the new password confirmed and the operation carried
out, from message to message; then a text confirmed and checked against what was stored. The round
trip holds for texts that leave room for a terminator in sixteen bytes, and for no others.
-/

namespace DoorLock

open CString

/-- `s`, confirmed with `#` on `page`, is published as `o`. -/
structure ConfirmedAs (env : Env) (page : Page) (s : List UInt8) (u : Ui) (o : Out) : Prop where
  peek : u.peek = some page
  text : u.text page = s
  sent : ∃ k x, k.IsKey keyHash ∧ uiEventHandler env u k = .ok x ∧ o ∈ x.2

/-- `event_publish(SERV_UI, SERV_AUTH, ..)` -/
def authOut (e : AuthEvent) : Out := .publish .servUi .servAuth (.authEvent e) .authEvent

/-- `event_publish(SERV_UI, SERV_SYSOP, ..)` -/
def sysopOut (s : ServSysopMsg) : Out := .publish .servUi .servSysop (.servSysop s) .servSysop

/-- `system_service` answers the request `e` with `r`. -/
def Answers (env : Env) (kv : Kvdb) (e : AuthEvent) (r : AuthResult) : Prop :=
  ∃ addr x recver, systemService env kv (authRequest .servUi addr e) = .ok x ∧
    .publish .servAuth recver (.authResult r) .authResult ∈ x.2

/-- `c` is confirmed on the page for the old password and answered with `r`, then `w` on the page
for the new password; `kv'` is what carrying out the operation leaves. The UI may do other things
in between, as long as the grant is kept. -/
inductive Alters (env : Env) (kv : Kvdb) (c w : List UInt8) (r : AuthResult) (kv' : Kvdb) : Prop
  | intro {u₁ u₂ u₃ : Ui} {e : AuthEvent} {s : ServSysopMsg} {addr₂ addr₃ : Nat}
      {x₂ : Ui × List Out} {outs : List Out}
      (launched : u₁.pswAuthCache = launchCache (some .paswAlter))
      (old : ConfirmedAs env .pswAuth c u₁ (authOut e))
      (answer : Answers env kv e r)
      (told : uiEventHandler env u₂ ⟨.servAuth, .servUi, .authResult, addr₂, .authResult r⟩ =
        .ok x₂)
      (kept : u₃.pswAlterCache = x₂.1.pswAlterCache)
      (new : ConfirmedAs env .pswAlter w u₃ (sysopOut s))
      (done : systemService env kv ⟨.servUi, .servSysop, .servSysop, addr₃, .servSysop s⟩ =
        .ok (kv', outs))

/-- `t` is confirmed on the password page and answered with `r`. -/
def Checks (env : Env) (kv : Kvdb) (t : List UInt8) (r : AuthResult) : Prop :=
  ∃ u e, ConfirmedAs env .pswAuth t u (authOut e) ∧ Answers env kv e r

/-- The stored password `c` is accepted, altering it to `w` stores exactly `w`, and from then on
a text is reported valid just when it is `w`; whatever lies behind the arrays. -/
def RoundTrips (c w : List UInt8) : Prop :=
  ∀ env kv r kv', (∀ addr, env.kvOk addr = true) → fdbKvGet kv = some c →
    Alters env kv c w r kv' →
      r.paswValid = 1 ∧ kv'.doorlockPasw = some w ∧
        ∀ t r', PageText t → Checks env kv' t r' → (r'.paswValid = 1 ↔ t = w)

section
variable {env : Env} {kv kv' : Kvdb} {c s w t : List UInt8} {u : Ui} {e : AuthEvent}
  {r : AuthResult}

/-! ## The steps, one after another -/

theorem ConfirmedAs.auth (h : ConfirmedAs env .pswAuth s u (authOut e)) :
    ∃ addr, e = authEventOf env addr u := by
  obtain ⟨k, x, -, hx, ho⟩ := h.sent
  have hpub := mem_published.mpr ho
  have hchange := uiEventHandler_change hx
  generalize published x.2 = outs at hpub hchange
  cases hchange with
  | agree _ | launch _ _ | home _ _ | typed _ _ _ _ _ _ _ | grant _ _ => simp at hpub
  | confirmAuth _ _ _ =>
    cases List.mem_singleton.mp hpub
    exact ⟨_, rfl⟩
  | confirmAlter _ _ _ => cases List.mem_singleton.mp hpub

theorem ConfirmedAs.sysop {m : ServSysopMsg} (h : ConfirmedAs env .pswAlter s u (sysopOut m)) :
    ∃ addr, m = servSysopOf env addr u := by
  obtain ⟨k, x, -, hx, ho⟩ := h.sent
  have hpub := mem_published.mpr ho
  have hchange := uiEventHandler_change hx
  generalize published x.2 = outs at hpub hchange
  cases hchange with
  | agree _ | launch _ _ | home _ _ | typed _ _ _ _ _ _ _ | grant _ _ => simp at hpub
  | confirmAuth _ _ _ => cases List.mem_singleton.mp hpub
  | confirmAlter _ _ _ =>
    cases List.mem_singleton.mp hpub
    exact ⟨_, rfl⟩

theorem Answers.eq (h : Answers env kv e r) (he : e.trusted = false) :
    ∃ addr corrPasw, fdbKvGet kv = some corrPasw ∧ r = authResultOf env addr corrPasw e := by
  obtain ⟨addr, x, recver, hx, ho⟩ := h
  obtain ⟨corrPasw, hp, rfl⟩ := systemService_untrusted rfl rfl rfl he hx
  refine ⟨addr, corrPasw, hp, ?_⟩
  have hmem : .publish .servAuth recver (.authResult r) .authResult ∈
      untrustedAuth env addr corrPasw e := by simpa [authRequest] using ho
  rcases mem_untrustedAuth hmem with ⟨prefab, ho⟩ | ho
  · cases ho
  · cases ho
    rfl

/-- A text is reported valid just when what is read back of it is the stored password. -/
theorem Checks.valid_iff (h : Checks env kv t r) (hkv : fdbKvGet kv = some w) (hw : NoNul w) :
    ∃ addr, r.paswValid = 1 ↔ w = readBack16 t (env.paswAfter addr) := by
  obtain ⟨u, e, hconf, hans⟩ := h
  obtain ⟨addr, rfl⟩ := hconf.auth
  obtain ⟨addr', corrPasw, hp, rfl⟩ := hans.eq rfl
  obtain rfl : corrPasw = w := by simpa [hkv, eq_comm] using hp
  exact ⟨addr, by rw [authResultOf_paswValid _ _ hw, cstr_paswStr, hconf.text]⟩

/-- What is compared with the stored password before it is altered: fifteen characters of the old
password that was accepted. -/
theorem cstr_grant_of_answer {u₁ u₂ u₃ : Ui} {addr addr₁ addr₂ addr₃ : Nat}
    {x : Ui × List Out} (launched : u₁.pswAuthCache = launchCache (some .paswAlter))
    (hr : r = authResultOf env addr c (authEventOf env addr₁ u₁)) (hv : r.paswValid = 1)
    (hc : NoNul c)
    (told : uiEventHandler env u₂ ⟨.servAuth, .servUi, .authResult, addr₂, .authResult r⟩ = .ok x)
    (kept : u₃.pswAlterCache = x.1.pswAlterCache) :
    cstr (servSysopOf env addr₃ u₃).grantStr = c.take 15 := by
  have hfor : r.authFor = .paswAlter := by
    rw [hr, authResultOf, authEventOf, launched]
    rfl
  have hx : x.1 = grantAlter u₂ r := by
    have hne : r.paswValid ≠ 0 := by rw [hv]; decide
    simp only [uiEventHandler, reduceCtorEq, if_false, uiAuth, hfor, if_pos hne, thenFree,
      Except.map, Except.ok.injEq] at told
    rw [← told]
    rfl
  have hcarried : cstr r.paswStr = c.take 15 := by
    have hcorr : c = cstr (authEventOf env addr₁ u₁).paswStr :=
      (authResultOf_paswValid _ _ hc _).mp (hr ▸ hv)
    rw [hr, cstr_authResult_paswStr, ← hcorr]
  have hcache : cstr u₃.pswAlterCache = c.take 15 := by
    rw [kept, hx, cstr_grantAlter, hcarried, List.take_take]
    rfl
  rw [cstr_grantStr, hcache]
  exact readBack16_of_lt (by rw [List.length_take]; omega)

/-- What carrying out an alteration of the stored password leaves. -/
theorem Alters.kv_eq (h : Alters env kv c w r kv') (hok : ∀ addr, env.kvOk addr = true)
    (hkv : fdbKvGet kv = some c) (hc : NoNul c) :
    ∃ addr addr', (r.paswValid = 1 ↔ c = readBack16 c (env.paswAfter addr)) ∧
      (r.paswValid = 1 → kv' =
        if c = c.take 15 then ⟨some (readBack16 w (env.newPaswAfter addr'))⟩ else kv) := by
  obtain @⟨u₁, u₂, u₃, e, s, addr₂, addr₃, x, outs,
    launched, old, answer, told, kept, new, done⟩ := h
  obtain ⟨addr₁, rfl⟩ := old.auth
  obtain ⟨addr, corrPasw, hp, rfl⟩ := answer.eq rfl
  obtain rfl : corrPasw = c := by simpa [hkv, eq_comm] using hp
  obtain ⟨addr₄, rfl⟩ := new.sysop
  refine ⟨addr₁, addr₄, ?_, fun hv => ?_⟩
  · rw [authResultOf_paswValid _ _ hc, cstr_paswStr, old.text]
  · have hgrant : cstr (servSysopOf env addr₄ u₃).grantStr = corrPasw.take 15 :=
      cstr_grant_of_answer launched rfl hv hc told kept
    obtain ⟨paswOld, hp', hkv'⟩ := systemService_paswAlter rfl rfl rfl rfl done
    obtain rfl : paswOld = corrPasw := by simpa [hkv, eq_comm] using hp'
    have hstrcmp : strcmpEq paswOld (servSysopOf env addr₄ u₃).grantStr = true ↔
        paswOld = paswOld.take 15 := by rw [strcmpEq_iff, hgrant, cstr_of_noNul hc]
    simp only [hstrcmp, hok, and_true] at hkv'
    rw [hkv', fdbKvSet, cstr_newPaswStr, new.text]

/-! ## Texts that leave room for a terminator -/

theorem readBack16_eq_iff {after : List UInt8} (hw : w.length ≤ 15) :
    w = readBack16 t after ↔ t = w := by
  by_cases ht : t.length < 16
  · rw [readBack16_of_lt ht, eq_comm]
  · have hle : 16 ≤ (readBack16 t after).length := le_length_readBack16 (Nat.not_lt.mp ht)
    constructor
    · intro h
      rw [← h] at hle
      omega
    · rintro rfl
      omega

theorem roundTrips_of_short (hc : PageText c) (hc' : c.length ≤ 15) (hw : PageText w)
    (hwne : w ≠ []) (hw' : w.length ≤ 15) : RoundTrips c w := by
  intro env kv r kv' hok hkv halt
  obtain ⟨addr, addr', hvalid, hkv'⟩ := halt.kv_eq hok hkv hc.noNul
  have hv : r.paswValid = 1 := hvalid.mpr ((readBack16_eq_iff hc').mpr rfl)
  have hstored : kv' = ⟨some w⟩ := by
    rw [hkv' hv, if_pos (List.take_of_length_le hc').symm, readBack16_of_lt (by omega)]
  refine ⟨hv, by rw [hstored], fun t r' _ hcheck => ?_⟩
  obtain ⟨addr₂, hr'⟩ := hcheck.valid_iff (hstored ▸ hw.fdbKvGet hwne) hw.noNul
  exact hr'.trans (readBack16_eq_iff hw')

/-! ## Texts that do not -/

/-- A UI with `s` typed on the page `p`, which was opened over the home page. -/
def pageUi (p : Page) (s pswAlterCache : List UInt8) : Ui :=
  { appInit with
    stack := ⟨[p, .home], by simp [activityStackDepthMax]⟩
    inputPage := fun _ => ⟨[], strncpy s 64, []⟩
    pswAuthCache := launchCache (some .paswAlter)
    pswAlterCache := pswAlterCache }

/-- The message of `#`. -/
def hashMsg : EventMsg := ⟨.hwInpt, .servUi, .inptEvent, 1, .inptEvent ⟨keyHash⟩⟩

theorem pageUi_text (p : Page) (hs : PageText s) (cache : List UInt8) :
    (pageUi p s cache).text p = s := by
  have hlen : (cstr s).length < 64 := by
    rw [hs.cstr_eq]
    exact Nat.lt_succ_of_le hs.length_le
  have h := cstr_strncpy_append hlen []
  rw [List.append_nil, hs.cstr_eq] at h
  exact h

theorem confirmedAs_auth (env : Env) (hs : PageText s) (cache : List UInt8) :
    ConfirmedAs env .pswAuth s (pageUi .pswAuth s cache)
      (authOut (authEventOf env 1 (pageUi .pswAuth s cache))) where
  peek := rfl
  text := pageUi_text _ hs cache
  sent := ⟨hashMsg, _, ⟨rfl, rfl⟩, rfl, .head _⟩

theorem confirmedAs_alter (env : Env) (hs : PageText s) (cache : List UInt8) :
    ConfirmedAs env .pswAlter s (pageUi .pswAlter s cache)
      (sysopOut (servSysopOf env 1 (pageUi .pswAlter s cache))) where
  peek := rfl
  text := pageUi_text _ hs cache
  sent := ⟨hashMsg, _, ⟨rfl, rfl⟩, rfl, .head _⟩

theorem exists_answers (hp : fdbKvGet kv = some c) (he : e.trusted = false)
    (hr : e.authResultRespondTo ≠ .noOne) : Answers env kv e (authResultOf env 1 c e) := by
  refine ⟨1, (kv, untrustedAuth env 1 c e ++ [.free]), e.authResultRespondTo, ?_, ?_⟩
  · rw [systemService_authRequest, systemAuth, if_neg (by simp [he]), hp]
    rfl
  · simp [untrustedAuth, hr]

/-- The four steps can be taken whatever was typed. -/
theorem exists_alters (env : Env) (hp : fdbKvGet kv = some c) (hc : PageText c)
    (hw : PageText w) : ∃ r kv', Alters env kv c w r kv' := by
  obtain ⟨r, hans⟩ : ∃ r, Answers env kv (authEventOf env 1 (pageUi .pswAuth c [])) r :=
    ⟨_, exists_answers hp rfl nofun⟩
  let cache := (uiAuth appInit r).pswAlterCache
  have htold : uiEventHandler env appInit
      ⟨.servAuth, .servUi, .authResult, 1, .authResult r⟩ = .ok (uiAuth appInit r, [.free]) := rfl
  let s := servSysopOf env 1 (pageUi .pswAlter w cache)
  obtain ⟨kv', outs, hdone⟩ : ∃ kv' outs, systemService env kv
      ⟨.servUi, .servSysop, .servSysop, 1, .servSysop s⟩ = .ok (kv', outs) := by
    have hop : s.operation = .paswAlter := rfl
    simp only [systemService, reduceCtorEq, and_self, if_true, if_false, systemSysop, hop, hp]
    split <;> (try split) <;> exact ⟨_, _, rfl⟩
  have hkept : (pageUi .pswAlter w cache).pswAlterCache = (uiAuth appInit r).pswAlterCache := rfl
  exact ⟨r, kv', ⟨rfl, confirmedAs_auth env hc [], hans, htold, hkept,
    confirmedAs_alter env hw cache, hdone⟩⟩

theorem exists_checks (env : Env) (hp : fdbKvGet kv = some w) (ht : PageText t) :
    ∃ r, Checks env kv t r :=
  ⟨_, pageUi .pswAuth t [], _, confirmedAs_auth env ht [], exists_answers hp rfl nofun⟩

/-- Sixteen characters and more of an old password are accepted when the bytes behind the array
continue them, and so is another text; the grant is cut short, and nothing is altered. -/
theorem not_roundTrips_of_long_old (hc : PageText c) (hc' : 16 ≤ c.length) (hw : PageText w) :
    ¬ RoundTrips c w := by
  intro h
  let after := c.drop 16 ++ [0]
  let env : Env := { quietEnv with paswAfter := fun _ => after }
  have hafter : cstr after = c.drop 16 := cstr_terminated (fun d hd =>
    hc.noNul d (List.mem_of_mem_drop hd)) []
  have hne : c ≠ [] := by rintro rfl; simp at hc'
  have hkv := hc.fdbKvGet hne
  obtain ⟨r, kv', halt⟩ := exists_alters env hkv hc hw
  obtain ⟨-, hstored, hcheck⟩ := h env ⟨some c⟩ r kv' (fun _ => rfl) hkv halt
  obtain ⟨addr, addr', hvalid, hkv'⟩ := halt.kv_eq (fun _ => rfl) hkv hc.noNul
  have hv : r.paswValid = 1 := by
    rw [hvalid, readBack16_of_le hc', hafter, List.take_append_drop]
  have hcut : c ≠ c.take 15 := by
    intro heq
    have := congrArg List.length heq
    rw [List.length_take] at this
    omega
  rw [hkv' hv, if_neg hcut] at hstored hcheck
  obtain rfl : c = w := by simpa using hstored
  -- another text that is read back as the stored password
  let t := c.take 16 ++ if c.length = 16 then [0x30] else []
  have ht : PageText t := by
    refine ⟨?_, fun d hd => ?_⟩
    · simp only [t, List.length_append, List.length_take]
      have hlen : (if c.length = 16 then [0x30] else ([] : List UInt8)).length ≤ 1 := by
        split <;> simp
      omega
    · rcases List.mem_append.mp hd with hd | hd
      · exact hc.keypad d (List.mem_of_mem_take hd)
      · split at hd
        · rw [List.mem_singleton.mp hd]
          decide
        · cases hd
  have htake : t.take 16 = c.take 16 := by
    rw [List.take_append_of_le_length (by simp; omega), List.take_take]
    rfl
  obtain ⟨r', hr'⟩ := exists_checks env hkv ht
  obtain ⟨addr₂, hvalid'⟩ := hr'.valid_iff hkv hc.noNul
  have ht16 : 16 ≤ t.length := by
    simp only [t, List.length_append, List.length_take]
    omega
  have hv' : r'.paswValid = 1 := by
    rw [hvalid', readBack16_of_le ht16, htake, hafter, List.take_append_drop]
  have heq := congrArg List.length ((hcheck t r' ht hr').mp hv')
  simp only [t, List.length_append, List.length_take] at heq
  split at heq <;> simp at heq <;> omega

/-- Sixteen characters and more of a new password are stored as something else. -/
theorem not_roundTrips_of_long_new (hc : PageText c) (hcne : c ≠ []) (hc' : c.length ≤ 15)
    (hw : PageText w) (hw' : 16 ≤ w.length) : ¬ RoundTrips c w := by
  intro h
  let after : List UInt8 := if w.length = 16 then [0x30] else []
  let env : Env := { quietEnv with newPaswAfter := fun _ => after }
  have hkv := hc.fdbKvGet hcne
  obtain ⟨r, kv', halt⟩ := exists_alters env hkv hc hw
  obtain ⟨hv, hstored, -⟩ := h env ⟨some c⟩ r kv' (fun _ => rfl) hkv halt
  obtain ⟨addr, addr', -, hkv'⟩ := halt.kv_eq (fun _ => rfl) hkv hc.noNul
  rw [hkv' hv, if_pos (List.take_of_length_le hc').symm, readBack16_of_le hw',
    Option.some.injEq] at hstored
  have heq := congrArg List.length hstored
  simp only [env, after, List.length_append, List.length_take] at heq
  split at heq
  · rw [show cstr [0x30] = [0x30] from rfl, List.length_singleton] at heq
    omega
  · simp at heq
    omega

end

/-- Altering and checking round-trip just for passwords of at most fifteen characters. -/
theorem roundTrips_iff {c w : List UInt8} (hc : PageText c) (hcne : c ≠ []) (hw : PageText w)
    (hwne : w ≠ []) : RoundTrips c w ↔ c.length ≤ 15 ∧ w.length ≤ 15 := by
  constructor
  · intro h
    have hc' : c.length ≤ 15 := by
      by_contra hlong
      exact not_roundTrips_of_long_old hc (by omega) hw h
    refine ⟨hc', ?_⟩
    by_contra hlong
    exact not_roundTrips_of_long_new hc hcne hc' hw (by omega) h
  · rintro ⟨hc', hw'⟩
    exact roundTrips_of_short hc hc' hw hwne hw'

theorem pageText_default : PageText (lit "0000") := ⟨by decide +kernel, by decide +kernel⟩

theorem roundTrips_iff_default : RoundTrips (lit "0000") (lit "1234") ↔
    (lit "0000").length ≤ 15 ∧ (lit "1234").length ≤ 15 :=
  roundTrips_iff pageText_default (by decide +kernel) ⟨by decide +kernel, by decide +kernel⟩
    (by decide +kernel)

/-- A new password of sixteen digits. -/
theorem not_roundTrips_sixteen : ¬ RoundTrips (lit "0000") (lit "1234567812345678") :=
  not_roundTrips_of_long_new pageText_default (by decide +kernel) (by decide +kernel)
    ⟨by decide +kernel, by decide +kernel⟩ (by decide +kernel)

end DoorLock
