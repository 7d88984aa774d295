import DoorLock.Identify
import DoorLock.UiStep

/-!
# How a fingerprint job ends

Every exit of a job is traced to the replies that lead to it, and what the job has told the UI by
then is counted.
-/

namespace DoorLock

open Fuel (Stable Ends ends_const ends_bind)

variable {fg : FgModule} {r r' : FgReader} {ok : Bool}

/-! ## More fuel -/

section
variable (fg : FgModule) (r : FgReader)

theorem fgWakeLoop_stable (startTick : TickType) : Stable fun n => fgWakeLoop fg startTick n r := by
  intro n a r' h
  dsimp only at h ⊢
  induction n generalizing r with
  | zero => cases h
  | succ n ih =>
    unfold fgWakeLoop at h ⊢
    split
    · rename_i ht
      rw [if_pos ht] at h
      dsimp only at h ⊢
      split
      · rename_i hrx
        rw [if_pos hrx] at h
        exact h
      · rename_i hrx
        rw [if_neg hrx] at h
        exact ih _ h
    · rename_i ht
      rw [if_neg ht] at h
      exact h

theorem fgWake_stable : Stable fun n => fgWake fg n r := by
  refine stable_andThen (fgWakeLoop_stable fg _ _) fun _ r₁ => ?_
  refine stable_andThen (fgTransmit_stable fg _ r₁) fun _ r₂ => ?_
  exact stable_andThen (fgTransmit_stable fg _ r₂) fun _ _ => .const _

theorem fgDelAllfg_stable : Stable fun n => fgDelAllfg fg n r :=
  stable_andThen (fgTransmit_stable fg _ r) fun _ _ => .const _

end

/-! ## Events that close the fingerprint page -/

/-- The success and failure events of the modes that open a page. -/
def FgEvent.terminal (e : FgEvent) : Bool :=
  match e.fgStatus, e.fgJobProgress with
  | .enroll, .jobDoneSucc | .enroll, .progessDoneFail
  | .searchNSignin, .jobDoneSucc | .searchNSignin, .jobDoneFail
  | .delAll, .jobDoneSucc | .delAll, .jobDoneFail => true
  | _, _ => false

/-- A terminal event makes the UI call `activity_back`, at once or by a deferred call; no other
event does. -/
theorem terminal_iff {addr : Nat} {u u' : Ui} {e : FgEvent} {outs : List Out}
    (h : uiFg addr u e = .ok (u', outs)) :
    e.terminal = true ↔ fgOp e = .back ∨ ∃ ms, outs = [.invoke ms (.activityBack addr)] := by
  have hthen {x : Except Fault Ui} {o : List Out}
      (h : (x.bind fun u => .ok (u, o)) = .ok (u', outs)) : outs = o := by
    cases x with
    | error => cases h
    | ok u => exact (Prod.mk.inj (Except.ok.inj h)).2.symm
  obtain ⟨status, progress, detail⟩ := e
  cases status <;> cases progress <;>
    first
      | (obtain rfl := hthen h; simp [FgEvent.terminal, fgOp])
      | (cases h; simp [FgEvent.terminal, fgOp])

/-- A terminal event on its way to the UI. -/
def Out.terminal : Out → Bool
  | .publish .hwFg .servUi (.fgEvent e) .fgEvent => e.terminal
  | _ => false

@[simp] theorem trustedEvent_terminal (id : UInt16) : (trustedEvent id).terminal = false := rfl

/-- How many terminal events the job has published. -/
def FgReader.told (r : FgReader) : Nat := r.published.countP Out.terminal

@[simp] theorem publish_told (r : FgReader) (o : Out) :
    (r.publish o).told = r.told + if o.terminal then 1 else 0 := by
  simp [FgReader.told, FgReader.publish, List.countP_append, List.countP_singleton]

theorem publishEvent_told (r : FgReader) (progress : FgProgress) (detail : UInt8) :
    (r.publishEvent progress detail).told =
      r.told + if FgEvent.terminal ⟨r.sFgState, progress, detail⟩ then 1 else 0 :=
  publish_told r _

theorem Exchange.told {tx : List UInt8} (h : Exchange fg tx r ok r') : r'.told = r.told := by
  rw [FgReader.told, h.published, FgReader.told]

/-! ## The exits of an enrolment -/

/-- How the loop of `fg_enroll` ends. -/
inductive EnrollEnd
  | timeout
  | failure (detail : Option UInt8)
  | accepted

/-- The ends that the UI is told of. -/
def EnrollEnd.told : EnrollEnd → Bool
  | .timeout | .failure none => false
  | .failure (some _) | .accepted => true

def EnrollEnd.result : EnrollEnd → Bool
  | .accepted => true
  | _ => false

/-- The report that an exchange without a command left in the buffer. -/
def FgReader.report (r : FgReader) : EnrollReport := enrollReport (r.rx 9) (r.rx 10) (r.rx 11)

/-- A round of the loop of `fg_enroll` after its exchange: the loop goes on with a start time, or
it ends. -/
def afterReport (fg : FgModule) (t : TickType) (ok : Bool) (r : FgReader) :
    (TickType × FgReader) ⊕ (EnrollEnd × FgReader) :=
  if !ok then .inl (t, r)
  else
    match r.report with
    | .next false => .inl (t, r)
    | .next true => .inl (fg.tick r.uart.calls, r)
    | .touchDone touch => .inl (fg.tick r.uart.calls, r.publishEvent .progessDoneSucc touch)
    | .success => .inr (.accepted, r.publishEvent .jobDoneSucc 0)
    | .failure none => .inr (.failure none, r)
    | .failure (some detail) =>
      .inr (.failure (some detail), r.publishEvent .progessDoneFail detail)

/-- The loop has not timed out. -/
def InTime (fg : FgModule) (t : TickType) (r : FgReader) : Prop :=
  fg.tick r.uart.calls - t < pdMsToTicks 5000

instance (t : TickType) : Decidable (InTime fg t r) := inferInstanceAs (Decidable (_ < _))

/-- The runs of the loop of `fg_enroll`, one report after another. -/
inductive Enrols (fg : FgModule) : TickType → FgReader → EnrollEnd → FgReader → Prop
  | timeout {t r} : ¬ InTime fg t r → Enrols fg t r .timeout r
  | ended {t r ok r₁ e r'} : InTime fg t r → Exchange fg [] r ok r₁ →
      afterReport fg t ok r₁ = .inr (e, r') → Enrols fg t r e r'
  | again {t r ok r₁ t' r₂ e r'} : InTime fg t r → Exchange fg [] r ok r₁ →
      afterReport fg t ok r₁ = .inl (t', r₂) → Enrols fg t' r₂ e r' → Enrols fg t r e r'

/-- The loop as rounds. -/
def enrollRound (fg : FgModule) (t : TickType) (n : Nat) (ok : Bool) (r : FgReader) :
    Returns Bool :=
  match afterReport fg t ok r with
  | .inl (t', r₂) => fgEnrollLoop fg n t' r₂
  | .inr (e, r') => (some e.result, r')

theorem fgEnrollLoop_succ (n : Nat) (t : TickType) (r : FgReader) :
    fgEnrollLoop fg (n + 1) t r =
      if InTime fg t r then (fgTransmit fg n [] r).andThen (enrollRound fg t n)
      else (some false, r) := by
  rw [fgEnrollLoop]
  refine if_congr Iff.rfl ?_ rfl
  congr 1
  funext ok r₁
  unfold enrollRound afterReport
  cases ok with
  | false => rfl
  | true =>
    rw [if_neg (by decide), if_neg (by decide), FgReader.report]
    cases enrollReport (r₁.rx 9) (r₁.rx 10) (r₁.rx 11) with
    | next reset => cases reset <;> rfl
    | touchDone touch => rfl
    | success => rfl
    | failure detail => cases detail <;> rfl

theorem fgEnrollLoop_stable (fg : FgModule) (t : TickType) (r : FgReader) :
    Stable fun n => fgEnrollLoop fg n t r := by
  intro n a r' h
  dsimp only at h ⊢
  induction n generalizing t r with
  | zero => cases h
  | succ n ih =>
    rw [fgEnrollLoop_succ] at h ⊢
    split
    · rename_i ht
      rw [if_pos ht, Returns.andThen_eq_some] at h
      obtain ⟨ok, r₁, hx, h⟩ := h
      refine Returns.andThen_eq_some.mpr ⟨ok, r₁, fgTransmit_stable fg [] r hx, ?_⟩
      unfold enrollRound at h ⊢
      cases hrep : afterReport fg t ok r₁ with
      | inl next =>
        rw [hrep] at h
        exact ih _ _ h
      | inr e =>
        rw [hrep] at h
        exact h
    · rename_i ht
      rw [if_neg ht] at h
      exact h

theorem fgEnroll_stable (fg : FgModule) (r : FgReader) (id : UInt16) :
    Stable fun n => fgEnroll fg n id r := by
  unfold fgEnroll
  split
  · exact .const _
  · exact fgEnrollLoop_stable fg _ _

theorem enrollRound_stable (fg : FgModule) (t : TickType) (ok : Bool) (r : FgReader) :
    Stable fun n => enrollRound fg t n ok r := by
  unfold enrollRound
  cases afterReport fg t ok r with
  | inl next => exact fgEnrollLoop_stable fg _ _
  | inr e => exact .const _

/-- A run of the loop with enough fuel is one of the runs of `Enrols`. -/
theorem enrols_of_fgEnrollLoop {fuel : Nat} {t : TickType}
    (h : fgEnrollLoop fg fuel t r = (some ok, r')) :
    ∃ e, Enrols fg t r e r' ∧ e.result = ok := by
  induction fuel generalizing t r with
  | zero => cases h
  | succ n ih =>
    rw [fgEnrollLoop_succ] at h
    split at h
    · rename_i ht
      obtain ⟨ok₁, r₁, hx, h⟩ := Returns.andThen_eq_some.mp h
      unfold enrollRound at h
      cases hrep : afterReport fg t ok₁ r₁ with
      | inl next =>
        rw [hrep] at h
        obtain ⟨e, he, hok⟩ := ih h
        exact ⟨e, .again ht ⟨n, hx⟩ hrep he, hok⟩
      | inr e =>
        rw [hrep] at h
        cases h
        exact ⟨e.1, .ended ht ⟨n, hx⟩ hrep, rfl⟩
    · rename_i ht
      cases h
      exact ⟨_, .timeout ht, rfl⟩

theorem ends_of_round {t : TickType} {ok₁ : Bool} {r₁ : FgReader} (ht : InTime fg t r)
    (hx : Exchange fg [] r ok₁ r₁) (hround : Ends (fun n => enrollRound fg t n ok₁ r₁) ok r') :
    Ends (fun n => fgEnrollLoop fg n t r) ok r' := by
  obtain ⟨n, hn⟩ := (ends_andThen (fgTransmit_stable fg [] r) (enrollRound_stable fg t)).mpr
    ⟨ok₁, r₁, hx, hround⟩
  refine ⟨n + 1, ?_⟩
  dsimp only
  rw [fgEnrollLoop_succ, if_pos ht]
  exact hn

/-- Every run of `Enrols` is a run of the loop, given enough fuel. -/
theorem Enrols.ends {t : TickType} {e : EnrollEnd} (h : Enrols fg t r e r') :
    Ends (fun n => fgEnrollLoop fg n t r) e.result r' := by
  induction h with
  | @timeout t r ht =>
    refine ⟨1, ?_⟩
    dsimp only
    rw [fgEnrollLoop_succ, if_neg ht]
    rfl
  | ended ht hx hrep =>
    refine ends_of_round ht hx ?_
    unfold enrollRound
    rw [hrep]
    exact ⟨0, rfl⟩
  | again ht hx hrep _ ih =>
    refine ends_of_round ht hx ?_
    unfold enrollRound
    rw [hrep]
    exact ih

/-! ### What an enrolment tells the UI -/

theorem afterReport_inl {t t' : TickType} {r₂ : FgReader} (hmode : r.sFgState = .enroll)
    (h : afterReport fg t ok r = .inl (t', r₂)) :
    r₂.sFgState = .enroll ∧ r₂.told = r.told := by
  unfold afterReport at h
  split at h
  · cases h
    exact ⟨hmode, rfl⟩
  cases hrep : r.report with
  | next reset =>
    rw [hrep] at h
    cases reset <;> cases h <;> exact ⟨hmode, rfl⟩
  | touchDone touch =>
    rw [hrep] at h
    cases h
    refine ⟨hmode, ?_⟩
    rw [publishEvent_told, hmode]
    rfl
  | success =>
    rw [hrep] at h
    cases h
  | failure detail =>
    rw [hrep] at h
    cases detail <;> cases h

theorem afterReport_inr {t : TickType} {e : EnrollEnd}
    (hmode : r.sFgState = .enroll) (h : afterReport fg t ok r = .inr (e, r')) :
    r'.told = r.told + if e.told then 1 else 0 := by
  have hpub (progress : FgProgress) (detail : UInt8)
      (hp : FgEvent.terminal ⟨.enroll, progress, detail⟩) :
      (r.publishEvent progress detail).told = r.told + 1 := by
    rw [publishEvent_told, hmode, if_pos hp]
  unfold afterReport at h
  split at h
  · cases h
  cases hrep : r.report with
  | next reset =>
    rw [hrep] at h
    cases reset <;> cases h
  | touchDone touch =>
    rw [hrep] at h
    cases h
  | success =>
    rw [hrep] at h
    cases h
    exact hpub .jobDoneSucc 0 rfl
  | failure detail =>
    rw [hrep] at h
    cases detail with
    | none =>
      cases h
      rfl
    | some detail =>
      cases h
      exact hpub .progessDoneFail detail rfl

/-- An enrolment tells the UI of its end once or not at all. -/
theorem Enrols.told {t : TickType} {e : EnrollEnd} (h : Enrols fg t r e r')
    (hmode : r.sFgState = .enroll) : r'.told = r.told + if e.told then 1 else 0 := by
  induction h with
  | timeout ht => simp [EnrollEnd.told]
  | ended ht hx hrep => rw [afterReport_inr (hx.sFgState.trans hmode) hrep, hx.told]
  | again ht hx hrep _ ih =>
    obtain ⟨hmode', htold⟩ := afterReport_inl (hx.sFgState.trans hmode) hrep
    rw [ih hmode', htold, hx.told]

/-! ## The report that ends an enrolment -/

theorem enrollReport_eq_success {code step para : UInt8}
    (h : enrollReport code step para = .success) : code = 0x00 ∧ step = 0x06 ∧ para = 0xf2 := by
  unfold enrollReport at h
  split at h
  · cases h
  split at h
  · rename_i hcode
    split at h
    · cases h
    split at h
    · rename_i hstep
      exact ⟨hcode, hstep⟩
    · cases h
  split at h
  · cases h
  split at h
  · cases h
  split at h <;> cases h

/-- A good reply whose first bytes are those of a success has them in its body: the checksums of
the shorter ones do not agree. -/
theorem success_claims {bytes : List UInt8} (rx : Nat → UInt8) (hgood : GoodReply bytes)
    (hrx : ∀ i < bytes.length, rx i = bytes.getD i 0) (h9 : rx 9 = 0x00) (h10 : rx 10 = 0x06) :
    3 ≤ claimedLen bytes := by
  have hpos := hgood.claimedLen_pos
  have hflag : (bytes.getD 6 0).toNat = 7 := by rw [hgood.flag]; rfl
  have hsum := hgood.checksum
  have hlen := hgood.length
  have hclaim : (bytes.getD 7 0).toNat * 256 + (bytes.getD 8 0).toNat = claimedLen bytes := rfl
  by_contra hlt
  have hn : claimedLen bytes = 1 ∨ claimedLen bytes = 2 := by omega
  rcases hn with hn | hn
  · rw [hn] at hsum hclaim
    rw [sumAt_succ, sumAt_succ, sumAt_zero, hflag] at hsum
    change 7 + ((bytes.getD 7 0).toNat + 0) =
      (bytes.getD 8 0).toNat * 256 + (bytes.getD 9 0).toNat at hsum
    omega
  · rw [hn] at hsum hclaim hlen
    rw [hrx 9 (by omega)] at h9
    rw [hrx 10 (by omega)] at h10
    rw [sumAt_succ, sumAt_succ, sumAt_succ, sumAt_zero, hflag, h9, h10] at hsum
    change 7 + ((bytes.getD 7 0).toNat + ((bytes.getD 8 0).toNat + 0)) = 0 * 256 + 6 at hsum
    omega

/-! ## The exits of the other jobs -/

/-- A search that does not match ends with a failure event. -/
theorem identifyResult_told (r : FgReader) :
    (identifyResult r).2.told = r.told +
      if ¬ r.Matched ∧ FgEvent.terminal ⟨r.sFgState, .jobDoneFail, 0⟩ then 1 else 0 := by
  by_cases hm : r.Matched
  · rw [identifyResult_matched hm, if_neg fun h => h.1 hm]
    rfl
  · obtain ⟨id, detail, hres⟩ := identifyResult_not_matched hm
    simp only [hm, not_false_eq_true, true_and]
    rw [hres]
    exact publishEvent_told _ _ _

/-- A search tells the UI of its end exactly when the module answered it without a match. -/
theorem fgIdentify_told_iff :
    (∃ ok r', Ends (fun n => fgIdentify fg n r) ok r' ∧ r'.told = r.told + 1) ↔
      FgEvent.terminal ⟨r.sFgState, .jobDoneFail, 0⟩ ∧ SearchFailed fg r := by
  have hcapt {r₁ : FgReader} (hc : Captured fg r r₁) :
      r₁.sFgState = r.sFgState ∧ r₁.told = r.told := by
    obtain ⟨r₀, hx, -, hx', -⟩ := hc
    exact ⟨hx'.sFgState.trans hx.sFgState, hx'.told.trans hx.told⟩
  constructor
  · rintro ⟨ok, r', h, htold⟩
    rcases fgIdentify_ends.mp h with ⟨⟨n, hx⟩, -⟩ | ⟨r₁, hc, ⟨hx, -⟩ | ⟨r₂, hx, hres⟩⟩
    · obtain ⟨es, ha, rfl⟩ :=
        fgReadSensor_leaves fg n { r with uart := uartFlushInput fg r.uart }
      dsimp only at hx
      rw [hx] at ha
      have hpub : r'.told = r.told := by
        rw [FgReader.told, ha.published, fgEventOuts_nil, List.append_nil, FgReader.told]
      omega
    · rw [hx.told, (hcapt hc).2] at htold
      omega
    · have ht := identifyResult_told r₂
      rw [hres, hx.told, hx.sFgState, (hcapt hc).1, (hcapt hc).2] at ht
      dsimp only at ht
      split at ht
      · rename_i hfail
        exact ⟨hfail.2, r₁, r₂, hc, hx, hfail.1⟩
      · omega
  · rintro ⟨hterm, r₁, r₂, hc, hx, hm⟩
    refine ⟨(identifyResult r₂).1, (identifyResult r₂).2,
      fgIdentify_ends.mpr (.inr ⟨r₁, hc, .inr ⟨r₂, hx, rfl⟩⟩), ?_⟩
    rw [identifyResult_told, hx.told, hx.sFgState, (hcapt hc).1, (hcapt hc).2, if_pos ⟨hm, hterm⟩]

/-- The state in which `fg_enroll(1)` waits for the first report. -/
def enrolling (fg : FgModule) (r : FgReader) : FgReader :=
  { r with uart := uartWriteBytes fg (uartFlushInput fg r.uart) (enrollCmd 1) }

/-- The enrolment came to a report that the UI is told of. -/
def EnrolToldEnd (fg : FgModule) (r : FgReader) : Prop :=
  ∃ e r', Enrols fg (fg.tick r.uart.calls) (enrolling fg r) e r' ∧ e.told = true

theorem fgEnroll_ends : Ends (fun n => fgEnroll fg n 1 r) ok r' ↔
    ∃ e, Enrols fg (fg.tick r.uart.calls) (enrolling fg r) e r' ∧ e.result = ok := by
  constructor
  · rintro ⟨n, h⟩
    exact enrols_of_fgEnrollLoop h
  · rintro ⟨e, he, rfl⟩
    exact he.ends

theorem fgEnroll_told_iff (hmode : r.sFgState = .enroll) :
    (∃ ok r', Ends (fun n => fgEnroll fg n 1 r) ok r' ∧ r'.told = r.told + 1) ↔
      EnrolToldEnd fg r := by
  constructor
  · rintro ⟨ok, r', h, htold⟩
    obtain ⟨e, he, -⟩ := fgEnroll_ends.mp h
    have ht : r'.told = r.told + if e.told then 1 else 0 := he.told hmode
    refine ⟨e, r', he, ?_⟩
    by_contra hne
    rw [if_neg hne] at ht
    omega
  · rintro ⟨e, r', he, hte⟩
    have ht : r'.told = r.told + if e.told then 1 else 0 := he.told hmode
    rw [if_pos hte] at ht
    exact ⟨_, r', fgEnroll_ends.mpr ⟨e, he, rfl⟩, ht⟩

theorem fgDelAllfg_told_iff (hmode : r.sFgState = .delAll) :
    (∃ ok r', Ends (fun n => fgDelAllfg fg n r) ok r' ∧ r'.told = r.told + 1) ↔
      ∃ ok r', Exchange fg fgClearAllFg r ok r' := by
  have hends (ok : Bool) (r' : FgReader) : Ends (fun n => fgDelAllfg fg n r) ok r' ↔ _ :=
    ends_andThen_ret (fgTransmit_stable fg fgClearAllFg r)
  simp only [hends]
  constructor
  · rintro ⟨_, _, ⟨ok, r₁, hx, -⟩, -⟩
    exact ⟨ok, r₁, hx⟩
  · rintro ⟨ok, r₁, hx⟩
    have hpub (progress : FgProgress) (hp : FgEvent.terminal ⟨.delAll, progress, 0⟩) :
        (r₁.publishEvent progress 0).told = r.told + 1 := by
      rw [publishEvent_told, hx.sFgState, hmode, hx.told, if_pos hp]
    by_cases hc : ok ∧ r₁.rx 9 = 0x00
    · exact ⟨true, _, ⟨ok, r₁, hx, if_pos hc⟩, hpub .jobDoneSucc rfl⟩
    · exact ⟨false, _, ⟨ok, r₁, hx, if_neg hc⟩, hpub .jobDoneFail rfl⟩

/-! ## The whole job -/

/-- `fg_wake` returned in a job of mode `mode`. -/
def Started (fg : FgModule) (mode : FgStatus) (r r' : FgReader) : Prop :=
  Ends (fun n => fgWake fg n { r with sFgState := mode, published := [] }) () r'

theorem Started.adds {mode : FgStatus} (h : Started fg mode r r') :
    r'.sFgState = mode ∧ r'.published = [] := by
  obtain ⟨n, h⟩ := h
  obtain ⟨_, ha, rfl⟩ := fgWake_leaves fg n { r with sFgState := mode, published := [] }
  dsimp only at h
  rw [h] at ha
  exact ⟨ha.sFgState, by simpa using ha.published⟩

theorem afterWake_stable (fg : FgModule) (r : FgReader) : Stable fun n => afterWake fg n r := by
  unfold afterWake
  cases r.sFgState with
  | idle | search | searchNSignin =>
    refine stable_andThen (fgIdentify_stable fg _) fun status r => ?_
    split
    · exact .const _
    · exact .const _
  | enroll => exact stable_andThen (fgEnroll_stable fg _ 1) fun _ _ => .const _
  | delAll => exact stable_andThen (fgDelAllfg_stable fg _) fun _ _ => .const _
  | init | delCur => exact .const _

theorem fgServiceJob_stable (fg : FgModule) (mode : FgStatus) (r : FgReader) :
    Stable fun n => fgServiceJob fg n mode r :=
  stable_andThen (fgWake_stable fg _) fun _ r => afterWake_stable fg r

theorem fgServiceJob_ends {mode : FgStatus} :
    Ends (fun n => fgServiceJob fg n mode r) () r' ↔
      ∃ r₁, Started fg mode r r₁ ∧ Ends (fun n => afterWake fg n r₁) () r' :=
  (ends_andThen (fgWake_stable fg _) fun _ r => afterWake_stable fg r).trans
    ⟨fun ⟨_, r₁, hs, h⟩ => ⟨r₁, hs, h⟩, fun ⟨r₁, hs, h⟩ => ⟨(), r₁, hs, h⟩⟩

/-- The modes in which a job publishes `FG_JOB_START`. -/
def FgStatus.job : FgStatus → Bool
  | .idle | .search | .searchNSignin | .enroll | .delAll => true
  | .init | .delCur => false

theorem published_afterWake {n : Nat} (hjob : r.sFgState.job) :
    (r.publishEvent .jobStart 0).published <+: (afterWake fg n r).2.published := by
  have hcall {x : Returns Bool} {P} (h : x.Leaves (r.publishEvent .jobStart 0) P)
      {k : Bool → FgReader → Returns Unit} (hk : ∀ a r, r.published <+: (k a r).2.published) :
      (r.publishEvent .jobStart 0).published <+: (x.andThen k).2.published := by
    obtain ⟨es, ha, -⟩ := h
    obtain ⟨_ | a, r₁⟩ := x
    · exact ⟨_, ha.published.symm⟩
    · exact .trans ⟨_, ha.published.symm⟩ (hk a r₁)
  unfold afterWake
  cases hs : r.sFgState with
  | idle | search | searchNSignin =>
    refine hcall (fgIdentify_leaves fg n _) fun status r₁ => ?_
    split
    · exact List.prefix_append ..
    · exact List.prefix_rfl
  | enroll => exact hcall (fgEnroll_leaves fg n _ 1) fun _ _ => List.prefix_rfl
  | delAll => exact hcall (fgDelAllfg_leaves fg n _) fun _ _ => List.prefix_rfl
  | init | delCur =>
    rw [hs] at hjob
    cases hjob

/-- `FG_JOB_START` is published when `fg_wake` has returned in a mode that is a job. -/
theorem jobStart_mem_iff {mode : FgStatus} :
    (∃ n, fgEventOut mode .jobStart 0 ∈ (fgServiceJob fg n mode r).2.published) ↔
      mode.job ∧ ∃ r₁, Started fg mode r r₁ := by
  constructor
  · rintro ⟨n, hmem⟩
    obtain ⟨_, ha, rfl⟩ := fgWake_leaves fg n { r with sFgState := mode, published := [] }
    rw [fgServiceJob_eq] at hmem
    rcases hw : fgWake fg n { r with sFgState := mode, published := [] } with ⟨_ | u, r₁⟩
    · rw [hw] at hmem ha
      rw [Returns.andThen_none, ha.published] at hmem
      cases hmem
    · refine ⟨?_, r₁, n, hw⟩
      rw [hw, Returns.andThen_some] at hmem
      obtain ⟨hs, hp⟩ := Started.adds ⟨n, hw⟩
      cases mode with
      | idle | search | searchNSignin | enroll | delAll => rfl
      | init | delCur =>
        simp only [afterWake, hs, hp] at hmem
        cases hmem
  · rintro ⟨hmode, r₁, n, hw⟩
    obtain ⟨hs, -⟩ := Started.adds ⟨n, hw⟩
    refine ⟨n, ?_⟩
    dsimp only at hw
    rw [fgServiceJob_eq, hw, Returns.andThen_some]
    refine (published_afterWake (hs ▸ hmode)).subset ?_
    simp [FgReader.publishEvent, FgReader.publish, hs]

/-- `FG_JOB_START` of a job of mode `mode` was published, and left the reader as `r'`. -/
def Begun (fg : FgModule) (mode : FgStatus) (r r' : FgReader) : Prop :=
  mode.job ∧ ∃ r₁, Started fg mode r r₁ ∧ r' = r₁.publishEvent .jobStart 0

/-- A job that has published `FG_JOB_START` ends, and has then published one terminal event. -/
def EndsVisibly (fg : FgModule) (mode : FgStatus) (r : FgReader) : Prop :=
  (∃ n, fgEventOut mode .jobStart 0 ∈ (fgServiceJob fg n mode r).2.published) →
    ∃ r', Ends (fun n => fgServiceJob fg n mode r) () r' ∧ r'.told = 1

/-- The exits that the UI is told of, from the state behind `FG_JOB_START` on: a search is answered
without a match, an enrolment comes to a report that is passed on, a deletion returns. -/
def ToldEnd (fg : FgModule) (r : FgReader) : Prop :=
  match r.sFgState with
  | .searchNSignin => SearchFailed fg r
  | .enroll => EnrolToldEnd fg r
  | .delAll => ∃ ok r', Exchange fg fgClearAllFg r ok r'
  | .idle | .search | .init | .delCur => False

/-- What follows a call does not count for the UI. -/
theorem ends_told_iff {x : Nat → Returns Bool} {k : Bool → FgReader → Returns Unit} {m : Nat}
    (hx : Stable x) (hk : ∀ a r, ∃ r', k a r = (some (), r') ∧ r'.told = r.told) :
    (∃ r', Ends (fun n => (x n).andThen k) () r' ∧ r'.told = m) ↔
      ∃ ok r', Ends x ok r' ∧ r'.told = m := by
  simp only [ends_andThen_ret hx]
  constructor
  · rintro ⟨r', ⟨ok, r₁, h, hret⟩, ht⟩
    obtain ⟨r₂, hk, hk'⟩ := hk ok r₁
    cases hk.symm.trans hret
    exact ⟨ok, r₁, h, hk'.symm.trans ht⟩
  · rintro ⟨ok, r₁, h, ht⟩
    obtain ⟨r₂, hk, hk'⟩ := hk ok r₁
    exact ⟨r₂, ⟨ok, r₁, h, hk⟩, hk'.trans ht⟩

theorem afterWake_told_iff (hjob : r.sFgState.job) (hp : r.published = []) :
    (∃ r', Ends (fun n => afterWake fg n r) () r' ∧ r'.told = 1) ↔
      ToldEnd fg (r.publishEvent .jobStart 0) := by
  have hmode : (r.publishEvent .jobStart 0).sFgState = r.sFgState := rfl
  have htold : (r.publishEvent .jobStart 0).told = 0 := by
    rw [publishEvent_told, FgReader.told, hp]
    cases r.sFgState <;> rfl
  have hone : (1 : Nat) = (r.publishEvent .jobStart 0).told + 1 := by rw [htold]
  have hsearch : (∃ r', Ends (fun n =>
      (fgIdentify fg n (r.publishEvent .jobStart 0)).andThen fun status r =>
        if r.sFgState = .searchNSignin ∧ status = true then
          (some (), r.publish (trustedEvent r.gVIdentifiedId))
        else (some (), r)) () r' ∧ r'.told = 1) ↔
      FgEvent.terminal ⟨r.sFgState, .jobDoneFail, 0⟩ ∧
        SearchFailed fg (r.publishEvent .jobStart 0) := by
    rw [ends_told_iff (fgIdentify_stable fg _), hone]
    · exact fgIdentify_told_iff
    · intro status r₁
      split
      · exact ⟨_, rfl, by simp⟩
      · exact ⟨_, rfl, rfl⟩
  have hret (ok : Bool) (r₁ : FgReader) :
      ∃ r', ((some (), r₁) : Returns Unit) = (some (), r') ∧ r'.told = r₁.told := ⟨r₁, rfl, rfl⟩
  unfold afterWake ToldEnd
  rw [hmode]
  cases hs : r.sFgState with
  | idle | search =>
    rw [hs] at hsearch
    exact hsearch.trans (iff_of_false (fun h => nomatch h.1) id)
  | searchNSignin =>
    rw [hs] at hsearch
    exact hsearch.trans (and_iff_right rfl)
  | enroll =>
    rw [ends_told_iff (fgEnroll_stable fg _ 1) hret, hone]
    exact fgEnroll_told_iff hs
  | delAll =>
    rw [ends_told_iff (fgDelAllfg_stable fg _) hret, hone]
    exact fgDelAllfg_told_iff hs
  | init | delCur =>
    rw [hs] at hjob
    cases hjob

theorem endsVisibly_iff {mode : FgStatus} :
    EndsVisibly fg mode r ↔ ∀ r₁, Begun fg mode r r₁ → ToldEnd fg r₁ := by
  unfold EndsVisibly
  rw [jobStart_mem_iff]
  constructor
  · rintro h _ ⟨hjob, r₁, hw, rfl⟩
    obtain ⟨hs, hp⟩ := hw.adds
    obtain ⟨r', hends, ht⟩ := h ⟨hjob, r₁, hw⟩
    obtain ⟨r₂, hw', hafter⟩ := fgServiceJob_ends.mp hends
    obtain ⟨-, rfl⟩ := hw.unique (fgWake_stable fg _) hw'
    exact (afterWake_told_iff (hs ▸ hjob) hp).mp ⟨r', hafter, ht⟩
  · rintro h ⟨hjob, r₁, hw⟩
    obtain ⟨hs, hp⟩ := hw.adds
    obtain ⟨r', hafter, ht⟩ :=
      (afterWake_told_iff (hs ▸ hjob) hp).mpr (h _ ⟨hjob, r₁, hw, rfl⟩)
    exact ⟨r', fgServiceJob_ends.mpr ⟨r₁, hw, hafter⟩, ht⟩

end DoorLock
