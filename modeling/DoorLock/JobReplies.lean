import DoorLock.FgJob
import Mathlib.Logic.Relation

/-!
# The replies that end a fingerprint job

Which exit a job comes to is said of what is heard of the module: the bytes on the line, what the
buffer was left with, and when the bytes come in. A search hears one reply to each of its commands,
an enrolment one report after another, all of them in reply to its one command.
-/

namespace DoorLock

open Fuel (Stable Ends)
open Relation (ReflTransGen)

variable {fg : FgModule} {r r' : FgReader} {ok : Bool}

/-! ## The reports of an enrolment -/

namespace EnrollReport

/-- The UI is told of the report, and the enrolment ends with it. -/
def told : EnrollReport → Bool
  | .success | .failure (some _) => true
  | _ => false

/-- The start time with which the enrolment goes on after the report. -/
def start (t now : TickType) : EnrollReport → Option TickType
  | .next false => some t
  | .next true | .touchDone _ => some now
  | _ => none

end EnrollReport

namespace Hearing

/-- The report that is left in the buffer. -/
def report (h : Hearing) : EnrollReport := enrollReport (h.held 9) (h.held 10) (h.held 11)

/-- The start time with which the enrolment goes on when the reply at `h` has left `h'`: a reply
that is not accepted is passed over. -/
def goesOn (fg : FgModule) (t : TickType) (h h' : Hearing) : Option TickType :=
  if h.Accepted fg h' then h'.report.start t (fg.tick h'.calls) else some t

end Hearing

/-- From `h` on, the replies to an enrolment come down to the one at `h₀`, and 5 s never pass
without progress; the last progress before `h` was made at `t`. -/
inductive ComesTo (fg : FgModule) (h₀ : Hearing) : TickType → Hearing → Prop
  | here {t} : fg.tick h₀.calls - t < pdMsToTicks 5000 → ComesTo fg h₀ t h₀
  | next {t t' h h'} : fg.tick h.calls - t < pdMsToTicks 5000 → h.Leaves fg h' →
      h.goesOn fg t h' = some t' → ComesTo fg h₀ t' h' → ComesTo fg h₀ t h

/-- The replies come down to a report that the UI is told of. -/
def ReportsTold (fg : FgModule) (t : TickType) (h : Hearing) : Prop :=
  ∃ h₀ h', ComesTo fg h₀ t h ∧ h₀.Passes fg h' ∧ h'.report.told

/-- What `fg_enroll(1)` hears when it waits for the first report. -/
def enrolHeard (fg : FgModule) (h : Hearing) : Hearing := (h.flushed fg).sent fg

theorem enrolling_hearing (fg : FgModule) (r : FgReader) :
    (enrolling fg r).uart.hearing = enrolHeard fg r.uart.hearing := by
  rw [enrolHeard, ← hearing_flush]
  exact hearing_sent (show 0 < (enrollCmd 1).length by decide)

/-- What the loop does with a reply, by what is heard of it. -/
theorem afterReport_heard (fg : FgModule) (t : TickType) (h : Hearing) (r : FgReader) :
    (∃ t' r', afterReport fg t (decide (h.Accepted fg r.uart.hearing)) r = .inl (t', r') ∧
        r'.uart = r.uart ∧ h.goesOn fg t r.uart.hearing = some t') ∨
      ∃ e r', afterReport fg t (decide (h.Accepted fg r.uart.hearing)) r = .inr (e, r') ∧
        r'.uart = r.uart ∧ h.goesOn fg t r.uart.hearing = none ∧
        h.Accepted fg r.uart.hearing ∧ e.told = r.report.told ∧
        (e.result = true → r.report = .success) := by
  have hreport : r.uart.hearing.report = r.report := rfl
  unfold Hearing.goesOn afterReport
  by_cases hacc : h.Accepted fg r.uart.hearing
  · simp only [hacc, hreport, decide_true, Bool.not_true, Bool.false_eq_true, if_false, if_true]
    cases hr : r.report with
    | next reset => cases reset <;> exact .inl ⟨_, _, rfl, rfl, rfl⟩
    | touchDone touch => exact .inl ⟨_, _, rfl, rfl, rfl⟩
    | success => exact .inr ⟨_, _, rfl, rfl, rfl, trivial, rfl, fun _ => rfl⟩
    | failure detail =>
      cases detail <;> exact .inr ⟨_, _, rfl, rfl, rfl, trivial, rfl, fun he => nomatch he⟩
  · simp only [hacc, decide_false, Bool.not_false, if_true, if_false]
    exact .inl ⟨_, _, rfl, rfl, rfl⟩

section
variable {t : TickType} {h h₀ h' : Hearing} {e : EnrollEnd} {tx : List UInt8}

/-- A call takes bytes off the line and gives none back. -/
theorem taken_of_eq {s s' : Uart} {fuel : Nat} (htx : tx.length ≤ 11)
    (h : fgCmdTransmit fg fuel tx s = (some ok, s')) : s.taken <+: s'.taken := by
  have hfuel : 0 < fuel := by
    rcases Nat.eq_zero_or_pos fuel with rfl | hpos
    · cases h
    · exact hpos
  have hext := (fgCmdTransmit_extends fg fuel tx s hfuel htx).taken
  rwa [h, sent_taken] at hext

theorem Exchange.taken (hx : Exchange fg tx r ok r') (htx : tx.length ≤ 11) :
    r.uart.taken <+: r'.uart.taken := by
  obtain ⟨fuel, s, hs, rfl⟩ := hx.uart
  exact taken_of_eq htx hs

/-- A report, as it is heard. -/
theorem Exchange.report {r₁ : FgReader} (hx : Exchange fg [] r ok r₁) :
    r.uart.hearing.Leaves fg r₁.uart.hearing ∧
      ok = decide (r.uart.hearing.Accepted fg r₁.uart.hearing) :=
  hx.leaves (by decide)

/-- An enrolment that the UI is told of ends with a report that its replies come down to. -/
theorem Enrols.comesTo (he : Enrols fg t r e r') (hte : e.told = true) :
    ∃ r₀ r₁, ComesTo fg r₀.uart.hearing t r.uart.hearing ∧ Exchange fg [] r₀ true r₁ ∧
      r₁.report.told = true ∧ (e.result = true → r₁.report = .success) ∧ r'.uart = r₁.uart ∧
      r.uart.taken <+: r₀.uart.taken := by
  induction he with
  | timeout => cases hte
  | @ended t r ok r₁ e r' ht hx hrep =>
    obtain ⟨-, rfl⟩ := hx.report
    obtain ⟨_, _, hcase, -⟩ | ⟨_, _, hcase, huart, -, hacc, htold, hres⟩ :=
      afterReport_heard fg t r.uart.hearing r₁
    · cases hcase.symm.trans hrep
    · cases hcase.symm.trans hrep
      rw [decide_eq_true hacc] at hx
      exact ⟨r, r₁, .here ht, hx, htold.symm.trans hte, hres, huart, List.prefix_rfl⟩
  | @again t r ok r₁ t' r₂ e r' ht hx hrep _ ih =>
    obtain ⟨hleaves, rfl⟩ := hx.report
    obtain ⟨_, _, hcase, huart, hgo⟩ | ⟨_, _, hcase, -⟩ :=
      afterReport_heard fg t r.uart.hearing r₁
    · cases hcase.symm.trans hrep
      obtain ⟨r₀, r₃, hcomes, hx', hrep', hres, hr', htaken⟩ := ih hte
      rw [huart] at hcomes htaken
      exact ⟨r₀, r₃, .next ht hleaves hgo hcomes, hx', hrep', hres, hr',
        (hx.taken (by decide)).trans htaken⟩
    · cases hcase.symm.trans hrep

/-- A report that the replies come down to ends the enrolment. -/
theorem ComesTo.enrols (hc : ComesTo fg h₀ t h) (hh : r.uart.hearing = h)
    (hp : h₀.Passes fg h') (htold : h'.report.told = true) :
    ∃ e r', Enrols fg t r e r' ∧ e.told = true := by
  induction hc generalizing r with
  | @here t ht =>
    subst hh
    obtain ⟨r₁, hx, rfl⟩ := (passes_iff (show ([] : List UInt8).length ≤ 11 by decide)).mpr hp
    obtain ⟨_, _, -, -, hgo⟩ | ⟨e, r', hcase, -, -, -, hte, -⟩ :=
      afterReport_heard fg t r.uart.hearing r₁
    · -- the UI is told of no report with which the enrolment goes on
      rw [Hearing.goesOn, if_pos hp.2] at hgo
      cases hr : r₁.uart.hearing.report with
      | next reset =>
        rw [hr] at htold
        cases htold
      | touchDone touch =>
        rw [hr] at htold
        cases htold
      | success =>
        rw [hr] at hgo
        cases hgo
      | failure detail =>
        rw [hr] at hgo
        cases hgo
    · rw [decide_eq_true hp.2] at hcase
      exact ⟨e, r', .ended ht hx hcase, hte.trans htold⟩
  | @next t t' h h₁ ht hleaves hgo _ ih =>
    subst hh
    obtain ⟨r₁, hx, rfl⟩ :=
      (exchange_iff (show ([] : List UInt8).length ≤ 11 by decide)).mpr ⟨hleaves, rfl⟩
    obtain ⟨t₁, r₂, hcase, huart, hgo'⟩ | ⟨_, _, -, -, hno, -⟩ :=
      afterReport_heard fg t r.uart.hearing r₁
    · cases hgo'.symm.trans hgo
      obtain ⟨e, r', he, hte⟩ := ih (by rw [huart])
      exact ⟨e, r', .again ht hx hcase he, hte⟩
    · cases hno.symm.trans hgo

theorem enrolToldEnd_iff :
    EnrolToldEnd fg r ↔
      ReportsTold fg (fg.tick r.uart.calls) (enrolHeard fg r.uart.hearing) := by
  have hh := enrolling_hearing fg r
  constructor
  · rintro ⟨e, r', he, hte⟩
    obtain ⟨r₀, r₁, hc, hx, htold, -⟩ := he.comesTo hte
    rw [hh] at hc
    exact ⟨_, _, hc, (passes_iff (by decide)).mp ⟨r₁, hx, rfl⟩, htold⟩
  · rintro ⟨h₀, h', hc, hp, htold⟩
    exact hc.enrols hh hp htold

/-! ## Success of an enrolment -/

/-- The reply of an enrolment that succeeded: confirm code 0x00, step 0x06 and parameter 0xf2. -/
structure SuccessReply (bytes : List UInt8) : Prop extends GoodReply bytes where
  code : bytes.getD 9 0 = 0x00
  step : bytes.getD 10 0 = 0x06
  para : bytes.getD 11 0 = 0xf2

namespace Hearing

/-- The authentication was sent that the reply asks for. -/
def Follows (fg : FgModule) (h h' : Hearing) : Prop := h.Asks fg ∧ h' = (h.next fg).sent fg

/-- The reply is that of a success, or that to one of the authentications is which it asks for. -/
def ReadsSuccess (fg : FgModule) (h : Hearing) : Prop :=
  ∃ h', ReflTransGen (Follows fg) h h' ∧ SuccessReply (h'.line.take (h'.took fg))

/-- A report of success that is checked as it was read is the reply of a success. -/
theorem readsSuccess_of_plain (hp : h₀.Plain fg) (hpass : h₀.Passes fg h')
    (hrep : h'.report = .success) : h₀.ReadsSuccess fg := by
  obtain ⟨hl, hacc⟩ := hpass
  cases hl with
  | auth hask => exact absurd hask hp.1
  | plain =>
    have hgood : h₀.Good fg := (accepted_next_iff hp).mp hacc
    obtain ⟨hh, hbody, -⟩ := good_iff.mp hgood
    have htook : h₀.took fg = 9 + claimedLen h₀.line := by rw [took, if_pos hh, hbody]
    have hclaim : claimedLen (h₀.line.take (h₀.took fg)) = claimedLen h₀.line :=
      claimedLen_take (by omega)
    -- the buffer holds what was read
    have hheld {i : Nat} (hi : i < h₀.took fg) :
        (h₀.next fg).held i = (h₀.line.take (h₀.took fg)).getD i 0 := by
      rw [next_held hi, List.getD_eq_getElem?_getD, List.getD_eq_getElem?_getD,
        List.getElem?_take, if_pos hi]
    obtain ⟨h9, h10, h11⟩ := enrollReport_eq_success hrep
    have hn := success_claims (h₀.next fg).held hgood
      (fun i hi => hheld (by rw [hgood.length, hclaim] at hi; omega)) h9 h10
    rw [hclaim] at hn
    exact ⟨h₀, .refl, hgood, (hheld (by omega)).symm.trans h9, (hheld (by omega)).symm.trans h10,
      (hheld (by omega)).symm.trans h11⟩

end Hearing

/-- A job that enrols is told to the UI as a success, and leaves `r'`. -/
def Succeeds (fg : FgModule) (r r' : FgReader) : Prop :=
  ∃ r₁ e, Started fg .enroll r r₁ ∧
    Enrols fg (fg.tick r₁.uart.calls) (enrolling fg (r₁.publishEvent .jobStart 0)) e r' ∧
    e.result = true

theorem succeeds_of_published {n : Nat} {detail : UInt8}
    (h : fgEventOut .enroll .jobDoneSucc detail ∈ (fgServiceJob fg n .enroll r).2.published) :
    Succeeds fg r (fgServiceJob fg n .enroll r).2 := by
  rw [fgServiceJob_eq] at h ⊢
  obtain ⟨_, ha, rfl⟩ := fgWake_leaves fg n { r with sFgState := .enroll, published := [] }
  rcases hw : fgWake fg n { r with sFgState := .enroll, published := [] } with ⟨_ | u, r₁⟩
  · rw [hw] at h ha
    rw [Returns.andThen_none, ha.published] at h
    cases h
  rw [hw, Returns.andThen_some] at h
  have hstart : Started fg .enroll r r₁ := ⟨n, hw⟩
  obtain ⟨hs, hp⟩ := hstart.adds
  simp only [Returns.andThen_some, afterWake, hs] at h ⊢
  obtain ⟨es, ha, hes⟩ := fgEnroll_leaves fg n (r₁.publishEvent .jobStart 0) 1
  rcases hen : fgEnroll fg n 1 (r₁.publishEvent .jobStart 0) with ⟨res, r₂⟩
  rw [hen] at ha hes h
  -- the success is among the events of the enrolment itself
  have hmem : (.jobDoneSucc, detail) ∈ es := by
    have hpub : fgEventOut .enroll .jobDoneSucc detail ∈ r₂.published := by
      cases res <;> exact h
    have hr₁ : (r₁.publishEvent .jobStart 0).sFgState = .enroll := hs
    rw [ha.published, hr₁, FgReader.publishEvent, FgReader.publish, hp] at hpub
    simpa [fgEventOuts, fgEventOut] using hpub
  have hres : res = some true := hes detail hmem
  subst hres
  obtain ⟨e, he, hok⟩ := fgEnroll_ends.mp ⟨n, hen⟩
  exact ⟨r₁, e, hstart, he, hok⟩

/-! ### The bytes that were read -/

/-- Among the bytes read since `r` there is a whole reply of success. -/
def Received (r r' : FgReader) : Prop :=
  ∃ before bs after, r'.uart.taken = r.uart.taken ++ before ++ bs ++ after ∧
    SuccessReply (bs.map Prod.snd)

variable {s s' : Uart} {fuel : Nat}

/-- A call that is made to authenticate reads the reply, and then makes another call. -/
theorem nested_of_eq (htx : tx.length ≤ 11) (h : fgCmdTransmit fg fuel tx s = (some ok, s'))
    (hask : (s.sent fg tx).hearing.Asks fg) :
    ∃ n s₂ ok₂ z, Heard fg tx s s₂ ∧ fgCmdTransmit fg n fgAuthDef s₂ = (some ok₂, z) ∧
      z.taken <+: s'.taken := by
  cases fuel with
  | zero => cases h
  | succ n =>
    obtain ⟨s₁, hh⟩ := (head_iff htx).mp hask.1
    have h13 : (s₁.readBody fg).2.rxBuf 9 = 0x13 :=
      (congrFun (congrArg Hearing.held hh.hearing) 9).trans hask.2
    rw [fgCmdTransmit_of_headRead hh, if_pos h13] at h
    rcases hz : fgCmdTransmit fg n fgAuthDef (s₁.readBody fg).2 with ⟨_ | ok₂, z⟩
    · rw [hz] at h
      cases h
    · rw [hz] at h
      have hext := (checkBody_extends z s₁.bodyLen (s₁.readBody fg).1).taken
      have hs' : (checkBody z s₁.bodyLen (s₁.readBody fg).1).2 = s' := congrArg Prod.snd h
      exact ⟨n, _, ok₂, z, hh.heard, hz, hs' ▸ hext⟩

/-- The reply to a call is among the bytes that it reads, and so is the reply to every
authentication that it is made to ask for. -/
theorem taken_of_follows (hf : ReflTransGen (Hearing.Follows fg) h h') (htx : tx.length ≤ 11)
    (hs : (s.sent fg tx).hearing = h) (hres : fgCmdTransmit fg fuel tx s = (some ok, s')) :
    ∃ before bs after, s'.taken = s.taken ++ before ++ bs ++ after ∧
      bs.map Prod.snd = h'.line.take (h'.took fg) := by
  induction hf using ReflTransGen.head_induction_on generalizing fuel tx s ok s' with
  | refl =>
    subst hs
    have hbytes (x : Nat) : ((s.sent fg tx).line.take x).map Prod.snd =
        (s.sent fg tx).hearing.line.take x := List.map_take ..
    by_cases hask : (s.sent fg tx).hearing.Asks fg
    · obtain ⟨n, s₂, ok₂, z, hh, hz, hpre⟩ := nested_of_eq htx hres hask
      obtain ⟨rest, hrest⟩ := (taken_of_eq (by decide) hz).trans hpre
      refine ⟨[], _, rest, ?_, hbytes _⟩
      rw [← hrest, hh.taken, List.append_nil]
    · have hcount := (leaves_of_eq htx hres).1.counted
      cases fuel with
      | zero => cases hres
      | succ n =>
        obtain ⟨s₂, hh, heq⟩ := fgCmdTransmit_of_not_asks htx hask hcount n
        cases heq.symm.trans hres
        refine ⟨[], _, [], ?_, hbytes _⟩
        rw [hh.taken, List.append_nil, List.append_nil]
  | head hstep _ ih =>
    subst hs
    obtain ⟨hask, rfl⟩ := hstep
    obtain ⟨n, s₂, ok₂, z, hh, hz, rest, hrest⟩ := nested_of_eq htx hres hask
    have hsent : (s₂.sent fg fgAuthDef).hearing = _ :=
      (hearing_sent (by decide)).trans (congrArg (Hearing.sent fg) hh.hearing)
    obtain ⟨before, bs, after, htaken, hbs⟩ := ih (by decide) hsent hz
    have hread := hh.taken
    generalize (s.sent fg tx).line.take _ = first at hread
    refine ⟨first ++ before, bs, after ++ rest, ?_, hbs⟩
    rw [← hrest, htaken, hread]
    simp only [List.append_assoc]

theorem received_of_readsSuccess {r₀ r₁ : FgReader} (hx : Exchange fg [] r₀ true r₁)
    (hr : r₀.uart.hearing.ReadsSuccess fg) (htaken : r.uart.taken <+: r₀.uart.taken) :
    Received r r₁ := by
  obtain ⟨fuel, s, hs, rfl⟩ := hx.uart
  obtain ⟨h', hf, hreply⟩ := hr
  obtain ⟨before, bs, after, hread, hbs⟩ :=
    taken_of_follows hf (show ([] : List UInt8).length ≤ 11 by decide) rfl hs
  obtain ⟨first, hfirst⟩ := htaken
  refine ⟨first ++ before, bs, after, ?_, hbs ▸ hreply⟩
  rw [← List.append_assoc, hfirst]
  exact hread

end

theorem fgWakeLoop_taken (fg : FgModule) (t : TickType) (fuel : Nat) (r : FgReader) :
    r.uart.taken <+: (fgWakeLoop fg t fuel r).2.uart.taken := by
  induction fuel generalizing r with
  | zero => exact List.prefix_rfl
  | succ fuel ih =>
    unfold fgWakeLoop
    split
    · have hread : r.uart.taken <+: (uartReadBytes fg r.uart 0 1).2.taken :=
        List.prefix_append ..
      dsimp only
      split
      · exact hread
      · exact hread.trans (ih { r with uart := (uartReadBytes fg r.uart 0 1).2 })
    · exact List.prefix_rfl

theorem Started.taken {mode : FgStatus} (h : Started fg mode r r') :
    r.uart.taken <+: r'.uart.taken := by
  obtain ⟨n, h⟩ := h
  obtain ⟨_, r₁, hloop, h⟩ := Returns.andThen_eq_some.mp h
  obtain ⟨_, r₂, hauth, h⟩ := Returns.andThen_eq_some.mp h
  obtain ⟨_, r₃, hled, h⟩ := Returns.andThen_eq_some.mp h
  cases h
  have htaken := fgWakeLoop_taken fg (fg.tick (uartFlushInput fg r.uart).calls) n
    { r with sFgState := mode, published := [], uart := uartFlushInput fg r.uart }
  have hloop : (fgWakeLoop fg (fg.tick (uartFlushInput fg r.uart).calls) n
    { r with sFgState := mode, published := [], uart := uartFlushInput fg r.uart }).2 = r₁ :=
    congrArg Prod.snd hloop
  rw [hloop] at htaken
  exact htaken.trans ((Exchange.taken ⟨n, hauth⟩ (by decide)).trans
    (Exchange.taken ⟨n, hled⟩ (by decide)))

/-- A success event of an enrolment is published only if such a reply was received in the job. -/
def SuccessReceived (fg : FgModule) (mode : FgStatus) (r : FgReader) : Prop :=
  ∀ n detail, fgEventOut .enroll .jobDoneSucc detail ∈ (fgServiceJob fg n mode r).2.published →
    Received r (fgServiceJob fg n mode r).2

theorem mode_of_event {mode : FgStatus} {n : Nat} {progress : FgProgress} {detail : UInt8}
    (h : fgEventOut .enroll progress detail ∈ (fgServiceJob fg n mode r).2.published) :
    mode = .enroll := by
  obtain ⟨_, _, ho⟩ | ⟨_, -, ho⟩ := mem_fgServiceJob h
  · cases ho
    rfl
  · cases ho

/-! ## What a job hears before it begins -/

/-- One byte is waited for. -/
def Hearing.readByte (fg : FgModule) (h : Hearing) : Hearing :=
  let n := min 1 (min (fg.arrived h.calls) h.line.length)
  { h with line := h.line.drop n, held := writeAt h.held 0 (h.line.take n), calls := h.calls + 1 }

theorem hearing_readByte (fg : FgModule) (s : Uart) :
    (uartReadBytes fg s 0 1).2.hearing = s.hearing.readByte fg := by
  rw [hearing_read, Hearing.readByte, Uart.got, Uart.hearing, List.length_map]

/-- Byte after byte is waited for until 0x55 is read, or 1 s has passed since `t`. -/
inductive Boots (fg : FgModule) (t : TickType) : Hearing → Hearing → Prop
  | late {h} : ¬ fg.tick h.calls - t < pdMsToTicks 1000 → Boots fg t h h
  | booted {h} : fg.tick h.calls - t < pdMsToTicks 1000 → (h.readByte fg).held 0 = 0x55 →
      Boots fg t h (h.readByte fg)
  | wait {h h'} : fg.tick h.calls - t < pdMsToTicks 1000 → (h.readByte fg).held 0 ≠ 0x55 →
      Boots fg t (h.readByte fg) h' → Boots fg t h h'

/-- The line is flushed, the module boots, and what is left of the replies to both commands of
`fg_wake` is `h'`. -/
def WakeHeard (fg : FgModule) (h h' : Hearing) : Prop :=
  ∃ h₁ h₂, Boots fg (fg.tick (h.flushed fg).calls) (h.flushed fg) h₁ ∧
    (h₁.sent fg).Leaves fg h₂ ∧ (h₂.sent fg).Leaves fg h'

section
variable {t : TickType} {h' : Hearing} {tx : List UInt8}

theorem boots_of_fgWakeLoop {fuel : Nat} (h : fgWakeLoop fg t fuel r = (some (), r')) :
    Boots fg t r.uart.hearing r'.uart.hearing := by
  induction fuel generalizing r with
  | zero => cases h
  | succ fuel ih =>
    have hbyte := hearing_readByte fg r.uart
    unfold fgWakeLoop at h
    split at h
    · rename_i ht
      dsimp only at h
      split at h
      · rename_i h55
        cases h
        change (uartReadBytes fg r.uart 0 1).2.hearing.held 0 = 0x55 at h55
        rw [hbyte] at h55
        dsimp only
        rw [hbyte]
        exact .booted ht h55
      · rename_i h55
        change ¬ (uartReadBytes fg r.uart 0 1).2.hearing.held 0 = 0x55 at h55
        rw [hbyte] at h55
        have hrest := ih h
        dsimp only at hrest
        rw [hbyte] at hrest
        exact .wait ht h55 hrest
    · rename_i ht
      cases h
      exact .late ht

theorem Boots.fgWakeLoop {h : Hearing} (hb : Boots fg t h h') (hr : r.uart.hearing = h) :
    ∃ fuel r', DoorLock.fgWakeLoop fg t fuel r = (some (), r') ∧ r'.uart.hearing = h' := by
  induction hb generalizing r with
  | late ht =>
    subst hr
    refine ⟨1, r, ?_, rfl⟩
    unfold DoorLock.fgWakeLoop
    exact if_neg ht
  | booted ht h55 =>
    subst hr
    rw [← hearing_readByte] at h55
    refine ⟨1, { r with uart := (uartReadBytes fg r.uart 0 1).2 }, ?_, hearing_readByte fg r.uart⟩
    unfold DoorLock.fgWakeLoop
    exact (if_pos ht).trans (if_pos h55)
  | wait ht h55 _ ih =>
    subst hr
    obtain ⟨fuel, r', hloop, hr'⟩ :=
      ih (r := { r with uart := (uartReadBytes fg r.uart 0 1).2 }) (hearing_readByte fg r.uart)
    rw [← hearing_readByte] at h55
    refine ⟨fuel + 1, r', ?_, hr'⟩
    rw [DoorLock.fgWakeLoop]
    exact ((if_pos ht).trans (if_neg h55)).trans hloop

/-- A command whose reply is not looked at. -/
theorem leaves_sent_iff (hpos : 0 < tx.length) (htx : tx.length ≤ 11) :
    (∃ ok r', Exchange fg tx r ok r' ∧ r'.uart.hearing = h') ↔
      (r.uart.hearing.sent fg).Leaves fg h' := by
  rw [← hearing_sent hpos]
  constructor
  · rintro ⟨ok, r', hx, rfl⟩
    exact (hx.leaves htx).1
  · intro hl
    obtain ⟨r', hx, hr'⟩ := (exchange_iff htx).mpr ⟨hl, rfl⟩
    exact ⟨_, r', hx, hr'⟩

/-- The runs of `fg_wake`. -/
theorem started_iff {mode : FgStatus} : Started fg mode r r' ↔ ∃ u r₁,
    Ends (fun n => fgWakeLoop fg (fg.tick (uartFlushInput fg r.uart).calls) n
      { r with sFgState := mode, published := [], uart := uartFlushInput fg r.uart }) u r₁ ∧
    ∃ ok r₂, Exchange fg fgAuthDef r₁ ok r₂ ∧ ∃ ok, Exchange fg fgLedOn r₂ ok r' := by
  have hled (r₂ : FgReader) : Ends (fun n =>
      (fgTransmit fg n fgLedOn r₂).andThen fun _ r => (some (), r)) () r' ↔
        ∃ ok, Exchange fg fgLedOn r₂ ok r' := by
    rw [ends_andThen_ret (fgTransmit_stable fg _ r₂)]
    constructor
    · rintro ⟨ok, _, hx, ⟨⟩⟩
      exact ⟨ok, hx⟩
    · rintro ⟨ok, hx⟩
      exact ⟨ok, _, hx, rfl⟩
  have hstable (r₂ : FgReader) : Stable fun n =>
      (fgTransmit fg n fgLedOn r₂).andThen fun _ r => (some (), r) :=
    stable_andThen (fgTransmit_stable fg _ r₂) fun _ _ => .const _
  have hauth (r₁ : FgReader) : Ends (fun n => (fgTransmit fg n fgAuthDef r₁).andThen fun _ r =>
      (fgTransmit fg n fgLedOn r).andThen fun _ r => (some (), r)) () r' ↔
        ∃ ok r₂, Exchange fg fgAuthDef r₁ ok r₂ ∧ ∃ ok, Exchange fg fgLedOn r₂ ok r' := by
    refine (ends_andThen (fgTransmit_stable fg _ r₁) fun _ r₂ => hstable r₂).trans ?_
    simp only [hled]
    rfl
  refine (ends_andThen (fgWakeLoop_stable fg _ _) fun _ r₁ =>
    stable_andThen (fgTransmit_stable fg _ r₁) fun _ r₂ => hstable r₂).trans ?_
  simp only [hauth]

theorem wakeHeard_iff {mode : FgStatus} :
    (∃ r₁, Started fg mode r r₁ ∧ r₁.uart.hearing = h') ↔ WakeHeard fg r.uart.hearing h' := by
  have hflush := hearing_flush fg r.uart
  have hauth : 0 < fgAuthDef.length := by decide
  have hled : 0 < fgLedOn.length := by decide
  simp only [started_iff]
  constructor
  · rintro ⟨r₁, ⟨_, r₂, ⟨n, hloop⟩, ok, r₃, hx, ok', hx'⟩, rfl⟩
    have hb := boots_of_fgWakeLoop hloop
    dsimp only at hb
    rw [hflush] at hb
    exact ⟨_, _, hb, (leaves_sent_iff hauth (by decide)).mp ⟨ok, r₃, hx, rfl⟩,
      (leaves_sent_iff hled (by decide)).mp ⟨ok', r₁, hx', rfl⟩⟩
  · rintro ⟨h₁, h₂, hb, hl, hl'⟩
    obtain ⟨n, r₂, hloop, rfl⟩ := hb.fgWakeLoop
      (r := { r with sFgState := mode, published := [], uart := uartFlushInput fg r.uart }) hflush
    obtain ⟨ok, r₃, hx, rfl⟩ := (leaves_sent_iff hauth (by decide)).mpr hl
    obtain ⟨ok', r₁, hx', rfl⟩ := (leaves_sent_iff hled (by decide)).mpr hl'
    exact ⟨r₁, ⟨(), r₂, ⟨n, hloop⟩, ok, r₃, hx, ok', hx'⟩, rfl⟩

end

/-! ## Which replies end a job -/

/-- The replies with which a job ends visibly, from the moment on at which it begins. A sign-in does
when the sensor is read, a pattern is made of it and the search is answered without a match; a
deletion when its reply is followed to the end. In the last two modes no job begins. -/
def ToldReplies (fg : FgModule) (mode : FgStatus) (h : Hearing) : Prop :=
  match mode with
  | .searchNSignin =>
    ∃ h₁, SensorHeard fg h h₁ ∧ ∃ h₂, (h₁.sent fg).Passes fg h₂ ∧ ¬ h₂.Matched
  | .enroll => ReportsTold fg (fg.tick h.calls) (enrolHeard fg h)
  | .delAll => ∃ h₁, (h.sent fg).Leaves fg h₁
  | .idle | .search => False
  | .init | .delCur => True

/-- A report that ends an enrolment with success and is not checked as it was read has the reply of
a success among those to the authentications that it asks for. -/
def SuccessRead (fg : FgModule) (h : Hearing) : Prop :=
  ∀ h₀ h', ComesTo fg h₀ (fg.tick h.calls) (enrolHeard fg h) → h₀.Passes fg h' →
    h'.report = .success → ¬ h₀.Plain fg → h₀.ReadsSuccess fg

theorem toldEnd_iff (hjob : r.sFgState.job) :
    ToldEnd fg r ↔ ToldReplies fg r.sFgState r.uart.hearing := by
  unfold ToldEnd ToldReplies
  cases hs : r.sFgState with
  | searchNSignin => exact searched_iff (P := fun h => ¬ h.Matched)
  | enroll => exact enrolToldEnd_iff
  | delAll =>
    constructor
    · rintro ⟨ok, r', hx⟩
      exact ⟨_, (leaves_sent_iff (by decide) (by decide)).mp ⟨ok, r', hx, rfl⟩⟩
    · rintro ⟨h₁, hl⟩
      obtain ⟨ok, r', hx, -⟩ :=
        (leaves_sent_iff (show 0 < fgClearAllFg.length by decide) (by decide)).mpr hl
      exact ⟨ok, r', hx⟩
  | idle | search => exact Iff.rfl
  | init | delCur =>
    rw [hs] at hjob
    cases hjob

theorem endsVisibly_iff_heard {mode : FgStatus} :
    EndsVisibly fg mode r ↔ ∀ h, WakeHeard fg r.uart.hearing h → ToldReplies fg mode h := by
  rw [endsVisibly_iff]
  constructor
  · intro hall h hw
    by_cases hjob : mode.job
    · obtain ⟨r₁, hstart, rfl⟩ := wakeHeard_iff.mpr hw
      have hs := hstart.adds.1
      have htold := (toldEnd_iff (hs ▸ hjob)).mp (hall _ ⟨hjob, r₁, hstart, rfl⟩)
      change ToldReplies fg r₁.sFgState r₁.uart.hearing at htold
      rwa [hs] at htold
    · cases mode with
      | init | delCur => trivial
      | idle | search | searchNSignin | enroll | delAll => exact absurd rfl hjob
  · rintro hall _ ⟨hjob, r₁, hstart, rfl⟩
    have hs := hstart.adds.1
    refine (toldEnd_iff (hs ▸ hjob)).mpr ?_
    change ToldReplies fg r₁.sFgState r₁.uart.hearing
    rw [hs]
    exact hall _ (wakeHeard_iff.mp ⟨r₁, hstart, rfl⟩)

/-- A job of the fingerprint reader ends visibly exactly for the replies of `ToldReplies`. It
publishes the success of an enrolment only if the reply of one was received, if a report that asks
for an authentication does not take the place of that reply. -/
theorem fgServiceJob_told (fg : FgModule) (mode : FgStatus) (r : FgReader) :
    (EndsVisibly fg mode r ↔ ∀ h, WakeHeard fg r.uart.hearing h → ToldReplies fg mode h) ∧
      ((mode = .enroll → ∀ h, WakeHeard fg r.uart.hearing h → SuccessRead fg h) →
        SuccessReceived fg mode r) := by
  refine ⟨endsVisibly_iff_heard, ?_⟩
  intro hread n detail hpub
  obtain rfl := mode_of_event hpub
  obtain ⟨r₁, e, hstart, he, hres⟩ := succeeds_of_published hpub
  have hte : e.told = true := by
    cases e with
    | accepted => rfl
    | timeout | failure => cases hres
  obtain ⟨r₀, r₂, hc, hx, -, hsucc, huart, htaken⟩ := he.comesTo hte
  rw [enrolling_hearing] at hc
  have hpass : r₀.uart.hearing.Passes fg r₂.uart.hearing :=
    (passes_iff (by decide)).mp ⟨r₂, hx, rfl⟩
  have hrep : r₂.uart.hearing.report = .success := hsucc hres
  have hr : r₀.uart.hearing.ReadsSuccess fg := by
    by_cases hp : r₀.uart.hearing.Plain fg
    · exact Hearing.readsSuccess_of_plain hp hpass hrep
    · exact hread rfl _ (wakeHeard_iff.mp ⟨r₁, hstart, rfl⟩) _ _ hc hpass hrep hp
  have hrec : Received r r₂ := received_of_readsSuccess hx hr (hstart.taken.trans htaken)
  rwa [Received, ← huart] at hrec

/-- A module that answers the search with `result`, and every other command with success. -/
def searchFg (result : List UInt8) : FgModule :=
  promptFg fun n => if n = 4 then frame result else frame [0x00]

/-- A sign-in that succeeds: the door is unlocked and the UI is not told. -/
theorem signIn_untold :
    ¬ EndsVisibly (searchFg [0x00, 0x00, 0x01, 0x00, 0x64]) .searchNSignin .init := by
  intro h
  have hstart : Started (searchFg [0x00, 0x00, 0x01, 0x00, 0x64]) .searchNSignin .init _ :=
    ⟨5, Prod.ext (by decide +kernel) rfl⟩
  obtain ⟨r', hends, htold⟩ := h (jobStart_mem_iff.mpr ⟨rfl, _, hstart⟩)
  have hjob : Ends (fun n =>
        fgServiceJob (searchFg [0x00, 0x00, 0x01, 0x00, 0x64]) n .searchNSignin .init) ()
      (fgServiceJob (searchFg [0x00, 0x00, 0x01, 0x00, 0x64]) 5 .searchNSignin .init).2 :=
    ⟨5, Prod.ext (by decide +kernel) rfl⟩
  obtain ⟨-, rfl⟩ := hends.unique (fgServiceJob_stable _ _ _) hjob
  exact absurd htold (by decide +kernel)

end DoorLock
