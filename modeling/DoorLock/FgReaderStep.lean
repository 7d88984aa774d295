import DoorLock.FgReader

/-!
# What a fingerprint job leaves to be published

The reader's functions work on the buffer and the line. To the events of the job they only add
events of the mode it was started in; `fg_service` alone adds the authentication of a match.
-/

namespace DoorLock

variable {fg : FgModule} {fuel : Nat} {r r' : FgReader}

@[simp] theorem Returns.andThen_none {α β : Type} (k : α → FgReader → Returns β) :
    Returns.andThen (none, r) k = (none, r) := rfl

@[simp] theorem Returns.andThen_some {α β : Type} (a : α) (k : α → FgReader → Returns β) :
    Returns.andThen (some a, r) k = k a r := rfl

theorem Returns.andThen_eq_some {α β : Type} {x : Returns α} {k : α → FgReader → Returns β}
    {b : β} : x.andThen k = (some b, r') ↔ ∃ a r, x = (some a, r) ∧ k a r = (some b, r') := by
  obtain ⟨_ | a, r⟩ := x
  · simp
  · simp

/-! ## Outcomes -/

/-- The events of mode `mode` with the given progress and detail. -/
def fgEventOuts (mode : FgStatus) (es : List (FgProgress × UInt8)) : List Out :=
  es.map fun e => fgEventOut mode e.1 e.2

@[simp] theorem fgEventOuts_nil (mode : FgStatus) : fgEventOuts mode [] = [] := rfl

@[simp] theorem fgEventOuts_append (mode : FgStatus) (es es' : List (FgProgress × UInt8)) :
    fgEventOuts mode (es ++ es') = fgEventOuts mode es ++ fgEventOuts mode es' :=
  List.map_append

/-- `r'` has published what `r` has and then `es`, in the same mode. -/
structure FgReader.Adds (r : FgReader) (es : List (FgProgress × UInt8)) (r' : FgReader) :
    Prop where
  sFgState : r'.sFgState = r.sFgState
  published : r'.published = r.published ++ fgEventOuts r.sFgState es

namespace FgReader.Adds

theorem nil (hs : r'.sFgState = r.sFgState) (hp : r'.published = r.published) : r.Adds [] r' :=
  ⟨hs, by simp [hp]⟩

theorem rfl : r.Adds [] r := nil (.refl _) (.refl _)

theorem trans {r₁ : FgReader} {es es' : List (FgProgress × UInt8)} (h : r.Adds es r₁)
    (h' : r₁.Adds es' r') : r.Adds (es ++ es') r' := by
  refine ⟨h'.sFgState.trans h.sFgState, ?_⟩
  rw [h'.published, h.published, h.sFgState, fgEventOuts_append, List.append_assoc]

theorem publishEvent (r : FgReader) (progress : FgProgress) (detail : UInt8) :
    r.Adds [(progress, detail)] (r.publishEvent progress detail) :=
  ⟨.refl _, .refl _⟩

end FgReader.Adds

/-- A call leaves a result and the events it added that are related by `P`; no result means that
it did not return. -/
def Returns.Leaves {α : Type} (x : Returns α) (r : FgReader)
    (P : Option α → List (FgProgress × UInt8) → Prop) : Prop :=
  ∃ es, r.Adds es x.2 ∧ P x.1 es

namespace Returns.Leaves

variable {α β : Type} {x : Returns α} {P Q : Option α → List (FgProgress × UInt8) → Prop}

theorem ret {a : Option α} (h : P a []) : Leaves (a, r) r P := ⟨[], .rfl, h⟩

/-- The rule for one call after another. -/
theorem andThen {k : α → FgReader → Returns β} {R : Option β → List (FgProgress × UInt8) → Prop}
    (h : x.Leaves r P) (hnone : ∀ es, P none es → R none es)
    (hk : ∀ a es r₁, P (some a) es → r.Adds es r₁ →
      (k a r₁).Leaves r₁ fun res es' => R res (es ++ es')) :
    (x.andThen k).Leaves r R := by
  obtain ⟨es, ha, hP⟩ := h
  obtain ⟨_ | a, r₁⟩ := x
  · exact ⟨es, ha, hnone es hP⟩
  · obtain ⟨es', ha', hR⟩ := hk a es r₁ hP ha
    exact ⟨es ++ es', ha.trans ha', hR⟩

end Returns.Leaves

/-- No event was added. -/
def Quiet {α : Type} (_ : Option α) (es : List (FgProgress × UInt8)) : Prop := es = []

section
variable (fg : FgModule) (fuel : Nat) (r : FgReader)

theorem fgTransmit_leaves (tx : List UInt8) : (fgTransmit fg fuel tx r).Leaves r Quiet :=
  ⟨[], .nil rfl rfl, rfl⟩

theorem fgWakeLoop_leaves (startTick : TickType) :
    (fgWakeLoop fg startTick fuel r).Leaves r Quiet := by
  induction fuel generalizing r with
  | zero => exact .ret rfl
  | succ fuel ih =>
    unfold fgWakeLoop
    split
    · dsimp only
      split
      · exact ⟨[], .nil rfl rfl, rfl⟩
      · obtain ⟨es, ha, rfl⟩ := ih { r with uart := (uartReadBytes fg r.uart 0 1).2 }
        exact ⟨[], ⟨ha.sFgState, ha.published⟩, rfl⟩
    · exact .ret rfl

theorem fgWake_leaves : (fgWake fg fuel r).Leaves r Quiet := by
  unfold fgWake
  obtain ⟨es, ha, rfl⟩ :=
    fgWakeLoop_leaves fg fuel { r with uart := uartFlushInput fg r.uart }
      (fg.tick (uartFlushInput fg r.uart).calls)
  refine Returns.Leaves.andThen ⟨[], ⟨ha.sFgState, ha.published⟩, rfl⟩ (fun _ h => h) ?_
  rintro _ _ r₁ rfl -
  refine (fgTransmit_leaves fg fuel r₁ fgAuthDef).andThen (fun _ h => h) ?_
  rintro _ _ r₂ rfl -
  refine (fgTransmit_leaves fg fuel r₂ fgLedOn).andThen (fun _ h => h) ?_
  rintro _ _ r₃ rfl -
  exact .ret rfl

theorem fgReadSensor_leaves : (fgReadSensor fg fuel r).Leaves r Quiet := by
  unfold fgReadSensor
  refine (fgTransmit_leaves fg fuel r fgReadSensorCmd).andThen (fun _ h => h) ?_
  rintro ok _ r₁ rfl -
  split
  · exact .ret rfl
  split
  · exact .ret rfl
  split
  · exact .ret rfl
  refine (fgTransmit_leaves fg fuel r₁ fgGenPattern).andThen (fun _ h => h) ?_
  rintro _ _ r₂ rfl -
  exact .ret rfl

/-- What a search that returned may have added to the events of the job. -/
def IdentifyEvents (res : Option Bool) (es : List (FgProgress × UInt8)) : Prop :=
  es = [] ∨ (res = some false ∧ ∃ detail, es = [(.jobDoneFail, detail)])

theorem identifyResult_leaves :
    Returns.Leaves (some (identifyResult r).1, (identifyResult r).2) r IdentifyEvents := by
  unfold identifyResult
  split
  · dsimp only
    split
    · exact ⟨[], .nil rfl rfl, .inl rfl⟩
    · exact ⟨_, ⟨rfl, rfl⟩, .inr ⟨rfl, FgDetail.hesitate.toByte, rfl⟩⟩
  · split
    · exact ⟨_, .publishEvent .., .inr ⟨rfl, _, rfl⟩⟩
    · exact ⟨_, .publishEvent .., .inr ⟨rfl, _, rfl⟩⟩

theorem fgIdentify_leaves : (fgIdentify fg fuel r).Leaves r IdentifyEvents := by
  unfold fgIdentify
  obtain ⟨es, ha, rfl⟩ := fgReadSensor_leaves fg fuel { r with uart := uartFlushInput fg r.uart }
  have hsens : (fgReadSensor fg fuel { r with uart := uartFlushInput fg r.uart }).Leaves r Quiet :=
    ⟨[], ⟨ha.sFgState, ha.published⟩, rfl⟩
  refine hsens.andThen (fun _ h => .inl h) ?_
  rintro ok _ r₁ rfl -
  split
  · exact .ret (.inl rfl)
  refine (fgTransmit_leaves fg fuel r₁ fgSearchPattern).andThen (fun _ h => .inl h) ?_
  rintro state _ r₂ rfl -
  split
  · exact identifyResult_leaves r₂
  · exact .ret (.inl rfl)

/-- The loop of an enrolment adds events of its mode; a success ends it. -/
def EnrollEvents (res : Option Bool) (es : List (FgProgress × UInt8)) : Prop :=
  ∀ detail, (.jobDoneSucc, detail) ∈ es → res = some true

theorem fgEnrollLoop_leaves (startTime : TickType) :
    (fgEnrollLoop fg fuel startTime r).Leaves r EnrollEvents := by
  have hnil (res : Option Bool) : EnrollEvents res [] := fun _ h => nomatch h
  induction fuel generalizing startTime r with
  | zero => exact .ret (hnil _)
  | succ fuel ih =>
    unfold fgEnrollLoop
    split
    · refine (fgTransmit_leaves fg fuel r []).andThen (fun _ h => h ▸ hnil _) ?_
      rintro ok _ r₁ rfl -
      simp only [List.nil_append]
      split
      · exact ih _ _
      cases enrollReport (r₁.rx 9) (r₁.rx 10) (r₁.rx 11) with
      | next reset => cases reset <;> exact ih _ _
      | touchDone touch =>
        obtain ⟨es, ha, hes⟩ := ih (r₁.publishEvent .progessDoneSucc touch) (fg.tick r₁.uart.calls)
        refine ⟨_, (FgReader.Adds.publishEvent r₁ _ _).trans ha, fun detail h => hes detail ?_⟩
        simpa using h
      | success => exact ⟨_, .publishEvent .., fun _ _ => rfl⟩
      | failure detail =>
        cases detail with
        | none => exact .ret (hnil _)
        | some d =>
          refine ⟨_, .publishEvent .., fun detail h => ?_⟩
          cases List.mem_singleton.mp h
    · exact .ret (hnil _)

theorem fgEnroll_leaves (id : UInt16) : (fgEnroll fg fuel id r).Leaves r EnrollEvents := by
  unfold fgEnroll
  split
  · exact .ret fun _ h => nomatch h
  · obtain ⟨es, ha, hes⟩ := fgEnrollLoop_leaves fg fuel
      { r with uart := uartWriteBytes fg (uartFlushInput fg r.uart) (enrollCmd id) }
      (fg.tick r.uart.calls)
    exact ⟨es, ⟨ha.sFgState, ha.published⟩, hes⟩

/-- The one event of a deletion that returned. -/
def DelAllEvents (res : Option Bool) (es : List (FgProgress × UInt8)) : Prop :=
  es = match res with
    | none => []
    | some true => [(.jobDoneSucc, 0)]
    | some false => [(.jobDoneFail, 0)]

theorem fgDelAllfg_leaves : (fgDelAllfg fg fuel r).Leaves r DelAllEvents := by
  unfold fgDelAllfg
  refine (fgTransmit_leaves fg fuel r fgClearAllFg).andThen (fun _ h => h) ?_
  rintro ok _ r₁ rfl -
  split
  · exact ⟨_, .publishEvent .., rfl⟩
  · exact ⟨_, .publishEvent .., rfl⟩

end

/-! ## The whole job -/

/-- The job was started to sign in, `fg_identify` returned true in it and left `id` in
`g_v_identified_id`. -/
structure JobMatched (fg : FgModule) (fuel : Nat) (mode : FgStatus) (r : FgReader) (id : UInt16) :
    Prop where
  mode_eq : mode = .searchNSignin
  matched : ∃ r₁ r₂, fgWake fg fuel { r with sFgState := mode, published := [] } = (some (), r₁) ∧
    fgIdentify fg fuel (r₁.publishEvent .jobStart 0) = (some true, r₂) ∧ r₂.gVIdentifiedId = id

/-- `fg_service` after `fg_wake`. -/
def afterWake (fg : FgModule) (fuel : Nat) (r : FgReader) : Returns Unit :=
  match r.sFgState with
  | .idle | .search | .searchNSignin =>
    (fgIdentify fg fuel (r.publishEvent .jobStart 0)).andThen fun status r =>
    if r.sFgState = .searchNSignin ∧ status = true then
      (some (), r.publish (trustedEvent r.gVIdentifiedId))
    else (some (), r)
  | .enroll =>
    (fgEnroll fg fuel 1 (r.publishEvent .jobStart 0)).andThen fun _ r => (some (), r)
  | .delAll =>
    (fgDelAllfg fg fuel (r.publishEvent .jobStart 0)).andThen fun _ r => (some (), r)
  | _ => (some (), r)

theorem fgServiceJob_eq (fg : FgModule) (fuel : Nat) (mode : FgStatus) (r : FgReader) :
    fgServiceJob fg fuel mode r =
      (fgWake fg fuel { r with sFgState := mode, published := [] }).andThen fun _ r =>
        afterWake fg fuel r := rfl

/-- What is published behind `fg_wake`, if that was without a message: events of the mode, and at
the end the authentication of a match. -/
theorem afterWake_published (fg : FgModule) (fuel : Nat) {mode : FgStatus}
    (hs : r.sFgState = mode) (hp : r.published = []) :
    ∃ es, (afterWake fg fuel r).2.published = fgEventOuts mode es ∨
      ∃ r', mode = .searchNSignin ∧
        fgIdentify fg fuel (r.publishEvent .jobStart 0) = (some true, r') ∧
        (afterWake fg fuel r).2.published =
          fgEventOuts mode es ++ [trustedEvent r'.gVIdentifiedId] := by
  -- what a call adds after the start of the job
  have hcall {x : Returns Bool} {P} (h : x.Leaves (r.publishEvent .jobStart 0) P) :
      ∃ es, x.2.sFgState = mode ∧ x.2.published = fgEventOuts mode es := by
    obtain ⟨es, ha, -⟩ := h
    have hall := (FgReader.Adds.publishEvent r .jobStart 0).trans ha
    exact ⟨_, hall.sFgState.trans hs, by simpa [hp, hs] using hall.published⟩
  have hnoarg {x : Returns Bool} {P} (h : x.Leaves (r.publishEvent .jobStart 0) P) :
      ∃ es, (x.andThen fun _ r => (some (), r)).2.published = fgEventOuts mode es := by
    obtain ⟨es, -, hes⟩ := hcall h
    obtain ⟨_ | _, r'⟩ := x <;> exact ⟨es, hes⟩
  unfold afterWake
  rw [hs]
  cases mode with
  | idle | search | searchNSignin =>
    obtain ⟨es, hs', hes⟩ := hcall (fgIdentify_leaves fg fuel (r.publishEvent .jobStart 0))
    rcases hid : fgIdentify fg fuel (r.publishEvent .jobStart 0) with ⟨_ | status, r'⟩
    · rw [hid] at hes
      exact ⟨es, .inl hes⟩
    rw [hid] at hs' hes
    dsimp only
    rw [Returns.andThen_some]
    split
    · rename_i hc
      refine ⟨es, .inr ⟨r', hs'.symm.trans hc.1, by rw [hc.2], ?_⟩⟩
      simpa [FgReader.publish] using hes
    · exact ⟨es, .inl hes⟩
  | enroll =>
    obtain ⟨es, hes⟩ := hnoarg (fgEnroll_leaves fg fuel _ 1)
    exact ⟨es, .inl hes⟩
  | delAll =>
    obtain ⟨es, hes⟩ := hnoarg (fgDelAllfg_leaves fg fuel _)
    exact ⟨es, .inl hes⟩
  | init | delCur => exact ⟨[], .inl hp⟩

/-- What a job publishes: events of its mode, and at its end the authentication of a match. -/
theorem fgServiceJob_published (fg : FgModule) (fuel : Nat) (mode : FgStatus) (r : FgReader) :
    ∃ es, (fgServiceJob fg fuel mode r).2.published = fgEventOuts mode es ∨
      ∃ id, JobMatched fg fuel mode r id ∧
        (fgServiceJob fg fuel mode r).2.published = fgEventOuts mode es ++ [trustedEvent id] := by
  rw [fgServiceJob_eq]
  obtain ⟨_, ha, rfl⟩ := fgWake_leaves fg fuel { r with sFgState := mode, published := [] }
  rcases hw : fgWake fg fuel { r with sFgState := mode, published := [] } with ⟨_ | _, r₁⟩
  · rw [hw] at ha
    exact ⟨[], .inl (by simpa using ha.published)⟩
  rw [hw] at ha
  have hs : r₁.sFgState = mode := ha.sFgState
  have hp : r₁.published = [] := by simpa using ha.published
  obtain ⟨es, hes | ⟨r₂, hmode, hid, hes⟩⟩ := afterWake_published fg fuel hs hp
  · exact ⟨es, .inl hes⟩
  · exact ⟨es, .inr ⟨_, ⟨hmode, r₁, r₂, hw, hid, rfl⟩, hes⟩⟩

/-- A message of a job is an event of its mode, or the authentication of a match. -/
theorem mem_fgServiceJob {mode : FgStatus} {o : Out}
    (h : o ∈ (fgServiceJob fg fuel mode r).2.published) :
    (∃ progress detail, o = fgEventOut mode progress detail) ∨
      ∃ id, JobMatched fg fuel mode r id ∧ o = trustedEvent id := by
  have hev {es : List (FgProgress × UInt8)} (ho : o ∈ fgEventOuts mode es) :
      ∃ progress detail, o = fgEventOut mode progress detail := by
    obtain ⟨e, -, rfl⟩ := List.mem_map.mp ho
    exact ⟨_, _, rfl⟩
  obtain ⟨es, hes | ⟨id, hm, hes⟩⟩ := fgServiceJob_published fg fuel mode r
  · exact .inl (hev (hes ▸ h))
  · rw [hes, List.mem_append, List.mem_singleton] at h
    rcases h with h | rfl
    · exact .inl (hev h)
    · exact .inr ⟨id, hm, rfl⟩

end DoorLock
