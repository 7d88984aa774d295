import DoorLock.Hearing

/-!
# The runs of `fg_identify`

Three exchanges, each of which reads the buffer that all of them share. The door is opened on the
strength of the last one.
-/

namespace DoorLock

open Fuel (Stable Ends ends_const)

variable {fg : FgModule} {r r' : FgReader} {ok : Bool}

section
variable (fg : FgModule) (r : FgReader)

/-- `fg_read_sensor` after its first exchange. -/
def afterImage (n : Nat) (ok : Bool) (r : FgReader) : Returns Bool :=
  if !ok then (some false, r)
  else if r.rx 9 = 0x02 then (some false, r)
  else if r.rx 9 ≠ 0x00 then (some false, r)
  else
    (fgTransmit fg n fgGenPattern r).andThen fun ok r => (some (ok && r.rx 9 == 0x00), r)

theorem afterImage_stable (ok : Bool) : Stable fun n => afterImage fg n ok r := by
  unfold afterImage
  split
  · exact .const _
  split
  · exact .const _
  split
  · exact .const _
  exact stable_andThen (fgTransmit_stable fg _ r) fun _ _ => .const _

theorem fgReadSensor_stable : Stable fun n => fgReadSensor fg n r :=
  stable_andThen (fgTransmit_stable fg _ r) fun ok r₁ => afterImage_stable fg r₁ ok

/-- `fg_identify` after the sensor was read. -/
def afterCapture (n : Nat) (ok : Bool) (r : FgReader) : Returns Bool :=
  if !ok then (some false, r)
  else
    (fgTransmit fg n fgSearchPattern r).andThen fun state r =>
    if state then (some (identifyResult r).1, (identifyResult r).2) else (some false, r)

theorem afterCapture_stable (ok : Bool) : Stable fun n => afterCapture fg n ok r := by
  unfold afterCapture
  split
  · exact .const _
  exact stable_andThen (fgTransmit_stable fg _ r) fun _ _ => .const _

theorem fgIdentify_stable : Stable fun n => fgIdentify fg n r :=
  stable_andThen (fgReadSensor_stable fg _) fun ok r₁ => afterCapture_stable fg r₁ ok

end

/-- The sensor was read and a pattern made of it: both replies have confirm code 0. -/
def Captured (fg : FgModule) (r r' : FgReader) : Prop :=
  ∃ r₁, Exchange fg fgReadSensorCmd { r with uart := uartFlushInput fg r.uart } true r₁ ∧
    r₁.rx 9 = 0x00 ∧ Exchange fg fgGenPattern r₁ true r' ∧ r'.rx 9 = 0x00

theorem captured_iff :
    Captured fg r r' ↔
      Ends (fun n => fgReadSensor fg n { r with uart := uartFlushInput fg r.uart }) true r' := by
  have hrest (r₁ : FgReader) (ok : Bool) : Ends (fun n => afterImage fg n ok r₁) true r' ↔
      ok = true ∧ r₁.rx 9 = 0x00 ∧ Exchange fg fgGenPattern r₁ true r' ∧ r'.rx 9 = 0x00 := by
    unfold afterImage
    cases ok with
    | false => simp [ends_const]
    | true =>
      by_cases h9 : r₁.rx 9 = 0x00
      · have h2 : ¬ r₁.rx 9 = 0x02 := by rw [h9]; decide
        simp only [Bool.not_true, Bool.false_eq_true, if_false, if_neg h2,
          if_neg (not_not.mpr h9), ends_andThen_ret (fgTransmit_stable fg _ _)]
        simp [h9, Exchange]
      · simp [h9, ends_const]
  refine Iff.trans ?_ (ends_andThen (fgTransmit_stable fg _ _)
    fun ok r₁ => afterImage_stable fg r₁ ok).symm
  simp only [hrest]
  constructor
  · rintro ⟨r₁, hx, h9, hx'⟩
    exact ⟨true, r₁, hx, rfl, h9, hx'⟩
  · rintro ⟨_, r₁, hx, rfl, h9, hx'⟩
    exact ⟨r₁, hx, h9, hx'⟩

/-- The buffer holds a match with a score above 50. -/
def FgReader.Matched (r : FgReader) : Prop := r.rx 9 = 0x00 ∧ 50 < (r.rx16 12).toNat

instance (r : FgReader) : Decidable r.Matched := inferInstanceAs (Decidable (_ ∧ _))

/-- The finger was captured and the search answered, but not with a match. -/
def SearchFailed (fg : FgModule) (r : FgReader) : Prop :=
  ∃ r₁ r₂, Captured fg r r₁ ∧ Exchange fg fgSearchPattern r₁ true r₂ ∧ ¬ r₂.Matched

/-- The runs of `fg_identify`. -/
theorem fgIdentify_ends :
    Ends (fun n => fgIdentify fg n r) ok r' ↔
      (Ends (fun n => fgReadSensor fg n { r with uart := uartFlushInput fg r.uart }) false r' ∧
        ok = false) ∨
      ∃ r₁, Captured fg r r₁ ∧ ((Exchange fg fgSearchPattern r₁ false r' ∧ ok = false) ∨
        ∃ r₂, Exchange fg fgSearchPattern r₁ true r₂ ∧ identifyResult r₂ = (ok, r')) := by
  have hrest (r₁ : FgReader) : Ends (fun n => afterCapture fg n true r₁) ok r' ↔
      (Exchange fg fgSearchPattern r₁ false r' ∧ ok = false) ∨
        ∃ r₂, Exchange fg fgSearchPattern r₁ true r₂ ∧ identifyResult r₂ = (ok, r') := by
    simp only [afterCapture, Bool.not_true, Bool.false_eq_true, if_false,
      ends_andThen_ret (fgTransmit_stable fg _ _)]
    constructor
    · rintro ⟨state, r₂, hx, h⟩
      cases state with
      | false =>
        cases h
        exact .inl ⟨hx, rfl⟩
      | true =>
        rw [if_pos rfl] at h
        cases h
        exact .inr ⟨r₂, hx, rfl⟩
    · rintro (⟨hx, rfl⟩ | ⟨r₂, hx, h⟩)
      · exact ⟨false, r', hx, rfl⟩
      · exact ⟨true, r₂, hx, by rw [if_pos rfl, h]⟩
  refine (ends_andThen (fgReadSensor_stable fg _)
    fun ok r₁ => afterCapture_stable fg r₁ ok).trans ?_
  constructor
  · rintro ⟨ok₁, r₁, hx, h⟩
    cases ok₁ with
    | false =>
      cases ends_const.mp h
      exact .inl ⟨hx, rfl⟩
    | true => exact .inr ⟨r₁, captured_iff.mpr hx, (hrest r₁).mp h⟩
  · rintro (⟨hx, rfl⟩ | ⟨r₁, hx, h⟩)
    · exact ⟨false, r', hx, ends_const.mpr rfl⟩
    · exact ⟨true, r₁, captured_iff.mp hx, (hrest r₁).mpr h⟩

/-! ## The reply to the search -/

theorem identifyResult_matched (h : r.Matched) :
    identifyResult r = (true, { r with gVIdentifiedId := r.rx16 10 }) := by
  rw [identifyResult, if_pos h.1]
  exact if_pos h.2

theorem identifyResult_not_matched (h : ¬ r.Matched) :
    ∃ id detail, identifyResult r =
      (false, { r with gVIdentifiedId := id }.publishEvent .jobDoneFail detail) := by
  unfold identifyResult
  split
  · rename_i h9
    exact ⟨r.rx16 10, FgDetail.hesitate.toByte, if_neg fun hscore => h ⟨h9, hscore⟩⟩
  · split
    · exact ⟨r.gVIdentifiedId, _, rfl⟩
    · exact ⟨r.gVIdentifiedId, _, rfl⟩

/-- Two bytes of a reply, the high one first. -/
def be16 (bytes : List UInt8) (i : Nat) : UInt16 :=
  ((bytes.getD i 0).toUInt16 <<< 8) ||| (bytes.getD (i + 1) 0).toUInt16

/-- A whole reply to a search with a match: confirm code, id, score and checksum are in its body. -/
structure MatchReply (bytes : List UInt8) : Prop where
  good : GoodReply bytes
  code : bytes.getD 9 0 = 0x00
  fields : 7 ≤ claimedLen bytes
  score : 50 < (be16 bytes 12).toNat

/-- From the state `r₁` in which the search was sent, nothing but its reply was read. The reply is
a match, and its id is the one kept. -/
def Genuine (fg : FgModule) (r₁ r' : FgReader) : Prop :=
  ∃ reply, reply <+: fg.reply r₁.uart.cmds.length ∧
    r'.uart.taken = r₁.uart.taken ++ reply.map (r₁.uart.cmds.length, ·) ∧
    MatchReply reply ∧ r'.gVIdentifiedId = be16 reply 10

/-- No bytes of earlier replies are on the line when the search is sent. Its reply claims the
fields of a match, not as many bytes as make the length of the sum wrap, and does not ask for an
authentication. -/
structure SearchAlone (fg : FgModule) (h : Hearing) : Prop where
  line : h.line = []
  fields : 7 ≤ claimedLen (fg.reply h.cmds)
  noWrap : claimedLen (fg.reply h.cmds) ≠ 65535
  noAuth : (fg.reply h.cmds).getD 9 0 ≠ 0x13

theorem Captured.unique {r₁ r₂ : FgReader} (h : Captured fg r r₁) (h' : Captured fg r r₂) :
    r₁ = r₂ :=
  ((captured_iff.mp h).unique (fgReadSensor_stable fg _) (captured_iff.mp h')).2

theorem fgIdentify_true_iff :
    Ends (fun n => fgIdentify fg n r) true r' ↔
      ∃ r₁ r₂, Captured fg r r₁ ∧ Exchange fg fgSearchPattern r₁ true r₂ ∧ r₂.Matched ∧
        r' = { r₂ with gVIdentifiedId := r₂.rx16 10 } := by
  rw [fgIdentify_ends]
  constructor
  · rintro (⟨-, hne⟩ | ⟨r₁, hc, ⟨-, hne⟩ | ⟨r₂, hx, hres⟩⟩)
    · cases hne
    · cases hne
    · by_cases hm : r₂.Matched
      · rw [identifyResult_matched hm] at hres
        cases hres
        exact ⟨r₁, r₂, hc, hx, hm, rfl⟩
      · obtain ⟨id, detail, hfail⟩ := identifyResult_not_matched hm
        rw [hfail] at hres
        cases hres
  · rintro ⟨r₁, r₂, hc, hx, hm, rfl⟩
    exact .inr ⟨r₁, hc, .inr ⟨r₂, hx, identifyResult_matched hm⟩⟩

section
variable {r₁ r₂ : FgReader}

theorem sent_search_line (s : Uart) : (s.sent fg fgSearchPattern).line =
    s.line ++ (fg.reply s.cmds.length).map (s.cmds.length, ·) :=
  rfl

theorem map_snd_tag (n : Nat) (bytes : List UInt8) : (bytes.map (n, ·)).map Prod.snd = bytes := by
  simp [List.map_map, Function.comp_def]

/-- A match that was read from the search's own reply needed no luck. -/
theorem searchAlone_of_genuine (hx : Exchange fg fgSearchPattern r₁ true r₂)
    (h : Genuine fg r₁ { r₂ with gVIdentifiedId := r₂.rx16 10 }) :
    SearchAlone fg r₁.uart.hearing := by
  obtain ⟨reply, hpre, ht, hm, -⟩ := h
  obtain ⟨fuel, s, hs, rfl⟩ := hx.uart
  have hlen : 9 ≤ reply.length := by
    rw [hm.good.length]
    exact Nat.le_add_right 9 _
  have hclaim := claimedLen_of_isPrefix hpre hlen
  have hbyte : (fg.reply r₁.uart.cmds.length).getD 9 0 = 0x00 := by
    obtain ⟨rest, hrest⟩ := hpre
    have hfields := hm.fields
    rw [← hrest, List.getD_eq_getElem?_getD, List.getElem?_append_left (by
      rw [hm.good.length]; omega), ← List.getD_eq_getElem?_getD]
    exact hm.code
  obtain ⟨hplain, hline⟩ := plain_of_good hs ht (by rw [map_snd_tag]; exact hm.good)
    (by rw [map_snd_tag, hm.code]; decide)
  rw [sent_search_line] at hline
  have hempty : r₁.uart.line = [] := by
    -- the first byte on the line answers an earlier command
    cases hl : r₁.uart.line with
    | nil => rfl
    | cons b line =>
      cases hr : reply with
      | nil =>
        rw [hr] at hlen
        cases hlen
      | cons c reply =>
        have hb : b.1 < r₁.uart.cmds.length := r₁.uart.line_lt b (hl ▸ List.mem_cons_self)
        rw [hr, hl] at hline
        obtain ⟨rest, hrest⟩ := hline
        simp only [List.map_cons, List.cons_append, List.cons.injEq] at hrest
        rw [← hrest.1] at hb
        exact absurd hb (Nat.lt_irrefl _)
  have hwrap := hplain.2
  rw [sent_search_line, hempty, List.nil_append, map_snd_tag] at hwrap
  have hauth : (fg.reply r₁.uart.cmds.length).getD 9 0 ≠ 0x13 := by
    rw [hbyte]
    decide
  exact ⟨List.map_eq_nil_iff.mpr hempty, hm.fields.trans (Nat.le_of_eq hclaim), hwrap, hauth⟩

/-- What is read after a search that is answered is the reply to it. -/
theorem genuine_of_searchAlone (ha : SearchAlone fg r₁.uart.hearing)
    (hx : Exchange fg fgSearchPattern r₁ true r₂) (hm : r₂.Matched) :
    Genuine fg r₁ { r₂ with gVIdentifiedId := r₂.rx16 10 } := by
  obtain ⟨fuel, s, hs, rfl⟩ := hx.uart
  have hline : (r₁.uart.sent fg fgSearchPattern).line =
      (fg.reply r₁.uart.cmds.length).map (r₁.uart.cmds.length, ·) := by
    rw [sent_search_line, List.map_eq_nil_iff.mp ha.line, List.nil_append]
  have hplain : (r₁.uart.sent fg fgSearchPattern).Plain := by
    have hfields : 7 ≤ claimedLen (fg.reply r₁.uart.cmds.length) := ha.fields
    rw [Uart.Plain, Uart.firstByte, hline, map_snd_tag, if_neg (by omega)]
    exact ⟨ha.noAuth, ha.noWrap⟩
  obtain ⟨bs, hpre, ht, hgood, hrx⟩ := good_of_plain hs hplain
  rw [hline] at hpre
  have hreply : bs.map Prod.snd <+: fg.reply r₁.uart.cmds.length := by
    have h := hpre.map Prod.snd
    rwa [map_snd_tag] at h
  have htag : (bs.map Prod.snd).map (r₁.uart.cmds.length, ·) = bs := by
    rw [List.map_map]
    refine (List.map_congr_left fun b hb => ?_).trans (List.map_id bs)
    obtain ⟨x, -, rfl⟩ := List.mem_map.mp (hpre.subset hb)
    rfl
  have hlen := hgood.length
  have hfields : 7 ≤ claimedLen (bs.map Prod.snd) := by
    rw [claimedLen_of_isPrefix hreply (by omega)]
    exact ha.fields
  rw [List.length_map] at hlen
  have h16 (i : Nat) (hi : i + 1 < bs.length) :
      FgReader.rx16 { r₁ with uart := s } i = be16 (bs.map Prod.snd) i := by
    rw [FgReader.rx16, be16, ← hrx i (by omega), ← hrx (i + 1) hi]
    rfl
  refine ⟨bs.map Prod.snd, hreply, ht.trans (by rw [htag]), ⟨hgood, ?_, hfields, ?_⟩,
    h16 10 (by omega)⟩
  · exact (hrx 9 (by omega)).symm.trans hm.1
  · rw [← h16 12 (by omega)]
    exact hm.2

end

/-! ## What is heard of the replies -/

namespace Hearing

/-- Two bytes of the buffer, the high one first. -/
def held16 (h : Hearing) (i : Nat) : UInt16 :=
  ((h.held i).toUInt16 <<< 8) ||| (h.held (i + 1)).toUInt16

/-- The buffer holds a match with a score above 50. -/
def Matched (h : Hearing) : Prop := h.held 9 = 0x00 ∧ 50 < (h.held16 12).toNat

end Hearing

/-- The line is flushed, and the replies to both commands of `fg_read_sensor` are accepted, have
confirm code 0 and leave `h'`. -/
def SensorHeard (fg : FgModule) (h h' : Hearing) : Prop :=
  ∃ h₁, ((h.flushed fg).sent fg).Passes fg h₁ ∧ h₁.held 9 = 0x00 ∧
    (h₁.sent fg).Passes fg h' ∧ h'.held 9 = 0x00

/-- The reply to a search that is sent then is accepted, and leaves a match. -/
def MatchHeard (fg : FgModule) (h : Hearing) : Prop :=
  ∃ h', (h.sent fg).Passes fg h' ∧ h'.Matched

section
variable {tx : List UInt8} {h h' : Hearing}

/-- A command and the reply to it. -/
theorem passes_sent_iff (hpos : 0 < tx.length) (htx : tx.length ≤ 11) :
    (∃ r', Exchange fg tx r true r' ∧ r'.uart.hearing = h') ↔
      (r.uart.hearing.sent fg).Passes fg h' := by
  rw [passes_iff htx, hearing_sent hpos]

theorem sensorHeard_iff :
    (∃ r₁, Captured fg r r₁ ∧ r₁.uart.hearing = h) ↔ SensorHeard fg r.uart.hearing h := by
  rw [SensorHeard, ← hearing_flush]
  constructor
  · rintro ⟨r₂, ⟨r₁, hx, h9, hx', h9'⟩, rfl⟩
    have hp := (passes_sent_iff (by decide) (by decide)).mp ⟨r₁, hx, rfl⟩
    exact ⟨_, hp, h9, (passes_sent_iff (by decide) (by decide)).mp ⟨r₂, hx', rfl⟩, h9'⟩
  · rintro ⟨h₁, hp, h9, hp', h9'⟩
    obtain ⟨r₁, hx, rfl⟩ :=
      (passes_sent_iff (r := { r with uart := uartFlushInput fg r.uart })
        (show 0 < fgReadSensorCmd.length by decide) (by decide)).mpr hp
    obtain ⟨r₂, hx', rfl⟩ :=
      (passes_sent_iff (show 0 < fgGenPattern.length by decide) (by decide)).mpr hp'
    exact ⟨r₂, ⟨r₁, hx, h9, hx', h9'⟩, rfl⟩

/-- A search whose exchange is accepted, by what that leaves in the buffer. -/
theorem searched_iff {P : Hearing → Prop} :
    (∃ r₁ r₂, Captured fg r r₁ ∧ Exchange fg fgSearchPattern r₁ true r₂ ∧ P r₂.uart.hearing) ↔
      ∃ h, SensorHeard fg r.uart.hearing h ∧ ∃ h', (h.sent fg).Passes fg h' ∧ P h' := by
  constructor
  · rintro ⟨r₁, r₂, hc, hx, hP⟩
    exact ⟨_, sensorHeard_iff.mp ⟨r₁, hc, rfl⟩, _,
      (passes_sent_iff (by decide) (by decide)).mp ⟨r₂, hx, rfl⟩, hP⟩
  · rintro ⟨_, hs, _, hp, hP⟩
    obtain ⟨r₁, hc, rfl⟩ := sensorHeard_iff.mpr hs
    obtain ⟨r₂, hx, rfl⟩ :=
      (passes_sent_iff (show 0 < fgSearchPattern.length by decide) (by decide)).mpr hp
    exact ⟨r₁, r₂, hc, hx, hP⟩

end

/-- `fg_identify` returns true on the reply to its own search alone, exactly when a match that
comes in for the search has nothing in front of it on the line, claims the bytes of a match and is
checked as it was read. -/
theorem fgIdentify_genuine (fg : FgModule) (r : FgReader) :
    (∀ r', Ends (fun n => fgIdentify fg n r) true r' → ∃ r₁, Captured fg r r₁ ∧ Genuine fg r₁ r') ↔
      ∀ h, SensorHeard fg r.uart.hearing h → MatchHeard fg h → SearchAlone fg h := by
  constructor
  · rintro hall _ hs ⟨_, hp, hmatch⟩
    obtain ⟨r₁, hc, rfl⟩ := sensorHeard_iff.mpr hs
    obtain ⟨r₂, hx, rfl⟩ :=
      (passes_sent_iff (show 0 < fgSearchPattern.length by decide) (by decide)).mpr hp
    obtain ⟨r₁', hc', hg⟩ := hall _ (fgIdentify_true_iff.mpr ⟨r₁, r₂, hc, hx, hmatch, rfl⟩)
    obtain rfl := hc.unique hc'
    exact searchAlone_of_genuine hx hg
  · intro hall r' hr
    obtain ⟨r₁, r₂, hc, hx, hmatch, rfl⟩ := fgIdentify_true_iff.mp hr
    have hm : MatchHeard fg r₁.uart.hearing :=
      ⟨_, (passes_sent_iff (by decide) (by decide)).mp ⟨r₂, hx, rfl⟩, hmatch⟩
    exact ⟨r₁, hc, genuine_of_searchAlone (hall _ (sensorHeard_iff.mp ⟨r₁, hc, rfl⟩) hm) hx hmatch⟩

/-- Every reply is a success without further fields, but the one to the second command has six
body bytes. -/
def shortFg : FgModule :=
  promptFg fun n => if n = 1 then frame [0x00, 0x00, 0x00, 0xff] else frame [0x00]

/-- The reply to the search has neither an id nor a score: the score is what the reply to the
second command left, and the id is the checksum. -/
theorem shortFg_identified : ∃ r', Ends (fun n => fgIdentify shortFg n .init) true r' ∧
    r'.gVIdentifiedId = 10 ∧ ∀ r₁, ¬ Genuine shortFg r₁ r' := by
  refine ⟨(fgIdentify shortFg 3 .init).2, ⟨3, Prod.ext (by decide +kernel) rfl⟩,
    by decide +kernel, ?_⟩
  rintro r₁ ⟨reply, hpre, -, hm, -⟩
  have hlen : claimedLen (shortFg.reply r₁.uart.cmds.length) < 7 := by
    simp only [shortFg, promptFg]
    split <;> decide +kernel
  rw [← claimedLen_of_isPrefix hpre (hm.good.length ▸ Nat.le_add_right 9 _)] at hlen
  exact Nat.not_le.mpr hlen hm.fields

end DoorLock
