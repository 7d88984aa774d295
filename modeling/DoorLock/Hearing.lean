import DoorLock.Exchange

/-!
# What is heard of the module

The bytes on the line, what the buffer was left with and the numbers of the next driver call and of
the next command decide what an exchange comes to: which frame is next on the line, whether it comes
in before the time-outs, which authentications it asks for and what their replies leave of it.
-/

namespace DoorLock

variable {fg : FgModule} {fuel : Nat} {s s' s₁ : Uart} {tx : List UInt8}

/-- The header of an exchange came in and is that of a reply. -/
structure HeadRead (fg : FgModule) (tx : List UInt8) (s s₁ : Uart) : Prop where
  tx_le : tx.length ≤ 11
  read : uartReadBytes fg (s.sent fg tx) 0 9 = (9, s₁)
  head : s₁.headOk = true

/-! ## The cases of an exchange -/

theorem fgCmdTransmit_of_headRead (h : HeadRead fg tx s s₁) (fuel : Nat) :
    fgCmdTransmit fg (fuel + 1) tx s =
      if (s₁.readBody fg).2.rxBuf 9 = 0x13 then
        match fgCmdTransmit fg fuel fgAuthDef (s₁.readBody fg).2 with
        | (none, s) => (none, s)
        | (some _, s) => checkBody s s₁.bodyLen (s₁.readBody fg).1
      else checkBody (s₁.readBody fg).2 s₁.bodyLen (s₁.readBody fg).1 := by
  rw [fgCmdTransmit_succ, if_neg (Nat.not_lt.mpr h.tx_le)]
  simp only [h.read, h.head]
  rfl

/-- A header that came in and is that of a reply. -/
theorem headRead_of_line (htx : tx.length ≤ 11) (hgot : (s.sent fg tx).got fg 9 = 9)
    (hhead : ((s.sent fg tx).line.map Prod.snd).take 7 = fgAckHead) :
    HeadRead fg tx s (uartReadBytes fg (s.sent fg tx) 0 9).2 := by
  refine ⟨htx, Prod.ext hgot rfl, ?_⟩
  have hle : 9 ≤ (s.sent fg tx).line.length := by
    rw [Uart.got] at hgot
    omega
  have hrange : (List.range 7).map (uartReadBytes fg (s.sent fg tx) 0 9).2.rxBuf = fgAckHead := by
    change (List.range 7).map (writeAt _ 0 (((s.sent fg tx).line.take _).map Prod.snd)) = _
    rw [hgot, range_map_writeAt (by simp [hle]), List.map_take, List.take_take]
    exact hhead
  simp [Uart.headOk, hrange]

theorem got_le (fg : FgModule) (s : Uart) (n : Nat) : s.got fg n ≤ n := Nat.min_le_left ..

/-- Without a header the exchange has read part of one, or one that it refuses. -/
theorem fgCmdTransmit_of_not_headRead (htx : tx.length ≤ 11) (h : ∀ s₁, ¬HeadRead fg tx s s₁)
    (fuel : Nat) : fgCmdTransmit fg (fuel + 1) tx s =
      (some false, (uartReadBytes fg (s.sent fg tx) 0 9).2) := by
  rw [fgCmdTransmit_succ, if_neg (Nat.not_lt.mpr htx)]
  dsimp only
  split
  · rfl
  rename_i hk
  split
  · rfl
  rename_i hok
  have hnine : (uartReadBytes fg (s.sent fg tx) 0 9).1 = 9 :=
    Nat.le_antisymm (got_le fg _ 9) (Nat.le_of_not_lt hk)
  exact absurd ⟨htx, Prod.ext hnine rfl, by simpa using hok⟩ (h _)

theorem sumAt_congr {mem mem' : Nat → UInt8} {off n : Nat}
    (h : ∀ i, off ≤ i → i < off + n → mem i = mem' i) : sumAt mem off n = sumAt mem' off n := by
  refine congrArg List.sum (List.map_congr_left fun i hi => ?_)
  obtain ⟨hle, hlt⟩ := List.mem_range'_1.mp hi
  rw [h i hle hlt]

/-- The check of a complete body whose sum `fg_getsum` can count to the end of. -/
theorem checkBody_of_le {n k : Nat} (hn : (n + 1) % 65536 < 256) (hk : n ≤ k) : checkBody s n k =
    (some (decide (sumAt (fun i => s.rxBuf (6 + i)) 0 ((n + 1) % 65536) = (s.recvSum n).toNat)),
      s.touch (9 + n)) := by
  have hlen : (UInt16.ofNat (n + 1)).toNat = (n + 1) % 65536 := UInt16.toNat_ofNat'
  have hlt : (UInt16.ofNat (n + 1)).toNat < 256 := hlen ▸ hn
  obtain ⟨c, hc, hsum⟩ := fgGetsumLoop_eq (fun i => s.rxBuf (6 + i)) 257 0 0 hlt (by omega)
    (by omega) (by simp)
  have hc : fgGetsum (fun i => s.rxBuf (6 + i)) (UInt16.ofNat (n + 1)) = some c := hc
  rw [hlen, UInt32.toNat_zero, Nat.zero_add, Nat.sub_zero] at hsum
  rw [checkBody, if_neg (Nat.not_lt.mpr hk)]
  simp only [hc, ← hsum, UInt32.toNat_inj]
  rfl

/-- `fg_getsum` does not come to the end of a longer body. -/
theorem checkBody_eq_none {n k : Nat} (hn : 256 ≤ (n + 1) % 65536) (hk : n ≤ k) :
    (checkBody s n k).1 = none := by
  have hlen : 256 ≤ (UInt16.ofNat (n + 1)).toNat := by
    rw [UInt16.toNat_ofNat']
    exact hn
  have hc (mem : Nat → UInt8) : fgGetsum mem (UInt16.ofNat (n + 1)) = none :=
    fgGetsumLoop_eq_none hlen ..
  rw [checkBody, if_neg (Nat.not_lt.mpr hk)]
  simp only [hc]

theorem HeadRead.eq (h : HeadRead fg tx s s₁) : (uartReadBytes fg (s.sent fg tx) 0 9).2 = s₁ :=
  congrArg Prod.snd h.read

/-! ## The next frame -/

/-- The bytes on the line, what the buffer holds, and the numbers of the next driver call and of
the next command. -/
structure Hearing where
  line : List UInt8
  held : Nat → UInt8
  calls : Nat
  cmds : Nat

def Uart.hearing (s : Uart) : Hearing := ⟨s.line.map Prod.snd, s.rxBuf, s.calls, s.cmds.length⟩

namespace Hearing

section
variable (fg : FgModule) (h : Hearing)

/-- What had come in was dropped. -/
def flushed : Hearing :=
  { h with line := h.line.drop (fg.arrived h.calls), calls := h.calls + 1 }

/-- A command was sent: the reply to it is the last thing on the line. -/
def sent : Hearing := { h with line := h.line ++ fg.reply h.cmds, cmds := h.cmds + 1 }

/-- How many bytes of a header come in. -/
def got : Nat := min 9 (min (fg.arrived h.calls) h.line.length)

/-- The header of a reply is next on the line, and comes in. -/
def Head : Prop := h.got fg = 9 ∧ h.line.take 7 = fgAckHead

instance : Decidable (h.Head fg) := inferInstanceAs (Decidable (_ ∧ _))

/-- How many bytes of the body come in that the header claims. -/
def body : Nat := min (claimedLen h.line) (min (fg.arrived (h.calls + 1)) (h.line.length - 9))

/-- How many bytes are read for one reply. -/
def took : Nat := if h.Head fg then 9 + h.body fg else h.got fg

/-- What is left when they were read. -/
def next : Hearing where
  line := h.line.drop (h.took fg)
  held := writeAt h.held 0 (h.line.take (h.took fg))
  calls := if h.Head fg then h.calls + 2 else h.calls + 1
  cmds := h.cmds

/-- The reply asks for an authentication: its first body byte is 0x13, or it has none and the
buffer holds 0x13 there. -/
def Asks : Prop := h.Head fg ∧ (h.next fg).held 9 = 0x13

instance : Decidable (h.Asks fg) := inferInstanceAs (Decidable (_ ∧ _))

/-- The reply is checked as it was read: it asks for no authentication, and does not claim so many
bytes that the length of the sum wraps to zero. -/
def Plain : Prop := ¬ h.Asks fg ∧ (h.Head fg → claimedLen h.line ≠ 65535)

instance : Decidable (h.Plain fg) := inferInstanceAs (Decidable (_ ∧ _))

/-- If the whole body comes in, `fg_getsum` can count to the end of it. -/
def Counted : Prop :=
  h.Head fg → h.body fg = claimedLen h.line → claimedLen h.line < 255 ∨ claimedLen h.line = 65535

instance : Decidable (h.Counted fg) := inferInstanceAs (Decidable (_ → _))

/-- A whole reply comes in, with its checksum. -/
def Good : Prop := GoodReply (h.line.take (h.took fg))

/-- The whole body of the reply came in, and its checksum is that of what `h'` then holds. -/
def Accepted (h' : Hearing) : Prop :=
  h.Head fg ∧ h.body fg = claimedLen h.line ∧
    sumAt h'.held 6 ((claimedLen h.line + 1) % 65536) =
      (h'.held (7 + claimedLen h.line)).toNat * 256 + (h'.held (8 + claimedLen h.line)).toNat

instance (h' : Hearing) : Decidable (h.Accepted fg h') := inferInstanceAs (Decidable (_ ∧ _))

end

/-- What is left of a reply when the authentications were made that it asks for, each of which came
to an end. -/
inductive Leaves (fg : FgModule) : Hearing → Hearing → Prop
  | plain {h} : ¬ h.Asks fg → h.Counted fg → Leaves fg h (h.next fg)
  | auth {h h'} : h.Asks fg → h.Counted fg → Leaves fg ((h.next fg).sent fg) h' → Leaves fg h h'

/-- The next reply is accepted, and leaves `h'`. -/
def Passes (fg : FgModule) (h h' : Hearing) : Prop := Leaves fg h h' ∧ h.Accepted fg h'

section
variable {h h' : Hearing}

theorem Leaves.counted (hl : h.Leaves fg h') : h.Counted fg := by
  cases hl with
  | plain _ hcount => exact hcount
  | auth _ hcount => exact hcount

theorem body_le (fg : FgModule) (h : Hearing) : h.body fg ≤ h.line.length - 9 := by
  rw [body]
  omega

theorem Head.nine_le (hh : h.Head fg) : 9 ≤ h.line.length := by
  have hgot := hh.1
  rw [got] at hgot
  omega

theorem took_le (fg : FgModule) (h : Hearing) : h.took fg ≤ h.line.length := by
  rw [took]
  split
  · rename_i hh
    have hnine := hh.nine_le
    have hbody := body_le fg h
    omega
  · rw [got]
    omega

theorem next_held {i : Nat} (hi : i < h.took fg) : (h.next fg).held i = h.line.getD i 0 := by
  have hlen : (h.line.take (h.took fg)).length = h.took fg := by
    rw [List.length_take, Nat.min_eq_left (took_le fg h)]
  change writeAt h.held 0 (h.line.take (h.took fg)) i = _
  rw [writeAt_zero (Nat.lt_of_lt_of_eq hi hlen.symm), List.getD_eq_getElem?_getD,
    List.getElem?_take, if_pos hi, List.getD_eq_getElem?_getD]

/-- What is read for one reply is whole just when it comes in whole. -/
theorem good_iff :
    h.Good fg ↔ h.Head fg ∧ h.body fg = claimedLen h.line ∧
      GoodReply (h.line.take (9 + claimedLen h.line)) := by
  unfold Good
  by_cases hh : h.Head fg
  · have htook : h.took fg = 9 + h.body fg := if_pos hh
    have hle := body_le fg h
    have hnine := hh.nine_le
    constructor
    · intro hg
      have hlen := hg.length
      rw [htook, claimedLen_take (Nat.le_add_right 9 _), List.length_take] at hlen
      have hbody : h.body fg = claimedLen h.line := by omega
      rw [htook, hbody] at hg
      exact ⟨hh, hbody, hg⟩
    · rintro ⟨-, hbody, hg⟩
      rwa [htook, hbody]
  · refine iff_of_false (fun hg => hh ?_) fun hg => hh hg.1
    have htook : h.took fg = h.got fg := if_neg hh
    have hlen := hg.length
    have hhead := hg.head
    have hgot : h.got fg ≤ 9 := Nat.min_le_left ..
    rw [htook, List.length_take] at hlen
    have hnine : h.got fg = 9 := by omega
    rw [htook, List.take_take, hnine] at hhead
    exact ⟨hnine, hhead⟩

/-- A reply that is checked as it was read is accepted just when it is a good one. -/
theorem accepted_next_iff (hp : h.Plain fg) : h.Accepted fg (h.next fg) ↔ h.Good fg := by
  rw [good_iff]
  refine and_congr_right fun hh => and_congr_right fun hbody => ?_
  have hlt := claimedLen_lt h.line
  have hwrap := hp.2 hh
  have hnine := hh.nine_le
  have hle := body_le fg h
  have htook : h.took fg = 9 + claimedLen h.line := by rw [took, if_pos hh, hbody]
  have hclaim : claimedLen (h.line.take (9 + claimedLen h.line)) = claimedLen h.line :=
    claimedLen_take (Nat.le_add_right 9 _)
  have hheld {i : Nat} (hi : i < 9 + claimedLen h.line) :
      (h.next fg).held i = (h.line.take (9 + claimedLen h.line)).getD i 0 := by
    rw [next_held (htook ▸ hi), List.getD_eq_getElem?_getD, List.getD_eq_getElem?_getD,
      List.getElem?_take, if_pos hi]
  rw [Nat.mod_eq_of_lt (by omega), hheld (by omega), hheld (by omega),
    sumAt_congr fun i _ hi => hheld (by omega)]
  constructor
  · intro hsum
    refine ⟨?_, ?_, ?_⟩
    · rw [List.take_take, Nat.min_eq_left (by omega)]
      exact hh.2
    · rw [hclaim, List.length_take]
      omega
    · rwa [hclaim]
  · intro hg
    have hsum := hg.checksum
    rwa [hclaim] at hsum

end

end Hearing

/-! ## What a call of `fg_cmd_transmit` leaves -/

theorem hearing_got (fg : FgModule) (s : Uart) : s.hearing.got fg = s.got fg 9 := by
  rw [Hearing.got, Uart.got, Uart.hearing, List.length_map]

theorem hearing_flush (fg : FgModule) (s : Uart) :
    (uartFlushInput fg s).hearing = s.hearing.flushed fg := by
  simp [Uart.hearing, uartFlushInput, Hearing.flushed, List.map_drop]

/-- The line after a command was sent. -/
theorem hearing_sent (htx : 0 < tx.length) : (s.sent fg tx).hearing = s.hearing.sent fg := by
  rw [Uart.sent, if_pos htx]
  simp [Uart.hearing, uartWriteBytes, Hearing.sent, Function.comp_def]

theorem head_iff (htx : tx.length ≤ 11) :
    (s.sent fg tx).hearing.Head fg ↔ ∃ s₁, HeadRead fg tx s s₁ := by
  rw [Hearing.Head, hearing_got]
  constructor
  · rintro ⟨hgot, hhead⟩
    exact ⟨_, headRead_of_line htx hgot hhead⟩
  · rintro ⟨s₁, h⟩
    have hall := readAll_of_eq h.read (Nat.le_refl 9)
    refine ⟨congrArg Prod.fst h.read, ?_⟩
    have hrx : (List.range 7).map s₁.rxBuf = fgAckHead := by simpa [Uart.headOk] using h.head
    rw [hall.rxBuf, range_map_writeAt (by simp [hall.le]), List.map_take, List.take_take] at hrx
    exact hrx

/-- A read from the start of the buffer. -/
theorem hearing_read (fg : FgModule) (s : Uart) (n : Nat) :
    (uartReadBytes fg s 0 n).2.hearing =
      ⟨s.hearing.line.drop (s.got fg n),
        writeAt s.rxBuf 0 (s.hearing.line.take (s.got fg n)), s.calls + 1, s.cmds.length⟩ := by
  simp [uartReadBytes, Uart.hearing, List.map_take]

namespace HeadRead

theorem hears (h : HeadRead fg tx s s₁) : (s.sent fg tx).hearing.Head fg :=
  (head_iff h.tx_le).mpr ⟨s₁, h⟩

theorem calls (h : HeadRead fg tx s s₁) : s₁.calls = (s.sent fg tx).calls + 1 := by
  rw [← h.eq]
  rfl

theorem bodyLen (h : HeadRead fg tx s s₁) :
    s₁.bodyLen = claimedLen (s.sent fg tx).hearing.line := by
  have hall := readAll_of_eq h.read (Nat.le_refl 9)
  rw [bodyLen_eq hall.rxBuf (by simp [hall.le]), List.map_take, claimedLen_take (Nat.le_refl 9)]
  rfl

theorem body (h : HeadRead fg tx s s₁) :
    (s₁.readBody fg).1 = (s.sent fg tx).hearing.body fg := by
  have hall := readAll_of_eq h.read (Nat.le_refl 9)
  change s₁.got fg s₁.bodyLen = _
  rw [Uart.got, h.bodyLen, hall.line, h.calls, List.length_drop, Hearing.body, Uart.hearing,
    List.length_map]

theorem took (h : HeadRead fg tx s s₁) :
    (s.sent fg tx).hearing.took fg = 9 + s₁.got fg s₁.bodyLen := by
  rw [Hearing.took, if_pos h.hears, ← h.body]
  rfl

/-- The two reads of an exchange take the frame that is next on the line. -/
theorem hearing (h : HeadRead fg tx s s₁) :
    (s₁.readBody fg).2.hearing = (s.sent fg tx).hearing.next fg := by
  have hall := readAll_of_eq h.read (Nat.le_refl 9)
  have hnine : ((s.sent fg tx).hearing.line.take 9).length = 9 := by
    simp [Uart.hearing, hall.le]
  have hline : s₁.line.map Prod.snd = (s.sent fg tx).hearing.line.drop 9 := by
    rw [hall.line, List.map_drop]
    rfl
  have hheld : s₁.rxBuf =
      writeAt (s.sent fg tx).rxBuf 0 ((s.sent fg tx).hearing.line.take 9) := by
    rw [hall.rxBuf, List.map_take]
    rfl
  change Hearing.mk ((s₁.line.drop (s₁.got fg s₁.bodyLen)).map Prod.snd)
    (writeAt s₁.rxBuf 9 ((s₁.line.take (s₁.got fg s₁.bodyLen)).map Prod.snd)) (s₁.calls + 1)
    s₁.cmds.length = _
  rw [Hearing.next, h.took, if_pos h.hears, h.calls, hall.cmds, List.map_drop, List.map_take,
    hline, List.drop_drop, hheld, List.take_add, ← writeAt_append, hnine]
  rfl

end HeadRead

/-- The reply that was next on the line was read and left in the buffer. -/
structure Heard (fg : FgModule) (tx : List UInt8) (s s' : Uart) : Prop where
  hearing : s'.hearing = (s.sent fg tx).hearing.next fg
  line : s'.line = (s.sent fg tx).line.drop ((s.sent fg tx).hearing.took fg)
  taken : s'.taken = s.taken ++ (s.sent fg tx).line.take ((s.sent fg tx).hearing.took fg)

theorem HeadRead.heard (h : HeadRead fg tx s s₁) : Heard fg tx s (s₁.readBody fg).2 := by
  have hall := readAll_of_eq h.read (Nat.le_refl 9)
  refine ⟨h.hearing, ?_, ?_⟩
  · change s₁.line.drop (s₁.got fg s₁.bodyLen) = _
    rw [h.took, hall.line, List.drop_drop]
  · change s₁.taken ++ s₁.line.take (s₁.got fg s₁.bodyLen) = _
    rw [h.took, hall.line, hall.taken, sent_taken, List.append_assoc, ← List.take_add]

/-- Part of a header, or one that is refused. -/
theorem heard_of_not_head (h : ¬ (s.sent fg tx).hearing.Head fg) :
    Heard fg tx s (uartReadBytes fg (s.sent fg tx) 0 9).2 := by
  have htook : (s.sent fg tx).hearing.took fg = (s.sent fg tx).got fg 9 := by
    rw [Hearing.took, if_neg h, hearing_got]
  refine ⟨?_, ?_, ?_⟩
  · rw [hearing_read, Hearing.next, htook, if_neg h]
    rfl
  · rw [htook]
    rfl
  · rw [htook]
    exact congrArg (· ++ _) sent_taken

theorem checkBody_hearing (z : Uart) (n k : Nat) : (checkBody z n k).2.hearing = z.hearing := by
  unfold checkBody
  split
  · rfl
  · dsimp only
    split
    · rfl
    · rfl

theorem Heard.checkBody (h : Heard fg tx s s₁) (n k : Nat) :
    Heard fg tx s (DoorLock.checkBody s₁ n k).2 := by
  unfold DoorLock.checkBody
  split
  · exact h
  · dsimp only
    split
    · exact ⟨h.hearing, h.line, h.taken⟩
    · exact ⟨h.hearing, h.line, h.taken⟩

/-- The check of the reply that was next on the line, by what the buffer holds then. -/
theorem HeadRead.check (h : HeadRead fg tx s s₁) (z : Uart) :
    (checkBody z s₁.bodyLen (s₁.readBody fg).1).1 =
      if (s.sent fg tx).hearing.Counted fg then
        some (decide ((s.sent fg tx).hearing.Accepted fg z.hearing))
      else none := by
  have hlt := claimedLen_lt (s.sent fg tx).hearing.line
  have hbody : (s.sent fg tx).hearing.body fg ≤ claimedLen (s.sent fg tx).hearing.line :=
    Nat.min_le_left ..
  rw [h.bodyLen, h.body]
  generalize hn : claimedLen (s.sent fg tx).hearing.line = n at hlt hbody ⊢
  rcases Nat.lt_or_ge ((s.sent fg tx).hearing.body fg) n with hk | hk
  · -- part of the body is missing
    have hne : (s.sent fg tx).hearing.body fg ≠ claimedLen (s.sent fg tx).hearing.line :=
      hn ▸ Nat.ne_of_lt hk
    have hcount : (s.sent fg tx).hearing.Counted fg := fun _ heq => absurd heq hne
    rw [checkBody, if_pos hk, if_pos hcount, decide_eq_false fun hacc => hne hacc.2.1]
  · have heq := Nat.le_antisymm hbody hk
    rcases Nat.lt_or_ge ((n + 1) % 65536) 256 with hlen | hlen
    · have hcount : (s.sent fg tx).hearing.Counted fg := fun _ _ => by omega
      rw [checkBody_of_le hlen hk, if_pos hcount]
      refine congrArg some (decide_eq_decide.mpr ?_)
      have hsum : sumAt (fun i => z.rxBuf (6 + i)) 0 ((n + 1) % 65536) =
          sumAt z.hearing.held 6 ((n + 1) % 65536) := by
        rw [sumAt, sumAt, List.range'_eq_map_range, List.range'_eq_map_range, List.map_map,
          List.map_map]
        simp [Function.comp_def, Uart.hearing]
      have hhi : 8 + n - 1 = 7 + n := by omega
      rw [hsum, recvSum_toNat, hhi, Hearing.Accepted, hn]
      exact ⟨fun hs => ⟨h.hears, heq, hs⟩, fun hs => hs.2.2⟩
    · rw [checkBody_eq_none hlen hk, if_neg fun hc => ?_]
      have hcase := hc h.hears (heq.trans hn.symm)
      omega

/-- What a call leaves that is not made to authenticate. -/
theorem fgCmdTransmit_of_not_asks (htx : tx.length ≤ 11)
    (hask : ¬ (s.sent fg tx).hearing.Asks fg) (hcount : (s.sent fg tx).hearing.Counted fg)
    (fuel : Nat) : ∃ s', Heard fg tx s s' ∧ fgCmdTransmit fg (fuel + 1) tx s =
      (some (decide ((s.sent fg tx).hearing.Accepted fg ((s.sent fg tx).hearing.next fg))),
        s') := by
  by_cases hhead : ∃ s₁, HeadRead fg tx s s₁
  · obtain ⟨s₁, hh⟩ := hhead
    have h13 : (s₁.readBody fg).2.rxBuf 9 ≠ 0x13 := fun h13 =>
      hask ⟨hh.hears, (congrFun (congrArg Hearing.held hh.hearing) 9).symm.trans h13⟩
    have hres := hh.check (s₁.readBody fg).2
    rw [if_pos hcount, hh.hearing] at hres
    refine ⟨_, hh.heard.checkBody s₁.bodyLen (s₁.readBody fg).1, ?_⟩
    rw [fgCmdTransmit_of_headRead hh, if_neg h13]
    exact Prod.ext hres rfl
  · have hnot : ¬ (s.sent fg tx).hearing.Head fg := mt (head_iff htx).mp hhead
    refine ⟨_, heard_of_not_head hnot, ?_⟩
    rw [fgCmdTransmit_of_not_headRead htx (not_exists.mp hhead),
      decide_eq_false fun hacc => hnot hacc.1]

/-- What a call leaves that ends. -/
theorem leaves_of_eq {ok : Bool} (htx : tx.length ≤ 11)
    (h : fgCmdTransmit fg fuel tx s = (some ok, s')) :
    (s.sent fg tx).hearing.Leaves fg s'.hearing ∧
      ok = decide ((s.sent fg tx).hearing.Accepted fg s'.hearing) := by
  induction fuel generalizing tx s ok s' with
  | zero => cases h
  | succ fuel ih =>
    by_cases hhead : ∃ s₁, HeadRead fg tx s s₁
    · obtain ⟨s₁, hh⟩ := hhead
      -- the check, in the state that the reply and the authentication left
      have hend {z : Uart} (hz : checkBody z s₁.bodyLen (s₁.readBody fg).1 = (some ok, s')) :
          (s.sent fg tx).hearing.Counted fg ∧ s'.hearing = z.hearing ∧
            ok = decide ((s.sent fg tx).hearing.Accepted fg s'.hearing) := by
        have hs := checkBody_hearing z s₁.bodyLen (s₁.readBody fg).1
        have hres := hh.check z
        rw [hz] at hs hres
        split at hres
        · rename_i hcount
          exact ⟨hcount, hs, by rw [hs]; exact Option.some.inj hres⟩
        · cases hres
      rw [fgCmdTransmit_of_headRead hh] at h
      split at h
      · rename_i h13
        have hask : (s.sent fg tx).hearing.Asks fg :=
          ⟨hh.hears, (congrFun (congrArg Hearing.held hh.hearing) 9).symm.trans h13⟩
        rcases hz : fgCmdTransmit fg fuel fgAuthDef (s₁.readBody fg).2 with ⟨_ | ok', z⟩
        · rw [hz] at h
          cases h
        · rw [hz] at h
          obtain ⟨hcount, hs, hok⟩ := hend h
          obtain ⟨hl, -⟩ := ih (by decide) hz
          rw [hearing_sent (by decide), hh.hearing] at hl
          exact ⟨.auth hask hcount (hs ▸ hl), hok⟩
      · rename_i h13
        have hask : ¬ (s.sent fg tx).hearing.Asks fg := fun ha =>
          h13 ((congrFun (congrArg Hearing.held hh.hearing) 9).trans ha.2)
        obtain ⟨hcount, hs, hok⟩ := hend h
        rw [hh.hearing] at hs
        exact ⟨hs ▸ .plain hask hcount, hok⟩
    · have hnot : ¬ (s.sent fg tx).hearing.Head fg := mt (head_iff htx).mp hhead
      rw [fgCmdTransmit_of_not_headRead htx (not_exists.mp hhead)] at h
      cases h
      rw [(heard_of_not_head hnot).hearing]
      exact ⟨.plain (fun ha => hnot ha.1) fun hh => absurd hh hnot,
        (decide_eq_false fun hacc => hnot hacc.1).symm⟩

/-- A call ends when the authentications end that it is asked for. -/
theorem Hearing.Leaves.transmits {h h' : Hearing} (hl : h.Leaves fg h') (htx : tx.length ≤ 11)
    (hs : (s.sent fg tx).hearing = h) :
    ∃ fuel s', fgCmdTransmit fg fuel tx s = (some (decide (h.Accepted fg h')), s') ∧
      s'.hearing = h' := by
  induction hl generalizing tx s with
  | @plain h hask hcount =>
    subst hs
    obtain ⟨s', hheard, hres⟩ := fgCmdTransmit_of_not_asks htx hask hcount 0
    exact ⟨1, s', hres, hheard.hearing⟩
  | @auth h h' hask hcount _ ih =>
    subst hs
    obtain ⟨s₁, hh⟩ := (head_iff htx).mp hask.1
    have h13 : (s₁.readBody fg).2.rxBuf 9 = 0x13 :=
      (congrFun (congrArg Hearing.held hh.hearing) 9).trans hask.2
    have hsent : ((s₁.readBody fg).2.sent fg fgAuthDef).hearing = _ :=
      (hearing_sent (by decide)).trans (congrArg (Hearing.sent fg) hh.hearing)
    obtain ⟨fuel, z, hz, hzh⟩ := ih (show fgAuthDef.length ≤ 11 by decide) hsent
    have hres := hh.check z
    rw [if_pos hcount, hzh] at hres
    refine ⟨fuel + 1, (checkBody z s₁.bodyLen (s₁.readBody fg).1).2, ?_,
      (checkBody_hearing ..).trans hzh⟩
    rw [fgCmdTransmit_of_headRead hh, if_pos h13, hz]
    exact Prod.ext hres rfl

section
variable {r r' : FgReader} {ok : Bool} {h' : Hearing}

theorem Exchange.leaves (hx : Exchange fg tx r ok r') (htx : tx.length ≤ 11) :
    (r.uart.sent fg tx).hearing.Leaves fg r'.uart.hearing ∧
      ok = decide ((r.uart.sent fg tx).hearing.Accepted fg r'.uart.hearing) := by
  obtain ⟨fuel, s', hs, rfl⟩ := hx.uart
  exact leaves_of_eq htx hs

/-- An exchange, by what is heard of it. -/
theorem exchange_iff (htx : tx.length ≤ 11) :
    (∃ r', Exchange fg tx r ok r' ∧ r'.uart.hearing = h') ↔
      (r.uart.sent fg tx).hearing.Leaves fg h' ∧
        ok = decide ((r.uart.sent fg tx).hearing.Accepted fg h') := by
  constructor
  · rintro ⟨r', hx, rfl⟩
    exact hx.leaves htx
  · rintro ⟨hl, rfl⟩
    obtain ⟨fuel, s', hs, hh⟩ := hl.transmits htx rfl
    refine ⟨{ r with uart := s' }, ⟨fuel, ?_⟩, hh⟩
    dsimp only [fgTransmit]
    rw [hs]

theorem passes_iff (htx : tx.length ≤ 11) :
    (∃ r', Exchange fg tx r true r' ∧ r'.uart.hearing = h') ↔
      (r.uart.sent fg tx).hearing.Passes fg h' := by
  rw [exchange_iff htx, Hearing.Passes, eq_comm, decide_eq_true_iff]

end

/-- A reply with the given body. -/
def frame (body : List UInt8) : List UInt8 :=
  let n := body.length + 2
  let sum := 7 + n / 256 + n % 256 + (body.map UInt8.toNat).sum
  fgAckHead ++ [UInt8.ofNat (n / 256), UInt8.ofNat n] ++ body ++
    [UInt8.ofNat (sum / 256), UInt8.ofNat sum]

/-- A module whose replies have come in whenever they are waited for. -/
def promptFg (reply : Nat → List UInt8) : FgModule where
  reply := reply
  arrived _ := 4096
  tick n := UInt32.ofNat (100 * n)

end DoorLock
