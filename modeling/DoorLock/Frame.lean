import DoorLock.Hearing

/-!
# The grammar of a reply

An exchange that is not made to authenticate accepts the bytes it reads just when they are one
whole reply with its checksum, whatever the buffer held before.
-/

namespace DoorLock

variable {fg : FgModule} {s s' : Uart} {tx : List UInt8}

/-- The bytes of a reply with a body of `n` bytes, the last two of which are the checksum. -/
structure IsFrame (bytes : List UInt8) (n : Nat) : Prop extends GoodReply bytes where
  two_le : 2 ≤ n
  claimed : claimedLen bytes = n

theorem GoodReply.two_le {bytes : List UInt8} (h : GoodReply bytes) : 2 ≤ claimedLen bytes := by
  have hpos := h.claimedLen_pos
  by_contra hlt
  have hone : claimedLen bytes = 1 := by omega
  -- the checksum would reach over the low byte of the length
  have hsum := h.checksum
  have hflag : (bytes.getD 6 0).toNat = 7 := by rw [h.flag]; rfl
  rw [hone, sumAt_succ, sumAt_succ, sumAt_zero, hflag] at hsum
  change 7 + ((bytes.getD 7 0).toNat + 0) =
    (bytes.getD 8 0).toNat * 256 + (bytes.getD 9 0).toNat at hsum
  rw [claimedLen] at hone
  omega

/-- How many bytes the two reads of an exchange deliver: the body is read behind a header only. -/
def Uart.delivers (fg : FgModule) (s : Uart) : Nat := s.hearing.took fg

/-- What a call that ends with `ok` has read off the line and left behind. -/
structure Transmitted (fg : FgModule) (tx : List UInt8) (s : Uart) (bs : List (Nat × UInt8))
    (ok : Bool) (s' : Uart) : Prop where
  delivered : bs = (s.sent fg tx).line.take ((s.sent fg tx).delivers fg)
  line : (s.sent fg tx).line = bs ++ s'.line
  taken : s'.taken = s.taken ++ bs
  accepted : ok = true ↔ ∃ n, IsFrame (bs.map Prod.snd) n
  rxBuf : ok = true → (List.range bs.length).map s'.rxBuf = bs.map Prod.snd

/-- A call that is not made to authenticate, behind a header that claims few bytes, returns true
just when what it read is a frame; the frame is then what the buffer holds and all that was
read. -/
theorem fgCmdTransmit_accepts (htx : tx.length ≤ 11)
    (hclaim : ∀ s₁, HeadRead fg tx s s₁ → s₁.bodyLen ≤ 63)
    (hauth : ∀ s₁, HeadRead fg tx s s₁ → (s₁.readBody fg).2.rxBuf 9 ≠ 0x13) (fuel : Nat) :
    ∃ bs ok s', fgCmdTransmit fg (fuel + 1) tx s = (some ok, s') ∧
      Transmitted fg tx s bs ok s' := by
  have hshort (hh : (s.sent fg tx).hearing.Head fg) :
      claimedLen (s.sent fg tx).hearing.line ≤ 63 := by
    obtain ⟨s₁, h⟩ := (head_iff htx).mp hh
    rw [← h.bodyLen]
    exact hclaim s₁ h
  have hplain : (s.sent fg tx).hearing.Plain fg := by
    refine ⟨fun ⟨hh, h13⟩ => ?_, fun hh hwrap => ?_⟩
    · obtain ⟨s₁, h⟩ := (head_iff htx).mp hh
      rw [← h.hearing] at h13
      exact hauth s₁ h h13
    · have hle := hshort hh
      omega
  have hcount : (s.sent fg tx).hearing.Counted fg := fun hh _ =>
    .inl (Nat.lt_of_le_of_lt (hshort hh) (by decide))
  obtain ⟨s', h, hres⟩ := fgCmdTransmit_of_not_asks htx hplain.1 hcount fuel
  have hbytes : ((s.sent fg tx).line.take ((s.sent fg tx).delivers fg)).map Prod.snd =
      (s.sent fg tx).hearing.line.take ((s.sent fg tx).hearing.took fg) := List.map_take ..
  refine ⟨_, _, s', hres, rfl, ?_, h.taken, ?_, fun _ => ?_⟩
  · rw [h.line]
    exact (List.take_append_drop ..).symm
  · rw [decide_eq_true_iff, Hearing.accepted_next_iff hplain, hbytes]
    exact ⟨fun hg => ⟨_, hg, hg.two_le, rfl⟩, fun ⟨_, hf⟩ => hf.toGoodReply⟩
  · have hheld : s'.rxBuf = _ := congrArg Hearing.held h.hearing
    rw [hheld, ← List.length_map Prod.snd, hbytes]
    change (List.range _).map (writeAt _ 0 _) = _
    rw [range_map_writeAt (Nat.le_refl _), List.take_length]

/-- The reply `00` to a command on an idle line is accepted. -/
theorem fgCmdTransmit_accepts_prompt : ∃ bs s',
    fgCmdTransmit (promptFg fun _ => frame [0x00]) 1 fgReadSensorCmd FgReader.init.uart =
        (some true, s') ∧
      Transmitted (promptFg fun _ => frame [0x00]) fgReadSensorCmd FgReader.init.uart bs true
        s' := by
  obtain ⟨bs, ok, s', h, hbs⟩ : ∃ bs ok s',
      fgCmdTransmit (promptFg fun _ => frame [0x00]) (0 + 1) fgReadSensorCmd FgReader.init.uart =
          (some ok, s') ∧
        Transmitted (promptFg fun _ => frame [0x00]) fgReadSensorCmd FgReader.init.uart bs ok
          s' := by
    refine fgCmdTransmit_accepts (by decide) (fun s₁ h => ?_) (fun s₁ h => ?_) 0
    · rw [← h.eq]
      decide +kernel
    · rw [← h.eq]
      decide +kernel
  have htrue : (fgCmdTransmit (promptFg fun _ => frame [0x00]) (0 + 1) fgReadSensorCmd
      FgReader.init.uart).1 = some true := by decide +kernel
  rw [h] at htrue
  obtain rfl : ok = true := Option.some.inj htrue
  exact ⟨bs, s', h, hbs⟩

end DoorLock
