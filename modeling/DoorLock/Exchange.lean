import DoorLock.Lib.Fuel
import DoorLock.FgReaderStep

/-!
# One exchange with the module

What `fg_cmd_transmit` has read when it returns true. Without the nested authentication it is one
reply off the line, with its checksum; with it, only the length is checked against the reply that
asked for the authentication, and the bytes that are summed are those of the answer to that.
-/

namespace DoorLock

open Fuel (Stable Ends ends_const ends_bind)

variable {fg : FgModule} {s s' : Uart} {tx : List UInt8}

/-! ## The checksum -/

/-- The sum of `len` bytes of memory. -/
def sumAt (mem : Nat → UInt8) (off len : Nat) : Nat :=
  ((List.range' off len).map fun i => (mem i).toNat).sum

@[simp] theorem sumAt_zero (mem : Nat → UInt8) (off : Nat) : sumAt mem off 0 = 0 := rfl

theorem sumAt_succ (mem : Nat → UInt8) (off len : Nat) :
    sumAt mem off (len + 1) = (mem off).toNat + sumAt mem (off + 1) len := by
  simp [sumAt, List.range'_succ]

/-- Up to 255 bytes are summed in full. -/
theorem fgGetsumLoop_eq (mem : Nat → UInt8) {len : UInt16} (fuel k : Nat) (sum : UInt32)
    (hlen : len.toNat < 256) (hk : k ≤ len.toNat) (hfuel : len.toNat - k < fuel)
    (hsum : sum.toNat ≤ 255 * k) :
    ∃ c, fgGetsumLoop mem len fuel (UInt8.ofNat k) sum = some c ∧
      c.toNat = sum.toNat + sumAt mem k (len.toNat - k) := by
  induction fuel generalizing k sum with
  | zero => omega
  | succ fuel ih =>
    have hkn : (UInt8.ofNat k).toNat = k := by
      rw [UInt8.toNat_ofNat']
      exact Nat.mod_eq_of_lt (by omega)
    rw [fgGetsumLoop, hkn]
    split
    · rename_i hlt
      have hm := (mem k).toNat_lt
      have hadd : (sum + (mem k).toUInt32).toNat = sum.toNat + (mem k).toNat := by
        rw [UInt32.toNat_add, UInt8.toNat_toUInt32]
        exact Nat.mod_eq_of_lt (by omega)
      have hinc : UInt8.ofNat k + 1 = UInt8.ofNat (k + 1) := by
        rw [UInt8.ofNat_add]; rfl
      rw [hinc]
      obtain ⟨c, hc, hct⟩ := ih (k + 1) (sum + (mem k).toUInt32) hlt (by omega) (by omega)
      refine ⟨c, hc, ?_⟩
      have hsplit : len.toNat - k = len.toNat - (k + 1) + 1 := by omega
      rw [hct, hadd, hsplit, sumAt_succ, Nat.add_assoc]
    · have hend : len.toNat - k = 0 := by omega
      exact ⟨sum, rfl, by simp [hend, sumAt]⟩

/-- Past 255 bytes the eight-bit counter never reaches the length. -/
theorem fgGetsumLoop_eq_none {mem : Nat → UInt8} {len : UInt16} (hlen : 256 ≤ len.toNat)
    (fuel : Nat) (i : UInt8) (sum : UInt32) : fgGetsumLoop mem len fuel i sum = none := by
  induction fuel generalizing i sum with
  | zero => rfl
  | succ fuel ih =>
    rw [fgGetsumLoop, if_pos (Nat.lt_of_lt_of_le i.toNat_lt hlen)]
    exact ih _ _

theorem fgGetsum_toNat {mem : Nat → UInt8} {len : UInt16} {c : UInt32} (hlen : len.toNat < 256)
    (h : fgGetsum mem len = some c) : c.toNat = sumAt mem 0 len.toNat := by
  obtain ⟨c', hc, hct⟩ := fgGetsumLoop_eq mem 257 0 0 hlen (by omega) (by omega) (by simp)
  have hsame : some c = some c' := h.symm.trans hc
  cases hsame
  simpa using hct

theorem fgGetsum_len {mem : Nat → UInt8} {len : UInt16} {c : UInt32}
    (h : fgGetsum mem len = some c) : len.toNat < 256 := by
  by_contra hlen
  rw [fgGetsum, fgGetsumLoop_eq_none (Nat.le_of_not_lt hlen)] at h
  cases h

theorem recvSum_toNat (s : Uart) (n : Nat) :
    (s.recvSum n).toNat = (s.rxBuf (8 + n - 1)).toNat * 256 + (s.rxBuf (8 + n)).toNat := by
  have hhi := (s.rxBuf (8 + n - 1)).toNat_lt
  have hlo := (s.rxBuf (8 + n)).toNat_lt
  rw [Uart.recvSum, UInt32.toNat_or, UInt32.toNat_shiftLeft, UInt8.toNat_toUInt32,
    UInt8.toNat_toUInt32]
  have hmod : (s.rxBuf (8 + n - 1)).toNat <<< (UInt32.toNat 8 % 32) % 2 ^ 32 =
      (s.rxBuf (8 + n - 1)).toNat <<< 8 := by
    rw [show UInt32.toNat 8 % 32 = 8 from rfl, Nat.shiftLeft_eq]
    exact Nat.mod_eq_of_lt (by omega)
  rw [hmod, ← Nat.shiftLeft_add_eq_or_of_lt hlo, Nat.shiftLeft_eq]

/-- The end of an exchange that returns true. -/
theorem checkBody_eq_true {n k : Nat} (hn : n < 65536)
    (h : checkBody s n k = (some true, s')) :
    n ≤ k ∧ s' = s.touch (9 + n) ∧
      ((n < 255 ∧ sumAt (fun i => s.rxBuf (6 + i)) 0 (n + 1) = (s.recvSum n).toNat) ∨
        (n = 65535 ∧ (s.recvSum n).toNat = 0)) := by
  unfold checkBody at h
  split at h
  · cases h
  rename_i hnk
  dsimp only at h
  split at h
  · cases h
  rename_i c hc
  obtain ⟨hsum, rfl⟩ := Prod.mk.inj h
  have hsum : c = s.recvSum n := by simpa using hsum
  refine ⟨Nat.le_of_not_lt hnk, rfl, ?_⟩
  have hlen := fgGetsum_len hc
  have hct := fgGetsum_toNat hlen hc
  rw [hsum] at hct
  have hmod : (UInt16.ofNat (n + 1)).toNat = (n + 1) % 65536 := UInt16.toNat_ofNat'
  rw [hmod] at hlen hct
  rcases Nat.lt_or_ge (n + 1) 65536 with hlt | hge
  · rw [Nat.mod_eq_of_lt hlt] at hlen hct
    exact .inl ⟨by omega, hct.symm⟩
  · have hn' : n = 65535 := by omega
    subst hn'
    exact .inr ⟨rfl, hct⟩

/-! ## What has been read -/

/-- The length that a reply claims for its body. -/
def claimedLen (bytes : List UInt8) : Nat :=
  (bytes.getD 7 0).toNat * 256 + (bytes.getD 8 0).toNat

/-- A whole reply: its head, a body as long as it claims, and at its end the sum of the bytes
from the package flag on. -/
structure GoodReply (bytes : List UInt8) : Prop where
  head : bytes.take 7 = fgAckHead
  length : bytes.length = 9 + claimedLen bytes
  checksum : sumAt (fun i => bytes.getD i 0) 6 (claimedLen bytes + 1) =
    (bytes.getD (7 + claimedLen bytes) 0).toNat * 256 +
      (bytes.getD (8 + claimedLen bytes) 0).toNat

/-- The line after the command of an exchange was sent, if it has one. -/
def Uart.sent (fg : FgModule) (tx : List UInt8) (s : Uart) : Uart :=
  if 0 < tx.length then uartWriteBytes fg s tx else s

@[simp] theorem sent_rxBuf : (s.sent fg tx).rxBuf = s.rxBuf := by
  unfold Uart.sent
  split <;> rfl

@[simp] theorem sent_taken : (s.sent fg tx).taken = s.taken := by
  unfold Uart.sent
  split <;> rfl

/-- An exchange has taken `bs` off the line: a header that was accepted and the body it claims. -/
structure ReplyRead (fg : FgModule) (tx : List UInt8) (s : Uart) (bs : List (Nat × UInt8))
    (s' : Uart) : Prop where
  line : (s.sent fg tx).line = bs ++ s'.line
  taken : s'.taken = s.taken ++ bs
  cmds : s'.cmds = (s.sent fg tx).cmds
  rxBuf : s'.rxBuf = writeAt s.rxBuf 0 (bs.map Prod.snd)
  head : (bs.map Prod.snd).take 7 = fgAckHead
  length : bs.length = 9 + claimedLen (bs.map Prod.snd)

theorem writeAt_zero {mem : Nat → UInt8} {bytes : List UInt8} {i : Nat} (h : i < bytes.length) :
    writeAt mem 0 bytes i = bytes.getD i 0 := by
  simp [writeAt, h]

theorem writeAt_append (mem : Nat → UInt8) (a b : List UInt8) :
    writeAt (writeAt mem 0 a) a.length b = writeAt mem 0 (a ++ b) := by
  funext i
  rcases Nat.lt_or_ge i a.length with hi | hi
  · simp [writeAt, Nat.not_le.mpr hi, hi, Nat.lt_add_right]
  · simp [writeAt, hi, List.getElem?_append_right]

theorem range_map_writeAt {mem : Nat → UInt8} {bytes : List UInt8} {n : Nat}
    (h : n ≤ bytes.length) : (List.range n).map (writeAt mem 0 bytes) = bytes.take n := by
  apply List.ext_getElem
  · simp [h]
  · intro i hi _
    rw [List.length_map, List.length_range] at hi
    have hlt : i < bytes.length := Nat.lt_of_lt_of_le hi h
    simp [writeAt_zero hlt, hlt]

theorem bodyLen_eq {mem : Nat → UInt8} {bytes : List UInt8} (hbuf : s.rxBuf = writeAt mem 0 bytes)
    (hlen : 9 ≤ bytes.length) : s.bodyLen = claimedLen bytes := by
  rw [Uart.bodyLen, claimedLen, hbuf, writeAt_zero (by omega), writeAt_zero (by omega)]

theorem claimedLen_take {bytes : List UInt8} {n : Nat} (h : 9 ≤ n) :
    claimedLen (bytes.take n) = claimedLen bytes := by
  simp only [claimedLen, List.getD_eq_getElem?_getD, List.getElem?_take]
  rw [if_pos (by omega), if_pos (by omega)]

theorem claimedLen_lt (bytes : List UInt8) : claimedLen bytes < 65536 := by
  have hhi := (bytes.getD 7 0).toNat_lt
  have hlo := (bytes.getD 8 0).toNat_lt
  rw [claimedLen]
  omega

/-- A read that returned all the bytes it was asked for. -/
structure ReadAll (s : Uart) (off n : Nat) (s' : Uart) : Prop where
  le : n ≤ s.line.length
  line : s'.line = s.line.drop n
  taken : s'.taken = s.taken ++ s.line.take n
  cmds : s'.cmds = s.cmds
  rxBuf : s'.rxBuf = writeAt s.rxBuf off ((s.line.take n).map Prod.snd)

theorem readAll_of_eq {off n k : Nat} (h : uartReadBytes fg s off n = (k, s')) (hk : n ≤ k) :
    ReadAll s off n s' := by
  obtain ⟨hgot, rfl⟩ := Prod.mk.inj h
  have hn : s.got fg n = n := Nat.le_antisymm (Nat.min_le_left ..) (hgot ▸ hk)
  have hle : s.got fg n ≤ s.line.length := by
    unfold Uart.got
    omega
  exact ⟨hn ▸ hle, by simp only [hn], by simp only [hn], rfl, by simp only [hn]⟩

/-- The two reads of an exchange whose header is accepted and whose body is complete. -/
theorem replyRead_of_reads {s₁ s₂ : Uart} (hhead : ReadAll (s.sent fg tx) 0 9 s₁)
    (hok : s₁.headOk) (hbody : ReadAll s₁ 9 s₁.bodyLen s₂) :
    ∃ bs, ReplyRead fg tx s bs s₂ ∧ claimedLen (bs.map Prod.snd) = s₁.bodyLen := by
  have hlen := hbody.le
  rw [hhead.line, List.length_drop] at hlen
  have hlen9 := hhead.le
  generalize hn : s₁.bodyLen = n at hbody hlen ⊢
  have htake : (s.sent fg tx).line.take (9 + n) =
      (s.sent fg tx).line.take 9 ++ s₁.line.take n := by
    rw [hhead.line]
    exact List.take_add
  have hnine : (((s.sent fg tx).line.take 9).map Prod.snd).length = 9 := by simp [hlen9]
  have hclaim : claimedLen (((s.sent fg tx).line.take (9 + n)).map Prod.snd) = n := by
    rw [List.map_take, claimedLen_take (Nat.le_add_right 9 n), ← claimedLen_take (Nat.le_refl 9),
      ← List.map_take, ← bodyLen_eq hhead.rxBuf (Nat.le_of_eq hnine.symm), hn]
  refine ⟨(s.sent fg tx).line.take (9 + n), ⟨?_, ?_, ?_, ?_, ?_, ?_⟩, hclaim⟩
  · rw [hbody.line, hhead.line, List.drop_drop, List.take_append_drop]
  · rw [hbody.taken, hhead.taken, htake, sent_taken, List.append_assoc]
  · rw [hbody.cmds, hhead.cmds]
  · rw [hbody.rxBuf, hhead.rxBuf, htake, List.map_append, ← writeAt_append, hnine, sent_rxBuf]
  · have hrx : (List.range 7).map s₁.rxBuf = fgAckHead := by simpa [Uart.headOk] using hok
    rw [hhead.rxBuf, range_map_writeAt (by omega)] at hrx
    rw [htake, List.map_append, List.take_append_of_le_length (by omega)]
    exact hrx
  · rw [hclaim, List.length_take]
    omega

/-- The read of a body, with what the log reads of it. -/
def Uart.readBody (fg : FgModule) (s : Uart) : Nat × Uart :=
  let y := uartReadBytes fg s 9 s.bodyLen
  (y.1, y.2.touch 13)

theorem readAll_of_readBody {k : Nat} (h : s.readBody fg = (k, s')) (hk : s.bodyLen ≤ k) :
    ReadAll s 9 s.bodyLen s' := by
  obtain ⟨rfl, rfl⟩ := Prod.mk.inj h
  have hread : ReadAll s 9 s.bodyLen (uartReadBytes fg s 9 s.bodyLen).2 := readAll_of_eq rfl hk
  exact ⟨hread.le, hread.line, hread.taken, hread.cmds, hread.rxBuf⟩

theorem fgCmdTransmit_succ (fg : FgModule) (fuel : Nat) (tx : List UInt8) (s : Uart) :
    fgCmdTransmit fg (fuel + 1) tx s =
      if 11 < tx.length then (some false, s)
      else
        let x := uartReadBytes fg (s.sent fg tx) 0 9
        if x.1 < 9 then (some false, x.2)
        else if !x.2.headOk then (some false, x.2)
        else
          let y := x.2.readBody fg
          if y.2.rxBuf 9 = 0x13 then
            match fgCmdTransmit fg fuel fgAuthDef y.2 with
            | (none, s) => (none, s)
            | (some _, s) => checkBody s x.2.bodyLen y.1
          else checkBody y.2 x.2.bodyLen y.1 := rfl

/-- The end of an exchange that has read a body of `n` bytes: the check of what was read or, behind
an authentication it was asked for, of what the buffer holds then. -/
def Checked (fg : FgModule) (n k : Nat) (s s' : Uart) : Prop :=
  (s.rxBuf 9 ≠ 0x13 ∧ checkBody s n k = (some true, s')) ∨
    (s.rxBuf 9 = 0x13 ∧ ∃ fuel ok s₁, fgCmdTransmit fg fuel fgAuthDef s = (some ok, s₁) ∧
      checkBody s₁ n k = (some true, s'))

/-- An exchange that returned true has read a reply and passed the check. -/
theorem fgCmdTransmit_eq_true {fuel : Nat} (h : fgCmdTransmit fg fuel tx s = (some true, s')) :
    ∃ bs s₁ k, ReplyRead fg tx s bs s₁ ∧ Checked fg (claimedLen (bs.map Prod.snd)) k s₁ s' := by
  cases fuel with
  | zero => cases h
  | succ fuel =>
    rw [fgCmdTransmit_succ] at h
    split at h
    · cases h
    dsimp only at h
    generalize hhead : uartReadBytes fg (s.sent fg tx) 0 9 = x at h
    split at h
    · cases h
    rename_i hk
    split at h
    · cases h
    rename_i hok
    generalize hbody : x.2.readBody fg = y at h
    have hread (z : Uart) (hz : checkBody z x.2.bodyLen y.1 = (some true, s')) :
        ∃ bs, ReplyRead fg tx s bs y.2 ∧ claimedLen (bs.map Prod.snd) = x.2.bodyLen := by
      have hle : x.2.bodyLen ≤ y.1 := by
        by_contra hlt
        rw [checkBody, if_pos (Nat.lt_of_not_le hlt)] at hz
        cases hz
      exact replyRead_of_reads (readAll_of_eq hhead (Nat.le_of_not_lt hk)) (by simpa using hok)
        (readAll_of_readBody hbody hle)
    split at h
    · rename_i h13
      split at h
      · cases h
      · rename_i ok s₂ hauth
        obtain ⟨bs, hbs, hn⟩ := hread s₂ h
        exact ⟨bs, y.2, y.1, hbs, .inr ⟨h13, fuel, ok, s₂, hauth, hn ▸ h⟩⟩
    · rename_i h13
      obtain ⟨bs, hbs, hn⟩ := hread y.2 h
      exact ⟨bs, y.2, y.1, hbs, .inl ⟨h13, hn ▸ h⟩⟩

namespace ReplyRead

variable {bs : List (Nat × UInt8)}

theorem rxBuf_eq (h : ReplyRead fg tx s bs s') {i : Nat} (hi : i < bs.length) :
    s'.rxBuf i = (bs.map Prod.snd).getD i 0 := by
  rw [h.rxBuf, writeAt_zero (by simpa using hi)]

/-- The sum and the checksum taken from the buffer are those of what was read. -/
theorem checksum_iff (h : ReplyRead fg tx s bs s') :
    sumAt (fun i => s'.rxBuf (6 + i)) 0 (claimedLen (bs.map Prod.snd) + 1) =
        (s'.recvSum (claimedLen (bs.map Prod.snd))).toNat ↔
      GoodReply (bs.map Prod.snd) := by
  have hlen := h.length
  have hsum : sumAt (fun i => s'.rxBuf (6 + i)) 0 (claimedLen (bs.map Prod.snd) + 1) =
      sumAt (fun i => (bs.map Prod.snd).getD i 0) 6 (claimedLen (bs.map Prod.snd) + 1) := by
    rw [sumAt, sumAt, List.range'_eq_map_range, List.range'_eq_map_range, List.map_map,
      List.map_map]
    refine congrArg List.sum (List.map_congr_left fun i hi => ?_)
    have hi := List.mem_range.mp hi
    simp only [Function.comp_apply, Nat.zero_add]
    rw [h.rxBuf_eq (by omega)]
  have hrecv : (s'.recvSum (claimedLen (bs.map Prod.snd))).toNat =
      ((bs.map Prod.snd).getD (7 + claimedLen (bs.map Prod.snd)) 0).toNat * 256 +
        ((bs.map Prod.snd).getD (8 + claimedLen (bs.map Prod.snd)) 0).toNat := by
    rw [recvSum_toNat, h.rxBuf_eq (by omega), h.rxBuf_eq (by omega)]
    rw [show 8 + claimedLen (bs.map Prod.snd) - 1 = 7 + claimedLen (bs.map Prod.snd) from by omega]
  rw [hsum, hrecv]
  exact ⟨fun hc => ⟨h.head, (List.length_map _).trans hlen, hc⟩, GoodReply.checksum⟩

/-- A reply that is checked in the buffer it was read to is good, unless it claims so many bytes
that the length of the sum wraps to zero. -/
theorem good {k : Nat} (h : ReplyRead fg tx s bs s')
    {s₁ : Uart} (hc : checkBody s' (claimedLen (bs.map Prod.snd)) k = (some true, s₁)) :
    (claimedLen (bs.map Prod.snd) < 255 ∧ GoodReply (bs.map Prod.snd)) ∨
      claimedLen (bs.map Prod.snd) = 65535 := by
  obtain ⟨-, -, ⟨hn, hsum⟩ | ⟨hn, -⟩⟩ := checkBody_eq_true (claimedLen_lt _) hc
  · exact .inl ⟨hn, h.checksum_iff.mp hsum⟩
  · exact .inr hn

end ReplyRead

/-! ## What an exchange leaves -/

/-- The history of the line goes on from `s` to `s'`. -/
structure Uart.Extends (s s' : Uart) : Prop where
  cmds : s.cmds <+: s'.cmds
  taken : s.taken <+: s'.taken

theorem Uart.Extends.rfl : s.Extends s := ⟨List.prefix_rfl, List.prefix_rfl⟩

theorem Uart.Extends.trans {s₁ s₂ s₃ : Uart} (h : s₁.Extends s₂) (h' : s₂.Extends s₃) :
    s₁.Extends s₃ :=
  ⟨h.cmds.trans h'.cmds, h.taken.trans h'.taken⟩

theorem sent_extends (fg : FgModule) (tx : List UInt8) (s : Uart) : s.Extends (s.sent fg tx) := by
  unfold Uart.sent
  split
  · exact ⟨List.prefix_append .., List.prefix_rfl⟩
  · exact .rfl

theorem uartReadBytes_extends (fg : FgModule) (s : Uart) (off n : Nat) :
    s.Extends (uartReadBytes fg s off n).2 :=
  ⟨List.prefix_rfl, List.prefix_append ..⟩

theorem readBody_extends (fg : FgModule) (s : Uart) : s.Extends (s.readBody fg).2 :=
  ⟨List.prefix_rfl, List.prefix_append ..⟩

theorem checkBody_extends (s : Uart) (n k : Nat) : s.Extends (checkBody s n k).2 := by
  unfold checkBody
  split
  · exact .rfl
  · dsimp only
    split
    · exact ⟨List.prefix_rfl, List.prefix_rfl⟩
    · exact ⟨List.prefix_rfl, List.prefix_rfl⟩

theorem fgCmdTransmit_extends (fg : FgModule) (fuel : Nat) (tx : List UInt8) (s : Uart)
    (hfuel : 0 < fuel) (htx : tx.length ≤ 11) :
    (s.sent fg tx).Extends (fgCmdTransmit fg fuel tx s).2 := by
  induction fuel generalizing tx s with
  | zero => cases hfuel
  | succ fuel ih =>
    rw [fgCmdTransmit_succ, if_neg (Nat.not_lt.mpr htx)]
    dsimp only
    have hx := uartReadBytes_extends fg (s.sent fg tx) 0 9
    generalize uartReadBytes fg (s.sent fg tx) 0 9 = x at hx
    split
    · exact hx
    split
    · exact hx
    have hy := hx.trans (readBody_extends fg x.2)
    generalize x.2.readBody fg = y at hy
    split
    · have hauth : y.2.Extends (fgCmdTransmit fg fuel fgAuthDef y.2).2 := by
        rcases Nat.eq_zero_or_pos fuel with rfl | hpos
        · exact .rfl
        · exact (sent_extends fg fgAuthDef y.2).trans (ih fgAuthDef y.2 hpos (by decide))
      rcases hz : fgCmdTransmit fg fuel fgAuthDef y.2 with ⟨_ | ok, z⟩
      · rw [hz] at hauth
        exact hy.trans hauth
      · rw [hz] at hauth
        exact (hy.trans hauth).trans (checkBody_extends z _ _)
    · exact hy.trans (checkBody_extends y.2 _ _)

theorem Checked.extends {n k : Nat} (h : Checked fg n k s s') : s.Extends s' := by
  have hend {x : Uart} (hc : checkBody x n k = (some true, s')) : x.Extends s' := by
    have hx := checkBody_extends x n k
    rwa [hc] at hx
  rcases h with ⟨-, hc⟩ | ⟨-, fuel, ok, s₁, hauth, hc⟩
  · exact hend hc
  · have hfuel : 0 < fuel := by
      rcases Nat.eq_zero_or_pos fuel with rfl | hpos
      · cases hauth
      · exact hpos
    have hs₁ := (sent_extends fg fgAuthDef s).trans
      (fgCmdTransmit_extends fg fuel fgAuthDef s hfuel (by decide))
    rw [hauth] at hs₁
    exact hs₁.trans (hend hc)

/-! ## Which replies are checked as they were read -/

theorem claimedLen_of_isPrefix {a b : List UInt8} (h : a <+: b) (ha : 9 ≤ a.length) :
    claimedLen a = claimedLen b := by
  rw [List.prefix_iff_eq_take.mp h, claimedLen_take ha]

namespace GoodReply

variable {bytes : List UInt8}

theorem flag (h : GoodReply bytes) : bytes.getD 6 0 = 0x07 := by
  have hget : (bytes.take 7).getD 6 0 = 0x07 := by rw [h.head]; rfl
  simpa [List.getD_eq_getElem?_getD, List.getElem?_take] using hget

/-- The sum counts the package flag. -/
theorem checksum_ge (h : GoodReply bytes) :
    7 ≤ (bytes.getD (7 + claimedLen bytes) 0).toNat * 256 +
      (bytes.getD (8 + claimedLen bytes) 0).toNat := by
  have hflag : (bytes.getD 6 0).toNat = 7 := by rw [h.flag]; rfl
  rw [← h.checksum, sumAt_succ, hflag]
  exact Nat.le_add_right 7 _

theorem claimedLen_pos (h : GoodReply bytes) : 0 < claimedLen bytes := by
  rcases Nat.eq_zero_or_pos (claimedLen bytes) with hz | hpos
  · have hge := h.checksum_ge
    rw [hz, Nat.add_zero, Nat.add_zero] at hge
    rw [claimedLen] at hz
    omega
  · exact hpos

end GoodReply

/-- The first body byte that the reply next on the line leaves in the buffer: a reply without a
body leaves what was there. -/
def Uart.firstByte (s : Uart) : UInt8 :=
  if claimedLen (s.line.map Prod.snd) = 0 then s.rxBuf 9 else (s.line.map Prod.snd).getD 9 0

/-- The reply next on the line neither asks for an authentication nor claims so many bytes that
the length of the sum wraps to zero. -/
def Uart.Plain (s : Uart) : Prop :=
  s.firstByte ≠ 0x13 ∧ claimedLen (s.line.map Prod.snd) ≠ 65535

namespace ReplyRead

variable {bs : List (Nat × UInt8)}

theorem isPrefix (h : ReplyRead fg tx s bs s') :
    bs.map Prod.snd <+: (s.sent fg tx).line.map Prod.snd := by
  rw [h.line, List.map_append]
  exact List.prefix_append ..

theorem claimedLen_line (h : ReplyRead fg tx s bs s') :
    claimedLen ((s.sent fg tx).line.map Prod.snd) = claimedLen (bs.map Prod.snd) := by
  have hlen := h.length
  exact (claimedLen_of_isPrefix h.isPrefix (by rw [List.length_map]; omega)).symm

theorem firstByte (h : ReplyRead fg tx s bs s') : (s.sent fg tx).firstByte = s'.rxBuf 9 := by
  have hlen := h.length
  rw [Uart.firstByte, h.claimedLen_line, h.line, sent_rxBuf, List.map_append]
  split
  · rename_i hz
    rw [h.rxBuf, writeAt]
    simp [hlen, hz]
  · rw [h.rxBuf_eq (by omega), List.getD_eq_getElem?_getD, List.getD_eq_getElem?_getD,
      List.getElem?_append_left (by simp only [List.length_map]; omega)]

/-- What was read is as long as its header claims, and so is a good reply that begins with it. -/
theorem eq_of_good {bs' : List (Nat × UInt8)} (h : ReplyRead fg tx s bs s') (hext : bs <+: bs')
    (hgood : GoodReply (bs'.map Prod.snd)) : bs = bs' := by
  refine hext.eq_of_length ?_
  have hlen := h.length
  have hlen' := hgood.length
  have hclaim := claimedLen_of_isPrefix (hext.map Prod.snd) (by rw [List.length_map]; omega)
  rw [List.length_map] at hlen'
  omega

end ReplyRead

/-- An exchange that returned true took a good reply off the line and left it in the buffer, if the
reply is checked as it was read. -/
theorem good_of_plain {fuel : Nat} (h : fgCmdTransmit fg fuel tx s = (some true, s'))
    (hp : (s.sent fg tx).Plain) :
    ∃ bs, bs <+: (s.sent fg tx).line ∧ s'.taken = s.taken ++ bs ∧ GoodReply (bs.map Prod.snd) ∧
      ∀ i < bs.length, s'.rxBuf i = (bs.map Prod.snd).getD i 0 := by
  obtain ⟨bs, s₁, k, hread, ⟨-, hc⟩ | ⟨h13, -⟩⟩ := fgCmdTransmit_eq_true h
  · obtain ⟨-, rfl, -⟩ := checkBody_eq_true (claimedLen_lt _) hc
    rcases hread.good hc with ⟨-, hgood⟩ | hn
    · exact ⟨bs, hread.line ▸ List.prefix_append .., hread.taken, hgood,
        fun i hi => hread.rxBuf_eq hi⟩
    · exact absurd (hread.claimedLen_line.trans hn) hp.2
  · exact absurd (hread.firstByte.trans h13) hp.1

/-- What an exchange that returned true took off the line is a good reply, and does not ask for an
authentication, only if it was checked as it was read. -/
theorem plain_of_good {fuel : Nat} {bs : List (Nat × UInt8)}
    (h : fgCmdTransmit fg fuel tx s = (some true, s')) (ht : s'.taken = s.taken ++ bs)
    (hgood : GoodReply (bs.map Prod.snd)) (h9 : (bs.map Prod.snd).getD 9 0 ≠ 0x13) :
    (s.sent fg tx).Plain ∧ bs <+: (s.sent fg tx).line := by
  obtain ⟨bs', s₁, k, hread, hcase⟩ := fgCmdTransmit_eq_true h
  have hext : bs' <+: bs := by
    have htaken := hcase.extends.taken
    rw [hread.taken, ht] at htaken
    exact (List.prefix_append_right_inj _).mp htaken
  obtain rfl := hread.eq_of_good hext hgood
  have hlen := hread.length
  have hpos := hgood.claimedLen_pos
  refine ⟨⟨?_, ?_⟩, hread.line ▸ List.prefix_append ..⟩
  · rw [hread.firstByte, hread.rxBuf_eq (by omega)]
    exact h9
  · intro hn
    rw [hread.claimedLen_line] at hn
    rcases hcase with ⟨-, hc⟩ | ⟨h13, -⟩
    · obtain ⟨-, -, ⟨hlt, -⟩ | ⟨-, hz⟩⟩ := checkBody_eq_true (claimedLen_lt _) hc
      · omega
      · have hge := hgood.checksum_ge
        rw [recvSum_toNat, hread.rxBuf_eq (by omega), hread.rxBuf_eq (by omega)] at hz
        rw [show 7 + claimedLen (bs'.map Prod.snd) = 8 + claimedLen (bs'.map Prod.snd) - 1 from by
          omega] at hge
        omega
    · rw [hread.rxBuf_eq (by omega)] at h13
      exact h9 h13

/-! ## More fuel -/

theorem fgCmdTransmit_stable (fg : FgModule) (tx : List UInt8) (s : Uart) :
    Stable fun n => fgCmdTransmit fg n tx s := by
  intro n ok s' h
  dsimp only at h ⊢
  induction n generalizing tx s ok s' with
  | zero => cases h
  | succ n ih =>
    rw [fgCmdTransmit_succ] at h ⊢
    rw [← h]
    dsimp only at h ⊢
    split
    · rfl
    rename_i htx
    rw [if_neg htx] at h
    generalize uartReadBytes fg (s.sent fg tx) 0 9 = x at h ⊢
    split
    · rfl
    rename_i hk
    rw [if_neg hk] at h
    split
    · rfl
    rename_i hok
    rw [if_neg hok] at h
    generalize x.2.readBody fg = y at h ⊢
    split
    · rename_i h13
      rw [if_pos h13] at h
      rcases hz : fgCmdTransmit fg n fgAuthDef y.2 with ⟨_ | ok', z⟩
      · rw [hz] at h
        cases h
      · rw [ih fgAuthDef y.2 hz]
    · rfl

section
variable {α β : Type} {x : Nat → Returns α} {k : Nat → α → FgReader → Returns β}

theorem andThen_eq_bind :
    (fun n => (x n).andThen (k n)) = Fuel.bind x fun a r n => k n a r := by
  funext n
  unfold Fuel.bind
  obtain ⟨_ | a, r⟩ := x n <;> rfl

theorem stable_andThen (hx : Stable x) (hk : ∀ a r, Stable fun n => k n a r) :
    Stable fun n => (x n).andThen (k n) := by
  rw [andThen_eq_bind]
  exact hx.bind hk

theorem ends_andThen {b : β} {r' : FgReader} (hx : Stable x)
    (hk : ∀ a r, Stable fun n => k n a r) :
    Ends (fun n => (x n).andThen (k n)) b r' ↔
      ∃ a r, Ends x a r ∧ Ends (fun n => k n a r) b r' := by
  rw [andThen_eq_bind]
  exact ends_bind hx hk

theorem ends_andThen_ret {f : α → FgReader → Returns β} {b : β} {r' : FgReader} (hx : Stable x) :
    Ends (fun n => (x n).andThen f) b r' ↔ ∃ a r, Ends x a r ∧ f a r = (some b, r') := by
  rw [ends_andThen (k := fun _ => f) hx fun a r => .const (f a r)]
  simp only [ends_const]

end

variable {r r' : FgReader} {ok : Bool}

theorem fgTransmit_stable (fg : FgModule) (tx : List UInt8) (r : FgReader) :
    Stable fun n => fgTransmit fg n tx r := by
  intro n ok r' h
  obtain ⟨hok, rfl⟩ := Prod.mk.inj h
  have hstep : fgCmdTransmit fg (n + 1) tx r.uart = (some ok, (fgCmdTransmit fg n tx r.uart).2) :=
    fgCmdTransmit_stable fg tx r.uart (Prod.ext hok rfl)
  dsimp only [fgTransmit]
  rw [hstep]

/-- An exchange of `tx` from the state `r`, as the reader's functions see it. -/
def Exchange (fg : FgModule) (tx : List UInt8) (r : FgReader) (ok : Bool) (r' : FgReader) : Prop :=
  Ends (fun n => fgTransmit fg n tx r) ok r'

namespace Exchange

theorem uart (h : Exchange fg tx r ok r') :
    ∃ fuel s, fgCmdTransmit fg fuel tx r.uart = (some ok, s) ∧ r' = { r with uart := s } := by
  obtain ⟨n, h⟩ := h
  obtain ⟨hok, rfl⟩ := Prod.mk.inj h
  exact ⟨n, _, Prod.ext hok rfl, rfl⟩

theorem sFgState (h : Exchange fg tx r ok r') : r'.sFgState = r.sFgState := by
  obtain ⟨_, _, -, rfl⟩ := h.uart
  rfl

theorem published (h : Exchange fg tx r ok r') : r'.published = r.published := by
  obtain ⟨_, _, -, rfl⟩ := h.uart
  rfl

end Exchange

end DoorLock
