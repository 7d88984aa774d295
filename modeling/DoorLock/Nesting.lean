import DoorLock.Frame
import Mathlib.Logic.Relation

/-!
# Authentications within an exchange

A reply that begins with confirm code 0x13 makes the call authenticate and then go on with the
buffer as that leaves it. The authentication is an exchange of its own and can ask for another one.
What the calls one inside the other touch, and whether they end, is said of all their headers.
-/

namespace DoorLock

/-- A call of `fg_cmd_transmit`. -/
structure Transmit where
  tx : List UInt8
  uart : Uart

/-- The call reads a reply that makes it call again. -/
def Asks (fg : FgModule) (c c' : Transmit) : Prop :=
  ∃ s₁, HeadRead fg c.tx c.uart s₁ ∧ (s₁.readBody fg).2.rxBuf 9 = 0x13 ∧
    c' = ⟨fgAuthDef, (s₁.readBody fg).2⟩

/-- `c'` is `c` or a call that is made inside it. -/
def Within (fg : FgModule) : Transmit → Transmit → Prop := Relation.ReflTransGen (Asks fg)

/-- Every header read in the call and inside it satisfies `P`. -/
def Everywhere (fg : FgModule) (P : Uart → Prop) (c : Transmit) : Prop :=
  ∀ c' s₁, Within fg c c' → HeadRead fg c'.tx c'.uart s₁ → P s₁

/-- Fewer than `d` calls are one inside the other. -/
def NestsBelow (fg : FgModule) : Nat → Transmit → Prop
  | 0, _ => False
  | d + 1, c => ∀ c', Asks fg c c' → NestsBelow fg d c'

/-- If the claimed body comes in, `fg_getsum` can count to its length. -/
def SumEnds (fg : FgModule) (s₁ : Uart) : Prop :=
  s₁.bodyLen ≤ s₁.got fg s₁.bodyLen → s₁.bodyLen < 255 ∨ s₁.bodyLen = 65535

/-- No more body bytes come in than the buffer has room for. -/
def BodyFits (fg : FgModule) (s₁ : Uart) : Prop := s₁.got fg s₁.bodyLen ≤ 63

variable {fg : FgModule} {c c' : Transmit} {s s₁ : Uart} {tx : List UInt8} {fuel n k : Nat}

theorem everywhere_iff {P : Uart → Prop} : Everywhere fg P c ↔
    (∀ s₁, HeadRead fg c.tx c.uart s₁ → P s₁) ∧ ∀ c', Asks fg c c' → Everywhere fg P c' := by
  constructor
  · intro h
    exact ⟨fun s₁ => h c s₁ .refl, fun c' hc c'' s₁ hn => h c'' s₁ (.head hc hn)⟩
  · rintro ⟨hself, hinner⟩ c' s₁ hn
    rcases Relation.ReflTransGen.cases_head hn with rfl | ⟨c₁, hc, hn⟩
    · exact hself s₁
    · exact hinner c₁ hc c' s₁ hn

theorem HeadRead.unique {s₂ : Uart} (h : HeadRead fg tx s s₁) (h' : HeadRead fg tx s s₂) :
    s₁ = s₂ := h.eq.symm.trans h'.eq

theorem asks_iff (h : HeadRead fg c.tx c.uart s₁) : Asks fg c c' ↔
    (s₁.readBody fg).2.rxBuf 9 = 0x13 ∧ c' = ⟨fgAuthDef, (s₁.readBody fg).2⟩ := by
  constructor
  · rintro ⟨s₂, h', hask⟩
    obtain rfl := h.unique h'
    exact hask
  · intro hask
    exact ⟨s₁, h, hask⟩

/-! ## Which calls end -/

theorem fgGetsum_isSome_iff (mem : Nat → UInt8) (len : UInt16) :
    (fgGetsum mem len).isSome ↔ len.toNat < 256 := by
  constructor
  · intro h
    obtain ⟨c, hc⟩ := Option.isSome_iff_exists.mp h
    exact fgGetsum_len hc
  · intro h
    obtain ⟨c, hc, -⟩ := fgGetsumLoop_eq mem 257 0 0 h (by omega) (by omega) (by simp)
    exact Option.isSome_iff_exists.mpr ⟨c, hc⟩

/-- `fg_getsum` returns the sum of the bytes it is given up to the 255th. -/
theorem fgGetsum_eq_iff (mem : Nat → UInt8) (len : UInt16) :
    fgGetsum mem len = some (UInt32.ofNat (sumAt mem 0 len.toNat)) ↔ len.toNat < 256 := by
  constructor
  · exact fgGetsum_len
  · intro h
    obtain ⟨c, hc⟩ := Option.isSome_iff_exists.mp ((fgGetsum_isSome_iff mem len).mpr h)
    rw [hc, ← fgGetsum_toNat h hc, UInt32.ofNat_toNat]

theorem checkBody_isSome_iff (hn : n < 65536) :
    (checkBody s n k).1.isSome ↔ (n ≤ k → n < 255 ∨ n = 65535) := by
  rcases Nat.lt_or_ge k n with hk | hk
  · rw [checkBody, if_pos hk]
    exact iff_of_true rfl fun hle => absurd hle (Nat.not_le.mpr hk)
  · have hlen : (UInt16.ofNat (n + 1)).toNat < 256 ↔ n < 255 ∨ n = 65535 := by
      rw [UInt16.toNat_ofNat']
      omega
    rw [imp_iff_right hk, ← hlen, ← fgGetsum_isSome_iff fun i => s.rxBuf (6 + i), checkBody,
      if_neg (Nat.not_lt.mpr hk)]
    dsimp only
    split
    · rename_i hnone
      rw [hnone]
      rfl
    · rename_i c hsome
      rw [hsome]
      exact iff_of_true rfl rfl

theorem bodyLen_lt (s : Uart) : s.bodyLen < 65536 := by
  have hhi := (s.rxBuf 7).toNat_lt
  have hlo := (s.rxBuf 8).toNat_lt
  rw [Uart.bodyLen]
  omega

/-- A call without a header ends, and makes no other call. -/
theorem fgCmdTransmit_isSome_of_not_headRead (h : ∀ s₁, ¬HeadRead fg tx s s₁) (fuel : Nat) :
    (fgCmdTransmit fg (fuel + 1) tx s).1.isSome := by
  rcases Nat.lt_or_ge 11 tx.length with htx | htx
  · rw [fgCmdTransmit_succ, if_pos htx]
    rfl
  · rw [fgCmdTransmit_of_not_headRead htx h]
    rfl

/-- The fuel a call needs is the number of calls one inside the other. -/
theorem fgCmdTransmit_isSome_iff (fg : FgModule) (fuel : Nat) (c : Transmit) :
    (fgCmdTransmit fg fuel c.tx c.uart).1.isSome ↔
      NestsBelow fg fuel c ∧ Everywhere fg (SumEnds fg) c := by
  induction fuel generalizing c with
  | zero => exact iff_of_false Bool.false_ne_true And.left
  | succ fuel ih =>
    rw [everywhere_iff, NestsBelow]
    by_cases hhead : ∃ s₁, HeadRead fg c.tx c.uart s₁
    · obtain ⟨s₁, h⟩ := hhead
      have hself : (∀ s₂, HeadRead fg c.tx c.uart s₂ → SumEnds fg s₂) ↔ SumEnds fg s₁ :=
        ⟨fun hs => hs s₁ h, fun hs s₂ h' => h.unique h' ▸ hs⟩
      have hsum (z : Uart) : (checkBody z s₁.bodyLen (s₁.readBody fg).1).1.isSome ↔
          SumEnds fg s₁ := checkBody_isSome_iff (bodyLen_lt s₁)
      rw [hself, fgCmdTransmit_of_headRead h]
      simp only [asks_iff h]
      by_cases h13 : (s₁.readBody fg).2.rxBuf 9 = 0x13
      · have hinner := ih ⟨fgAuthDef, (s₁.readBody fg).2⟩
        rw [if_pos h13]
        simp only [h13, true_and, forall_eq]
        rcases hz : fgCmdTransmit fg fuel fgAuthDef (s₁.readBody fg).2 with ⟨_ | ok, z⟩
        · rw [hz] at hinner
          refine iff_of_false Bool.false_ne_true fun ⟨hbelow, _, hev⟩ => ?_
          exact Bool.false_ne_true (hinner.mpr ⟨hbelow, hev⟩)
        · rw [hz] at hinner
          obtain ⟨hbelow, hev⟩ := hinner.mp rfl
          simp only [hsum, hbelow, hev, true_and, and_true]
      · rw [if_neg h13]
        simp [h13, hsum]
    · have hnot := not_exists.mp hhead
      refine iff_of_true (fgCmdTransmit_isSome_of_not_headRead hnot fuel) ?_
      have hno {c'} : ¬Asks fg c c' := fun ⟨s₁, h, _⟩ => hnot s₁ h
      exact ⟨fun _ ha => absurd ha hno, fun s₁ h => absurd h (hnot s₁),
        fun _ ha => absurd ha hno⟩

/-- A call ends just when the calls inside it do not go on forever and no body comes in that
`fg_getsum` cannot count to the end of; `fg_getsum` returns the sum of up to 255 bytes, and of more
it returns none. -/
theorem fgCmdTransmit_ends_iff (fg : FgModule) (tx : List UInt8) (s : Uart) :
    ((∃ fuel ok s', fgCmdTransmit fg fuel tx s = (some ok, s')) ↔
      (∃ d, NestsBelow fg d ⟨tx, s⟩) ∧ Everywhere fg (SumEnds fg) ⟨tx, s⟩) ∧
    ∀ mem len, fgGetsum mem len = some (UInt32.ofNat (sumAt mem 0 len.toNat)) ↔
      len.toNat < 256 := by
  refine ⟨?_, fgGetsum_eq_iff⟩
  have hsome (fuel : Nat) : (∃ ok s', fgCmdTransmit fg fuel tx s = (some ok, s')) ↔
      (fgCmdTransmit fg fuel tx s).1.isSome := by
    rcases fgCmdTransmit fg fuel tx s with ⟨_ | ok, s'⟩ <;> simp
  simp only [hsome]
  constructor
  · rintro ⟨fuel, h⟩
    obtain ⟨hbelow, hev⟩ := (fgCmdTransmit_isSome_iff fg fuel ⟨tx, s⟩).mp h
    exact ⟨⟨fuel, hbelow⟩, hev⟩
  · rintro ⟨⟨d, hbelow⟩, hev⟩
    exact ⟨d, (fgCmdTransmit_isSome_iff fg d ⟨tx, s⟩).mpr ⟨hbelow, hev⟩⟩

/-- A module that answers every command with confirm code 0x13. -/
def reauthFg : FgModule := promptFg fun _ => frame [0x13]

theorem reauthFg_line (hpos : 0 < tx.length) (h : s.line = []) :
    (s.sent reauthFg tx).line.map Prod.snd = frame [0x13] := by
  have hline : (s.sent reauthFg tx).line = s.line ++ (frame [0x13]).map (s.cmds.length, ·) := by
    rw [Uart.sent, if_pos hpos]
    rfl
  rw [hline, h, List.nil_append, List.map_map]
  exact List.map_id _

/-- Every call asks for another one. -/
theorem reauthFg_asks (hpos : 0 < tx.length) (htx : tx.length ≤ 11) (h : s.line = []) :
    ∃ s', Asks reauthFg ⟨tx, s⟩ ⟨fgAuthDef, s'⟩ ∧ s'.line = [] := by
  have hline := reauthFg_line hpos h
  have hlen : (s.sent reauthFg tx).line.length = 12 := by
    rw [← List.length_map Prod.snd, hline]
    rfl
  have hgot {n} (hn : n ≤ 12) : (s.sent reauthFg tx).got reauthFg n = n := by
    rw [Uart.got, hlen]
    change min n (min 4096 12) = n
    omega
  have hhead := headRead_of_line htx (hgot (by decide)) (by rw [hline]; rfl)
  have hall := readAll_of_eq hhead.read (Nat.le_refl 9)
  generalize (uartReadBytes reauthFg (s.sent reauthFg tx) 0 9).2 = s₁ at hhead hall
  have hn : s₁.bodyLen = 3 := by
    rw [bodyLen_eq hall.rxBuf (by simp [hlen]), List.map_take, hline]
    rfl
  have hbody : ReadAll s₁ 9 s₁.bodyLen (s₁.readBody reauthFg).2 := by
    refine readAll_of_readBody rfl ?_
    change s₁.bodyLen ≤ min s₁.bodyLen (min 4096 s₁.line.length)
    rw [hall.line, List.length_drop, hlen, hn]
    decide
  obtain ⟨bs, hread, -⟩ := replyRead_of_reads hall hhead.head hbody
  refine ⟨_, ⟨s₁, hhead, ?_, rfl⟩, ?_⟩
  · rw [← hread.firstByte, Uart.firstByte, hline, if_neg (by decide)]
    rfl
  · rw [hbody.line, hall.line, List.drop_drop, hn]
    exact List.drop_eq_nil_of_le (Nat.le_of_eq hlen)

theorem reauthFg_nests (d : Nat) (hpos : 0 < tx.length) (htx : tx.length ≤ 11)
    (h : s.line = []) : ¬NestsBelow reauthFg d ⟨tx, s⟩ := by
  induction d generalizing tx s with
  | zero => exact not_false
  | succ d ih =>
    intro hbelow
    obtain ⟨s', hask, hline⟩ := reauthFg_asks hpos htx h
    exact ih (by decide) (by decide) hline (hbelow _ hask)

/-- A call to it does not end, whatever fuel it is given. -/
theorem reauth_never_ends :
    ∃ fg s, ∀ fuel, (fgCmdTransmit fg fuel fgReadSensorCmd s).1 = none := by
  refine ⟨reauthFg, FgReader.init.uart, fun fuel => ?_⟩
  by_contra hsome
  rw [← ne_eq, Option.ne_none_iff_isSome] at hsome
  have hiff := fgCmdTransmit_isSome_iff reauthFg fuel ⟨fgReadSensorCmd, FgReader.init.uart⟩
  exact reauthFg_nests fuel (by decide) (by decide) rfl (hiff.mp hsome).1

/-! ## What a call touches -/

/-- The line and the buffer, of which nothing has been touched. -/
def Uart.untouched (s : Uart) : Uart := { s with reach := 0 }

theorem sent_reach : (s.sent fg tx).reach = s.reach := by
  unfold Uart.sent
  split <;> rfl

theorem HeadRead.reach (h : HeadRead fg tx s s₁) : s₁.reach = max s.reach 9 := by
  have hgot : (s.sent fg tx).got fg 9 = 9 := congrArg Prod.fst h.read
  rw [← h.eq]
  change max (s.sent fg tx).reach (0 + (s.sent fg tx).got fg 9) = _
  rw [hgot, sent_reach]

theorem readBody_reach (fg : FgModule) (s : Uart) :
    (s.readBody fg).2.reach = max (max s.reach (9 + s.got fg s.bodyLen)) 13 := rfl

theorem reach_le_checkBody (s : Uart) (n k : Nat) : s.reach ≤ (checkBody s n k).2.reach := by
  unfold checkBody
  split
  · exact Nat.le_refl _
  · dsimp only
    split
    · exact Nat.le_max_left ..
    · exact Nat.le_max_left ..

/-- The check reads no byte behind the body it was given. -/
theorem checkBody_reach_le (hn : n < 65536) : (checkBody s n k).2.reach ≤ max s.reach (9 + k) := by
  unfold checkBody
  split
  · exact Nat.le_max_left ..
  · dsimp only
    split
    · rename_i hnone
      have hlen := mt (fgGetsum_isSome_iff (fun i => s.rxBuf (6 + i)) (UInt16.ofNat (n + 1))).mpr
        (by rw [hnone]; exact Bool.false_ne_true)
      rw [UInt16.toNat_ofNat'] at hlen
      change max s.reach (6 + 256) ≤ _
      omega
    · change max s.reach (9 + n) ≤ _
      omega

/-- A call touches what the calls inside it do. -/
theorem reach_le_of_asks (h : Asks fg c c') (fuel : Nat) :
    (fgCmdTransmit fg fuel c'.tx c'.uart).2.reach ≤
      (fgCmdTransmit fg (fuel + 1) c.tx c.uart).2.reach := by
  obtain ⟨s₁, hhead, h13, rfl⟩ := h
  rw [fgCmdTransmit_of_headRead hhead, if_pos h13]
  rcases fgCmdTransmit fg fuel fgAuthDef (s₁.readBody fg).2 with ⟨_ | ok, z⟩
  · exact Nat.le_refl _
  · exact reach_le_checkBody z _ _

theorem reach_le_of_within {m : Nat} (hn : Within fg c c')
    (h : ∀ fuel, (fgCmdTransmit fg fuel c.tx c.uart).2.reach ≤ m) (fuel : Nat) :
    (fgCmdTransmit fg fuel c'.tx c'.uart).2.reach ≤ m := by
  induction hn generalizing fuel with
  | refl => exact h fuel
  | tail _ hask ih => exact (reach_le_of_asks hask fuel).trans (ih (fuel + 1))

theorem body_le_reach (h : HeadRead fg c.tx c.uart s₁) :
    9 + s₁.got fg s₁.bodyLen ≤ (fgCmdTransmit fg 1 c.tx c.uart).2.reach := by
  have hbody : 9 + s₁.got fg s₁.bodyLen ≤ (s₁.readBody fg).2.reach := by
    rw [readBody_reach]
    omega
  rw [fgCmdTransmit_of_headRead h]
  split
  · exact hbody
  · exact hbody.trans (reach_le_checkBody ..)

theorem reach_le_of_everywhere (h : Everywhere fg (BodyFits fg) c)
    (hc : c.uart.reach ≤ uart1MaxRwLen) (fuel : Nat) :
    (fgCmdTransmit fg fuel c.tx c.uart).2.reach ≤ uart1MaxRwLen := by
  induction fuel generalizing c with
  | zero => exact hc
  | succ fuel ih =>
    rw [uart1MaxRwLen] at hc
    by_cases hhead : ∃ s₁, HeadRead fg c.tx c.uart s₁
    · obtain ⟨s₁, hs₁⟩ := hhead
      obtain ⟨hself, hinner⟩ := everywhere_iff.mp h
      have hfits : s₁.got fg s₁.bodyLen ≤ 63 := hself s₁ hs₁
      have hbody : (s₁.readBody fg).2.reach ≤ uart1MaxRwLen := by
        rw [readBody_reach, hs₁.reach, uart1MaxRwLen]
        omega
      have hcheck {z : Uart} (hz : z.reach ≤ uart1MaxRwLen) :
          (checkBody z s₁.bodyLen (s₁.readBody fg).1).2.reach ≤ uart1MaxRwLen := by
        refine (checkBody_reach_le (bodyLen_lt s₁)).trans (Nat.max_le.mpr ⟨hz, ?_⟩)
        exact Nat.add_le_add_left hfits 9
      rw [fgCmdTransmit_of_headRead hs₁]
      split
      · rename_i h13
        have hauth := ih (hinner _ ⟨s₁, hs₁, h13, rfl⟩) hbody
        dsimp only at hauth
        rcases hz : fgCmdTransmit fg fuel fgAuthDef (s₁.readBody fg).2 with ⟨_ | ok, z⟩
        · rwa [hz] at hauth
        · rw [hz] at hauth
          exact hcheck hauth
      · exact hcheck hbody
    · rcases Nat.lt_or_ge 11 c.tx.length with htx | htx
      · rw [fgCmdTransmit_succ, if_pos htx]
        exact hc
      · rw [fgCmdTransmit_of_not_headRead htx (not_exists.mp hhead)]
        have hgot := got_le fg (c.uart.sent fg c.tx) 9
        change max (c.uart.sent fg c.tx).reach (0 + (c.uart.sent fg c.tx).got fg 9) ≤ 72
        rw [sent_reach]
        omega

/-- Every byte of the buffer that a call touches, for as long as it runs, is inside of it just when
no header read in the call and inside it is followed by more than 63 bytes. -/
theorem fgCmdTransmit_reach_iff (fg : FgModule) (tx : List UInt8) (s : Uart) :
    (∀ fuel, (fgCmdTransmit fg fuel tx s.untouched).2.reach ≤ uart1MaxRwLen) ↔
      Everywhere fg (BodyFits fg) ⟨tx, s.untouched⟩ := by
  constructor
  · intro h c s₁ hwithin hhead
    have hbody := (body_le_reach hhead).trans (reach_le_of_within hwithin h 1)
    rw [uart1MaxRwLen] at hbody
    rw [BodyFits]
    omega
  · exact fun h => reach_le_of_everywhere h (Nat.zero_le _)

/-- A module whose replies have a body of 64 bytes. -/
def longFg : FgModule := promptFg fun _ => frame (List.replicate 62 0x00)

theorem longFg_overruns :
    uart1MaxRwLen <
      (fgCmdTransmit longFg 1 fgReadSensorCmd FgReader.init.uart.untouched).2.reach := by
  decide +kernel

end DoorLock
