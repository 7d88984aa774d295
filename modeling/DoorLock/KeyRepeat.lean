import DoorLock.Keypad

/-!
# The repeat rate of a key

A key is held as long as scans less than 50 ms apart find it down. Its first event of a hold is to
be repeated after more than `FIRST_REPEAT_INPT_DELAYMS`, every later one after more than
`REPEAT_INPT_DELAYMS`. The times are kept for the character accepted last alone, so the rate is
that of a hold no other key interferes with.
-/

namespace DoorLock

open Transition

/-- The ticks of a time in milliseconds. -/
def ticks (ms : TickType) : Nat := (pdMsToTicks ms).toNat

/-- The tick at which a scan finds a key down. -/
def Scan.tickOf (scan : Scan) (ch : UInt8) : Option TickType :=
  (scan.seen.find? fun k => k.2 == ch).map Prod.fst

/-- The keypad, and the ticks of the events published for one key since it is held, the newest
first; `none` when the last scan did not find the key down. -/
structure Watch where
  keypad : Keypad
  hold : Option (List TickType)

def Watch.init : Watch := ⟨.init, none⟩

/-- The ticks of the events a scan publishes for a key. -/
def keyEvents (ch : UInt8) (s : Keypad) (scan : Scan) : List TickType :=
  ((keypadScan s scan).2.filter fun k => k.2 == ch).map Prod.fst

/-- The hold of a key after a scan. -/
def Watch.nextHold (ch : UInt8) (s : Watch) (scan : Scan) : Option (List TickType) :=
  match scan.tickOf ch, s.hold with
  | none, _ => none
  | some _, none => some (keyEvents ch s.keypad scan)
  | some t, some es =>
    if t - s.keypad.lastInptTime < pdMsToTicks 50 then some (keyEvents ch s.keypad scan ++ es)
    else some (keyEvents ch s.keypad scan)

/-- A scan, with the hold of the key `ch` kept. -/
def watchStep (ch : UInt8) (s : Watch) (scan : Scan) : Except Unit Watch :=
  if scan.Ordered s.keypad.lastInptTime then
    .ok ⟨(keypadScan s.keypad scan).1, s.nextHold ch scan⟩
  else .error ()

/-- What has to pass before the next event of a hold with the events `es`. -/
def repeatLimit (es : List TickType) : Nat :=
  if es.length = 1 then ticks firstRepeatInptDelayms else ticks repeatInptDelayms

/-- The events of a hold keep to the limits. -/
def Limited : List TickType → Prop
  | [] => True
  | [_] => True
  | t :: e :: es => e.toNat + repeatLimit (e :: es) < t.toNat ∧ Limited (e :: es)

/-- After a scan the events of the hold keep to the limits. -/
def RepeatsRight (l : Label Watch Scan) : Prop := ∀ es, l.post.hold = some es → Limited es

/-- Another key has been found down since the last time `ch` was. -/
def OtherSeen (ch : UInt8) (s : Keypad) (scan : Scan) : Prop :=
  scan.seen.takeWhile (fun k => k.2 != ch) ≠ [] ∨ s.lastInptChar ≠ ch

instance (ch : UInt8) (s : Keypad) (scan : Scan) : Decidable (OtherSeen ch s scan) :=
  inferInstanceAs (Decidable (_ ∨ _))

/-- A held key with an event is found down again. If another key has been found down since, the
limit has passed since its last event. If none has, and the one event of the hold did not raise the
flag of a long press, it is not the time between the two limits. -/
def RepeatsFit (ch : UInt8) (l : Label Watch Scan) : Prop :=
  ∀ e es t, l.pre.hold = some (e :: es) → l.act.tickOf ch = some t →
    t - l.pre.keypad.lastInptTime < pdMsToTicks 50 →
    (OtherSeen ch l.pre.keypad l.act → e.toNat + repeatLimit (e :: es) < t.toNat) ∧
      (¬ OtherSeen ch l.pre.keypad l.act → es = [] → l.pre.keypad.longpressStartFlag = false →
        ¬(e.toNat + ticks repeatInptDelayms < t.toNat ∧
          t.toNat ≤ e.toNat + ticks firstRepeatInptDelayms))

/-! ## A scan -/

section
variable {s : Keypad} {scan : Scan} {ch : UInt8} {t : TickType}
  {keys behind : List (TickType × UInt8)}

theorem keypadKeys_append (s : Keypad) (keys keys' : List (TickType × UInt8)) :
    keypadKeys s (keys ++ keys') = ((keypadKeys (keypadKeys s keys).1 keys').1,
      (keypadKeys s keys).2 ++ (keypadKeys (keypadKeys s keys).1 keys').2) := by
  induction keys generalizing s with
  | nil => rfl
  | cons k keys ih =>
    simp only [List.cons_append, keypadKeys, ih]
    split <;> rfl

theorem keypadKeys_sublist (s : Keypad) (keys : List (TickType × UInt8)) :
    (keypadKeys s keys).2.Sublist keys := by
  induction keys generalizing s with
  | nil => exact .slnil
  | cons k keys ih =>
    simp only [keypadKeys]
    split
    · exact (ih _).cons_cons k
    · exact (ih _).cons k

/-- A key that is found down is the last one, accepted or not. -/
@[simp] theorem keypadKey_lastInptChar (s : Keypad) (curTime : TickType) (ch : UInt8) :
    (keypadKey s curTime ch).1.lastInptChar = ch := by
  rw [keypadKey]
  split
  · rfl
  · rename_i h
    by_contra hne
    exact h (by simp [Keypad.accepts, Ne.symm hne])

theorem keypadKeys_lastInptChar (hkeys : ∀ k ∈ keys, k.2 ≠ ch) :
    (keypadKeys s keys).1.lastInptChar = ch ↔ keys = [] ∧ s.lastInptChar = ch := by
  induction keys generalizing s with
  | nil => simp [keypadKeys]
  | cons k keys ih =>
    obtain ⟨hk, hkeys⟩ := List.forall_mem_cons.mp hkeys
    rw [keypadKeys, ih hkeys, keypadKey_lastInptChar]
    simp [hk]

theorem seen_nodup (scan : Scan) : (scan.seen.map Prod.snd).Nodup := by
  have hall : (scanOrder.map fun k => keypadMap k.1 k.2).Nodup := by decide
  rw [Scan.seen, List.map_map]
  exact (List.Sublist.map _ List.filter_sublist).nodup hall

/-- Where a scan finds a key. -/
theorem seen_split (h : scan.tickOf ch = some t) :
    ∃ before behind, scan.seen = before ++ (t, ch) :: behind ∧ (∀ k ∈ before, k.2 ≠ ch) ∧
      (∀ k ∈ behind, k.2 ≠ ch) ∧ scan.seen.takeWhile (fun k => k.2 != ch) = before := by
  obtain ⟨⟨t', ch'⟩, hk, rfl⟩ := Option.map_eq_some_iff.mp h
  obtain ⟨hch, before, behind, hseen, hbefore⟩ := List.find?_eq_some_iff_append.mp hk
  obtain rfl : ch' = ch := by simpa using hch
  have hbefore : ∀ k ∈ before, k.2 ≠ ch' := by simpa using hbefore
  refine ⟨before, behind, hseen, hbefore, ?_, ?_⟩
  · have hnodup := seen_nodup scan
    rw [hseen, List.map_append, List.map_cons] at hnodup
    have hnot := (List.nodup_cons.mp (List.nodup_append.mp hnodup).2.1).1
    intro k hmem hkch
    exact hnot (List.mem_map.mpr ⟨k, hmem, hkch⟩)
  · rw [hseen, List.takeWhile_append_of_pos (by simpa using hbefore), List.takeWhile_cons]
    simp

theorem seen_ordered {last : TickType} (h : scan.Ordered last) (hk : (t, ch) ∈ scan.seen) :
    last ≤ t ∧ t ≤ scan.endTime := by
  obtain ⟨⟨row, col⟩, -, hcol⟩ := List.mem_map.mp hk
  obtain ⟨rfl, -⟩ := Prod.mk.inj hcol
  obtain ⟨h0, h1, h2, hend⟩ := h
  simp only [UInt32.le_iff_toNat_le] at *
  match col with
  | 0 => exact ⟨h0, (h1.trans h2).trans hend⟩
  | 1 => exact ⟨h0.trans h1, h2.trans hend⟩
  | 2 => exact ⟨(h0.trans h1).trans h2, hend⟩

theorem filter_eq_nil_of_forall_ne (hkeys : ∀ k ∈ keys, k.2 ≠ ch) :
    (keypadKeys s keys).2.filter (fun k => k.2 == ch) = [] := by
  rw [List.filter_eq_nil_iff]
  intro k hk hch
  exact hkeys k ((keypadKeys_sublist s keys).subset hk) (by simpa using hch)

/-- The state in which a key is checked is that of the scan's start, if no key is before it. -/
theorem accepts_iff (hbefore : ∀ k ∈ keys, k.2 ≠ ch)
    (hlast : t - s.lastInptTime < pdMsToTicks 50) :
    (keypadKeys s keys).1.accepts t ch = true ↔ (keys ≠ [] ∨ s.lastInptChar ≠ ch) ∨
      (s.longpressStartFlag = false ∨
        t - s.lastInptAccpTime > pdMsToTicks firstRepeatInptDelayms) ∧
      t - s.lastInptAccpTime > pdMsToTicks repeatInptDelayms := by
  have hchar := keypadKeys_lastInptChar (s := s) hbefore
  have hnot : ¬t - s.lastInptTime ≥ pdMsToTicks 50 := UInt32.not_le.mpr hlast
  by_cases hother : keys = [] ∧ s.lastInptChar = ch
  · obtain ⟨rfl, rfl⟩ := hother
    simp [Keypad.accepts, keypadKeys, hnot]
  · have hne := mt hchar.mp hother
    have hor : keys ≠ [] ∨ s.lastInptChar ≠ ch := by
      rwa [not_and_or] at hother
    simp [Keypad.accepts, Ne.symm hne, hor]

/-- The event a scan publishes for a key it finds down. -/
theorem keyEvents_of_some (hseen : scan.seen = keys ++ (t, ch) :: behind)
    (hbefore : ∀ k ∈ keys, k.2 ≠ ch) (hbehind : ∀ k ∈ behind, k.2 ≠ ch) :
    keyEvents ch s scan = if (keypadKeys s keys).1.accepts t ch then [t] else [] := by
  rw [keyEvents, keypadScan, hseen, keypadKeys_append, List.filter_append,
    filter_eq_nil_of_forall_ne hbefore, keypadKeys, keypadKey]
  split
  · simp [filter_eq_nil_of_forall_ne hbehind]
  · simp [filter_eq_nil_of_forall_ne hbehind]

/-- The time kept after a scan, if the key is the last one it finds down. -/
theorem keypadScan_lastInptAccpTime (hseen : scan.seen = keys ++ (t, ch) :: behind)
    (hbehind : ∀ k ∈ behind, k.2 ≠ ch) (hlast : (keypadScan s scan).1.lastInptChar = ch) :
    (keypadScan s scan).1.lastInptAccpTime =
      if (keypadKeys s keys).1.accepts t ch then t else (keypadKeys s keys).1.lastInptAccpTime := by
  rw [keypadScan, hseen, keypadKeys_append, keypadKeys] at hlast ⊢
  obtain ⟨rfl, -⟩ := (keypadKeys_lastInptChar hbehind).mp hlast
  rw [keypadKey]
  split <;> rfl

end

/-! ## Holds -/

/-- The last event of a hold is behind the last scan, and its tick is the one kept if the key is
the last accepted. -/
def Newest (ch : UInt8) (s : Watch) : Prop :=
  ∀ e es, s.hold = some (e :: es) → e ≤ s.keypad.lastInptTime ∧
    (s.keypad.lastInptChar = ch → s.keypad.lastInptAccpTime = e)

section
variable {s s' : Watch} {scan : Scan} {ch : UInt8} {t e : TickType} {es : List TickType}

theorem lt_sub_iff {d : TickType} (h : e ≤ t) : d < t - e ↔ e.toNat + d.toNat < t.toNat := by
  rw [UInt32.lt_iff_toNat_lt, UInt32.toNat_sub_of_le _ _ h]
  omega

theorem nextHold_of_near (ht : scan.tickOf ch = some t) (hhold : s.hold = some es)
    (hnear : t - s.keypad.lastInptTime < pdMsToTicks 50) :
    s.nextHold ch scan = some (keyEvents ch s.keypad scan ++ es) := by
  simp [Watch.nextHold, ht, hhold, hnear]

/-- A scan goes on with a hold or starts a new one. -/
theorem nextHold_eq_some (h : s.nextHold ch scan = some es) : ∃ t, scan.tickOf ch = some t ∧
    (es = keyEvents ch s.keypad scan ∨ ∃ es', s.hold = some es' ∧
      t - s.keypad.lastInptTime < pdMsToTicks 50 ∧ es = keyEvents ch s.keypad scan ++ es') := by
  rw [Watch.nextHold] at h
  split at h
  · cases h
  · exact ⟨_, ‹_›, .inl (Option.some.inj h).symm⟩
  · rename_i t es' ht hhold
    split at h
    · exact ⟨t, ht, .inr ⟨es', hhold, ‹_›, (Option.some.inj h).symm⟩⟩
    · exact ⟨t, ht, .inl (Option.some.inj h).symm⟩

theorem newest_step (hs : Newest ch s) (hstep : watchStep ch s scan = .ok s') : Newest ch s' := by
  obtain ⟨hord, rfl⟩ := ite_eq_ok.mp hstep
  intro e es hhold
  obtain ⟨t, ht, hes⟩ := nextHold_eq_some hhold
  obtain ⟨keys, behind, hseen, hkeys, hbehind, -⟩ := seen_split ht
  obtain ⟨hlt, hte⟩ := seen_ordered hord (hseen ▸ by simp : (t, ch) ∈ scan.seen)
  have hevents := keyEvents_of_some (s := s.keypad) hseen hkeys hbehind
  have haccp := keypadScan_lastInptAccpTime (s := s.keypad) hseen hbehind
  by_cases hacc : (keypadKeys s.keypad keys).1.accepts t ch
  · obtain rfl : e = t := by
      rw [hevents, if_pos hacc] at hes
      obtain hes | ⟨es', -, -, hes⟩ := hes <;> cases hes <;> rfl
    exact ⟨hte, fun hlast => (haccp hlast).trans (if_pos hacc)⟩
  · rw [hevents, if_neg hacc] at hes
    obtain hes | ⟨es', hpre, hnear, rfl⟩ := hes
    · cases hes
    · obtain ⟨hle, hkept⟩ := hs e es hpre
      refine ⟨?_, fun hlast => ?_⟩
      · exact UInt32.le_trans hle (UInt32.le_trans hlt hte)
      · -- a key that is not accepted is the one accepted last
        have hnot := mt (accepts_iff hkeys hnear).mpr hacc
        obtain ⟨hnil, hchar⟩ := not_or.mp (not_or.mp hnot).1
        obtain rfl := not_not.mp hnil
        rw [haccp hlast, if_neg hacc]
        exact hkept (not_not.mp hchar)

/-- The longer limit, as far as it is not kept by the flag of a long press. -/
theorem lt_repeatLimit_iff {flag : Bool} {n : Nat}
    (hflag : flag = false ∨ e.toNat + ticks firstRepeatInptDelayms < n)
    (hlate : e.toNat + ticks repeatInptDelayms < n) :
    e.toNat + repeatLimit (e :: es) < n ↔
      (es = [] → flag = false → ¬(e.toNat + ticks repeatInptDelayms < n ∧
        n ≤ e.toNat + ticks firstRepeatInptDelayms)) := by
  cases es with
  | nil =>
    change e.toNat + ticks firstRepeatInptDelayms < n ↔ _
    refine ⟨fun h _ _ hmid => Nat.not_lt.mpr hmid.2 h, fun h => ?_⟩
    rcases hflag with hflag | hlimit
    · exact Nat.lt_of_not_le fun hle => h rfl hflag ⟨hlate, hle⟩
    · exact hlimit
  | cons e' es =>
    change e.toNat + ticks repeatInptDelayms < n ↔ _
    exact iff_of_true hlate fun h => absurd h (List.cons_ne_nil _ _)

/-- The events of a hold after a scan that goes on with it. -/
theorem limited_append_iff (hs : Newest ch s) (hhold : s.hold = some (e :: es))
    (hlimited : Limited (e :: es)) (ht : scan.tickOf ch = some t)
    (hle : s.keypad.lastInptTime ≤ t) (hnear : t - s.keypad.lastInptTime < pdMsToTicks 50) :
    Limited (keyEvents ch s.keypad scan ++ e :: es) ↔
      (OtherSeen ch s.keypad scan → e.toNat + repeatLimit (e :: es) < t.toNat) ∧
        (¬ OtherSeen ch s.keypad scan → es = [] → s.keypad.longpressStartFlag = false →
          ¬(e.toNat + ticks repeatInptDelayms < t.toNat ∧
            t.toNat ≤ e.toNat + ticks firstRepeatInptDelayms)) := by
  obtain ⟨keys, behind, hseen, hkeys, hbehind, htake⟩ := seen_split ht
  obtain ⟨hel, hkept⟩ := hs e es hhold
  have hacc := accepts_iff hkeys hnear
  rw [keyEvents_of_some hseen hkeys hbehind, OtherSeen, htake]
  by_cases hother : keys ≠ [] ∨ s.keypad.lastInptChar ≠ ch
  · rw [if_pos (hacc.mpr (.inl hother))]
    simp [Limited, hlimited, hother]
  · have hchar : s.keypad.lastInptChar = ch := not_not.mp (not_or.mp hother).2
    have het := UInt32.le_trans hel hle
    rw [hkept hchar, gt_iff_lt, gt_iff_lt, lt_sub_iff het, lt_sub_iff het] at hacc
    have hlong : (keypadKeys s.keypad keys).1.accepts t ch = true ↔
        (s.keypad.longpressStartFlag = false ∨
            e.toNat + ticks firstRepeatInptDelayms < t.toNat) ∧
          e.toNat + ticks repeatInptDelayms < t.toNat :=
      hacc.trans (or_iff_right hother)
    rw [and_iff_right fun h => absurd h hother, imp_iff_right hother]
    by_cases haccepted : (keypadKeys s.keypad keys).1.accepts t ch = true
    · obtain ⟨hflag, hlate⟩ := hlong.mp haccepted
      rw [if_pos haccepted]
      change e.toNat + repeatLimit (e :: es) < t.toNat ∧ _ ↔ _
      rw [and_iff_left hlimited]
      exact lt_repeatLimit_iff hflag hlate
    · rw [if_neg haccepted]
      refine iff_of_true hlimited fun _ hflag hmid => haccepted (hlong.mpr ?_)
      exact ⟨.inl hflag, hmid.1⟩

theorem limited_keyEvents (ht : scan.tickOf ch = some t) :
    Limited (keyEvents ch s.keypad scan) := by
  obtain ⟨keys, behind, hseen, hkeys, hbehind, -⟩ := seen_split ht
  rw [keyEvents_of_some hseen hkeys hbehind]
  split <;> trivial

/-- A scan keeps the rate of a key just when it is one of those that fit. -/
theorem repeatsRight_step (hs : Newest ch s) (hlimited : ∀ es, s.hold = some es → Limited es)
    (hstep : watchStep ch s scan = .ok s') :
    RepeatsRight ⟨s, scan, s'⟩ ↔ RepeatsFit ch ⟨s, scan, s'⟩ := by
  obtain ⟨hord, rfl⟩ := ite_eq_ok.mp hstep
  have hle {t} (ht : scan.tickOf ch = some t) : s.keypad.lastInptTime ≤ t := by
    obtain ⟨keys, behind, hseen, -⟩ := seen_split ht
    exact (seen_ordered hord (hseen ▸ by simp : (t, ch) ∈ scan.seen)).1
  constructor
  · intro hright e es t hhold ht hnear
    exact (limited_append_iff hs hhold (hlimited _ hhold) ht (hle ht) hnear).mp
      (hright _ (nextHold_of_near ht hhold hnear))
  · intro hfit es hhold
    obtain ⟨t, ht, rfl | ⟨es', hpre, hnear, rfl⟩⟩ := nextHold_eq_some hhold
    · exact limited_keyEvents ht
    · cases es' with
      | nil => simpa using limited_keyEvents ht
      | cons e es' =>
        exact (limited_append_iff hs hpre (hlimited _ hpre) ht (hle ht) hnear).mpr
          (hfit e es' t hpre ht hnear)

/-- In a run the events of every key keep to the limits just when every scan fits. -/
theorem repeatsRight_iff {tr : List (Label Watch Scan)} (h : Run (watchStep ch) .init tr s) :
    (∀ l ∈ tr, RepeatsRight l) ↔ ∀ l ∈ tr, RepeatsFit ch l := by
  have h0 : Newest ch .init ∧ ∀ es, Watch.init.hold = some es → Limited es := by
    refine ⟨fun e es hhold => ?_, fun es hhold => ?_⟩ <;> cases hhold
  refine (h.forall_iff (I := fun s => Newest ch s ∧ ∀ es, s.hold = some es → Limited es) h0
    fun tr s scan s' _ hs hstep => ?_).1
  exact ⟨repeatsRight_step hs.1 hs.2 hstep, fun hright => ⟨newest_step hs.1 hstep, hright⟩⟩

end

/-- A scan that finds the given keys down, all at one tick. -/
def scanAt (down : List (Fin 4 × Fin 3)) (tick : TickType) : Scan :=
  ⟨fun row col => decide ((row, col) ∈ down), fun _ => tick, tick⟩

/-- The key `1` is held alone for a second, with a scan every 40 ms. -/
def heldAlone : List Scan :=
  (List.range 25).map fun i => scanAt (scanOrder.take 1) (UInt32.ofNat (100 + 4 * i))

theorem repeatsRight_iff_heldAlone :
    (∀ l ∈ trace (watchStep 0x31) .init heldAlone, RepeatsRight l) ↔
      ∀ l ∈ trace (watchStep 0x31) .init heldAlone, RepeatsFit 0x31 l :=
  repeatsRight_iff (Run.of_isOk _ (by decide +kernel))

example : (after (watchStep 0x31) .init heldAlone).hold = some [196, 180, 164, 100] := by
  decide +kernel

/-- With `2` held beside it, `1` is repeated by every scan. -/
theorem rollover_repeats :
    ∃ tr s, Run (watchStep 0x31) .init tr s ∧ ¬ ∀ l ∈ tr, RepeatsRight l := by
  refine ⟨_, _, Run.replay [scanAt [(0, 0), (0, 1)] 100] (scanAt [(0, 0), (0, 1)] 102)
    (by decide +kernel) (by decide +kernel), fun h => ?_⟩
  have hright := h _ (List.mem_append_right _ (List.mem_singleton_self _))
  have hhold : (after (watchStep 0x31) (after (watchStep 0x31) .init
      [scanAt [(0, 0), (0, 1)] 100]) [scanAt [(0, 0), (0, 1)] 102]).hold = some [102, 100] := by
    decide +kernel
  exact absurd (hright _ hhold).1 (by decide)

end DoorLock
