import DoorLock.KvSector

/-!
# Records by address

Where the records of a store are, and how this changes when a status is advanced, a record is
written behind the others, or a sector is formatted.
-/

namespace DoorLock

variable {G : KvGeom} {A : KvSectors} {i j a base : Nat} {r r' x : KvRec} {pre post rs : List KvRec}
  {s : KvSector}

/-- Record `x` is at the address `a` in records that begin at `base`. -/
def RecIn (base : Nat) : List KvRec → Nat → KvRec → Prop
  | [], _, _ => False
  | r :: rs, a, x => a = base ∧ x = r ∨ RecIn (base + r.size) rs a x

/-- Record `x` is at the address `a`. -/
def RecAt (G : KvGeom) (A : KvSectors) (a : Nat) (x : KvRec) : Prop :=
  ∃ i < G.n, RecIn (i * G.S + sectorHdrDataSize) (A i).recs a x

theorem recIn_append :
    RecIn base (pre ++ post) a x ↔ RecIn base pre a x ∨ RecIn (base + recsSize pre) post a x := by
  induction pre generalizing base with
  | nil => exact ⟨.inr, fun h => h.elim False.elim id⟩
  | cons r pre ih => rw [List.cons_append, RecIn, RecIn, ih, recsSize_cons, or_assoc, Nat.add_assoc]

/-- A record is within the bytes of the records. -/
theorem RecIn.bounds (h : RecIn base rs a x) : base ≤ a ∧ a + x.size ≤ base + recsSize rs := by
  induction rs generalizing base with
  | nil => cases h
  | cons r rs ih =>
    rw [recsSize_cons]
    obtain ⟨rfl, rfl⟩ | h := h
    · omega
    · have := ih h
      omega

theorem RecIn.mem (h : RecIn base rs a x) : x ∈ rs := by
  induction rs generalizing base with
  | nil => cases h
  | cons r rs ih =>
    obtain ⟨-, rfl⟩ | h := h
    · exact List.mem_cons_self
    · exact List.mem_cons_of_mem _ (ih h)

theorem recIn_of_mem (h : x ∈ rs) : ∃ a, RecIn base rs a x := by
  induction rs generalizing base with
  | nil => cases h
  | cons r rs ih =>
    rcases List.mem_cons.mp h with rfl | h
    · exact ⟨base, .inl ⟨rfl, rfl⟩⟩
    · obtain ⟨a, ha⟩ := ih h
      exact ⟨a, .inr ha⟩

/-- The records in front of a record and behind it. -/
theorem RecIn.split (h : RecIn base rs a x) :
    ∃ pre post, rs = pre ++ x :: post ∧ a = base + recsSize pre := by
  induction rs generalizing base with
  | nil => cases h
  | cons r rs ih =>
    obtain ⟨rfl, rfl⟩ | h := h
    · exact ⟨[], rs, rfl, rfl⟩
    · obtain ⟨pre, post, rfl, rfl⟩ := ih h
      exact ⟨r :: pre, post, rfl, Nat.add_assoc ..⟩

theorem KvRec.size_pos (r : KvRec) : 0 < r.size := Nat.lt_of_lt_of_le (by decide) r.le_size

theorem RecIn.unique (h : RecIn base rs a x) (h' : RecIn base rs a r) : x = r := by
  induction rs generalizing base with
  | nil => cases h
  | cons y rs ih =>
    have hy := y.size_pos
    obtain ⟨rfl, rfl⟩ | h := h <;> obtain ⟨ha, rfl⟩ | h' := h'
    · rfl
    · have := h'.bounds
      omega
    · have := h.bounds
      omega
    · exact ih h h'

/-- One of the records is put in place of another of its size. -/
theorem recIn_replace (hsize : r'.size = r.size) :
    RecIn base (pre ++ r' :: post) a x ↔
      a = base + recsSize pre ∧ x = r' ∨
        a ≠ base + recsSize pre ∧ RecIn base (pre ++ r :: post) a x := by
  have hr := r.size_pos
  have hpre (h : RecIn base pre a x) : a ≠ base + recsSize pre := by
    have := h.bounds
    have := x.size_pos
    omega
  have hpost (h : RecIn (base + recsSize pre + r.size) post a x) : a ≠ base + recsSize pre := by
    have := h.bounds
    omega
  rw [recIn_append, recIn_append, RecIn, RecIn, hsize]
  constructor
  · rintro (h | ⟨ha, hx⟩ | h)
    · exact .inr ⟨hpre h, .inl h⟩
    · exact .inl ⟨ha, hx⟩
    · exact .inr ⟨hpost h, .inr (.inr h)⟩
  · rintro (⟨ha, hx⟩ | ⟨hne, h | ⟨ha, -⟩ | h⟩)
    · exact .inr (.inl ⟨ha, hx⟩)
    · exact .inl h
    · exact absurd ha hne
    · exact .inr (.inr h)

/-! ## Changes of a sector -/

theorem RecAt.intro (hi : i < G.n) (hrecs : (A i).recs = pre ++ r :: post) :
    RecAt G A (recAddr G.S i pre) r :=
  ⟨i, hi, by rw [hrecs, recIn_append]; exact .inr (.inl ⟨rfl, rfl⟩)⟩

theorem RecAt.split (h : RecAt G A a x) :
    ∃ i < G.n, ∃ pre post, (A i).recs = pre ++ x :: post ∧ a = recAddr G.S i pre := by
  obtain ⟨i, hi, h⟩ := h
  obtain ⟨pre, post, hrecs, ha⟩ := h.split
  exact ⟨i, hi, pre, post, hrecs, ha⟩

theorem RecAt.mem (h : RecAt G A a x) : ∃ i < G.n, x ∈ (A i).recs := by
  obtain ⟨i, hi, h⟩ := h
  exact ⟨i, hi, h.mem⟩

theorem recAt_of_mem (hi : i < G.n) (h : x ∈ (A i).recs) : ∃ a, RecAt G A a x := by
  obtain ⟨a, ha⟩ := recIn_of_mem h
  exact ⟨a, i, hi, ha⟩

/-- The sector of an address. -/
theorem RecIn.sector (hused : ∀ i < G.n, (A i).used ≤ G.S) (hi : i < G.n)
    (h : RecIn (i * G.S + sectorHdrDataSize) (A i).recs a x) : a / G.S = i := by
  have hb := h.bounds
  have hx := x.size_pos
  have hfit := hused i hi
  unfold KvSector.used at hfit
  exact Nat.div_eq_of_lt_le (by omega) (by rw [Nat.succ_mul]; omega)

theorem RecAt.unique (hused : ∀ i < G.n, (A i).used ≤ G.S) (h : RecAt G A a x)
    (h' : RecAt G A a r) : x = r := by
  obtain ⟨i, hi, h⟩ := h
  obtain ⟨j, hj, h'⟩ := h'
  obtain rfl : i = j := (h.sector hused hi).symm.trans (h'.sector hused hj)
  exact h.unique h'

/-- The records of the other sectors and those of sector `i`. -/
theorem recAt_set (hi : i < G.n) :
    RecAt G (A.set i s) a x ↔
      RecIn (i * G.S + sectorHdrDataSize) s.recs a x ∨
        ∃ j < G.n, j ≠ i ∧ RecIn (j * G.S + sectorHdrDataSize) (A j).recs a x := by
  constructor
  · rintro ⟨j, hj, h⟩
    rcases Decidable.eq_or_ne j i with rfl | hne
    · rw [KvSectors.set, Function.update_self] at h
      exact .inl h
    · rw [KvSectors.set, Function.update_of_ne hne] at h
      exact .inr ⟨j, hj, hne, h⟩
  · rintro (h | ⟨j, hj, hne, h⟩)
    · exact ⟨i, hi, by rwa [KvSectors.set, Function.update_self]⟩
    · exact ⟨j, hj, by rwa [KvSectors.set, Function.update_of_ne hne]⟩

/-- Headers say nothing about records. -/
theorem recAt_set_of_recs (hi : i < G.n) (hs : s.recs = (A i).recs) :
    RecAt G (A.set i s) a x ↔ RecAt G A a x := by
  have hself : A.set i (A i) = A := Function.update_eq_self i A
  rw [recAt_set hi, hs, ← recAt_set hi, hself]

/-- A record changes its status. -/
theorem recAt_set_replace (hused : ∀ i < G.n, (A i).used ≤ G.S) (hi : i < G.n)
    (hrecs : (A i).recs = pre ++ r :: post) (hs : s.recs = pre ++ r' :: post)
    (hsize : r'.size = r.size) :
    RecAt G (A.set i s) a x ↔
      a = recAddr G.S i pre ∧ x = r' ∨ a ≠ recAddr G.S i pre ∧ RecAt G A a x := by
  have hself : RecAt G A a x ↔ RecAt G (A.set i (A i)) a x := by
    rw [KvSectors.set, Function.update_eq_self]
  have hother {j : Nat} (hj : j < G.n) (hne : j ≠ i)
      (h : RecIn (j * G.S + sectorHdrDataSize) (A j).recs a x) : a ≠ recAddr G.S i pre := by
    rintro rfl
    have hr : RecIn (i * G.S + sectorHdrDataSize) (A i).recs (recAddr G.S i pre) r := by
      rw [hrecs, recIn_append]
      exact .inr (.inl ⟨rfl, rfl⟩)
    exact hne ((h.sector hused hj).symm.trans (hr.sector hused hi))
  rw [hself, recAt_set hi, recAt_set hi, hs, hrecs, recIn_replace hsize]
  constructor
  · rintro ((h | h) | ⟨j, hj, hne, h⟩)
    · exact .inl h
    · exact .inr ⟨h.1, .inl h.2⟩
    · exact .inr ⟨hother hj hne h, .inr ⟨j, hj, hne, h⟩⟩
  · rintro (h | ⟨hne, h | h⟩)
    · exact .inl (.inl h)
    · exact .inl (.inr ⟨hne, h⟩)
    · exact .inr h

/-- A record is written behind the others. -/
theorem recAt_set_push (hi : i < G.n) (hs : s.recs = (A i).recs ++ [r]) :
    RecAt G (A.set i s) a x ↔
      a = recAddr G.S i (A i).recs ∧ x = r ∨ RecAt G A a x := by
  have hself : RecAt G A a x ↔ RecAt G (A.set i (A i)) a x := by
    rw [KvSectors.set, Function.update_eq_self]
  rw [hself, recAt_set hi, recAt_set hi, hs, recIn_append, RecIn, RecIn, or_false,
    or_comm (a := RecIn ..), or_assoc]
  rfl

/-- A sector is formatted. -/
theorem recAt_set_formatted (hused : ∀ i < G.n, (A i).used ≤ G.S) (hi : i < G.n) :
    RecAt G (A.set i .formatted) a x ↔ RecAt G A a x ∧ a / G.S ≠ i := by
  rw [recAt_set hi]
  constructor
  · rintro (h | ⟨j, hj, hne, h⟩)
    · cases h
    · exact ⟨⟨j, hj, h⟩, by rwa [h.sector hused hj]⟩
  · rintro ⟨⟨j, hj, h⟩, hne⟩
    refine .inr ⟨j, hj, ?_, h⟩
    rwa [h.sector hused hj] at hne

end DoorLock
