import DoorLock.KvStep

/-!
# A change that was cut short

When the power is lost within `set_kv`, a record may be left whose deletion was prepared and not
done. Its value is that of its name as long as there is no valid record. What moves a record, or
drops one that is not needed, leaves every name its value.
-/

namespace DoorLock

variable {G : KvGeom} {K : KvNames} {A A' A'' : KvSectors} {db : FdbKvdb} {i j a : Nat}
  {r x : KvRec} {pre post : List KvRec} {key value v : List UInt8} {s : KvSector}

/-- No deletion of a record of the sector is only prepared. -/
def KvSector.Quiet (s : KvSector) : Prop := ∀ x ∈ s.recs, x.status ≠ .preDelete

/-- Every record is valid, deleted, or prepared for it, of a name one at most; a clean sector holds
valid ones only. -/
structure KvHalted (G : KvGeom) (A : KvSectors) : Prop where
  status : ∀ i < G.n, ∀ x ∈ (A i).recs,
    x.status = .write ∨ (x.status = .deleted ∨ x.status = .preDelete) ∧ (A i).dirty ≠ .no
  one : ∀ {a a' r r'}, RecAt G A a r → RecAt G A a' r' → r.status = .preDelete →
    r'.status = .preDelete → r.key = r'.key → a = a'

/-- A record with the value is prepared for deletion. -/
def Prepared (G : KvGeom) (A : KvSectors) (key value : List UInt8) : Prop :=
  ∃ a r, RecAt G A a r ∧ r.status = .preDelete ∧ r.key = key ∧ r.value = value

/-- The value of a name: that of its valid record, else of one whose deletion is only prepared. -/
def KvHeld (G : KvGeom) (A : KvSectors) (key value : List UInt8) : Prop :=
  Stored G A key value ∨ (∀ value', ¬Stored G A key value') ∧ Prepared G A key value

/-! ## Between the calls -/

theorem KvSettled.quiet (h : KvSettled G A) (hi : i < G.n) : (A i).Quiet := by
  intro x hx hpre
  rcases h i hi x hx with hs | ⟨hs, -⟩ <;> rw [hs] at hpre <;> cases hpre

theorem KvSettled.halted (h : KvSettled G A) : KvHalted G A where
  status := fun i hi x hx => (h i hi x hx).imp_right fun hd => ⟨.inl hd.1, hd.2⟩
  one := by
    intro a a' r r' hat _ hr
    obtain ⟨i, hi, hmem⟩ := hat.mem
    exact absurd hr (h.quiet hi r hmem)

theorem KvHalted.settled (h : KvHalted G A) (hquiet : ∀ i < G.n, (A i).Quiet) : KvSettled G A := by
  intro i hi x hx
  refine (h.status i hi x hx).imp_right fun hd => ⟨hd.1.resolve_right ?_, hd.2⟩
  exact hquiet i hi x hx

/-- A clean sector holds valid records only. -/
theorem KvHalted.quiet (h : KvHalted G A) (hi : i < G.n) (hclean : (A i).dirty = .no) :
    (A i).Quiet := by
  intro x hx hpre
  rcases h.status i hi x hx with hs | ⟨-, hd⟩
  · rw [hs] at hpre
    cases hpre
  · exact hd hclean

theorem held_iff_stored (hquiet : ∀ i < G.n, (A i).Quiet) :
    KvHeld G A key value ↔ Stored G A key value := by
  refine ⟨fun h => h.resolve_right ?_, .inl⟩
  rintro ⟨-, a, r, hat, hr, -⟩
  obtain ⟨i, hi, hmem⟩ := hat.mem
  exact hquiet i hi r hmem hr

/-! ## Values -/

/-- The records of the name are the same, but for deleted ones. -/
theorem held_congr (h : ∀ {a x}, x.status ≠ .deleted → x.key = key →
    (RecAt G A' a x ↔ RecAt G A a x)) : KvHeld G A' key value ↔ KvHeld G A key value := by
  have hstored {value} : Stored G A' key value ↔ Stored G A key value := by
    constructor
    · rintro ⟨a, x, ⟨hat, hs, hkey⟩, hvalue⟩
      exact ⟨a, x, ⟨(h (by rw [hs]; decide) hkey).mp hat, hs, hkey⟩, hvalue⟩
    · rintro ⟨a, x, ⟨hat, hs, hkey⟩, hvalue⟩
      exact ⟨a, x, ⟨(h (by rw [hs]; decide) hkey).mpr hat, hs, hkey⟩, hvalue⟩
  have hprepared : Prepared G A' key value ↔ Prepared G A key value := by
    constructor
    · rintro ⟨a, x, hat, hs, hkey, hvalue⟩
      exact ⟨a, x, (h (by rw [hs]; decide) hkey).mp hat, hs, hkey, hvalue⟩
    · rintro ⟨a, x, hat, hs, hkey, hvalue⟩
      exact ⟨a, x, (h (by rw [hs]; decide) hkey).mpr hat, hs, hkey, hvalue⟩
  unfold KvHeld
  simp only [hstored, hprepared]

/-- A name with a valid record. -/
theorem held_of_stored (h : ∀ {v}, Stored G A key v ↔ v = value) :
    KvHeld G A key v ↔ v = value := by
  constructor
  · rintro (hs | ⟨hno, -⟩)
    · exact h.mp hs
    · exact absurd (h.mpr rfl) (hno value)
  · exact fun heq => .inl (h.mpr heq)

theorem KvOk.stored_iff (h : KvOk G K A db) (hs : Stored G A key value) :
    Stored G A key v ↔ v = value := by
  constructor
  · exact fun hv => h.stored_unique hv hs
  · rintro rfl
    exact hs

/-- A name that has only a record whose deletion is prepared. -/
theorem KvHalted.held_iff (h : KvHalted G A) (hok : KvOk G K A db) (hat : RecAt G A a r)
    (hr : r.status = .preDelete) (hno : ∀ v, ¬Stored G A r.key v) :
    KvHeld G A r.key v ↔ v = r.value := by
  constructor
  · rintro (hs | ⟨-, a', r', hat', hr', hkey, rfl⟩)
    · exact absurd hs (hno v)
    · obtain rfl := h.one hat' hat hr' hr hkey
      rw [hat'.unique hok.used_le hat]
  · rintro rfl
    exact .inr ⟨hno, a, r, hat, hr, rfl, rfl⟩

/-! ## Changes of a sector -/

/-- Where the records of other statuses are after `del_kv`. -/
theorem recAt_marked_of_ne {t : FdbKvStatus} (hused : ∀ i < G.n, (A i).used ≤ G.S) (hj : j < G.n)
    (hrecs : (A j).recs = pre ++ r :: post) (hr : x.status ≠ r.status) (ht : x.status ≠ t) :
    RecAt G (A.set j ((A j).marked pre r t post)) a x ↔ RecAt G A a x := by
  rw [recAt_marked hused hj hrecs]
  constructor
  · rintro (⟨-, rfl⟩ | ⟨-, hat⟩)
    · exact absurd rfl ht
    · exact hat
  · intro hat
    refine .inr ⟨?_, hat⟩
    rintro rfl
    exact hr (congrArg KvRec.status (hat.unique hused (.intro hj hrecs)))

/-- Where the records of other names are after `del_kv`. -/
theorem recAt_marked_of_key {t : FdbKvStatus} (hused : ∀ i < G.n, (A i).used ≤ G.S) (hj : j < G.n)
    (hrecs : (A j).recs = pre ++ r :: post) (hkey : x.key ≠ r.key) :
    RecAt G (A.set j ((A j).marked pre r t post)) a x ↔ RecAt G A a x := by
  rw [recAt_marked hused hj hrecs]
  constructor
  · rintro (⟨-, rfl⟩ | ⟨-, hat⟩)
    · exact absurd rfl hkey
    · exact hat
  · intro hat
    refine .inr ⟨?_, hat⟩
    rintro rfl
    exact hkey (congrArg KvRec.key (hat.unique hused (.intro hj hrecs)))

theorem recAt_pushed_of_ne (hi : i < G.n) (hne : x ≠ r) :
    RecAt G (A.set i ((A i).pushed r)) a x ↔ RecAt G A a x := by
  rw [recAt_set_push hi rfl]
  exact ⟨fun h => h.resolve_left fun heq => hne heq.2, .inr⟩

theorem KvHalted.set (h : KvHalted G A)
    (hs : ∀ x ∈ s.recs,
      x.status = .write ∨ (x.status = .deleted ∨ x.status = .preDelete) ∧ s.dirty ≠ .no)
    (hat : ∀ {a x}, RecAt G (A.set i s) a x → x.status = .preDelete → RecAt G A a x) :
    KvHalted G (A.set i s) where
  status := by
    intro k hk x hx
    rcases Decidable.eq_or_ne k i with rfl | hne
    · rw [KvSectors.set, Function.update_self] at hx ⊢
      exact hs x hx
    · rw [KvSectors.set, Function.update_of_ne hne] at hx ⊢
      exact h.status k hk x hx
  one := fun hat₁ hat₂ hr hr' => h.one (hat hat₁ hr) (hat hat₂ hr') hr hr'

theorem KvHalted.marked (h : KvHalted G A) (hused : ∀ i < G.n, (A i).used ≤ G.S) (hj : j < G.n)
    (hrecs : (A j).recs = pre ++ r :: post) :
    KvHalted G (A.set j ((A j).marked pre r .deleted post)) := by
  refine h.set (fun x hx => ?_) fun hat hx => ?_
  · have hold (hx : x ∈ (A j).recs) : x.status = .write ∨
        (x.status = .deleted ∨ x.status = .preDelete) ∧ (A j).dirty.mark ≠ .no :=
      (h.status j hj x hx).imp_right fun hd => ⟨hd.1, (A j).dirty.mark_ne_no⟩
    rw [hrecs] at hold
    rcases List.mem_append.mp hx with hx | hx
    · exact hold (List.mem_append_left _ hx)
    · rcases List.mem_cons.mp hx with rfl | hx
      · exact .inr ⟨.inl rfl, (A j).dirty.mark_ne_no⟩
      · exact hold (List.mem_append_right _ (List.mem_cons_of_mem _ hx))
  · rcases (recAt_marked hused hj hrecs).mp hat with ⟨-, rfl⟩ | ⟨-, hat⟩
    · cases hx
    · exact hat

theorem KvHalted.pushed (h : KvHalted G A) (hi : i < G.n) (hr : r.status = .write) :
    KvHalted G (A.set i ((A i).pushed r)) := by
  refine h.set (fun x hx => ?_) fun hat hx => ?_
  · rcases List.mem_append.mp hx with hx | hx
    · exact h.status i hi x hx
    · rw [List.mem_singleton.mp hx]
      exact .inl hr
  · refine (recAt_pushed_of_ne hi ?_).mp hat
    rintro rfl
    rw [hr] at hx
    cases hx

/-- The deletion of a valid record is prepared. -/
theorem KvSettled.prepared (h : KvSettled G A) (hused : ∀ i < G.n, (A i).used ≤ G.S) (hj : j < G.n)
    (hrecs : (A j).recs = pre ++ r :: post) :
    KvHalted G (A.set j ((A j).marked pre r .preDelete post)) where
  status := by
    intro k hk x hx
    rcases Decidable.eq_or_ne k j with rfl | hne
    · rw [KvSectors.set, Function.update_self] at hx ⊢
      have hmark := (A k).dirty.mark_ne_no
      have hold (hx : x ∈ (A k).recs) : x.status = .write ∨
          (x.status = .deleted ∨ x.status = .preDelete) ∧ (A k).dirty.mark ≠ .no :=
        (h k hk x hx).imp_right fun hd => ⟨.inl hd.1, hmark⟩
      rw [hrecs] at hold
      rcases List.mem_append.mp hx with hx | hx
      · exact hold (List.mem_append_left _ hx)
      · rcases List.mem_cons.mp hx with rfl | hx
        · exact .inr ⟨.inr rfl, hmark⟩
        · exact hold (List.mem_append_right _ (List.mem_cons_of_mem _ hx))
    · rw [KvSectors.set, Function.update_of_ne hne] at hx ⊢
      exact h.halted.status k hk x hx
  one := by
    have hat {a x} (hat : RecAt G (A.set j ((A j).marked pre r .preDelete post)) a x)
        (hx : x.status = .preDelete) : a = recAddr G.S j pre := by
      rcases (recAt_marked hused hj hrecs).mp hat with ⟨rfl, -⟩ | ⟨-, hat⟩
      · rfl
      · obtain ⟨k, hk, hmem⟩ := hat.mem
        exact absurd hx (h.quiet hk x hmem)
    intro a a' x x' hat₁ hat₂ hr hr' _
    exact (hat hat₁ hr).trans (hat hat₂ hr').symm

theorem KvHalted.formatted (h : KvHalted G A) (hused : ∀ i < G.n, (A i).used ≤ G.S)
    (hi : i < G.n) : KvHalted G (A.set i .formatted) :=
  h.set (fun x hx => by cases hx) fun hat _ => ((recAt_set_formatted hused hi).mp hat).1

theorem KvSector.Quiet.marked (h : s.Quiet) (hrecs : s.recs = pre ++ r :: post) :
    (s.marked pre r .deleted post).Quiet := by
  intro x hx
  unfold KvSector.Quiet at h
  rw [hrecs] at h
  rcases List.mem_append.mp hx with hx | hx
  · exact h x (List.mem_append_left _ hx)
  · rcases List.mem_cons.mp hx with rfl | hx
    · exact fun hf => by cases hf
    · exact h x (List.mem_append_right _ (List.mem_cons_of_mem _ hx))

theorem KvSector.Quiet.pushed (h : s.Quiet) (hr : r.status = .write) : (s.pushed r).Quiet := by
  intro x hx
  rcases List.mem_append.mp hx with hx | hx
  · exact h x hx
  · rw [List.mem_singleton.mp hx, hr]
    decide

/-- The value stays when the deletion of its record is prepared. -/
theorem KvOk.held_prepared (h : KvOk G K A db) (hset : KvSettled G A) (hj : j < G.n)
    (hrecs : (A j).recs = pre ++ r :: post) (hr : r.status = .write) :
    KvHeld G (A.set j ((A j).marked pre r .preDelete post)) key value ↔ Stored G A key value := by
  rcases Decidable.eq_or_ne key r.key with rfl | hne
  · have hrep := replaces_marked h hj hrecs hr (t := .preDelete) (by decide)
    have hold : Stored G A r.key r.value := ⟨_, r, ⟨.intro hj hrecs, hr, rfl⟩, rfl⟩
    rw [h.stored_iff hold]
    have hat : RecAt G (A.set j ((A j).marked pre r .preDelete post)) (recAddr G.S j pre)
        { r with status := .preDelete } := (recAt_marked h.used_le hj hrecs).mpr (.inl ⟨rfl, rfl⟩)
    have hno (v : List UInt8) :
        ¬Stored G (A.set j ((A j).marked pre r .preDelete post)) r.key v := by
      rintro ⟨a, x, ⟨hx, hs, hkey⟩, -⟩
      cases (hrep.same hs hkey).mp hx
    constructor
    · rintro (hs | ⟨-, a, x, hx, hs, hkey, rfl⟩)
      · exact absurd hs (hno value)
      · rcases (recAt_marked h.used_le hj hrecs).mp hx with ⟨-, rfl⟩ | ⟨-, hx⟩
        · rfl
        · obtain ⟨k, hk, hmem⟩ := hx.mem
          exact absurd hs (hset.quiet hk x hmem)
    · rintro rfl
      exact .inr ⟨hno, _, _, hat, rfl, rfl, rfl⟩
  · rw [← held_iff_stored fun _ hi => hset.quiet hi]
    refine held_congr fun _ hkey => recAt_marked_of_key h.used_le hj hrecs ?_
    rw [hkey]
    exact hne

/-- A new record has the value of its name, also while the deletion of the old one is prepared. -/
theorem KvHeld.pushed {A₁ : KvSectors} (hi : i < G.n)
    (hheld : ∀ {key value}, KvHeld G A₁ key value ↔ Stored G A key value)
    (hno : ∀ a x, ¬ValidAt G A₁ r.key a x) (hr : r.status = .write) :
    KvHeld G (A₁.set i ((A₁ i).pushed r)) key value ↔
      if key = r.key then value = r.value else Stored G A key value := by
  split
  case isTrue hkey =>
    subst hkey
    have hrep := replaces_push hi hno hr
    exact held_of_stored (hrep.stored_self hr rfl)
  case isFalse hne =>
    rw [← hheld]
    refine held_congr fun _ hkey => recAt_pushed_of_ne hi ?_
    rintro rfl
    exact hne hkey.symm

/-! ## What moves records -/

/-- Every name has the value it had, what was clean is clean, and where no deletion was half done
none is. -/
structure Moved (G : KvGeom) (A A' : KvSectors) : Prop where
  halted : KvHalted G A'
  held : ∀ {key value}, KvHeld G A' key value ↔ KvHeld G A key value
  quiet : ∀ {k : Nat}, (A k).Quiet → (A' k).Quiet
  clean : ∀ {k : Nat}, (A k).dirty = .no → (A' k).dirty = .no

namespace Moved

theorem refl (h : KvHalted G A) : Moved G A A := ⟨h, Iff.rfl, id, id⟩

theorem trans (h : Moved G A A') (h' : Moved G A' A'') : Moved G A A'' :=
  ⟨h'.halted, h'.held.trans h.held, fun hk => h'.quiet (h.quiet hk),
    fun hk => h'.clean (h.clean hk)⟩

theorem settled (h : Moved G A A') (hset : KvSettled G A) : KvSettled G A' :=
  h.halted.settled fun _ hi => h.quiet (hset.quiet hi)

/-- Between the calls the values are those of the valid records. -/
theorem stored (h : Moved G A A') (hset : KvSettled G A) :
    Stored G A' key value ↔ Stored G A key value := by
  rw [← held_iff_stored fun _ hi => (h.settled hset).quiet hi, h.held,
    held_iff_stored fun _ hi => hset.quiet hi]

/-- A change of one sector. -/
theorem set (hhalted : KvHalted G (A.set j s))
    (hheld : ∀ {key value}, KvHeld G (A.set j s) key value ↔ KvHeld G A key value)
    (hquiet : (A j).Quiet → s.Quiet) (hclean : (A j).dirty = .no → s.dirty = .no) :
    Moved G A (A.set j s) where
  halted := hhalted
  held := hheld
  quiet := by
    intro k hk
    rcases Decidable.eq_or_ne k j with rfl | hne
    · rw [KvSectors.set, Function.update_self]
      exact hquiet hk
    · rwa [KvSectors.set, Function.update_of_ne hne]
  clean := by
    intro k hk
    rcases Decidable.eq_or_ne k j with rfl | hne
    · rw [KvSectors.set, Function.update_self]
      exact hclean hk
    · rwa [KvSectors.set, Function.update_of_ne hne]

end Moved

/-- A record whose deletion was prepared is dropped, as there is a valid one of its name. -/
theorem KvOk.moved_marked (h : KvOk G K A db) (hh : KvHalted G A) (hj : j < G.n)
    (hrecs : (A j).recs = pre ++ r :: post) (hr : r.status = .preDelete)
    (hdirty : (A j).dirty ≠ .no) (hlive : Stored G A r.key value) :
    Moved G A (A.set j ((A j).marked pre r .deleted post)) := by
  refine .set (hh.marked h.used_le hj hrecs) ?_ (fun hq => hq.marked hrecs)
    fun hk => absurd hk hdirty
  intro key' value'
  rcases Decidable.eq_or_ne key' r.key with rfl | hne
  · have hstored {v} : Stored G (A.set j ((A j).marked pre r .deleted post)) r.key v ↔
        Stored G A r.key v := by
      have hat {a x} (hx : x.status = .write) :
          RecAt G (A.set j ((A j).marked pre r .deleted post)) a x ↔ RecAt G A a x :=
        recAt_marked_of_ne h.used_le hj hrecs (by rw [hx, hr]; decide) (by rw [hx]; decide)
      constructor
      · rintro ⟨a, x, ⟨hx, hs, hkey⟩, hvalue⟩
        exact ⟨a, x, ⟨(hat hs).mp hx, hs, hkey⟩, hvalue⟩
      · rintro ⟨a, x, ⟨hx, hs, hkey⟩, hvalue⟩
        exact ⟨a, x, ⟨(hat hs).mpr hx, hs, hkey⟩, hvalue⟩
    rw [held_of_stored (h.stored_iff hlive), held_of_stored (hstored.trans (h.stored_iff hlive))]
  · refine held_congr fun _ hkey => recAt_marked_of_key h.used_le hj hrecs ?_
    rw [hkey]
    exact hne

/-- A copy of a record whose deletion was prepared is written. -/
theorem KvOk.moved_pushed (h : KvOk G K A db) (hh : KvHalted G A) (hi : i < G.n)
    (hat : RecAt G A a r) (hr : r.status = .preDelete) (hno : ∀ a x, ¬ValidAt G A r.key a x) :
    Moved G A (A.set i ((A i).pushed (.new r.key r.value))) := by
  refine .set (hh.pushed hi rfl) ?_ (fun hq => hq.pushed rfl) id
  intro key' value'
  rcases Decidable.eq_or_ne key' r.key with rfl | hne
  · have hrep := replaces_push (r := .new r.key r.value) hi hno rfl
    have hnone (v : List UInt8) : ¬Stored G A r.key v := fun ⟨a, x, hv, _⟩ => hno a x hv
    rw [hh.held_iff h hat hr hnone]
    exact held_of_stored (hrep.stored_self rfl rfl)
  · refine held_congr fun _ hkey => recAt_pushed_of_ne hi ?_
    rintro rfl
    exact hne hkey.symm

theorem KvSectors.replaced_apply {k : Nat} (hij : i ≠ j) (hk : k ≠ j) :
    A.replaced j pre r post i x k = if k = i then (A i).pushed x else A k := by
  split
  case isTrue heq =>
    subst heq
    simp only [KvSectors.replaced, KvSectors.set, Function.update_self, Function.update_of_ne hk]
  case isFalse hne =>
    simp only [KvSectors.replaced, KvSectors.set, Function.update_of_ne hne,
      Function.update_of_ne hk]

/-- A valid record is moved out of a dirty sector. -/
theorem KvOk.moved_replaced (h : KvOk G K A db) (hh : KvHalted G A) (hj : j < G.n) (hi : i < G.n)
    (hij : i ≠ j) (hrecs : (A j).recs = pre ++ r :: post) (hr : r.status = .write)
    (hdirty : (A j).dirty ≠ .no) :
    Moved G A (A.replaced j pre r post i (.new r.key r.value)) where
  halted := (hh.marked h.used_le hj hrecs).pushed hi rfl
  held := by
    intro key' value'
    have hrep := replaces_replaced h hj hi hrecs hr (x := .new r.key r.value) rfl rfl
    rcases Decidable.eq_or_ne key' r.key with rfl | hne
    · have hold : Stored G A r.key r.value := ⟨_, r, ⟨.intro hj hrecs, hr, rfl⟩, rfl⟩
      rw [held_of_stored (h.stored_iff hold), held_of_stored (hrep.stored_self rfl rfl)]
      rfl
    · refine held_congr fun {a x} _ hkey => ?_
      have hx : x.key ≠ r.key := by
        rw [hkey]
        exact hne
      rw [KvSectors.replaced, recAt_pushed_of_ne hi, recAt_marked_of_key h.used_le hj hrecs hx]
      rintro rfl
      exact hx rfl
  quiet := by
    intro k hk
    rcases Decidable.eq_or_ne k j with rfl | hne
    · rw [KvSectors.replaced_of_ne hij]
      exact hk.marked hrecs
    · rw [KvSectors.replaced_apply hij hne]
      split
      case isTrue heq => exact (heq ▸ hk).pushed rfl
      case isFalse => exact hk
  clean := by
    intro k hk
    have hne : k ≠ j := by
      rintro rfl
      exact hdirty hk
    rw [KvSectors.replaced_apply hij hne]
    split
    case isTrue heq => exact heq ▸ hk
    case isFalse => exact hk

/-- The other records stay when a sector whose records are all deleted is formatted. -/
theorem KvOk.recAt_formatted (h : KvOk G K A db) (hi : i < G.n)
    (hdead : ∀ x ∈ (A i).recs, x.status = .deleted) (hx : x.status ≠ .deleted) :
    RecAt G (A.set i .formatted) a x ↔ RecAt G A a x := by
  rw [recAt_set_formatted h.used_le hi]
  refine ⟨And.left, fun hat => ⟨hat, ?_⟩⟩
  obtain ⟨k, hk, hin⟩ := hat
  rw [hin.sector h.used_le hk]
  rintro rfl
  exact hx (hdead _ hin.mem)

theorem KvOk.moved_formatted (h : KvOk G K A db) (hh : KvHalted G A) (hi : i < G.n)
    (hdead : ∀ x ∈ (A i).recs, x.status = .deleted) : Moved G A (A.set i .formatted) :=
  .set (hh.formatted h.used_le hi) (held_congr fun hx _ => h.recAt_formatted hi hdead hx)
    (fun _ x hx => by cases hx) fun _ => rfl

/-- A sector is being collected. -/
theorem moved_setGc (hh : KvHalted G A) (hj : j < G.n) (hdirty : (A j).dirty ≠ .no) :
    Moved G A (A.set j { A j with dirty := .gc }) := by
  have hrec {a x} : RecAt G (A.set j { A j with dirty := .gc }) a x ↔ RecAt G A a x :=
    recAt_set_of_recs hj rfl
  refine .set (hh.set (fun x hx => ?_) fun hat _ => hrec.mp hat) (held_congr fun _ _ => hrec) id
    fun hk => absurd hk hdirty
  exact (hh.status j hj x hx).imp_right fun hd => ⟨hd.1, fun hf => by cases hf⟩

end DoorLock
