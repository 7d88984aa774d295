import DoorLock.KvLife

/-!
# Losing power within a set

`set_kv` prepares the deletion of the old record, writes the new one, and deletes the old one. When
the power is lost between two of these steps, the next `fdb_kvdb_init` finds the old value, or the
new one once its record is written, and every other name has its value.
-/

namespace DoorLock

open CString Refine

variable {G : KvGeom} {K : KvNames} {A : KvSectors} {db : FdbKvdb} {fuel L : Nat}
  {part : FalPartition} {M : KvMap} {key value : List UInt8} {keys : List (List UInt8)}
  {defaultKvs : List FdbDefaultKvNode}

/-- The step of `set_kv` after which the power is lost. -/
inductive SetCut
  | newKv
  | prepare
  | create
  | delete
  | done
  deriving DecidableEq

/-- `set_kv` until the power is lost. -/
def setKvUntil (cut : SetCut) (db : FdbKvdb) (key value : List UInt8) : Option FdbKvdb := do
  let kvSize := kvHdrDataSize + key.length + value.length
  let (emptyKv, curSector, db) ← newKv db db.curSector kvSize
  let db := { db with curSector }
  if emptyKv = failedAddr ∨ cut = .newKv then some db
  else do
    let (kvIsFound, curKv, db) ← findKv db key db.curKv
    let db := { db with curKv }
    let (result, db) ← if kvIsFound then delKv db key curKv false else some (.noErr, db)
    if cut = .prepare then some db
    else do
      let (result, db) ←
        if result = .noErr then do
          let (result, curSector, db) ← createKvBlob db db.curSector key value
          some (result, { db with curSector })
        else some (result, db)
      if cut = .create then some db
      else do
        let (_, db) ←
          if kvIsFound ∧ result = .noErr then delKv db key curKv true else some (result, db)
        if cut = .delete then some db
        else if db.gcRequest then gcCollectByFreeSize db kvSize else some db

/-- Without a loss of power it is `set_kv`. -/
theorem setKvUntil_done :
    setKvUntil .done db key value = (setKv db key value).map Prod.snd := by
  rw [setKvUntil, setKv]
  simp only [Option.bind_eq_bind, Option.map_bind, Function.comp_def,
    apply_ite (Option.map Prod.snd), Option.bind_some, Option.bind_fun_some, Option.map_some,
    reduceCtorEq, or_false, if_false]

/-! ## What is left in flash -/

/-- The flash of a store that stands for `M`, also when a change was cut short. -/
def StandsFor (G : KvGeom) (K : KvNames) (part : FalPartition) (M : KvMap) : Prop :=
  ∃ A, Interrupted G K A part ∧ ∀ {key value}, KvHeld G A key value ↔ M key = some value

theorem HalfDone.standsFor (h : HalfDone G K A db)
    (hM : ∀ {key value}, KvHeld G A key value ↔ M key = some value) : StandsFor G K db.part M :=
  ⟨A, ⟨h.len, h.holds, h.sector, h.keys, h.one, h.halted, h.empty⟩, hM⟩

theorem StoreOk.standsFor (h : StoreOk G K A db)
    (hM : ∀ {key value}, Stored G A key value ↔ M key = some value) : StandsFor G K db.part M :=
  h.halfDone.standsFor ((held_iff_stored fun _ hi => h.settled.quiet hi).trans hM)

/-- The map that is left when the power is lost in a set. -/
inductive SetCut.Leaves (G : KvGeom) (M : KvMap) (key value : List UInt8) : SetCut → KvMap → Prop
  | old {cut : SetCut} (h : cut = .newKv ∨ cut = .prepare) : Leaves G M key value cut M
  | new {cut : SetCut} (h : cut ≠ .newKv ∧ cut ≠ .prepare) :
    Leaves G M key value cut (Function.update M key (some value))
  | full {cut : SetCut} (h : ¬M.Fits G (KvRec.new key value).size) : Leaves G M key value cut M

/-- The power is lost in a set. -/
theorem StoreKeeps.setKvUntil_ok (h : StoreKeeps G K db M) (hkey : K.mem key) (cut : SetCut) :
    Yields (setKvUntil cut db key value) fun db' =>
      ∃ M', cut.Leaves G M key value M' ∧ StandsFor G K db'.part M' := by
  obtain ⟨-, A, hok, hM⟩ := h
  have hsize : (KvRec.new key value).size = kvHdrDataSize + key.length + value.length := rfl
  rw [setKvUntil]
  dsimp only
  rw [← hsize]
  refine hok.newKv_ok.bind ?_
  rintro ⟨addr, sector, db₁⟩ ⟨A₁, hw₁, hm, hempty, hnew⟩
  have h₁ := hok.writes hw₁ (hm.settled hok.settled) hempty
  have h₁ : StoreOk G K A₁ { db₁ with curSector := sector } := { h₁ with }
  have hM₁ {key value} : Stored G A₁ key value ↔ M key = some value :=
    (hm.stored hok.settled).trans hM
  dsimp only at hnew ⊢
  cases hnew with
  | full hi hclean hroom =>
    rw [if_pos (.inl rfl)]
    have hfull : ¬M.Fits G (KvRec.new key value).size := fun hfits =>
      hroom (h₁.room_of_fits hM₁ hfits hi hclean)
    exact .pure ⟨M, .full hfull, h₁.standsFor hM₁⟩
  | @target i _ _ hc hempty =>
    have hnew {key' value'} : (if key' = key then value' = value else Stored G A₁ key' value') ↔
        Function.update M key (some value) key' = some value' := by
      rcases Decidable.eq_or_ne key' key with rfl | hne
      · rw [if_pos rfl, Function.update_self, Option.some_inj, eq_comm]
      · rw [if_neg hne, Function.update_of_ne hne, hM₁]
    have hsteps : SetSteps G K A₁ { db₁ with curSector := sector } key value :=
      h₁.setSteps hkey hc hempty
    obtain ⟨db₂, heq⟩ : ∃ d : FdbKvdb, d = { db₁ with curSector := sector } := ⟨_, rfl⟩
    have hcurKv : db₁.curKv = db₂.curKv := by rw [heq]
    refine .ite (fun hand => ?_) fun hand => ?_
    · have hcut := hand.resolve_left (hc.ne_failed h₁.toKvdbOk)
      exact .pure ⟨M, .old (.inl hcut), h₁.standsFor hM₁⟩
    rw [← heq] at hsteps ⊢
    rw [hcurKv]
    cases hsteps with
    | @change kv sector _ _ _ db₅ _ _ A₅ hfind hdel h₃ held₃ hcreate h₄ held₄ hdel' h₅ hstored =>
      rw [hfind, Option.bind_eq_bind, Option.bind_some]
      dsimp only
      rw [if_pos rfl, hdel, Option.bind_eq_bind, Option.bind_some]
      dsimp only
      have hstands := h₃.standsFor (held₃.trans hM₁)
      refine .ite (fun hcut => .pure ⟨M, .old (.inr hcut), hstands⟩) fun hcut => ?_
      rw [if_pos rfl, hcreate, Option.bind_eq_bind, Option.bind_some, Option.bind_some]
      dsimp only
      have hM₂ : cut.Leaves G M key value _ := .new ⟨fun heq => hand (.inr heq), hcut⟩
      refine .ite (fun hcut => .pure ⟨_, hM₂, h₄.standsFor (held₄.trans hnew)⟩) fun hcut => ?_
      rw [if_pos ⟨rfl, rfl⟩, hdel', Option.bind_some]
      dsimp only
      have hleaves := h₅.standsFor (hstored.trans hnew)
      refine .ite (fun hcut => .pure ⟨_, hM₂, hleaves⟩) fun hcut => ?_
      rw [h₅.gcRequest, if_neg Bool.false_ne_true]
      exact .pure ⟨_, hM₂, hleaves⟩
    | @create kv sector _ db₃ A₃ hfind h₂ hcreate h₃ hstored hinit =>
      rw [hfind, Option.bind_eq_bind, Option.bind_some]
      dsimp only
      rw [if_neg Bool.false_ne_true, Option.bind_eq_bind, Option.bind_some]
      dsimp only
      refine .ite (fun hcut => .pure ⟨M, .old (.inr hcut), h₂.standsFor hM₁⟩) fun hcut => ?_
      rw [if_pos rfl, hcreate, Option.bind_eq_bind, Option.bind_some, Option.bind_some]
      dsimp only
      have hM₂ : cut.Leaves G M key value _ := .new ⟨fun heq => hand (.inr heq), hcut⟩
      have hleaves := h₃.standsFor (hstored.trans hnew)
      refine .ite (fun hcut => .pure ⟨_, hM₂, hleaves⟩) fun hcut => ?_
      rw [if_neg fun hand => Bool.false_ne_true hand.1, Option.bind_some]
      dsimp only
      refine .ite (fun hcut => .pure ⟨_, hM₂, hleaves⟩) fun hcut => ?_
      rw [if_neg fun hgc => Bool.false_ne_true (h₃.gcRequest.symm.trans hgc)]
      exact .pure ⟨_, hM₂, hleaves⟩

/-- `fdb_kvdb_init` on what was left. -/
theorem StandsFor.init (h : StandsFor G K part M) (hfuel : 1 < fuel) :
    Yields (fdbKvdbInit fuel (.zero part) G.S defaultKvs) fun x => x.1 = .noErr ∧
      StoreKeeps G K x.2 M := by
  obtain ⟨A, hint, hM⟩ := h
  refine (hint.init_ok (.inl hfuel) _).mono ?_
  rintro ⟨result, db⟩ ⟨hres, hinit, A', hok, hheld⟩
  exact ⟨hres, hinit, A', hok, hheld.trans hM⟩

/-! ## Power cycles -/

/-- The calls between `fdb_kvdb_init` and the loss of power, and the set that it cuts short, if
any. -/
structure KvCycle where
  calls : List KvCall
  cut : Option (SetCut × List UInt8 × List UInt8)

def kvCycleUntil (fuel S : Nat) (defaultKvs : List FdbDefaultKvNode) (part : FalPartition)
    (c : KvCycle) : Option (List KvAnswer × FalPartition) := do
  let (_, db) ← fdbKvdbInit fuel (.zero part) S defaultKvs
  let (bs, db) ← calls kvCall db c.calls
  let db ←
    match c.cut with
    | none => some db
    | some (cut, key, value) => setKvUntil cut db key value
  some (bs, db.part)

/-- The answers of a cycle, and the map it leaves. -/
inductive KvCycle.Allows (G : KvGeom) (M : KvMap) : KvCycle → List KvAnswer → KvMap → Prop
  | off {cs : List KvCall} {bs : List KvAnswer} {M' : KvMap}
    (h : Behaves (KvMap.Allows G) M cs bs M') : Allows G M ⟨cs, none⟩ bs M'
  | cut {cs : List KvCall} {bs : List KvAnswer} {cut : SetCut} {key value : List UInt8}
    {M' M'' : KvMap} (h : Behaves (KvMap.Allows G) M cs bs M')
    (hcut : cut.Leaves G M' key value M'') : Allows G M ⟨cs, some (cut, key, value)⟩ bs M''

/-- The names of a cycle. -/
structure KvCycle.Named (K : KvNames) (c : KvCycle) : Prop where
  calls : ∀ call ∈ c.calls, K.mem call.key
  cut : ∀ cut key value, c.cut = some (cut, key, value) → K.mem key

/-- The flash while the power is off: of a store, also one in which a set was cut short, or new. -/
def RestsCut (G : KvGeom) (K : KvNames) (defaultKvs : List FdbDefaultKvNode) (part : FalPartition)
    (M : KvMap) : Prop :=
  StandsFor G K part M ∨ part.len = G.n * G.S ∧ (∀ i < G.n, NoHdr part.flash (i * G.S)) ∧
    M = KvMap.defaults (fun _ => none) defaultKvs

theorem RestsCut.init (h : RestsCut G K defaultKvs part M) (hcap : Capacity G K keys L)
    (hdefaults : DefaultsOk keys L defaultKvs) (hfuel : 1 < fuel) :
    Yields (fdbKvdbInit fuel (.zero part) G.S defaultKvs) fun x => x.1 = .noErr ∧
      StoreKeeps G K x.2 M := by
  rcases h with h | ⟨hlen, hbad, rfl⟩
  · exact h.init hfuel
  · exact init_first hlen hbad hcap hdefaults (Nat.zero_lt_of_lt hfuel)

theorem kvCycleUntil_refines (hcap : Capacity G K keys L) (hdefaults : DefaultsOk keys L defaultKvs)
    (hfuel : 1 < fuel) :
    Refines (kvCycleUntil fuel G.S defaultKvs) (KvCycle.Allows G) (RestsCut G K defaultKvs)
      (KvCycle.Named K) := by
  rintro part M ⟨cs, cut⟩ h ⟨hcalls, hcut⟩
  refine (h.init hcap hdefaults hfuel).bind ?_
  rintro ⟨result, db⟩ ⟨-, hk⟩
  refine (kvCalls_behave hk hcalls).bind ?_
  rintro ⟨bs, db₁⟩ ⟨M₁, hbs, hk₁⟩
  cases cut with
  | none =>
    obtain ⟨-, A, hok, hM⟩ := hk₁
    exact .pure ⟨M₁, .off hbs, .inl (hok.standsFor hM)⟩
  | some c =>
    obtain ⟨cut, key, value⟩ := c
    refine (StoreKeeps.setKvUntil_ok hk₁ (hcut cut key value rfl) cut).bind ?_
    rintro db₂ ⟨M₂, hleaves, hstands⟩
    exact .pure ⟨M₂, .cut hbs hleaves, .inl hstands⟩

/-- Over any number of power cycles, each of which may end within a set, the store answers as one
map does: a set that was cut short has happened as a whole or not at all. -/
theorem kvCycles_atomic {cs : List KvCycle} (h : RestsCut G K defaultKvs part M)
    (hcap : Capacity G K keys L) (hdefaults : DefaultsOk keys L defaultKvs) (hfuel : 1 < fuel)
    (hcs : ∀ c ∈ cs, c.Named K) :
    Yields (calls (kvCycleUntil fuel G.S defaultKvs) part cs) fun x => ∃ M',
      Behaves (KvCycle.Allows G) M cs x.1 M' ∧ RestsCut G K defaultKvs x.2 M' :=
  (kvCycleUntil_refines hcap hdefaults hfuel).run h hcs

theorem kvCycles_atomic_erased :
    Yields (calls (kvCycleUntil 2 twoSectors.S oneDefault) (.erased (twoSectors.n * twoSectors.S))
      [⟨[.get (lit "k")], some (.prepare, lit "k", lit "w")⟩,
        ⟨[.get (lit "k")], some (.create, lit "k", lit "x")⟩, ⟨[.get (lit "k")], none⟩])
      fun x => ∃ M', Behaves (KvCycle.Allows twoSectors)
        (KvMap.defaults (fun _ => none) oneDefault)
        [⟨[.get (lit "k")], some (.prepare, lit "k", lit "w")⟩,
          ⟨[.get (lit "k")], some (.create, lit "k", lit "x")⟩, ⟨[.get (lit "k")], none⟩] x.1 M' ∧
        RestsCut twoSectors oneName oneDefault x.2 M' := by
  refine kvCycles_atomic (.inr ⟨rfl, fun _ _ => noHdr_erased _, rfl⟩) capacity_oneName
    defaultsOk_oneDefault (by decide) fun c hc => ?_
  simp only [List.mem_cons, List.not_mem_nil, or_false] at hc
  rcases hc with rfl | rfl | rfl
  all_goals
    refine ⟨fun call hcall => ?_, fun cut key value heq => ?_⟩
    · rw [List.mem_singleton.mp hcall]
      rfl
    · cases heq <;> rfl

end DoorLock
