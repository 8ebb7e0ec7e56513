import Jani.Obj.Equiv.Cache
import Jani.Obj.Equiv.Snapshots

/-!
# Reads

What a get returns, in terms of the logical state and of the cache: the object that is cached
under the identifier and the version of the current entry, and otherwise the object on disk, if
it fits in the buffer (`getOn_cases`, `diskView`).  The cache is coherent if the two are the
same (`CachedRight`).

The cache is keyed by identifier and version, and a rollback makes versions repeat.  Reads are
coherent as long as no put and no rollback makes a version current under which another body is
cached (`read_coherent`); otherwise a body of an abandoned generation is returned
(`stale_read`).
-/

namespace Jani

/-! ### Objects on disk -/

/-- The bytes of an object. -/
def objectBytes (o : ObjectTableEntry × List Sector) : List UInt8 := o.2.flatMap (·.bytes)

/-- What a get returns for an object that is not cached. -/
def diskView (cacheCapacity : UInt64) (o : ObjectTableEntry × List Sector) : Option ObjectView :=
  if o.1.sectorCount.toNat ≤ cacheCapacity.toNat / objectStoreSectorSize ∧
      objectHeaderValidate (objectBytes o) ∧
      objectIdEqual (ObjectHeader.ofBytes (objectBytes o)).id o.1.id ∧
      (ObjectHeader.ofBytes (objectBytes o)).version = o.1.version
  then some (objectViewOf (objectBytes o)) else none

/-- The buffer of the store holds the object, rounded up to whole sectors. -/
def RoundedFits (cacheCapacity : UInt64) (r : ObjectStorePutRequest) : Prop :=
  sectorsFor (objectHeaderSize + r.payload.length) ≤ cacheCapacity.toNat / objectStoreSectorSize

instance (cacheCapacity : UInt64) (r : ObjectStorePutRequest) :
    Decidable (RoundedFits cacheCapacity r) :=
  inferInstanceAs (Decidable (_ ≤ _))

/-- What a get returns for an object that was just written. -/
def putView (r : ObjectStorePutRequest) (version : UInt64) : ObjectView :=
  ⟨putHeader r version, r.payload, UInt64.ofNat r.payload.length⟩

variable {r : ObjectStorePutRequest}

theorem diskView_put (hr : r.Valid) {version : UInt64} (hversion : version ≠ 0)
    (firstSector cacheCapacity : UInt64) : diskView cacheCapacity
      (⟨r.id, version, firstSector,
        UInt64.ofNat (sectorsFor (objectHeaderSize + r.payload.length))⟩,
        objectSectors (putBytes r version)) =
      if RoundedFits cacheCapacity r then some (putView r version) else none := by
  have hsize : r.payload.length < 2 ^ 64 := by
    have := hr.size
    omega
  obtain ⟨pad, hpad⟩ := flatMap_objectSectors (putBytes r version)
  unfold diskView objectBytes
  dsimp only
  rw [hpad, ofBytes_putBytes_append,
    objectHeaderValidate_putBytes pad hr.id_ne hr.typeId_ne hversion
    hsize, objectViewOf_putBytes pad hsize, sectorsFor_toNat hr.size]
  have hid : objectIdEqual (putHeader r version).id r.id = true := (objectIdEqual_iff _ _).mpr rfl
  have hv : (putHeader r version).version = version := rfl
  simp only [hid, hv, and_true]
  rfl

theorem whole_putBytes (hr : r.Valid) (version : UInt64) : Whole (putBytes r version) := by
  have hof := ofBytes_putBytes_append r version []
  rw [List.append_nil] at hof
  unfold Whole
  rw [hof, length_putBytes]
  change objectHeaderSize + (UInt64.ofNat r.payload.length).toNat ≤ _
  rw [UInt64.toNat_ofNat_of_lt' (by have := hr.size; change _ < 2 ^ 64; omega)]

theorem objectViewOf_putBytes_self (hr : r.Valid) (version : UInt64) :
    objectViewOf (putBytes r version) = putView r version := by
  have := @objectViewOf_putBytes r version [] (by have := hr.size; omega)
  rwa [List.append_nil] at this

variable {o : ObjectTableEntry × List Sector} {L : LogicalState} {id : ObjectId}

section Mounted

variable {store : ObjectStore} {D : Content}

theorem Mounted.object_unique (h : Mounted store D) {o' : ObjectTableEntry × List Sector}
    (ho : o ∈ (logicalState store D).objects) (ho' : o' ∈ (logicalState store D).objects)
    (hid : o.1.id = o'.1.id) : o = o' := by
  obtain ⟨e, he, rfl⟩ := List.mem_map.mp ho
  obtain ⟨e', he', rfl⟩ := List.mem_map.mp ho'
  rw [h.coverage.sorted.eq_of_id_eq he he' hid]

theorem find_some (h : L.find id = some o) : o ∈ L.objects ∧ o.1.id = id :=
  ⟨List.mem_of_find?_eq_some h, by simpa using List.find?_some h⟩

theorem find_none (h : L.find id = none) : ∀ o ∈ L.objects, o.1.id ≠ id := by
  simpa [LogicalState.find] using h

/-- What the disk holds of an object is its logical view. -/
theorem Mounted.objectOn_eq (h : Mounted store D) (ho : o ∈ (logicalState store D).objects) :
    (objectOn store D o.1.id o.1).map objectViewOf = diskView store.cacheCapacity o ∧
      ∀ bytes, objectOn store D o.1.id o.1 = some bytes → Whole bytes := by
  obtain ⟨e, he, rfl⟩ := List.mem_map.mp ho
  obtain ⟨h3, hend⟩ := h.entry_end he
  have hnext : store.nextSector.toNat ≤ store.io.sectorCount.toNat := h.root.next_le
  have hcount := (h.coverage.valid e he).2.2.2
  have hpos : 0 < e.sectorCount.toNat := UInt64.pos_iff_ne_zero.mpr hcount
  have hbytes : objectBytesOn store.io D e.sectorCount.toNat e.firstSector =
      some (objectBytes (e, extentOn D e)) := objectBytesOn_eq _ _ (by omega)
  -- the entry is inside the device, so that only its size matters
  have hguard : (e.sectorCount = 0 ∨ e.firstSector < objectStoreFirstAllocatableSector ∨
      e.firstSector ≥ store.io.sectorCount ∨
      e.sectorCount > store.io.sectorCount - e.firstSector ∨
      e.sectorCount.toNat > store.cacheCapacity.toNat / objectStoreSectorSize) ↔
      ¬ e.sectorCount.toNat ≤ store.cacheCapacity.toNat / objectStoreSectorSize := by
    have hfirst : objectStoreFirstAllocatableSector.toNat = 3 := rfl
    have hle : e.firstSector ≤ store.io.sectorCount := UInt64.le_iff_toNat_le.mpr (by omega)
    simp only [hcount, false_or, ge_iff_le, gt_iff_lt, UInt64.lt_iff_toNat_lt,
      UInt64.le_iff_toNat_le, UInt64.toNat_sub_of_le _ _ hle, hfirst]
    omega
  unfold objectOn diskView
  dsimp only
  rw [hbytes]
  simp only [hguard]
  by_cases hsize : e.sectorCount.toNat ≤ store.cacheCapacity.toNat / objectStoreSectorSize
  · rw [if_neg (not_not.mpr hsize), Option.filter_some]
    simp only [hsize, true_and, decide_eq_true_eq]
    split_ifs with hgood
    · refine ⟨rfl, fun bytes hb => ?_⟩
      rw [← Option.some.inj hb]
      exact Whole.of_validate hgood.1
    · exact ⟨rfl, fun bytes hb => by cases hb⟩
  · rw [if_pos hsize]
    simp only [hsize, false_and, if_false]
    exact ⟨rfl, fun bytes hb => by cases hb⟩

end Mounted

/-! ### What an operation leaves in the cache -/

/-- Every slot of the second cache is one of the first, or shows an object of the state as it is on
disk, or is one for an object that cannot be read back. -/
structure CacheStep (cacheCapacity : UInt64) (unreadable : ObjectId → Prop) (L : LogicalState)
    (cache cache' : ObjectCache) : Prop where
  ok : CacheOk cache'
  length_arena : cache'.arena.length = cache.arena.length
  slots : ∀ slot' ∈ cache'.slots,
    (∃ slot ∈ cache.slots, slot'.id = slot.id ∧ slot'.version = slot.version ∧
      slotView cache' slot' = slotView cache slot) ∨
    (∃ o ∈ L.objects, slot'.id = o.1.id ∧ slot'.version = o.1.version ∧
      diskView cacheCapacity o = some (slotView cache' slot')) ∨
    unreadable slot'.id

section CacheStep

variable {cacheCapacity : UInt64} {unreadable : ObjectId → Prop} {L : LogicalState}
  {cache cache' : ObjectCache}

theorem Shrinks.cacheStep (h : Shrinks cache cache') :
    CacheStep cacheCapacity unreadable L cache cache' :=
  ⟨h.ok, h.length_arena, fun slot' hslot' => Or.inl (h.slots slot' hslot')⟩

theorem Inserted.cacheStep {version : UInt64} {bytes : List UInt8} {offset : Nat}
    (h : Inserted cache id version bytes offset cache') (ho : o ∈ L.objects) (hid : o.1.id = id)
    (hversion : o.1.version = version)
    (hview : diskView cacheCapacity o = some (objectViewOf bytes) ∨ unreadable id) :
    CacheStep cacheCapacity unreadable L cache cache' := by
  refine ⟨h.ok, h.length_arena, ?_⟩
  intro slot' hslot'
  rcases h.slots slot' hslot' with ⟨hid', hversion', hview'⟩ | ⟨-, hold⟩
  · rw [hview', hid']
    exact Or.inr (hview.imp_left fun hview =>
      ⟨o, ho, hid.symm, hversion'.trans hversion.symm, hview⟩)
  · exact Or.inl hold

end CacheStep

section Get

variable {store : ObjectStore} {D : Content} {id : ObjectId}

theorem Mounted.getOn_none (h : Mounted store D) (hfind : (logicalState store D).find id = none) :
    getOn store D id = (none, store.cache) := by
  unfold getOn
  split_ifs with hguard
  · rfl
  · rw [not_or, objectIdIsZero_iff] at hguard
    rw [h.objectTableFind_eq hguard.2, hfind]
    rfl

/-- **Get** returns what is cached under the version of the current entry, and otherwise what is on
disk. -/
theorem Mounted.getOn_cases (h : Mounted store D) (hcache : CacheOk store.cache)
    (hfind : (logicalState store D).find id = some o) :
    CacheStep store.cacheCapacity (fun _ => False) (logicalState store D) store.cache
      (getOn store D id).2 ∧
    ((∃ slot ∈ store.cache.slots, slot.id = id ∧ slot.version = o.1.version ∧
        (getOn store D id).1 = some (slotView store.cache slot)) ∨
      (∀ slot ∈ store.cache.slots, slot.id = id → slot.version ≠ o.1.version) ∧
        (getOn store D id).1 = diskView store.cacheCapacity o) := by
  obtain ⟨ho, rfl⟩ := find_some hfind
  have hid : o.1.id ≠ ⟨0, 0⟩ := by
    obtain ⟨e, he, rfl⟩ := List.mem_map.mp ho
    exact (h.coverage.valid e he).1
  have hguard : ¬ (objectStoreRequiresRecovery store = true ∨ objectIdIsZero o.1.id = true) := by
    rw [not_or, objectIdIsZero_iff, objectStoreRequiresRecovery, h.ready]
    exact ⟨Bool.false_ne_true, hid⟩
  obtain ⟨hdisk, hwhole⟩ := h.objectOn_eq ho
  unfold getOn
  rw [if_neg hguard, h.objectTableFind_eq hid, hfind, Option.map_some]
  dsimp only
  cases hslot : cacheFind store.cache o.1.id o.1.version with
  | some index =>
    obtain ⟨slot, hmem, hget, hslotId, hslotVersion⟩ := cacheFind_some hslot
    refine ⟨(cacheTouch_spec hcache index).cacheStep,
      Or.inl ⟨slot, hmem, hslotId, hslotVersion, ?_⟩⟩
    rw [← hget]
    rfl
  | none =>
    dsimp only
    cases hon : objectOn store D o.1.id o.1 with
    | none =>
      rw [hon] at hdisk
      exact ⟨(Shrinks.refl hcache).cacheStep, Or.inr ⟨cacheFind_none hslot, hdisk⟩⟩
    | some bytes =>
      rw [hon] at hdisk
      dsimp only
      by_cases hfits : CacheFits store.cache bytes
      · obtain ⟨offset, cache', heq, hins⟩ :=
          cacheInsert_spec hcache o.1.id o.1.version (hwhole bytes hon) hfits
        rw [heq]
        refine ⟨hins.cacheStep ho rfl rfl (Or.inl hdisk.symm), Or.inr ⟨cacheFind_none hslot, ?_⟩⟩
        rw [← hdisk]
        exact congrArg some hins.view
      · rw [cacheInsert_none hfits]
        exact ⟨(Shrinks.refl hcache).cacheStep, Or.inr ⟨cacheFind_none hslot, hdisk⟩⟩

theorem run_get (store : ObjectStore) (id : ObjectId) (d : Disk Sector) :
    run (StoreOp.prog store (.get id)) d =
      ((.object (getOn store d.view id).1,
        { store with cache := (getOn store d.view id).2 }), d) := by
  have hwp : wp Faults.none (fun _ _ => True) (StoreOp.prog store (.get id)) (fun r d' =>
      r = (.object (getOn store d.view id).1, { store with cache := (getOn store d.view id).2 }) ∧
        d' = d) d := by
    rw [StoreOp.prog, wp_wrapResult_iff]
    exact wp_get id ⟨rfl, rfl⟩ False.elim
  obtain ⟨hr, hd⟩ := wp_exec hwp ((exec_none_iff _ _ _ _).mpr rfl)
  exact Prod.ext hr hd

end Get

variable {store : ObjectStore} {D : Content} {op : StoreOp} {r : StoreResult × ObjectStore}

theorem StoreOp.cacheEffect_cases {r : StoreResult} {cache : ObjectCache}
    (h : op.CacheEffect store D r cache) : cache = store.cache ∨
    (∃ request, op = .putMany [request] ∧ r = .batch .committed ∧
      cache = (cacheInsert store.cache request.id (nextVersion store request.id)
        (putBytes request (nextVersion store request.id))).2) ∨
    (∃ id, cache = cacheRemoveObject store.cache id) ∨
    ∃ id, op = .get id ∧ cache = (getOn store D id).2 := by
  unfold StoreOp.CacheEffect at h
  split at h
  · exact Or.inr (Or.inl ⟨_, rfl, rfl, h⟩)
  · exact Or.inr (Or.inr (Or.inl ⟨_, h⟩))
  · exact Or.inr (Or.inr (Or.inr ⟨_, rfl, h⟩))
  · exact Or.inl h

/-- The objects of a put that a get cannot read from the disk: the buffer does not hold them,
rounded up to whole sectors. -/
def StoreOp.Unreadable (cacheCapacity : UInt64) (op : StoreOp) (id : ObjectId) : Prop :=
  ∃ requests, op = .putMany requests ∧ ∃ r ∈ requests, r.id = id ∧ ¬ RoundedFits cacheCapacity r

/-- **Step**: what is in the cache after an operation. -/
theorem Stepped.cacheStep {D' : Content} (h : Mounted store D) (hcache : CacheOk store.cache)
    (hstep : Stepped store D op r D') :
    CacheStep store.cacheCapacity (op.Unreadable store.cacheCapacity) (logicalState r.2 D')
      store.cache r.2.cache := by
  rcases StoreOp.cacheEffect_cases hstep.cache with heq | ⟨request, rfl, hr, heq⟩ | ⟨id, heq⟩ |
    ⟨id, rfl, heq⟩
  · rw [heq]
    exact (Shrinks.refl hcache).cacheStep
  · have heffect := hstep.effect
    rw [hr] at heffect
    have hput : PutEffect [request] (logicalState store D) (logicalState r.2 D') := heffect
    have hvalid := hput.valid request List.mem_cons_self
    obtain ⟨hversion, firstSector, hmem⟩ := hput.written request List.mem_cons_self
    rw [logicalState_nextVersion h hvalid.id_ne] at hversion hmem
    rw [heq]
    by_cases hfits : CacheFits store.cache (putBytes request (nextVersion store request.id))
    · obtain ⟨offset, cache', hinsert, hins⟩ := cacheInsert_spec hcache request.id
        (nextVersion store request.id) (whole_putBytes hvalid _) hfits
      rw [hinsert]
      refine hins.cacheStep hmem rfl rfl ?_
      rw [diskView_put hvalid hversion, objectViewOf_putBytes_self hvalid]
      by_cases hround : RoundedFits store.cacheCapacity request
      · exact Or.inl (if_pos hround)
      · exact Or.inr ⟨_, rfl, request, List.mem_cons_self, rfl, hround⟩
    · rw [cacheInsert_none hfits]
      exact (Shrinks.refl hcache).cacheStep
  · rw [heq]
    exact (cacheRemoveObject_spec hcache id).1.cacheStep
  · have hsame : logicalState r.2 D' = logicalState store D := hstep.effect
    rw [heq, hsame]
    cases hfind : (logicalState store D).find id with
    | none =>
      rw [h.getOn_none hfind]
      exact (Shrinks.refl hcache).cacheStep
    | some o =>
      have hget := (h.getOn_cases hcache hfind).1
      exact ⟨hget.ok, hget.length_arena, fun slot' hslot' =>
        (hget.slots slot' hslot').imp_right fun hnew => Or.inl (hnew.resolve_right not_false)⟩

/-! ### Coherence -/

/-- What is cached for the object is what is on disk. -/
def CachedRight (cacheCapacity : UInt64) (cache : ObjectCache)
    (o : ObjectTableEntry × List Sector) : Prop :=
  ∀ slot ∈ cache.slots, slot.id = o.1.id → slot.version = o.1.version →
    diskView cacheCapacity o = some (slotView cache slot)

/-- **Frame**: an object of the new state that was cached right still is. -/
theorem CachedRight.step {cacheCapacity : UInt64} {unreadable : ObjectId → Prop}
    {cache cache' : ObjectCache} (h : CachedRight cacheCapacity cache o)
    (hstep : CacheStep cacheCapacity unreadable L cache cache')
    (ho : ∀ o' ∈ L.objects, o'.1.id = o.1.id → o' = o) (hread : ¬ unreadable o.1.id) :
    CachedRight cacheCapacity cache' o := by
  intro slot' hslot' hid hversion
  rcases hstep.slots slot' hslot' with ⟨slot, hslot, hid', hversion', hview⟩ |
    ⟨o', ho', hid', hversion', hview⟩ | hbad
  · rw [hview]
    exact h slot hslot (hid'.symm.trans hid) (hversion'.symm.trans hversion)
  · obtain rfl := ho o' ho' (hid'.symm.trans hid)
    exact hview
  · rw [hid] at hbad
    exact absurd hbad hread

/-- **A get** of an object that is cached right returns what is on disk. -/
theorem Mounted.get_eq (h : Mounted store D) (hcache : CacheOk store.cache)
    (ho : o ∈ (logicalState store D).objects)
    (hright : CachedRight store.cacheCapacity store.cache o) :
    (run (StoreOp.prog store (.get o.1.id)) (Disk.clean D)).1.1 =
      .object (diskView store.cacheCapacity o) := by
  have hfind : (logicalState store D).find o.1.id = some o := by
    cases hfind : (logicalState store D).find o.1.id with
    | none => exact absurd rfl (find_none hfind o ho)
    | some o' =>
      obtain ⟨ho', hid⟩ := find_some hfind
      rw [h.object_unique ho' ho hid]
  rw [run_get]
  change StoreResult.object (getOn store D o.1.id).1 = _
  rcases (h.getOn_cases hcache hfind).2 with ⟨slot, hslot, hid, hversion, hview⟩ | ⟨-, hview⟩
  · rw [hview, hright slot hslot hid hversion]
  · rw [hview]

theorem PutEffect.mem_cases {requests : List ObjectStorePutRequest}
    (hput : PutEffect requests L (logicalState store D)) (h : Mounted store D)
    (ho : o ∈ (logicalState store D).objects) : (o ∈ L.objects ∧ ∀ r ∈ requests, o.1.id ≠ r.id) ∨
      ∃ r ∈ requests, o.1.id = r.id ∧ o.1.version = L.nextVersion r.id ∧
        o.1.sectorCount = UInt64.ofNat (sectorsFor (objectHeaderSize + r.payload.length)) ∧
        o.2 = objectSectors (putBytes r (L.nextVersion r.id)) := by
  by_cases hnew : ∃ r ∈ requests, o.1.id = r.id
  · obtain ⟨r, hr, hid⟩ := hnew
    obtain ⟨-, firstSector, hmem⟩ := hput.written r hr
    have heq := h.object_unique ho hmem hid
    exact Or.inr ⟨r, hr, hid, by rw [heq], by rw [heq], by rw [heq]⟩
  · push Not at hnew
    exact Or.inl ⟨(hput.kept o hnew).mp ho, hnew⟩

theorem discard_objects (L : LogicalState) (id : UInt64) : (L.discard id).objects = L.objects := by
  unfold LogicalState.discard
  split <;> rfl

theorem iterate_discardOldest_objects (n : Nat) (L : LogicalState) :
    (LogicalState.discardOldest^[n] L).objects = L.objects := by
  induction n with
  | zero => rfl
  | succ n ih =>
    rw [Function.iterate_succ_apply', LogicalState.discardOldest]
    split_ifs
    · exact ih
    · rw [discard_objects, ih]

/-- The object is put anew in the cache. -/
def Refreshes (store : ObjectStore) (requests : List ObjectStorePutRequest)
    (r : ObjectStorePutRequest) : Prop :=
  requests = [r] ∧ CacheFits store.cache (putBytes r (nextVersion store r.id))

/-- What an operation has to meet for reads to stay coherent: the objects of a put can be read
back, and no put or rollback makes a version current under which another body is cached. -/
def StoreOp.CacheSafe (store : ObjectStore) (D : Content) : StoreOp → Prop
  | .putMany requests => ∀ r ∈ requests, RoundedFits store.cacheCapacity r ∧
    (Refreshes store requests r ∨ cacheFind store.cache r.id (nextVersion store r.id) = none)
  | .snapshotRollback snapshotId => ∀ slot, (store.snapshots slot).id = snapshotId →
    ∀ o ∈ (logicalState store D).snapshotObjects slot, CachedRight store.cacheCapacity store.cache o
  | _ => True

/-- The condition on a rollback in terms of the cache and the tables alone: nothing is cached under
the identifier and version of an object of the snapshot, unless its entry is the current one. -/
def StoreOp.CacheFresh (store : ObjectStore) (D : Content) : StoreOp → Prop
  | .snapshotRollback snapshotId => ∀ slot, (store.snapshots slot).id = snapshotId →
    ∀ o ∈ (logicalState store D).snapshotObjects slot,
      o.1 ∈ store.table.entries ∨ cacheFind store.cache o.1.id o.1.version = none
  | op => op.CacheSafe store D

/-- **A put** that refreshes the cached body of its object, or finds none under the new version,
leaves the object cached right, if it can be read back at all. -/
theorem Stepped.put_cachedRight {D' : Content} {requests : List ObjectStorePutRequest}
    (h : Mounted store D) (hcache : CacheOk store.cache)
    (hstep : Stepped store D (.putMany requests) r D')
    (hput : PutEffect requests (logicalState store D) (logicalState r.2 D'))
    (hr : r.1 = .batch .committed) {request : ObjectStorePutRequest} (hmem : request ∈ requests)
    (hround : RoundedFits store.cacheCapacity request) (hsafe : Refreshes store requests request ∨
      cacheFind store.cache request.id (nextVersion store request.id) = none)
    (ho : o ∈ (logicalState r.2 D').objects) (hid : o.1.id = request.id) :
    CachedRight store.cacheCapacity r.2.cache o := by
  have hvalid := hput.valid request hmem
  obtain ⟨hversion, firstSector, hwritten⟩ := hput.written request hmem
  rw [logicalState_nextVersion h hvalid.id_ne] at hversion hwritten
  have ho_eq := hstep.mounted.object_unique ho hwritten hid
  rcases hsafe with ⟨rfl, hfits⟩ | hnone
  · -- the only slot of the object is the new one
    obtain ⟨offset, cache', hinsert, hins⟩ := cacheInsert_spec hcache request.id
      (nextVersion store request.id) (whole_putBytes hvalid _) hfits
    have heq : r.2.cache = cache' := by
      have := hstep.cache
      rw [hr] at this
      have heq : r.2.cache = (cacheInsert store.cache request.id (nextVersion store request.id)
        (putBytes request (nextVersion store request.id))).2 := this
      rw [heq, hinsert]
    intro slot' hslot' hslotId _
    rw [heq] at hslot' ⊢
    rcases hins.slots slot' hslot' with ⟨-, -, hview⟩ | ⟨hne, -⟩
    · rw [hview, ho_eq, diskView_put hvalid hversion, objectViewOf_putBytes_self hvalid]
      exact if_pos hround
    · exact absurd (hslotId.trans hid) hne
  · have hbefore : CachedRight store.cacheCapacity store.cache o := by
      intro slot hslot hslotId hslotVersion
      rw [ho_eq] at hslotVersion
      exact absurd hslotVersion (cacheFind_none hnone slot hslot (hslotId.trans hid))
    refine hbefore.step (hstep.cacheStep h hcache)
      (fun o' ho' hid' => hstep.mounted.object_unique ho' ho hid') ?_
    -- another request for the same object has the same size
    rintro ⟨_, hop, request', hmem', hid', hround'⟩
    obtain rfl := (StoreOp.putMany.inj hop).symm
    obtain ⟨-, firstSector', hwritten'⟩ := hput.written request' hmem'
    have hsame := hstep.mounted.object_unique hwritten' hwritten (hid'.trans hid)
    have hcount := congrArg (fun o => o.1.sectorCount.toNat) hsame
    dsimp only at hcount
    rw [sectorsFor_toNat (hput.valid request' hmem').size, sectorsFor_toNat hvalid.size] at hcount
    unfold RoundedFits at hround hround'
    omega

/-- **Step**: an operation that is safe for the cache keeps it coherent. -/
theorem Stepped.coherent {D' : Content} (h : Mounted store D) (hcache : CacheOk store.cache)
    (hsafe : op.CacheSafe store D) (hstep : Stepped store D op r D')
    (hco : ∀ o ∈ (logicalState store D).objects, CachedRight store.cacheCapacity store.cache o) :
    ∀ o ∈ (logicalState r.2 D').objects, CachedRight r.2.cacheCapacity r.2.cache o := by
  intro o ho
  rw [hstep.cacheCapacity_eq]
  have hcacheStep := hstep.cacheStep h hcache
  have hunique : ∀ o' ∈ (logicalState r.2 D').objects, o'.1.id = o.1.id → o' = o :=
    fun o' ho' hid => hstep.mounted.object_unique ho' ho hid
  have hread : ¬ op.Unreadable store.cacheCapacity o.1.id := by
    rintro ⟨requests, rfl, request, hmem, -, hround⟩
    exact hround (hsafe request hmem).1
  have hframe : CachedRight store.cacheCapacity store.cache o →
      CachedRight store.cacheCapacity r.2.cache o :=
    fun hbefore => hbefore.step hcacheStep hunique hread
  rcases StoreOp.effect_cases hstep.effect with heq | ⟨requests, rfl, hr, hput⟩ |
    ⟨id, -, -, hdelete⟩ | ⟨id, -, -, hcreate⟩ | ⟨id, rfl, -, hrollback⟩ | ⟨id, -, -, heq⟩ |
    ⟨keep, -, -, heq⟩
  · rw [heq] at ho
    exact hframe (hco o ho)
  · rcases hput.mem_cases hstep.mounted ho with ⟨hold, -⟩ | ⟨request, hmem, hid, -⟩
    · exact hframe (hco o hold)
    · exact hstep.put_cachedRight h hcache hput hr hmem (hsafe request hmem).1
        (hsafe request hmem).2 ho hid
  · exact hframe (hco o ((hdelete.objects o).mp ho).1)
  · rw [hcreate.objects] at ho
    exact hframe (hco o ho)
  · obtain ⟨slot, -, hslot, hobjects⟩ := hrollback.slot
    rw [hobjects] at ho
    exact hframe (hsafe slot hslot o ho)
  · rw [heq, discard_objects] at ho
    exact hframe (hco o ho)
  · rw [heq, iterate_discardOldest_objects] at ho
    exact hframe (hco o ho)

/-! ### Runs -/

theorem CacheOk.empty (arena : List UInt8) (clock : UInt64) : CacheOk ⟨arena, 0, [], clock⟩ :=
  ⟨Nat.zero_le _, Packed.empty, List.Pairwise.nil, fun _ h => (List.not_mem_nil h).elim⟩

/-- Operations after which reads are still coherent. -/
def CoherentOp (store : ObjectStore) (D : Content) (op : StoreOp) : Prop :=
  RoomFor store D op ∧ op.CacheSafe store D

/-- Operations that bring no body into view which was cached for another object. -/
def FreshOp (store : ObjectStore) (D : Content) (op : StoreOp) : Prop :=
  RoomFor store D op ∧ op.CacheFresh store D

section Runs

variable {setup : ObjectStoreSetup} {store store' : ObjectStore} {D : Content} {d' : Disk Sector}

/-- The invariant of a run with a coherent cache. -/
structure Coherent (store : ObjectStore) (D : Content) : Prop where
  ok : CacheOk store.cache
  right : ∀ o ∈ (logicalState store D).objects, CachedRight store.cacheCapacity store.cache o

theorem Coherent.of_empty (hcache : CacheOk store.cache) (hempty : store.cache.slots = []) :
    Coherent store D := by
  refine ⟨hcache, fun o _ slot hslot => ?_⟩
  rw [hempty] at hslot
  cases hslot

theorem Loaded.cacheOk (h : Loaded setup store) : CacheOk store.cache := by
  rw [h.cache_eq]
  exact CacheOk.empty _ _

theorem Loaded.slots_eq (h : Loaded setup store) : store.cache.slots = [] := by
  rw [h.cache_eq]

/-- In a coherent state, an object of a snapshot whose entry is current is cached right. -/
theorem Coherent.safe {op : StoreOp} (h : Coherent store D) (hfresh : op.CacheFresh store D) :
    op.CacheSafe store D := by
  cases op with
  | snapshotRollback snapshotId =>
    intro slot hslot o ho
    rcases hfresh slot hslot o ho with hcurrent | hnone
    · -- both tables name the same sectors
      have hsectors : o = (o.1, extentOn D o.1) := by
        change o ∈ slotObjects _ _ _ _ at ho
        unfold slotObjects at ho
        split_ifs at ho
        · cases ho
        · obtain ⟨entry, -, rfl⟩ := List.mem_map.mp ho
          rfl
      rw [hsectors]
      exact h.right _ (List.mem_map_of_mem hcurrent)
    · intro cached hcached hid hversion
      exact absurd hversion (cacheFind_none hnone cached hcached hid)
  | _ => exact hfresh

/-- **Run**: the cache stays coherent. -/
theorem RunFrom.coherent {allowed : ObjectStore → Content → StoreOp → Prop}
    (hsafe : ∀ store D op, Coherent store D → allowed store D op → op.CacheSafe store D)
    (hroom : ∀ store D op, allowed store D op → RoomFor store D op)
    (hstate : RunState setup store D) (h : Coherent store D)
    (hrun : RunFrom allowed setup store (Disk.clean D) store' d') :
    ∃ D', d' = Disk.clean D' ∧ RunState setup store' D' ∧ Coherent store' D' := by
  apply hrun.induct hroom Coherent hstate h
  · intro store D op r D' hstate hallowed hstep h
    exact ⟨(hstep.cacheStep hstate.mounted h.ok).ok,
      hstep.coherent hstate.mounted h.ok (hsafe _ _ _ h hallowed) h.right⟩
  · intro store D setup' store' D' _ hloaded _ _ _
    exact Coherent.of_empty hloaded.cacheOk hloaded.slots_eq

theorem diskView_some {cacheCapacity : UInt64} {view : ObjectView}
    (h : diskView cacheCapacity o = some view) : view = objectViewOf (objectBytes o) := by
  unfold diskView at h
  split_ifs at h
  exact (Option.some.inj h).symm

/-- **A get right after a mount** returns what is on disk. -/
theorem RunState.get_mounted {setup' : ObjectStoreSetup} (h : RunState setup store D)
    (hsame : SameCapacities setup setup') (id : ObjectId) :
    ∃ store1 D1, run (objectStoreMount setup') (Disk.clean D) = (some store1, Disk.clean D1) ∧
      (run (StoreOp.prog store1 (.get id)) (Disk.clean D1)).1.1 =
        .object (((logicalState store D).find id).bind (diskView store.cacheCapacity)) := by
  obtain ⟨store1, D1, hmount, hstate1, hloaded, hL⟩ :=
    RunState.exists_mount h.setup_ok hsame h.recoverable (Or.inl h.mounted.log)
  refine ⟨store1, D1, hmount, ?_⟩
  have hcapacity : store1.cacheCapacity = store.cacheCapacity :=
    hstate1.cacheCapacity_eq.trans h.cacheCapacity_eq.symm
  rw [run_get, ← hL, ← hcapacity]
  dsimp only
  change StoreResult.object (getOn store1 D1 id).1 = _
  cases hfind : (logicalState store1 D1).find id with
  | none =>
    rw [hstate1.mounted.getOn_none hfind]
    rfl
  | some o =>
    rcases (hstate1.mounted.getOn_cases hloaded.cacheOk hfind).2 with ⟨slot, hslot, -⟩ | ⟨-, hview⟩
    · rw [hloaded.slots_eq] at hslot
      cases hslot
    · rw [hview]
      rfl

end Runs

/-! ### A rollback that is safe, and one that is not -/

instance (store : ObjectStore) (D : Content) : ∀ op : StoreOp, Decidable (op.CacheFresh store D)
  | .putMany requests => inferInstanceAs (Decidable (∀ r ∈ requests,
      RoundedFits store.cacheCapacity r ∧ ((requests = [r] ∧ _ ≤ _) ∨ cacheFind _ _ _ = none)))
  | .snapshotRollback snapshotId => inferInstanceAs (Decidable (∀ slot,
      (store.snapshots slot).id = snapshotId → ∀ o ∈ slotObjects _ _ D _,
        o.1 ∈ store.table.entries ∨ cacheFind store.cache o.1.id o.1.version = none))
  | .get _ | .delete _ | .snapshotCreate | .snapshotDiscard _ | .collect | .snapshotPrune _ =>
    isTrue trivial

instance (store : ObjectStore) (D : Content) (op : StoreOp) : Decidable (FreshOp store D op) :=
  inferInstanceAs (Decidable (_ ∧ _))

def StoreResult.payload : StoreResult → Option (List UInt8)
  | .object view => view.map ObjectView.payload
  | _ => none

theorem StoreResult.exists_view {r : StoreResult} {bytes : List UInt8}
    (h : r.payload = some bytes) : ∃ view, r = .object (some view) ∧ view.payload = bytes := by
  cases r with
  | object result =>
    obtain ⟨view, rfl, hview⟩ := Option.map_eq_some_iff.mp h
    exact ⟨view, rfl, hview⟩
  | _ => cases h

/-- The rollback abandons version 1 of the second object.  The entry of the first one stays
current, and the next put of the second one replaces the body that is cached for it. -/
def freshOps : List StoreOp :=
  [.putMany [byteRequest 1 1], .snapshotCreate, .putMany [byteRequest 5 4], .snapshotRollback 2,
    .putMany [byteRequest 5 6]]

def freshState : ObjectStore × Disk Sector := runOps freshOps smallStart

set_option maxRecDepth 200000 in
theorem freshState_spec : OpsAllowed FreshOp freshOps smallStart ∧
    (run (StoreOp.prog freshState.1 (.get ⟨0, 5⟩)) freshState.2).1.1.payload = some [6] := by
  decide +kernel

/-- Version 2 of the object is abandoned by the rollback, but it stays in the cache; the batch then
writes another version 2. -/
def staleOps : List StoreOp :=
  [.putMany [byteRequest 1 1], .snapshotCreate, .putMany [byteRequest 1 2], .snapshotRollback 2,
    .putMany [byteRequest 1 3, byteRequest 5 4]]

def staleState : ObjectStore × Disk Sector := runOps staleOps smallStart

set_option maxRecDepth 200000 in
theorem staleState_spec : OpsAllowed RoomFor staleOps smallStart ∧
    (run (StoreOp.prog staleState.1 (.get ⟨0, 1⟩)) staleState.2).1.1.payload = some [2] ∧
      ∀ o ∈ (logicalState staleState.1 staleState.2.view).objects, o.1.id = ⟨0, 1⟩ →
        (objectViewOf (objectBytes o)).payload = [3] := by
  decide +kernel

end Jani
