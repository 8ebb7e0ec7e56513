import Jani.Obj.Equiv.Readable
import Jani.Obj.ObjectMap

/-!
# The object store is a map

Components, replicas and replay logs are modelled over `ObjectMap`.  Here the store of the code is
shown to be one: on a device that works its reads and batches answer as those of the map that it
holds (`HoldsMap.get`, `HoldsMap.put`), and a power cut during a batch leads, after the next mount,
to what the map is after a torn batch.

The batches are those whose objects can be read back and that do not meet a stale body in the cache
(`StoreOp.CacheSafe`); without this the store is not a map, see `committed_unreadable` and
`stale_read`.
-/

namespace Jani

/-- What the users of the store see of an object. -/
def ObjectView.stored (view : ObjectView) : StoredObject :=
  ⟨view.header.typeId, view.header.creatorId, view.header.modifierId,
    view.header.logicalTimestamp, view.payload⟩

/-- The objects of the map are those that can be read from the store. -/
structure HoldsMap (store : ObjectStore) (D : Content) (m : ObjectMap) : Prop where
  inService : m.requiresRecovery = false
  find_iff : ∀ id object, m.find id = some object ↔ ∃ o ∈ (logicalState store D).objects,
    o.1.id = id ∧ (diskView store.cacheCapacity o).map ObjectView.stored = some object

variable {setup : ObjectStoreSetup} {store store' : ObjectStore} {D D' : Content}
  {m : ObjectMap} {requests : List ObjectStorePutRequest}

theorem HoldsMap.of_eq (h : HoldsMap store D m)
    (hcapacity : store'.cacheCapacity = store.cacheCapacity)
    (hL : logicalState store' D' = logicalState store D) : HoldsMap store' D' m := by
  refine ⟨h.inService, ?_⟩
  rw [hcapacity, hL]
  exact h.find_iff

/-- **A read** returns the object of the map. -/
theorem HoldsMap.get (hholds : HoldsMap store D m) (h : Mounted store D) (hco : Coherent store D)
    (id : ObjectId) :
    ∃ view, (run (StoreOp.prog store (.get id)) (Disk.clean D)).1.1 = .object view ∧
      view.map ObjectView.stored = m.get (fun _ => true) id := by
  rw [ObjectMap.get_of_readable hholds.inService rfl]
  cases hfind : (logicalState store D).find id with
  | none =>
    refine ⟨none, ?_, ?_⟩
    · rw [run_get]
      exact congrArg (fun got => StoreResult.object got.1) (h.getOn_none hfind)
    · refine (Option.eq_none_iff_forall_ne_some.mpr fun object hobject => ?_).symm
      obtain ⟨o, ho, hid, -⟩ := (hholds.find_iff id object).mp hobject
      exact find_none hfind o ho hid
  | some o =>
    obtain ⟨ho, rfl⟩ := find_some hfind
    refine ⟨_, h.get_eq hco.ok ho (hco.right o ho), Option.ext fun object => ?_⟩
    rw [hholds.find_iff]
    constructor
    · exact fun hview => ⟨o, ho, rfl, hview⟩
    · rintro ⟨o', ho', hid, hview⟩
      rwa [h.object_unique ho' ho hid] at hview

/-! ### A batch -/

/-- **A committed batch** writes to the store what it writes to the map. -/
theorem HoldsMap.write (hholds : HoldsMap store D m)
    (hput : PutEffect requests (logicalState store D) (logicalState store' D'))
    (h : Mounted store' D') (hcapacity : store'.cacheCapacity = store.cacheCapacity)
    (hnodup : (requests.map (·.id)).Nodup)
    (hround : ∀ r ∈ requests, RoundedFits store.cacheCapacity r) :
    HoldsMap store' D' (m.write requests) := by
  refine ⟨hholds.inService, fun id object => ?_⟩
  rw [hcapacity]
  by_cases hid : ∃ r ∈ requests, r.id = id
  · obtain ⟨r, hr, rfl⟩ := hid
    obtain ⟨hversion, firstSector, hmem⟩ := hput.written r hr
    have hview := diskView_put (hput.valid r hr) hversion firstSector store.cacheCapacity
    rw [if_pos (hround r hr)] at hview
    rw [ObjectMap.find_write_of_mem requests m hnodup r hr]
    constructor
    · exact fun hobject => ⟨_, hmem, rfl, by rw [hview, ← hobject]; rfl⟩
    · rintro ⟨o, ho, ho_id, hobject⟩
      rw [h.object_unique ho hmem ho_id, hview] at hobject
      exact hobject
  · push Not at hid
    rw [ObjectMap.find_write_of_notMem requests m hid, hholds.find_iff]
    have hkept : ∀ o : ObjectTableEntry × List Sector, o.1.id = id →
        (o ∈ (logicalState store' D').objects ↔ o ∈ (logicalState store D).objects) :=
      fun o ho => hput.kept o fun r hr heq => hid r hr (heq.symm.trans ho)
    constructor
    · exact fun ⟨o, ho, ho_id, hobject⟩ => ⟨o, (hkept o ho_id).mpr ho, ho_id, hobject⟩
    · exact fun ⟨o, ho, ho_id, hobject⟩ => ⟨o, (hkept o ho_id).mp ho, ho_id, hobject⟩

/-- A batch on a device that works is rejected, or it has the form a map asks for and is
committed. -/
theorem Mounted.putMany_result (h : Mounted store D)
    (hseq : store.superblockSequence.toNat + 2 < 2 ^ 64) :
    (run (StoreOp.prog store (.putMany requests)) (Disk.clean D)).1.1 = .batch .rejected ∨
      (run (StoreOp.prog store (.putMany requests)) (Disk.clean D)).1.1 = .batch .committed ∧
        requests.length ≠ 0 ∧ requests.length ≤ objectStorePutBatchMax ∧
        (requests.map (·.id)).Nodup := by
  by_cases hlong : requests.length > objectStorePutBatchMax
  · left
    rw [StoreOp.prog, run_wrapResult, objectStorePutMany, if_pos (Or.inr (Or.inl hlong))]
    rfl
  rcases objectStorePutMany_cases requests h.coverage.fits h.coverage.sorted with
    ⟨store', -, heq⟩ | ⟨bitmap, nextSector, staged, candidate, tableSector, hplan, heq⟩
  · left
    rw [StoreOp.prog, run_wrapResult, heq]
    rfl
  · refine Or.inr ⟨put_committed h hseq fun r hr => (by cases heq.symm.trans hr),
      fun h0 => hplan.nonempty (List.length_eq_zero_iff.mp h0), not_lt.mp hlong, ?_⟩
    rw [← hplan.requests_eq, List.map_map]
    exact List.pairwise_map.mpr hplan.distinct

/-- How a batch ends on a device that works. -/
def endsAs (applied : Bool) : CommitFate := if applied then .commit else .reject

theorem putMany_endsAs_false (m : ObjectMap) (requests : List ObjectStorePutRequest) :
    m.putMany requests (endsAs false) = (.rejected, m) := by
  unfold ObjectMap.putMany
  split_ifs <;> rfl

/-- **A batch** ends as one of the map, with the result that the map gives it. -/
theorem HoldsMap.put (hholds : HoldsMap store D m) (h : RunState setup store D)
    (hop : CoherentOp store D (.putMany requests)) :
    ∃ applied store' D', run (StoreOp.prog store (.putMany requests)) (Disk.clean D) =
        ((.batch (m.putMany requests (endsAs applied)).1, store'), Disk.clean D') ∧
      HoldsMap store' D' (m.putMany requests (endsAs applied)).2 := by
  obtain ⟨r, store', D', hrun, -, hstep, -⟩ := h.step (.putMany requests) hop.1
  have hresult := @Mounted.putMany_result store D requests h.mounted hop.1
  rw [hrun] at hresult
  rcases hresult with hr | ⟨hr, hlength, hlong, hnodup⟩
  · obtain rfl : r = .batch .rejected := hr
    refine ⟨false, store', D', ?_, ?_⟩
    · rw [hrun, putMany_endsAs_false]
    · rw [putMany_endsAs_false]
      exact hholds.of_eq hstep.cacheCapacity_eq hstep.effect
  · obtain rfl : r = .batch .committed := hr
    have hput : PutEffect requests (logicalState store D) (logicalState store' D') := hstep.effect
    have hok : m.batchOk requests = true := ObjectMap.batchOk_iff.mpr ⟨hlength, hlong,
      hholds.inService, fun r hr => ⟨(hput.valid r hr).id_ne, (hput.valid r hr).typeId_ne⟩, hnodup⟩
    have hcommit : m.putMany requests (endsAs true) = (.committed, m.write requests) := by
      rw [ObjectMap.putMany, if_pos hok]
      rfl
    refine ⟨true, store', D', ?_, ?_⟩
    · rw [hrun, hcommit]
    · rw [hcommit]
      exact hholds.write hput hstep.mounted hstep.cacheCapacity_eq hnodup
        fun r hr => (hop.2 r hr).1

/-- After a mount a torn batch took place or it did not. -/
theorem HoldsMap.remount {applied : Bool}
    (h : HoldsMap store D (m.putMany requests (endsAs applied)).2) :
    HoldsMap store D (m.putMany requests (.tear applied)).2.remount := by
  refine ⟨rfl, fun id object => ?_⟩
  rw [← h.find_iff, ObjectMap.find_congr]
  unfold ObjectMap.putMany
  cases applied <;> split_ifs <;> rfl

/-- The operations on the store are those of the map. -/
structure RefinesMap (setup : ObjectStoreSetup) (store : ObjectStore) (d : Disk Sector)
    (m : ObjectMap) : Prop where
  get : ∀ id, ∃ view, (run (StoreOp.prog store (.get id)) d).1.1 = .object view ∧
    view.map ObjectView.stored = m.get (fun _ => true) id
  put : ∀ requests, CoherentOp store d.view (.putMany requests) → ∃ fate store' d',
    run (StoreOp.prog store (.putMany requests)) d =
      ((.batch (m.putMany requests fate).1, store'), d') ∧
    HoldsMap store' d'.view (m.putMany requests fate).2
  cut : ∀ requests e d1 D1 setup', CoherentOp store d.view (.putMany requests) →
    SequenceRoom store 3 → Emits Faults.none (StoreOp.prog store (.putMany requests)) d e d1 →
    (e.disk d1).Survives D1 → SameCapacities setup setup' →
    ∃ applied store' d', run (objectStoreMount setup') (Disk.clean D1) = (some store', d') ∧
      HoldsMap store' d'.view (m.putMany requests (.tear applied)).2.remount

/-- **The object store refines a map**: a formatted store holds the empty map, and in every state of
a run whose operations are `CoherentOp` the operations are those of the map that the store holds, a
power cut included. -/
theorem objectStore_refines_map {d0 d1 d : Disk Sector} {store0 : ObjectStore}
    (hformat : run (objectStoreFormat setup) d0 = (some store0, d1))
    (hrun : RunFrom CoherentOp setup store0 d1 store d) : HoldsMap store0 d1.view ObjectMap.empty ∧
      ∀ m, HoldsMap store d.view m → RefinesMap setup store d m := by
  obtain ⟨D1, rfl, hstate1, hloaded1⟩ := RunState.of_format hformat
  have hempty := hformat
  rw [run_format hstate1.setup_ok] at hempty
  obtain rfl := Option.some.inj (Prod.mk.inj hempty).1
  obtain ⟨D, rfl, hstate, hco⟩ :=
    hrun.coherent (fun _ _ _ _ h => h.2) (fun _ _ _ h => h.1) hstate1
      (Coherent.of_empty hloaded1.cacheOk hloaded1.slots_eq)
  refine ⟨⟨rfl, fun id object => ?_⟩, fun m hholds => ⟨hholds.get hstate.mounted hco,
    fun requests hop => ?_, ?_⟩⟩
  · exact ⟨fun h => (by cases h), fun ⟨_, ho, _⟩ => (by cases ho)⟩
  · obtain ⟨applied, store', D', hput, hholds'⟩ := hholds.put hstate hop
    exact ⟨_, store', _, hput, hholds'⟩
  · intro requests e d1 D1 setup' hop hroom hemit hcut hsame
    obtain ⟨r, store2, D2, hput, hstate2, -, hcuts⟩ := hstate.step (.putMany requests) hop.1
    obtain ⟨M, hM, hrecover⟩ := hcuts e d1 D1 hemit hcut
    obtain ⟨store', D', hmount, hstate', -, hL⟩ :=
      RunState.exists_mount hstate.setup_ok hsame hrecover (Or.inr hroom)
    -- the mount finds the state before the batch or the one after it
    rcases hM with rfl | rfl | ⟨keep, discards, hprune, -⟩
    · refine ⟨false, store', _, hmount, HoldsMap.remount ?_⟩
      rw [putMany_endsAs_false]
      exact hholds.of_eq (hstate'.cacheCapacity_eq.trans hstate.cacheCapacity_eq.symm) hL
    · obtain ⟨applied, store3, D3, hput3, hholds3⟩ := hholds.put hstate hop
      obtain ⟨hr, hd⟩ := Prod.mk.inj (hput.symm.trans hput3)
      obtain ⟨-, rfl⟩ := Prod.mk.inj hr
      obtain rfl : D2 = D3 := congrArg Disk.durable hd
      refine ⟨applied, store', _, hmount, HoldsMap.remount ?_⟩
      exact hholds3.of_eq (hstate'.cacheCapacity_eq.trans hstate2.cacheCapacity_eq.symm) hL
    · cases hprune

set_option maxRecDepth 200000 in
theorem smallStart_put : (run (StoreOp.prog smallStart.1 (.putMany [smallRequest]))
    smallStart.2).1.1 = .batch .committed := by
  decide +kernel

/-- The first put on the small device is committed, and its object is read back. -/
theorem objectStore_refines_map_small : ∃ store d view,
    run (StoreOp.prog smallStart.1 (.putMany [smallRequest])) smallStart.2 =
      ((.batch .committed, store), d) ∧
    HoldsMap store d.view (ObjectMap.empty.write [smallRequest]) ∧
    (run (StoreOp.prog store (.get smallRequest.id)) d).1.1 = .object (some view) ∧
    view.stored = smallRequest.object := by
  have hformat := smallStart_format
  have hresult := smallStart_put
  have hop : CoherentOp smallStart.1 smallStart.2.view (.putMany [smallRequest]) := by
    refine ⟨by decide, fun r hr => ?_⟩
    rw [List.mem_singleton.mp hr]
    exact ⟨by decide, Or.inr rfl⟩
  generalize smallStart = s at *
  obtain ⟨hempty, hrefines⟩ := objectStore_refines_map hformat .refl
  obtain ⟨fate, store, d, hput, hholds⟩ := (hrefines _ hempty).put [smallRequest] hop
  -- the put is committed, so that it was committed on the map as well
  rw [hput] at hresult
  obtain rfl : fate = .commit := by
    cases fate with
    | commit => rfl
    | _ => cases hresult
  obtain ⟨view, hget, hview⟩ := ((objectStore_refines_map hformat
    (.step (.putMany [smallRequest]) .refl hop hput)).2 _ hholds).get smallRequest.id
  cases view with
  | none => cases hview
  | some view => exact ⟨store, d, view, hput, hholds, hget, Option.some.inj hview⟩

end Jani
