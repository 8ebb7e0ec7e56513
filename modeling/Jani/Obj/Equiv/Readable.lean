import Jani.Obj.Equiv.Coherence

/-!
# Committed writes are readable

Once a put is committed, each of its objects can be read back, at once and after any number of
other operations, evictions and remounts, until the object is put again or deleted or a rollback
takes place (`committed_readable`).

Two things must hold when the put starts.  The writer checks that an object fits in the buffer,
but the reader needs room for whole sectors: an object whose last sector does not fit is
committed and cannot be read (`committed_unreadable`).  And no other body may be cached under the
new version of the object, as for coherent reads.
-/

namespace Jani

/-- The operation leaves the object alone: it is no put or delete of it, and no rollback. -/
def StoreOp.Leaves (id : ObjectId) : StoreOp → Prop
  | .putMany requests => ∀ r ∈ requests, r.id ≠ id
  | .delete id' => id' ≠ id
  | .snapshotRollback _ => False
  | _ => True

theorem StoreOp.Effect.mem_of_leaves {op : StoreOp} {r : StoreResult} {L L' : LogicalState}
    (heffect : op.Effect r L L') {o : ObjectTableEntry × List Sector} (hop : op.Leaves o.1.id)
    (ho : o ∈ L.objects) : o ∈ L'.objects := by
  rcases StoreOp.effect_cases heffect with rfl | ⟨requests, rfl, -, hput⟩ | ⟨id, rfl, -, hdelete⟩ |
    ⟨id, -, -, hcreate⟩ | ⟨id, rfl, -, -⟩ | ⟨id, -, -, rfl⟩ | ⟨keep, -, -, rfl⟩
  · exact ho
  · exact (hput.kept o fun r hr => (hop r hr).symm).mpr ho
  · exact (hdelete.objects o).mpr ⟨ho, Ne.symm hop⟩
  · rw [hcreate.objects]
    exact ho
  · exact hop.elim
  · rw [discard_objects]
    exact ho
  · rw [iterate_discardOldest_objects]
    exact ho

/-- The object is there and a get of it returns what is on disk. -/
structure Held (o : ObjectTableEntry × List Sector) (store : ObjectStore) (D : Content) :
    Prop where
  ok : CacheOk store.cache
  mem : o ∈ (logicalState store D).objects
  right : CachedRight store.cacheCapacity store.cache o

/-- **Step**: an operation that leaves the object alone. -/
theorem Stepped.held {store : ObjectStore} {D D' : Content} {op : StoreOp}
    {r : StoreResult × ObjectStore} {o : ObjectTableEntry × List Sector} (h : Mounted store D)
    (hstep : Stepped store D op r D') (hop : op.Leaves o.1.id) (hheld : Held o store D) :
    Held o r.2 D' := by
  have hcacheStep := hstep.cacheStep h hheld.ok
  have hmem := hstep.effect.mem_of_leaves hop hheld.mem
  refine ⟨hcacheStep.ok, hmem, ?_⟩
  rw [hstep.cacheCapacity_eq]
  refine hheld.right.step hcacheStep
    (fun o' ho' hid => hstep.mounted.object_unique ho' hmem hid) ?_
  rintro ⟨requests, rfl, request, hrequest, hid, -⟩
  exact hop request hrequest hid

/-- Operations with room for their superblocks that leave the object alone. -/
def LeavingOp (id : ObjectId) (store : ObjectStore) (D : Content) (op : StoreOp) : Prop :=
  RoomFor store D op ∧ op.Leaves id

section Runs

variable {setup : ObjectStoreSetup} {store store' : ObjectStore} {D : Content} {d' : Disk Sector}

/-- **Run**: the slots of the cache are always packed and whole. -/
theorem RunFrom.cacheOk (hstate : RunState setup store D) (h : CacheOk store.cache)
    (hrun : RunFrom RoomFor setup store (Disk.clean D) store' d') :
    ∃ D', d' = Disk.clean D' ∧ RunState setup store' D' ∧ CacheOk store'.cache := by
  apply hrun.induct (fun _ _ _ hallowed => hallowed) (fun store _ => CacheOk store.cache) hstate h
  · intro store D op r D' hstate _ hstep h
    exact (hstep.cacheStep hstate.mounted h).ok
  · intro store D setup' store' D' _ hloaded _ _ _
    exact hloaded.cacheOk

/-- **Run**: operations that leave the object alone. -/
theorem RunFrom.held {o : ObjectTableEntry × List Sector} (hstate : RunState setup store D)
    (h : Held o store D) (hrun : RunFrom (LeavingOp o.1.id) setup store (Disk.clean D) store' d') :
    ∃ D', d' = Disk.clean D' ∧ RunState setup store' D' ∧ Held o store' D' := by
  apply hrun.induct (fun _ _ _ hallowed => hallowed.1) (Held o) hstate h
  · intro store D op r D' hstate hallowed hstep h
    exact hstep.held hstate.mounted hallowed.2 h
  · intro store D setup' store' D' hstate hloaded _ hL h
    refine ⟨hloaded.cacheOk, hL ▸ h.mem, ?_⟩
    intro slot hslot
    rw [hloaded.slots_eq] at hslot
    cases hslot

/-- The view shows the object of the request. -/
structure Shows (r : ObjectStorePutRequest) (view : ObjectView) : Prop where
  id_eq : view.header.id = r.id
  typeId_eq : view.header.typeId = r.typeId
  creatorId_eq : view.header.creatorId = r.creatorId
  modifierId_eq : view.header.modifierId = r.modifierId
  logicalTimestamp_eq : view.header.logicalTimestamp = r.logicalTimestamp
  payload_eq : view.payload = r.payload
  payloadSize_eq : view.payloadSize.toNat = r.payload.length

theorem shows_putView {r : ObjectStorePutRequest} (hr : r.Valid) (version : UInt64) :
    Shows r (putView r version) := by
  refine ⟨rfl, rfl, rfl, rfl, rfl, rfl, ?_⟩
  have := hr.size
  exact UInt64.toNat_ofNat_of_lt' (show _ < 2 ^ 64 by omega)

/-- **Committed writes are readable**: if an object of a committed put fits in the buffer when
rounded up to whole sectors, and the put replaces what is cached for it or finds nothing cached
under its new version, then a get returns it, as long as the operations that follow leave it
alone. -/
theorem committed_readable {d0 d1 d d2 d3 : Disk Sector} {store0 store2 store3 : ObjectStore}
    (hformat : run (objectStoreFormat setup) d0 = (some store0, d1))
    (hbefore : RunFrom RoomFor setup store0 d1 store d)
    {requests : List ObjectStorePutRequest} (hroom : RoomFor store d.view (.putMany requests))
    (hput : run (StoreOp.prog store (.putMany requests)) d =
      ((.batch .committed, store2), d2))
    {r : ObjectStorePutRequest} (hr : r ∈ requests) (hround : RoundedFits store.cacheCapacity r)
    (hsafe : Refreshes store requests r ∨
      cacheFind store.cache r.id (nextVersion store r.id) = none)
    (hafter : RunFrom (LeavingOp r.id) setup store2 d2 store3 d3) :
    ∃ view, (run (StoreOp.prog store3 (.get r.id)) d3).1.1 = .object (some view) ∧
      Shows r view := by
  obtain ⟨D1, rfl, hstate1, hloaded1⟩ := RunState.of_format hformat
  obtain ⟨D, rfl, hstate, hcache⟩ := hbefore.cacheOk hstate1 hloaded1.cacheOk
  obtain ⟨result, store2', D2, hput', hstate2, hstep, -⟩ := hstate.step (.putMany requests) hroom
  rw [hput'] at hput
  obtain ⟨hresult, rfl⟩ := Prod.mk.inj hput
  obtain ⟨rfl, rfl⟩ := Prod.mk.inj hresult
  have heffect : PutEffect requests (logicalState store D) (logicalState store2' D2) := hstep.effect
  have hvalid := heffect.valid r hr
  obtain ⟨hversion, firstSector, hmem⟩ := heffect.written r hr
  have hright := hstep.put_cachedRight hstate.mounted hcache heffect rfl hr hround hsafe hmem rfl
  have hcapacity2 : store2'.cacheCapacity = store.cacheCapacity := hstep.cacheCapacity_eq
  rw [← hcapacity2] at hright
  have hheld : Held _ store2' D2 :=
    ⟨(hstep.cacheStep hstate.mounted hcache).ok, hmem, hright⟩
  obtain ⟨D3, rfl, hstate3, hheld3⟩ := RunFrom.held hstate2 hheld hafter
  have hcapacity : store3.cacheCapacity = store.cacheCapacity :=
    hstate3.cacheCapacity_eq.trans hstate.cacheCapacity_eq.symm
  refine ⟨putView r ((logicalState store D).nextVersion r.id), ?_, shows_putView hvalid _⟩
  have hget := hstate3.mounted.get_eq hheld3.ok hheld3.mem hheld3.right
  rw [diskView_put hvalid hversion, hcapacity, if_pos hround] at hget
  exact hget

end Runs

instance (id : ObjectId) : ∀ op : StoreOp, Decidable (op.Leaves id)
  | .putMany requests => inferInstanceAs (Decidable (∀ r ∈ requests, r.id ≠ id))
  | .delete id' => inferInstanceAs (Decidable (id' ≠ id))
  | .snapshotRollback _ => isFalse not_false
  | .get _ | .snapshotCreate | .snapshotDiscard _ | .collect | .snapshotPrune _ => isTrue trivial

instance (id : ObjectId) (store : ObjectStore) (D : Content) (op : StoreOp) :
    Decidable (LeavingOp id store D op) :=
  inferInstanceAs (Decidable (_ ∧ _))

/-- After the put of a second object, the first one is put again and deleted. -/
def otherOps : List StoreOp := [.putMany [byteRequest 1 2], .snapshotCreate, .delete ⟨0, 1⟩]

def otherState : ObjectStore × Disk Sector :=
  runOps otherOps (runOps [.putMany [byteRequest 5 4]] onePut)

set_option maxRecDepth 200000 in
theorem otherState_spec : RoomFor onePut.1 onePut.2.view (.putMany [byteRequest 5 4]) ∧
    (run (StoreOp.prog onePut.1 (.putMany [byteRequest 5 4])) onePut.2).1.1 = .batch .committed ∧
    RoundedFits onePut.1.cacheCapacity (byteRequest 5 4) ∧
    cacheFind onePut.1.cache ⟨0, 5⟩ (nextVersion onePut.1 ⟨0, 5⟩) = none ∧
    OpsAllowed (LeavingOp ⟨0, 5⟩) otherOps (runOps [.putMany [byteRequest 5 4]] onePut) := by
  decide +kernel

/-- The second object is read back after a remount. -/
theorem committed_readable_small : ∃ store d view,
    run (objectStoreMount smallSetup) otherState.2 = (some store, d) ∧
    (run (StoreOp.prog store (.get ⟨0, 5⟩)) d).1.1 = .object (some view) ∧
    Shows (byteRequest 5 4) view := by
  obtain ⟨hroom, hput, hround, hnone, hother⟩ := otherState_spec
  have hbefore : RunFrom RoomFor smallSetup smallStart.1 smallStart.2 onePut.1 onePut.2 := by
    unfold onePut
    exact RunFrom.of_ops (fun _ _ _ h => h) onePut_spec.1 _
  have hrun := onePut_run
  unfold otherState
  generalize onePut = s at *
  obtain ⟨store, d⟩ := s
  have hafter := RunFrom.of_ops (fun _ _ _ h => h) hother smallSetup
  obtain ⟨D, hD, hstate⟩ := (StoreRun.of_ops (fun _ _ _ h => h.1) hother
    (.step _ hrun hroom rfl)).runState
  have hsame : SameCapacities smallSetup smallSetup := ⟨rfl, rfl, rfl, rfl, rfl⟩
  obtain ⟨store1, D1, hmount, -⟩ :=
    RunState.exists_mount smallSetup_ok hsame hstate.recoverable (Or.inl hstate.mounted.log)
  rw [← hD] at hmount
  obtain ⟨view, hget, hshows⟩ := committed_readable (run_format smallSetup_ok (Disk.clean _))
    hbefore hroom (Prod.ext (Prod.ext hput rfl) rfl) List.mem_cons_self hround (Or.inr hnone)
    (.remount hafter hsame hmount)
  exact ⟨store1, _, view, hmount, hget, hshows⟩

/-! ### Objects that cannot be read back -/

/-- A device whose buffer holds a part of a sector, and whose arena is empty. -/
def narrowSetup : ObjectStoreSetup := { smallSetup with cacheCapacity := 200, arenaBuffer := [] }

theorem narrowSetup_ok : SetupOk narrowSetup := by
  constructor <;> decide

/-- That device, freshly formatted. -/
def narrowStart : ObjectStore × Disk Sector := ((formatStore narrowSetup).advance.advance,
  Disk.clean (formatDisk narrowSetup fun _ => Block.zero objectStoreSectorSize))

set_option maxRecDepth 200000 in
theorem narrowStart_spec : (run (StoreOp.prog narrowStart.1 (.putMany [smallRequest]))
      narrowStart.2).1.1 = .batch .committed ∧
    (run (StoreOp.prog (runOps [.putMany [smallRequest]] narrowStart).1 (.get smallRequest.id))
      (runOps [.putMany [smallRequest]] narrowStart).2).1.1 = .object none := by
  decide +kernel

/-- **A committed write that cannot be read**: the object fits in the buffer, its sector does
not. -/
theorem committed_unreadable : ∃ setup d0 store0 d1 r store d,
    run (objectStoreFormat setup) d0 = (some store0, d1) ∧
    run (StoreOp.prog store0 (.putMany [r])) d1 = ((.batch .committed, store), d) ∧
    (run (StoreOp.prog store (.get r.id)) d).1.1 = .object none := by
  obtain ⟨hput, hget⟩ := narrowStart_spec
  have hformat : run (objectStoreFormat narrowSetup)
      (Disk.clean fun _ => Block.zero objectStoreSectorSize) =
        (some narrowStart.1, narrowStart.2) := run_format narrowSetup_ok _
  generalize narrowStart = s at *
  obtain ⟨store, d⟩ := s
  exact ⟨narrowSetup, _, store, d, smallRequest, _, _, hformat, Prod.ext (Prod.ext hput rfl) rfl,
    hget⟩

end Jani
