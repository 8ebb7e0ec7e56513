import Jani.Obj.ObjectStore

/-!
# The operations of the object store (`object_store.c`)

Format, mount, put, get, delete and the snapshot operations.
-/

namespace Jani

/-! ### Format and mount -/

def objectStoreFormat (setup : ObjectStoreSetup) : StoreProg (Option ObjectStore) := do
  match setupStore setup with
  | none => return none
  | some store =>
    let store := { store with
      nextSector := objectStoreFirstAllocatableSector
      activeSuperblockSector := objectStoreSuperblockA
      bitmap := emptyBitmap setup.io store.bitmap }
    let (written, store) ← writeSuperblock store
    if !written then
      return none
    let (written, store) ← writeSuperblock store
    if !written then
      return none
    if !(← clearWal) then
      return none
    return some store

/-- The superblock a mount takes: the valid one, and of two valid ones that with the larger
sequence number. -/
def chooseSuperblock (sectorCount tableCapacity : UInt64) (first second : Sector) :
    Option (UInt64 × DiskSuperblock) :=
  if superblockIsValid first sectorCount tableCapacity ∧
      (¬ superblockIsValid second sectorCount tableCapacity ∨
        (DiskSuperblock.ofSector first).sequence ≥ (DiskSuperblock.ofSector second).sequence) then
    some (objectStoreSuperblockA, DiskSuperblock.ofSector first)
  else if superblockIsValid second sectorCount tableCapacity then
    some (objectStoreSuperblockB, DiskSuperblock.ofSector second)
  else none

def objectStoreMount (setup : ObjectStoreSetup) : StoreProg (Option ObjectStore) := do
  match setupStore setup with
  | none => return none
  | some store =>
    match ← ioReadSector setup.io objectStoreSuperblockA with
    | none => return none
    | some first =>
    match ← ioReadSector setup.io objectStoreSuperblockB with
    | none => return none
    | some second =>
    match chooseSuperblock setup.io.sectorCount setup.tableCapacity first second with
    | none => return none
    | some (active, chosen) =>
    let store := { store with
      activeSuperblockSector := active
      superblockSequence := chosen.sequence
      nextSector := chosen.nextSector
      currentTableSector := chosen.currentTableSector
      currentGeneration := chosen.currentGeneration
      snapshots := chosen.snapshots }
    match ← recoverWal store with
    | none => return none
    | some (true, store) =>
      let (rebuilt, store) ← rebuildBitmap store
      return if rebuilt then some store else none
    | some (false, store) =>
      match ← readTableGeneration store chosen.currentTableSector chosen.currentTableCount with
      | none => return none
      | some table =>
        let (rebuilt, store) ← rebuildBitmap { store with table := table }
        return if rebuilt then some store else none

def objectStoreRequiresRecovery (store : ObjectStore) : Bool := store.recoveryRequired

/-! ### Put -/

def objectStorePutBatchMax : Nat := 8

structure ObjectStorePutRequest where
  id : ObjectId
  typeId : ObjectId
  creatorId : ObjectId
  modifierId : ObjectId
  logicalTimestamp : UInt64
  payload : List UInt8
deriving DecidableEq, Repr

inductive ObjectStoreBatchResult where
  | rejected
  | committed
  | recoveryRequired
deriving DecidableEq, Repr

structure ObjectStoreStagedPut where
  request : ObjectStorePutRequest
  firstSector : UInt64
  sectorCount : UInt64
  version : UInt64
  objectByteCount : Nat

def objectStorePutRequestIsValid (store : ObjectStore) (request : ObjectStorePutRequest) : Bool :=
  ¬ (objectIdIsZero request.id ∨ objectIdIsZero request.typeId ∨
    store.cacheCapacity.toNat < objectHeaderSize ∨
    request.payload.length > store.cacheCapacity.toNat - objectHeaderSize)

/-- The header and payload of a new object version, as `object_store_prepare_put_bytes` builds
them in the cache buffer. -/
def putHeader (request : ObjectStorePutRequest) (version : UInt64) : ObjectHeader where
  magic := objectHeaderMagic
  formatVersion := objectHeaderFormatVersion
  referenceCount := 0
  id := request.id
  typeId := request.typeId
  version := version
  payloadSize := UInt64.ofNat request.payload.length
  payloadCrc32c := objectCrc32c request.payload
  flags := 0
  creatorId := request.creatorId
  modifierId := request.modifierId
  logicalTimestamp := request.logicalTimestamp
  padding := 0
  reserved := 0

def putBytes (request : ObjectStorePutRequest) (version : UInt64) : List UInt8 :=
  (putHeader request version).bytes ++ request.payload

def objectStorePreparePutBytes (store : ObjectStore) (staged : ObjectStoreStagedPut) :
    Option (List UInt8) :=
  if staged.version = 0 ∨ staged.objectByteCount < objectHeaderSize ∨
      staged.objectByteCount > store.cacheCapacity.toNat then none
  else
    let bytes := putBytes staged.request staged.version
    if objectHeaderValidate bytes then some bytes else none

/-- The number of sectors of an object of the given size. -/
def sectorsFor (objectByteCount : Nat) : Nat :=
  objectByteCount / objectStoreSectorSize +
    if objectByteCount % objectStoreSectorSize ≠ 0 then 1 else 0

/-- The version a put of `id` will write. -/
def nextVersion (store : ObjectStore) (id : ObjectId) : UInt64 :=
  match objectTableFind store.table id with
  | none => 1
  | some existing => existing.version + 1

/-- One iteration of the staging loop: the staged put and the candidate table with a placeholder
sector. -/
def stageRequest (store : ObjectStore) (earlier : List ObjectStorePutRequest)
    (candidate : ObjectTable) (request : ObjectStorePutRequest) :
    Option (ObjectStoreStagedPut × ObjectTable) :=
  if !objectStorePutRequestIsValid store request ∨
      earlier.any (fun e => objectIdEqual e.id request.id) then none
  else
    let objectByteCount := objectHeaderSize + request.payload.length
    let sectorCount := UInt64.ofNat (sectorsFor objectByteCount)
    let version := nextVersion store request.id
    if sectorCount = 0 ∨ version = 0 then none
    else
      match objectTableUpsert candidate
          ⟨request.id, version, objectStoreFirstAllocatableSector, sectorCount⟩ with
      | none => none
      | some candidate => some (⟨request, 0, sectorCount, version, objectByteCount⟩, candidate)

def stageRequests (store : ObjectStore) : List ObjectStorePutRequest →
    List ObjectStorePutRequest → ObjectTable → Option (List ObjectStoreStagedPut × ObjectTable)
  | _, [], candidate => some ([], candidate)
  | earlier, request :: requests, candidate =>
    match stageRequest store earlier candidate request with
    | none => none
    | some (staged, candidate) =>
      match stageRequests store (earlier ++ [request]) requests candidate with
      | none => none
      | some (rest, candidate) => some (staged :: rest, candidate)

/-- The entries with the sector of the object's entry set; `none` if it has no entry. -/
def setFirstSector (id : ObjectId) (firstSector : UInt64) :
    List ObjectTableEntry → Option (List ObjectTableEntry)
  | [] => none
  | entry :: entries =>
    if objectIdEqual entry.id id then some ({ entry with firstSector := firstSector } :: entries)
    else (setFirstSector id firstSector entries).map (entry :: ·)

/-- What the allocation loop of a put has done so far. -/
structure PutAllocation where
  bitmap : List UInt8
  nextSector : UInt64
  candidate : ObjectTable
  staged : List ObjectStoreStagedPut

/-- `max(next_sector, first_sector + count)` -/
def extendNextSector (nextSector firstSector count : UInt64) : UInt64 :=
  if firstSector + count > nextSector then firstSector + count else nextSector

/-- The allocation loop; on failure `staged` tells what has to be freed again. -/
def allocateStaged (sectorCount : UInt64) : List ObjectStoreStagedPut → PutAllocation →
    Bool × PutAllocation
  | [], a => (true, a)
  | staged :: rest, a =>
    match bitmapAllocate sectorCount a.bitmap staged.sectorCount with
    | none => (false, a)
    | some (firstSector, bitmap) =>
      let a := { a with
        bitmap := bitmap
        staged := a.staged ++ [{ staged with firstSector := firstSector }] }
      if firstSector > 0xFFFFFFFFFFFFFFFF - staged.sectorCount then (false, a)
      else
        let a := { a with
          nextSector := extendNextSector a.nextSector firstSector staged.sectorCount }
        match setFirstSector staged.request.id firstSector a.candidate.entries with
        | none => (false, a)
        | some entries =>
          allocateStaged sectorCount rest
            { a with candidate := { a.candidate with entries := entries } }

/-- The exit `reject_allocations`, which frees what was allocated. -/
def rejectAllocations (store : ObjectStore) (savedNextSector : UInt64)
    (staged : List ObjectStoreStagedPut) (table : Option (UInt64 × UInt64)) : ObjectStore :=
  let clear := fun bitmap (range : UInt64 × UInt64) =>
    bitmapClearRange store.io.sectorCount bitmap range.1 range.2
  let bitmap := (staged.map fun s => (s.firstSector, s.sectorCount)).foldl clear store.bitmap
  { store with
    bitmap := table.toList.foldl clear bitmap
    nextSector := savedNextSector }

/-- The loop that writes the objects. -/
def writeStaged (store : ObjectStore) : List ObjectStoreStagedPut → StoreProg Bool
  | [] => pure true
  | staged :: rest => do
    match objectStorePreparePutBytes store staged with
    | none => return false
    | some bytes =>
      if !(← writeObjectBytes staged.firstSector bytes) then
        return false
      writeStaged store rest

/-- The end of a committed put: a single object goes to the cache. -/
def cachePut (store : ObjectStore) : List ObjectStoreStagedPut → ObjectStore
  | [staged] =>
    match objectStorePreparePutBytes store staged with
    | none => store
    | some bytes =>
      { store with cache := (cacheInsert store.cache staged.request.id staged.version bytes).2 }
  | _ => store

/-- The part of a put after the allocations: `store` has them, `candidate` is the new table. -/
def putAllocated (store : ObjectStore) (savedNextSector : UInt64)
    (staged : List ObjectStoreStagedPut) (candidate : ObjectTable) (tableSector : UInt64) :
    StoreProg (ObjectStoreBatchResult × ObjectStore) := do
  let tableRange := some (tableSector, UInt64.ofNat candidate.count)
  let (written, store) ← writeSuperblock store
  if !written then
    return (.rejected, rejectAllocations store savedNextSector staged tableRange)
  if !(← writeStaged store staged) then
    return (.rejected, rejectAllocations store savedNextSector staged tableRange)
  if !(← writeTableGeneration store candidate tableSector) then
    return (.rejected, rejectAllocations store savedNextSector staged tableRange)
  let (published, store) ← publishTable store candidate tableSector
  if !published then
    return (.recoveryRequired, store)
  return (.committed, cachePut store staged)

def objectStorePutMany (store : ObjectStore) (requests : List ObjectStorePutRequest) :
    StoreProg (ObjectStoreBatchResult × ObjectStore) := do
  if requests.length = 0 ∨ requests.length > objectStorePutBatchMax ∨ store.recoveryRequired ∨
      store.currentGeneration = 0xFFFFFFFFFFFFFFFF ∨
      store.table.count > store.tableCapacity.toNat ∨
      store.table.capacity ≠ store.tableCapacity then
    return (.rejected, store)
  match stageRequests store [] requests store.table with
  | none => return (.rejected, store)
  | some (staged, candidate) =>
    match allocateStaged store.io.sectorCount staged
        ⟨store.bitmap, store.nextSector, candidate, []⟩ with
    | (false, a) =>
      return (.rejected, rejectAllocations { store with bitmap := a.bitmap } store.nextSector
        a.staged none)
    | (true, a) =>
      let count := UInt64.ofNat a.candidate.count
      match bitmapAllocate store.io.sectorCount a.bitmap count with
      | none =>
        return (.rejected, rejectAllocations { store with bitmap := a.bitmap } store.nextSector
          a.staged none)
      | some (tableSector, bitmap) =>
        if tableSector > 0xFFFFFFFFFFFFFFFF - count then
          return (.rejected, rejectAllocations { store with bitmap := bitmap } store.nextSector
            a.staged (some (tableSector, count)))
        putAllocated
          { store with
            bitmap := bitmap
            nextSector := extendNextSector a.nextSector tableSector count }
          store.nextSector a.staged a.candidate tableSector

/-! ### Get -/

/-- The sectors of an extent, read one after another into the cache buffer. -/
def readObjectSectors (io : ObjectStoreIo) : Nat → UInt64 → StoreProg (Option (List UInt8))
  | 0, _ => pure (some [])
  | count + 1, sector => do
    match ← ioReadSector io sector with
    | none => return none
    | some s =>
      match ← readObjectSectors io count (sector + 1) with
      | none => return none
      | some bytes => return some (s.bytes ++ bytes)

/-- What a successful `object_store_get` hands out. -/
structure ObjectView where
  header : ObjectHeader
  payload : List UInt8
  payloadSize : UInt64
deriving DecidableEq, Repr

/-- The object whose bytes start at the front of `bytes`. -/
def objectViewOf (bytes : List UInt8) : ObjectView :=
  let header := ObjectHeader.ofBytes bytes
  ⟨header, (bytes.drop objectHeaderSize).take header.payloadSize.toNat, header.payloadSize⟩

/-- The part of a get that reads the object from the device and caches it. -/
def getFromDisk (store : ObjectStore) (id : ObjectId) (entry : ObjectTableEntry) :
    StoreProg (Option ObjectView × ObjectStore) := do
  if entry.sectorCount = 0 ∨ entry.firstSector < objectStoreFirstAllocatableSector ∨
      entry.firstSector ≥ store.io.sectorCount ∨
      entry.sectorCount > store.io.sectorCount - entry.firstSector ∨
      entry.sectorCount.toNat > store.cacheCapacity.toNat / objectStoreSectorSize then
    return (none, store)
  match ← readObjectSectors store.io entry.sectorCount.toNat entry.firstSector with
  | none => return (none, store)
  | some bytes =>
    let header := ObjectHeader.ofBytes bytes
    if !objectHeaderValidate bytes ∨ !objectIdEqual header.id id ∨
        header.version ≠ entry.version then
      return (none, store)
    match cacheInsert store.cache id entry.version bytes with
    | (none, cache) => return (some (objectViewOf bytes), { store with cache := cache })
    | (some offset, cache) =>
      return (some (objectViewOf (cache.arena.drop offset)), { store with cache := cache })

def objectStoreGet (store : ObjectStore) (id : ObjectId) :
    StoreProg (Option ObjectView × ObjectStore) := do
  if objectStoreRequiresRecovery store ∨ objectIdIsZero id then
    return (none, store)
  match objectTableFind store.table id with
  | none => return (none, store)
  | some entry =>
    match cacheFind store.cache id entry.version with
    | some index =>
      let offset := (store.cache.slots.getD index default).offset
      return (some (objectViewOf (store.cache.arena.drop offset)),
        { store with cache := cacheTouch store.cache index })
    | none => getFromDisk store id entry

/-! ### Delete -/

/-- A delete writes the new table only if it has entries. -/
def writeRemaining (store : ObjectStore) (candidate : ObjectTable) (tableSector : UInt64) :
    StoreProg Bool :=
  if candidate.count ≠ 0 then writeTableGeneration store candidate tableSector else pure true

/-- The part of a delete after the allocation; an empty table takes no sector. -/
def deleteAllocated (store : ObjectStore) (id : ObjectId) (candidate : ObjectTable)
    (tableSector : UInt64) : StoreProg (Bool × ObjectStore) := do
  let release := fun (store : ObjectStore) =>
    if candidate.count ≠ 0 then
      { store with
        bitmap := bitmapClearRange store.io.sectorCount store.bitmap tableSector
          (UInt64.ofNat candidate.count) }
    else store
  let (written, store) ← writeSuperblock store
  if !written then
    return (false, release store)
  if !(← writeRemaining store candidate tableSector) then
    return (false, release store)
  let (published, store) ← publishTable store candidate tableSector
  if !published then
    return (false, store)
  return (true, { store with cache := cacheRemoveObject store.cache id })

def objectStoreDelete (store : ObjectStore) (id : ObjectId) : StoreProg (Bool × ObjectStore) := do
  if objectStoreRequiresRecovery store ∨ objectIdIsZero id ∨
      store.currentGeneration = 0xFFFFFFFFFFFFFFFF then
    return (false, store)
  match objectTableFind store.table id with
  | none => return (false, store)
  | some _ =>
    match objectTableRemove { store.table with capacity := store.tableCapacity } id with
    | none => return (false, store)
    | some candidate =>
      if candidate.count = 0 then
        deleteAllocated store id candidate 0
      else
        let count := UInt64.ofNat candidate.count
        match bitmapAllocate store.io.sectorCount store.bitmap count with
        | none => return (false, store)
        | some (tableSector, bitmap) =>
          deleteAllocated
            { store with
              bitmap := bitmap
              nextSector := extendNextSector store.nextSector tableSector count }
            id candidate tableSector

/-! ### Snapshots -/

/-- The slot of a snapshot: the first one with its identifier. -/
def findSnapshot (snapshots : Snapshots) (id : UInt64) : Option (Fin objectStoreSnapshotLimit) :=
  (List.finRange objectStoreSnapshotLimit).find? fun slot => (snapshots slot).id = id

/-- The identifier of the new snapshot. -/
def objectStoreSnapshotCreate (store : ObjectStore) : StoreProg (Option UInt64 × ObjectStore) := do
  if objectStoreRequiresRecovery store ∨ store.currentGeneration = 0xFFFFFFFFFFFFFFFF ∨
      store.currentTableSector < objectStoreFirstAllocatableSector ∨ store.table.count = 0 then
    return (none, store)
  let snapshotId := store.currentGeneration + 1
  if (findSnapshot store.snapshots snapshotId).isSome then
    return (none, store)
  match findSnapshot store.snapshots 0 with
  | none => return (none, store)
  | some slot =>
    let (written, created) ← writeSuperblock { store with
      snapshots := Function.update store.snapshots slot
        ⟨snapshotId, store.currentTableSector, UInt64.ofNat store.table.count⟩
      currentGeneration := snapshotId }
    if !written then
      return (none, store)
    return (some snapshotId, created)

def objectStoreSnapshotRollback (store : ObjectStore) (snapshotId : UInt64) :
    StoreProg (Bool × ObjectStore) := do
  if objectStoreRequiresRecovery store ∨ snapshotId = 0 ∨
      store.currentGeneration = 0xFFFFFFFFFFFFFFFF then
    return (false, store)
  match findSnapshot store.snapshots snapshotId with
  | none => return (false, store)
  | some slot =>
    let tableSector := (store.snapshots slot).tableSector
    let tableCount := (store.snapshots slot).tableCount
    if tableSector < objectStoreFirstAllocatableSector ∨ tableCount = 0 ∨
        tableCount > store.tableCapacity then
      return (false, store)
    match ← readTableGeneration store tableSector tableCount with
    | none => return (false, store)
    | some candidate => publishTable store candidate tableSector

def objectStoreSnapshotDiscard (store : ObjectStore) (snapshotId : UInt64) :
    StoreProg (Bool × ObjectStore) := do
  if objectStoreRequiresRecovery store ∨ snapshotId = 0 then
    return (false, store)
  match findSnapshot store.snapshots snapshotId with
  | none => return (false, store)
  | some slot =>
    let (written, discarded) ← writeSuperblock { store with
      snapshots := Function.update store.snapshots slot ⟨0, 0, 0⟩ }
    if !written then
      return (false, store)
    return (true, discarded)

def objectStoreCollect (store : ObjectStore) : StoreProg (Bool × ObjectStore) :=
  if objectStoreRequiresRecovery store then pure (false, store) else rebuildBitmap store

/-- One iteration of the scan of `object_store_snapshot_prune`. -/
def scanStep (scan : Nat × UInt64) (snapshot : ObjectStoreSnapshot) : Nat × UInt64 :=
  if snapshot.id = 0 then scan
  else (scan.1 + 1, if scan.2 = 0 ∨ snapshot.id < scan.2 then snapshot.id else scan.2)

/-- How many slots are used, and the smallest identifier in use (zero if there is none). -/
def scanSnapshots (snapshots : Snapshots) : Nat × UInt64 :=
  (List.ofFn snapshots).foldl scanStep (0, 0)

/-- The loop of `object_store_snapshot_prune`; every iteration but the last frees a slot. -/
def pruneLoop (keep : Nat) : Nat → ObjectStore → StoreProg (Bool × ObjectStore)
  | 0, store => objectStoreCollect store
  | fuel + 1, store => do
    let scan := scanSnapshots store.snapshots
    if scan.1 ≤ keep ∨ scan.2 = 0 then
      objectStoreCollect store
    else
      let (discarded, store) ← objectStoreSnapshotDiscard store scan.2
      if !discarded then
        return (false, store)
      pruneLoop keep fuel store

def objectStoreSnapshotPrune (store : ObjectStore) (keep : Nat) : StoreProg (Bool × ObjectStore) :=
  if objectStoreRequiresRecovery store ∨ keep > objectStoreSnapshotLimit then pure (false, store)
  else pruneLoop keep objectStoreSnapshotLimit store

/-! ### The operations of a mounted store -/

inductive StoreOp where
  | putMany (requests : List ObjectStorePutRequest)
  | get (id : ObjectId)
  | delete (id : ObjectId)
  | snapshotCreate
  | snapshotRollback (snapshotId : UInt64)
  | snapshotDiscard (snapshotId : UInt64)
  | collect
  | snapshotPrune (keep : Nat)

/-- What an operation returns. -/
inductive StoreResult where
  | batch (result : ObjectStoreBatchResult)
  | object (view : Option ObjectView)
  | snapshot (id : Option UInt64)
  | flag (ok : Bool)
deriving DecidableEq, Repr

/-- The program with its result wrapped. -/
def wrapResult {α : Type} (wrap : α → StoreResult) (p : StoreProg (α × ObjectStore)) :
    StoreProg (StoreResult × ObjectStore) := do
  let r ← p
  return (wrap r.1, r.2)

def StoreOp.prog (store : ObjectStore) : StoreOp → StoreProg (StoreResult × ObjectStore)
  | .putMany requests => wrapResult .batch (objectStorePutMany store requests)
  | .get id => wrapResult .object (objectStoreGet store id)
  | .delete id => wrapResult .flag (objectStoreDelete store id)
  | .snapshotCreate => wrapResult .snapshot (objectStoreSnapshotCreate store)
  | .snapshotRollback id => wrapResult .flag (objectStoreSnapshotRollback store id)
  | .snapshotDiscard id => wrapResult .flag (objectStoreSnapshotDiscard store id)
  | .collect => wrapResult .flag (objectStoreCollect store)
  | .snapshotPrune keep => wrapResult .flag (objectStoreSnapshotPrune store keep)

end Jani
