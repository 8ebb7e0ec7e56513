import Jani.Lib.BlockDevice
import Jani.Obj.Bitmap
import Jani.Obj.ObjectCache

/-!
# The object store (`object_store.c`)

The state of a mounted store and its operations, as programs over a block device.  Objects and
table generations are never written in place: a put or a delete writes the new objects and a new
table to free sectors, logs the new root in the write-ahead log, and then moves the superblock.
The two superblocks are written alternately; mounting takes the valid one with the larger
sequence number and then completes a logged root.

An operation returns its result and the new state.  `none` as the result of a mount stands for a
failed mount, after which the state is not used.
-/

namespace Jani

/-! ### State -/

/-- The device of a store.  Sectors are addressed by 64-bit words; the size of the bitmap is
computed in 64 bits, so the device stays a few sectors short of `2 ^ 64`. -/
structure ObjectStoreIo where
  sectorCount : UInt64
  sectorCount_fits : sectorCount.toNat + 7 < 2 ^ 64

/-- The arguments of `object_store_format` and `object_store_mount`: the device, the capacities
and the buffers, whose contents are arbitrary. -/
structure ObjectStoreSetup where
  io : ObjectStoreIo
  tableCapacity : UInt64
  cacheCapacity : UInt64
  bitmapBuffer : List UInt8
  arenaBuffer : List UInt8

structure ObjectStore where
  io : ObjectStoreIo
  table : ObjectTable
  tableCapacity : UInt64
  cacheCapacity : UInt64
  cache : ObjectCache
  bitmap : List UInt8
  nextSector : UInt64
  currentTableSector : UInt64
  currentGeneration : UInt64
  superblockSequence : UInt64
  activeSuperblockSector : UInt64
  recoveryRequired : Bool
  snapshots : Snapshots

abbrev StoreProg := Prog Sector

def setupStore (setup : ObjectStoreSetup) : Option ObjectStore :=
  if setup.tableCapacity = 0 ∨ setup.cacheCapacity.toNat < objectHeaderSize ∨
      setup.bitmapBuffer.length < (bitmapBytesFor setup.io.sectorCount).toNat ∨
      setup.io.sectorCount < objectStoreFirstAllocatableSector then none
  else some {
    io := setup.io
    table := objectTableInit setup.tableCapacity
    tableCapacity := setup.tableCapacity
    cacheCapacity := setup.cacheCapacity
    cache := ⟨setup.arenaBuffer, 0, [], 0⟩
    bitmap := setup.bitmapBuffer
    nextSector := 0
    currentTableSector := 0
    currentGeneration := 0
    superblockSequence := 0
    activeSuperblockSector := 0
    recoveryRequired := false
    snapshots := fun _ => ⟨0, 0, 0⟩ }

/-- The bitmap with every bit clear but those of the reserved sectors 0 to 2. -/
def emptyBitmap (io : ObjectStoreIo) (bitmap : List UInt8) : List UInt8 :=
  let needed := (bitmapBytesFor io.sectorCount).toNat
  bitmapSetRange io.sectorCount (writeAt bitmap 0 (List.replicate needed 0)) 0
    objectStoreFirstAllocatableSector

/-! ### Writing -/

/-- The superblock with the given checksum. -/
def superblockWith (store : ObjectStore) (sequence : UInt64) (checksum : UInt32) :
    DiskSuperblock where
  magic := objectStoreSuperblockMagic
  formatVersion := objectStoreFormatVersion
  sectorSize := 512
  sequence := sequence
  tableCapacity := store.tableCapacity
  nextSector := store.nextSector
  currentTableSector := store.currentTableSector
  currentTableCount := UInt64.ofNat store.table.count
  currentGeneration := store.currentGeneration
  snapshots := store.snapshots
  checksum := checksum
  reserved := 0

/-- The superblock with its checksum filled in. -/
def superblockFor (store : ObjectStore) (sequence : UInt64) : DiskSuperblock :=
  superblockWith store sequence (sectorChecksum 256 (superblockWith store sequence 0).sector)

def superblockFromStore (store : ObjectStore) (sequence : UInt64) : Sector :=
  (superblockFor store sequence).sector

/-- The superblock sector that is not `sector`. -/
def otherSuperblock (sector : UInt64) : UInt64 :=
  if sector = objectStoreSuperblockA then objectStoreSuperblockB else objectStoreSuperblockA

def writeSuperblock (store : ObjectStore) : StoreProg (Bool × ObjectStore) := do
  let nextSequence := store.superblockSequence + 1
  let targetSector := otherSuperblock store.activeSuperblockSector
  if !(← writeAll [(targetSector.toNat, superblockFromStore store nextSequence)]) then
    return (false, store)
  return (true, { store with
    superblockSequence := nextSequence
    activeSuperblockSector := targetSector })

/-- The writes of consecutive sectors, from `sector` on. -/
def sectorWrites : UInt64 → List Sector → List (Nat × Sector)
  | _, [] => []
  | sector, b :: bs => (sector.toNat, b) :: sectorWrites (sector + 1) bs

def writeTableGeneration (store : ObjectStore) (table : ObjectTable) (firstSector : UInt64) :
    StoreProg Bool :=
  if table.count = 0 ∨ table.count > table.capacity.toNat ∨
      firstSector < objectStoreFirstAllocatableSector ∨
      table.count > (store.io.sectorCount - firstSector).toNat then pure false
  else writeAll (sectorWrites firstSector (table.entries.map tableEntrySector))

/-- A byte string cut into sectors, the last one padded with zeros. -/
def objectSectors (bytes : List UInt8) : List Sector :=
  (List.range ((bytes.length + 511) / 512)).map fun i =>
    Block.ofBytes objectStoreSectorSize (bytes.drop (512 * i))

def writeObjectBytes (firstSector : UInt64) (bytes : List UInt8) : StoreProg Bool :=
  if bytes.length = 0 then pure false
  else writeAll (sectorWrites firstSector (objectSectors bytes))

def writeWalRoot (record : ObjectWalRecord) : StoreProg Bool :=
  if !objectWalValidate record.sector then pure false
  else writeAll [(objectStoreWalSector.toNat, record.sector)]

def clearWal : StoreProg Bool :=
  writeAll [(objectStoreWalSector.toNat, Block.zero objectStoreSectorSize)]

/-- The last part of a put, a delete and a rollback: log the new root, take it over, move the
superblock, clear the log.  On a failure the store requires recovery. -/
def publishTable (store : ObjectStore) (table : ObjectTable) (tableSector : UInt64) :
    StoreProg (Bool × ObjectStore) := do
  let generation := store.currentGeneration + 1
  if !(← writeWalRoot ⟨tableSector, UInt64.ofNat table.count, generation⟩) then
    return (false, { store with recoveryRequired := true })
  let store := { store with
    table := table
    currentTableSector := tableSector
    currentGeneration := generation }
  let (written, store) ← writeSuperblock store
  if !written then
    return (false, { store with recoveryRequired := true })
  if !(← clearWal) then
    return (false, { store with recoveryRequired := true })
  return (true, store)

/-! ### Reading -/

/-- `io.read_sector`; the device has no sectors beyond its end. -/
def ioReadSector (io : ObjectStoreIo) (sector : UInt64) : StoreProg (Option Sector) :=
  if sector ≥ io.sectorCount then pure none else readSector sector.toNat

/-- The loop of `read_table_generation`; `previous` is the identifier of the entry before. -/
def readTableEntries (io : ObjectStoreIo) : Nat → UInt64 → Option ObjectId →
    StoreProg (Option (List ObjectTableEntry))
  | 0, _, _ => pure (some [])
  | count + 1, sector, previous => do
    match ← ioReadSector io sector with
    | none => return none
    | some record =>
      let entry := tableEntryOfSector record
      if !tableEntryIsValid record ∨ previous.any (fun id => objectIdCompare id entry.id ≠ .lt) then
        return none
      match ← readTableEntries io count (sector + 1) (some entry.id) with
      | none => return none
      | some entries => return some (entry :: entries)

def readTableGeneration (store : ObjectStore) (firstSector count : UInt64) :
    StoreProg (Option ObjectTable) := do
  if count > store.tableCapacity ∨
      (count ≠ 0 ∧ (firstSector < objectStoreFirstAllocatableSector ∨
        count > store.io.sectorCount - firstSector)) then
    return none
  match ← readTableEntries store.io count.toNat firstSector none with
  | none => return none
  | some entries => return some ⟨entries, store.tableCapacity⟩

/-- `none` is the result `0`; the flag tells whether a logged root was completed. -/
def recoverWal (store : ObjectStore) : StoreProg (Option (Bool × ObjectStore)) := do
  match ← ioReadSector store.io objectStoreWalSector with
  | none => return none
  | some sector =>
    if sectorIsZero sector then
      return some (false, store)
    let record := ObjectWalRecord.ofSector sector
    if !objectWalValidate sector ∨ record.tableCount > store.tableCapacity ∨
        (record.tableCount = 0 ∧ record.tableSector ≠ 0) ∨
        (record.tableCount ≠ 0 ∧
          (record.tableSector < objectStoreFirstAllocatableSector ∨
            record.tableSector > store.nextSector ∨
            record.tableCount > store.nextSector - record.tableSector)) then
      return none
    match ← readTableGeneration store record.tableSector record.tableCount with
    | none => return none
    | some table =>
      let store := { store with
        table := table
        currentTableSector := record.tableSector
        currentGeneration := record.generation }
      let (written, store) ← writeSuperblock store
      if !written then
        return none
      if !(← clearWal) then
        return none
      return some (true, store)

/-- The bitmap after `mark_generation`, with the flag it returns. -/
def markGeneration (store : ObjectStore) (tableSector tableCount : UInt64) :
    StoreProg (Bool × List UInt8) := do
  if tableCount = 0 then
    return (true, store.bitmap)
  match ← readTableGeneration store tableSector tableCount with
  | none => return (false, store.bitmap)
  | some generation =>
    let bitmap := bitmapSetRange store.io.sectorCount store.bitmap tableSector tableCount
    return (true, generation.entries.foldl
      (fun bitmap entry =>
        bitmapSetRange store.io.sectorCount bitmap entry.firstSector entry.sectorCount) bitmap)

/-- The loop of `rebuild_bitmap` over the snapshot slots. -/
def markSnapshots (store : ObjectStore) : List ObjectStoreSnapshot → StoreProg (Bool × ObjectStore)
  | [] => pure (true, store)
  | snapshot :: snapshots => do
    if snapshot.id = 0 then
      markSnapshots store snapshots
    else
      let (marked, bitmap) ← markGeneration store snapshot.tableSector snapshot.tableCount
      if !marked then
        return (false, { store with bitmap := bitmap })
      markSnapshots { store with bitmap := bitmap } snapshots

def rebuildBitmap (store : ObjectStore) : StoreProg (Bool × ObjectStore) := do
  if (bitmapBytesFor store.io.sectorCount).toNat > store.bitmap.length then
    return (false, store)
  let store := { store with bitmap := emptyBitmap store.io store.bitmap }
  let (marked, bitmap) ← markGeneration store store.currentTableSector
    (UInt64.ofNat store.table.count)
  if !marked then
    return (false, { store with bitmap := bitmap })
  markSnapshots { store with bitmap := bitmap } (List.ofFn store.snapshots)

end Jani
