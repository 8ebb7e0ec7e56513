import Jani.Obj.ObjectHeader
import Jani.Obj.ObjectTable

/-!
# The sectors of the object store (`object_store.c`, `wal.h`, `wal_validate.zig`)

Sectors 0 and 1 hold the two superblocks and sector 2 the write-ahead log; table generations and
objects live from sector 3 on.  A superblock, a table entry and a log record each fill one
sector, and carry the checksum of the sector taken with the checksum field at zero.
-/

namespace Jani

def objectStoreSectorSize : Nat := 512

def objectStoreSnapshotLimit : Nat := 8

def objectStoreSuperblockMagic : UInt64 := 0x4A414E4953544F31

def objectStoreFormatVersion : UInt32 := 1

def objectStoreSuperblockA : UInt64 := 0

def objectStoreSuperblockB : UInt64 := 1

def objectStoreWalSector : UInt64 := 2

def objectStoreFirstAllocatableSector : UInt64 := 3

def objectStoreTableEntryMagic : UInt64 := 0x4A414E4954424C31

def objectWalMagic : UInt64 := 0x4A414E4957414C31

def objectWalFormatVersion : UInt32 := 1

abbrev Sector := Block objectStoreSectorSize

/-- The checksum of a sector with the four bytes at `off` taken as zero. -/
def sectorChecksum (off : Nat) (s : Sector) : UInt32 := objectCrc32c (writeAt s.bytes off (le32 0))

def sectorIsZero (s : Sector) : Bool := s.bytes.all (· = 0)

/-! ### Superblocks -/

/-- A retained generation: `struct object_store_snapshot`, and `struct disk_snapshot` on disk.
The slot is free when `id` is zero. -/
structure ObjectStoreSnapshot where
  id : UInt64
  tableSector : UInt64
  tableCount : UInt64
deriving DecidableEq, Repr, Inhabited

abbrev Snapshots := Fin objectStoreSnapshotLimit → ObjectStoreSnapshot

def ObjectStoreSnapshot.bytes (s : ObjectStoreSnapshot) : List UInt8 :=
  le64 s.id ++ (le64 s.tableSector ++ le64 s.tableCount)

def ObjectStoreSnapshot.ofBytes (l : List UInt8) : ObjectStoreSnapshot :=
  ⟨u64At l 0, u64At l 8, u64At l 16⟩

/-- The fields of `struct disk_superblock` that vary; `checksum` stands at offset 256. -/
structure DiskSuperblock where
  magic : UInt64
  formatVersion : UInt32
  sectorSize : UInt32
  sequence : UInt64
  tableCapacity : UInt64
  nextSector : UInt64
  currentTableSector : UInt64
  currentTableCount : UInt64
  currentGeneration : UInt64
  snapshots : Snapshots
  checksum : UInt32
  reserved : UInt32

namespace DiskSuperblock

def snapshotBytes (snapshots : Snapshots) : List UInt8 :=
  (List.ofFn snapshots).flatMap ObjectStoreSnapshot.bytes

def sector (sb : DiskSuperblock) : Sector :=
  Block.ofBytes objectStoreSectorSize <|
    (le64 sb.magic ++ (le32 sb.formatVersion ++ (le32 sb.sectorSize ++ (le64 sb.sequence ++
    (le64 sb.tableCapacity ++ (le64 sb.nextSector ++ (le64 sb.currentTableSector ++
    (le64 sb.currentTableCount ++ (le64 sb.currentGeneration ++
    snapshotBytes sb.snapshots))))))))) ++ (le32 sb.checksum ++ le32 sb.reserved)

def ofSector (s : Sector) : DiskSuperblock where
  magic := u64At s.bytes 0
  formatVersion := u32At s.bytes 8
  sectorSize := u32At s.bytes 12
  sequence := u64At s.bytes 16
  tableCapacity := u64At s.bytes 24
  nextSector := u64At s.bytes 32
  currentTableSector := u64At s.bytes 40
  currentTableCount := u64At s.bytes 48
  currentGeneration := u64At s.bytes 56
  snapshots i := ObjectStoreSnapshot.ofBytes (s.bytes.drop (64 + 24 * i.val))
  checksum := u32At s.bytes 256
  reserved := u32At s.bytes 260

end DiskSuperblock

/-- The subtractions are those of `uint64_t`. -/
def superblockIsValid (s : Sector) (sectorCount expectedCapacity : UInt64) : Bool :=
  let superblock := DiskSuperblock.ofSector s
  if superblock.magic ≠ objectStoreSuperblockMagic ∨
      superblock.formatVersion ≠ objectStoreFormatVersion ∨
      superblock.sectorSize ≠ 512 ∨
      superblock.tableCapacity ≠ expectedCapacity ∨
      superblock.reserved ≠ 0 ∨
      superblock.nextSector < objectStoreFirstAllocatableSector ∨
      superblock.nextSector > sectorCount then false
  else if (superblock.currentTableSector = 0 ∧ superblock.currentTableCount ≠ 0) ∨
      superblock.currentTableCount > expectedCapacity then false
  else if superblock.currentTableSector ≠ 0 ∧
      (superblock.currentTableSector < objectStoreFirstAllocatableSector ∨
        superblock.currentTableSector > superblock.nextSector ∨
        superblock.currentTableCount >
          superblock.nextSector - superblock.currentTableSector) then false
  else superblock.checksum = sectorChecksum 256 s

/-! ### Table entries -/

/-- The sector of a table entry with the given checksum, which stands at offset 48. -/
def tableEntrySectorWith (entry : ObjectTableEntry) (checksum : UInt32) : Sector :=
  Block.ofBytes objectStoreSectorSize <|
    (le64 objectStoreTableEntryMagic ++ (leId entry.id ++ (le64 entry.version ++
    (le64 entry.firstSector ++ le64 entry.sectorCount)))) ++ (le32 checksum ++ le32 0)

def tableEntrySector (entry : ObjectTableEntry) : Sector :=
  tableEntrySectorWith entry (sectorChecksum 48 (tableEntrySectorWith entry 0))

def tableEntryOfSector (s : Sector) : ObjectTableEntry where
  id := idAt s.bytes 8
  version := u64At s.bytes 24
  firstSector := u64At s.bytes 32
  sectorCount := u64At s.bytes 40

def tableEntryIsValid (s : Sector) : Bool :=
  let entry := tableEntryOfSector s
  if u64At s.bytes 0 ≠ objectStoreTableEntryMagic ∨ u32At s.bytes 52 ≠ 0 ∨
      objectIdIsZero entry.id ∨ entry.version = 0 ∨ entry.firstSector = 0 ∨
      entry.sectorCount = 0 then false
  else u32At s.bytes 48 = sectorChecksum 48 s

/-! ### The write-ahead log -/

structure ObjectWalRecord where
  tableSector : UInt64
  tableCount : UInt64
  generation : UInt64
deriving DecidableEq, Repr

namespace ObjectWalRecord

/-- The record with the given checksum, which stands at offset 40. -/
def sectorWith (r : ObjectWalRecord) (checksum : UInt32) : Sector :=
  Block.ofBytes objectStoreSectorSize <|
    (le64 objectWalMagic ++ (le32 objectWalFormatVersion ++ (le32 0 ++ (le64 r.tableSector ++
    (le64 r.tableCount ++ le64 r.generation))))) ++ (le32 checksum ++ le32 0)

def sector (r : ObjectWalRecord) : Sector :=
  r.sectorWith (objectCrc32c (r.sectorWith 0).bytes)

def ofSector (s : Sector) : ObjectWalRecord :=
  ⟨u64At s.bytes 16, u64At s.bytes 24, u64At s.bytes 32⟩

end ObjectWalRecord

def objectWalValidate (s : Sector) : Bool :=
  if u64At s.bytes 0 ≠ objectWalMagic then false
  else if u32At s.bytes 8 ≠ objectWalFormatVersion then false
  else if u32At s.bytes 12 ≠ 0 ∨ u32At s.bytes 44 ≠ 0 then false
  else
    let tableSector := u64At s.bytes 16
    let tableCount := u64At s.bytes 24
    if (tableCount = 0 ∧ tableSector ≠ 0) ∨ (tableCount ≠ 0 ∧ tableSector = 0) ∨
        u64At s.bytes 32 = 0 then false
    else sectorChecksum 40 s = u32At s.bytes 40

end Jani
