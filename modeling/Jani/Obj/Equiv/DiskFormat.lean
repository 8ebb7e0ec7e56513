import Jani.Obj.DiskFormat

/-!
# Reading back what was written to a sector

Superblocks, table entries, log records and object headers read back as they were written, and
the sectors the store builds pass the checks of their readers.
-/

namespace Jani

/-! ### Fields -/

section Fields

variable (r : List UInt8) (k : Nat)

@[simp]
theorem u64At_le64_append_add (x : UInt64) : u64At (le64 x ++ r) (k + 8) = u64At r k := by
  rw [Nat.add_comm, u64At_append_right (length_le64 x)]

@[simp]
theorem u64At_le32_append_add (x : UInt32) : u64At (le32 x ++ r) (k + 4) = u64At r k := by
  rw [Nat.add_comm, u64At_append_right (length_le32 x)]

@[simp]
theorem u32At_le64_append_add (x : UInt64) : u32At (le64 x ++ r) (k + 8) = u32At r k := by
  rw [Nat.add_comm, u32At_append_right (length_le64 x)]

@[simp]
theorem u32At_le32_append_add (x : UInt32) : u32At (le32 x ++ r) (k + 4) = u32At r k := by
  rw [Nat.add_comm, u32At_append_right (length_le32 x)]

@[simp] theorem length_leId (id : ObjectId) : (leId id).length = 16 := by simp [leId]

@[simp]
theorem u64At_leId_append_add (id : ObjectId) : u64At (leId id ++ r) (k + 16) = u64At r k := by
  rw [Nat.add_comm, u64At_append_right (length_leId id)]

@[simp]
theorem u32At_leId_append_add (id : ObjectId) : u32At (leId id ++ r) (k + 16) = u32At r k := by
  rw [Nat.add_comm, u32At_append_right (length_leId id)]

@[simp]
theorem idAt_le64_append_add (x : UInt64) : idAt (le64 x ++ r) (k + 8) = idAt r k := by
  rw [idAt, idAt, u64At_le64_append_add, Nat.add_right_comm, u64At_le64_append_add]

@[simp]
theorem idAt_le32_append_add (x : UInt32) : idAt (le32 x ++ r) (k + 4) = idAt r k := by
  rw [idAt, idAt, u64At_le32_append_add, Nat.add_right_comm, u64At_le32_append_add]

@[simp]
theorem idAt_leId_append_add (id : ObjectId) : idAt (leId id ++ r) (k + 16) = idAt r k := by
  rw [idAt, idAt, u64At_leId_append_add, Nat.add_right_comm, u64At_leId_append_add]

@[simp]
theorem idAt_leId_append (id : ObjectId) : idAt (leId id ++ r) 0 = id := by
  rw [idAt, leId, List.append_assoc, u64At_le64_append, u64At_le64_append_add, u64At_le64_append]

end Fields

/-! ### Object headers -/

@[simp]
theorem ObjectHeader.length_bytes (h : ObjectHeader) : h.bytes.length = objectHeaderSize := by
  simp [ObjectHeader.bytes, objectHeaderSize]

theorem ObjectHeader.ofBytes_bytes_append (h : ObjectHeader) (r : List UInt8) :
    ObjectHeader.ofBytes (h.bytes ++ r) = h := by
  simp [ObjectHeader.ofBytes, ObjectHeader.bytes]

/-! ### Checksums -/

theorem sectorChecksum_ofBytes {off : Nat} {a b : List UInt8} (c c' : UInt32)
    (ha : a.length = off) (hb : a.length + 4 + b.length ≤ objectStoreSectorSize) :
    sectorChecksum off (Block.ofBytes objectStoreSectorSize (a ++ (le32 c ++ b))) =
      sectorChecksum off (Block.ofBytes objectStoreSectorSize (a ++ (le32 c' ++ b))) := by
  have key : ∀ x : UInt32,
      writeAt (Block.ofBytes objectStoreSectorSize (a ++ (le32 x ++ b))).bytes off (le32 0) =
        a ++ (le32 0 ++ (b ++ List.replicate (objectStoreSectorSize - (a.length + (4 + b.length)))
          0)) := by
    intro x
    have hlen : (a ++ (le32 x ++ b)).length ≤ objectStoreSectorSize := by simp; omega
    rw [Block.bytes_ofBytes hlen, writeAt, length_le32]
    simp only [List.length_append, length_le32, List.append_assoc]
    rw [List.take_left' ha, ← List.drop_drop, List.drop_left' ha,
      List.drop_left' (length_le32 x)]
  rw [sectorChecksum, sectorChecksum, key, key]

theorem bytes_ofBytes_sector {l : List UInt8} (h : l.length ≤ objectStoreSectorSize) :
    ∃ r, (Block.ofBytes objectStoreSectorSize l).bytes = l ++ r :=
  ⟨_, Block.bytes_ofBytes h⟩

/-! ### Table entries -/

theorem tableEntrySectorWith_bytes (entry : ObjectTableEntry) (checksum : UInt32) :
    ∃ r, (tableEntrySectorWith entry checksum).bytes = le64 objectStoreTableEntryMagic ++
      (leId entry.id ++ (le64 entry.version ++ (le64 entry.firstSector ++
      (le64 entry.sectorCount ++ (le32 checksum ++ (le32 0 ++ r)))))) := by
  obtain ⟨r, hr⟩ := bytes_ofBytes_sector (l := (le64 objectStoreTableEntryMagic ++
    (leId entry.id ++ (le64 entry.version ++
      (le64 entry.firstSector ++ le64 entry.sectorCount)))) ++
    (le32 checksum ++ le32 0)) (by simp [objectStoreSectorSize])
  refine ⟨r, ?_⟩
  rw [tableEntrySectorWith, hr]
  simp only [List.append_assoc]

theorem tableEntryOfSector_tableEntrySector (entry : ObjectTableEntry) :
    tableEntryOfSector (tableEntrySector entry) = entry := by
  obtain ⟨r, hr⟩ := tableEntrySectorWith_bytes entry
    (sectorChecksum 48 (tableEntrySectorWith entry 0))
  rw [tableEntryOfSector, tableEntrySector, hr]
  simp

/-- The fields a reader insists on. -/
def ObjectTableEntry.Valid (entry : ObjectTableEntry) : Prop :=
  entry.id ≠ ⟨0, 0⟩ ∧ entry.version ≠ 0 ∧ entry.firstSector ≠ 0 ∧ entry.sectorCount ≠ 0

theorem tableEntryIsValid_tableEntrySector {entry : ObjectTableEntry} (h : entry.Valid) :
    tableEntryIsValid (tableEntrySector entry) = true := by
  obtain ⟨hid, hversion, hfirst, hcount⟩ := h
  have hsum : sectorChecksum 48 (tableEntrySector entry) =
      sectorChecksum 48 (tableEntrySectorWith entry 0) :=
    sectorChecksum_ofBytes _ 0 (by simp) (by simp [objectStoreSectorSize])
  obtain ⟨r, hr⟩ := tableEntrySectorWith_bytes entry
    (sectorChecksum 48 (tableEntrySectorWith entry 0))
  have hbytes : (tableEntrySector entry).bytes = _ := hr
  unfold tableEntryIsValid
  rw [tableEntryOfSector_tableEntrySector, hsum, hbytes]
  simp [hid, hversion, hfirst, hcount]

/-! ### The log record -/

namespace ObjectWalRecord

theorem sectorWith_bytes (record : ObjectWalRecord) (checksum : UInt32) :
    ∃ r, (record.sectorWith checksum).bytes = le64 objectWalMagic ++
      (le32 objectWalFormatVersion ++ (le32 0 ++ (le64 record.tableSector ++
      (le64 record.tableCount ++ (le64 record.generation ++
        (le32 checksum ++ (le32 0 ++ r))))))) := by
  obtain ⟨r, hr⟩ := bytes_ofBytes_sector (l := (le64 objectWalMagic ++
    (le32 objectWalFormatVersion ++ (le32 0 ++ (le64 record.tableSector ++
    (le64 record.tableCount ++ le64 record.generation))))) ++ (le32 checksum ++ le32 0))
    (by simp [objectStoreSectorSize])
  refine ⟨r, ?_⟩
  rw [sectorWith, hr]
  simp only [List.append_assoc]

theorem sector_bytes (record : ObjectWalRecord) : ∃ r, record.sector.bytes = le64 objectWalMagic ++
      (le32 objectWalFormatVersion ++ (le32 0 ++ (le64 record.tableSector ++
      (le64 record.tableCount ++ (le64 record.generation ++
      (le32 (objectCrc32c (record.sectorWith 0).bytes) ++ (le32 0 ++ r))))))) :=
  sectorWith_bytes record _

theorem ofSector_sector (record : ObjectWalRecord) : ofSector record.sector = record := by
  obtain ⟨r, hr⟩ := sector_bytes record
  rw [ofSector, hr]
  simp

theorem sectorIsZero_sector (record : ObjectWalRecord) : sectorIsZero record.sector = false := by
  obtain ⟨r, hr⟩ := sector_bytes record
  have hmagic : ∃ b ∈ le64 objectWalMagic, b ≠ 0 := by decide
  obtain ⟨b, hb, hne⟩ := hmagic
  rw [sectorIsZero, hr, List.all_append, List.all_eq_false.mpr ⟨b, hb, by simpa using hne⟩,
    Bool.false_and]

/-- The roots a reader of the log accepts. -/
def Valid (record : ObjectWalRecord) : Prop :=
  (record.tableCount = 0 ↔ record.tableSector = 0) ∧ record.generation ≠ 0

theorem sectorChecksum_sector (record : ObjectWalRecord) :
    sectorChecksum 40 record.sector = objectCrc32c (record.sectorWith 0).bytes := by
  have hsum : sectorChecksum 40 record.sector = sectorChecksum 40 (record.sectorWith 0) :=
    sectorChecksum_ofBytes _ 0 (by simp) (by simp [objectStoreSectorSize])
  -- writing zero over a zero checksum changes nothing
  obtain ⟨r, hr⟩ := sectorWith_bytes record 0
  have hsplit : (record.sectorWith 0).bytes = (le64 objectWalMagic ++
      (le32 objectWalFormatVersion ++ (le32 0 ++ (le64 record.tableSector ++
      (le64 record.tableCount ++ le64 record.generation))))) ++ (le32 0 ++ (le32 0 ++ r)) := by
    rw [hr]
    simp only [List.append_assoc]
  rw [hsum, sectorChecksum, hsplit, writeAt, List.take_left' (by simp), length_le32,
    ← List.drop_drop, List.drop_left' (by simp), List.drop_left' (length_le32 0),
    List.append_assoc]

theorem objectWalValidate_sector {record : ObjectWalRecord} (h : record.Valid) :
    objectWalValidate record.sector = true := by
  obtain ⟨hroot, hgeneration⟩ := h
  unfold objectWalValidate
  rw [sectorChecksum_sector]
  obtain ⟨r, hr⟩ := sector_bytes record
  rw [hr]
  by_cases hs : record.tableSector = 0
  · simp [hs, hroot.mpr hs, hgeneration]
  · simp [hs, mt hroot.mp hs, hgeneration]

end ObjectWalRecord

theorem sectorIsZero_zero : sectorIsZero (Block.zero objectStoreSectorSize) = true := by
  simp [sectorIsZero, Block.zero]

/-! ### Superblocks -/

namespace DiskSuperblock

@[simp]
theorem length_snapshot_bytes (s : ObjectStoreSnapshot) : s.bytes.length = 24 := by
  simp [ObjectStoreSnapshot.bytes]

@[simp]
theorem length_snapshotBytes (snapshots : Snapshots) : (snapshotBytes snapshots).length = 192 := by
  rw [snapshotBytes, length_flatMap_const _ length_snapshot_bytes, List.length_ofFn]
  rfl

theorem ofBytes_bytes_append (s : ObjectStoreSnapshot) (r : List UInt8) :
    ObjectStoreSnapshot.ofBytes (s.bytes ++ r) = s := by
  simp [ObjectStoreSnapshot.ofBytes, ObjectStoreSnapshot.bytes]

theorem sector_bytes (sb : DiskSuperblock) :
    ∃ r, sb.sector.bytes = le64 sb.magic ++ (le32 sb.formatVersion ++ (le32 sb.sectorSize ++
      (le64 sb.sequence ++ (le64 sb.tableCapacity ++ (le64 sb.nextSector ++
      (le64 sb.currentTableSector ++ (le64 sb.currentTableCount ++ (le64 sb.currentGeneration ++
      (snapshotBytes sb.snapshots ++ (le32 sb.checksum ++ (le32 sb.reserved ++ r))))))))))) := by
  obtain ⟨r, hr⟩ := bytes_ofBytes_sector (l := (le64 sb.magic ++ (le32 sb.formatVersion ++
    (le32 sb.sectorSize ++ (le64 sb.sequence ++ (le64 sb.tableCapacity ++ (le64 sb.nextSector ++
    (le64 sb.currentTableSector ++ (le64 sb.currentTableCount ++ (le64 sb.currentGeneration ++
    snapshotBytes sb.snapshots))))))))) ++ (le32 sb.checksum ++ le32 sb.reserved))
    (by simp [objectStoreSectorSize])
  refine ⟨r, ?_⟩
  rw [sector, hr]
  simp only [List.append_assoc]

theorem ofSector_sector (sb : DiskSuperblock) : ofSector sb.sector = sb := by
  obtain ⟨r, hr⟩ := sector_bytes sb
  -- the checksum and the reserved word stand behind the array of snapshots
  have hskip : ∀ k, u32At (snapshotBytes sb.snapshots ++ (le32 sb.checksum ++
      (le32 sb.reserved ++ r))) (k + 192) =
        u32At (le32 sb.checksum ++ (le32 sb.reserved ++ r)) k := by
    intro k
    rw [Nat.add_comm, u32At_append_right (length_snapshotBytes _)]
  have hsnap : ∀ i : Fin objectStoreSnapshotLimit,
      ObjectStoreSnapshot.ofBytes (sb.sector.bytes.drop (64 + 24 * i.val)) = sb.snapshots i := by
    intro i
    have hi : i.val < (List.ofFn sb.snapshots).length := by simp
    obtain ⟨r', hr'⟩ := drop_flatMap ObjectStoreSnapshot.bytes length_snapshot_bytes
      (le32 sb.checksum ++ (le32 sb.reserved ++ r)) (List.ofFn sb.snapshots) i.val hi
    have hhead : sb.sector.bytes = (le64 sb.magic ++ (le32 sb.formatVersion ++
        (le32 sb.sectorSize ++ (le64 sb.sequence ++ (le64 sb.tableCapacity ++
        (le64 sb.nextSector ++ (le64 sb.currentTableSector ++ (le64 sb.currentTableCount ++
        le64 sb.currentGeneration)))))))) ++
        (snapshotBytes sb.snapshots ++ (le32 sb.checksum ++ (le32 sb.reserved ++ r))) := by
      rw [hr]
      simp only [List.append_assoc]
    rw [hhead, ← List.drop_drop, List.drop_left' (by simp), snapshotBytes, hr',
      ofBytes_bytes_append]
    simp
  have hsnaps : (ofSector sb.sector).snapshots = sb.snapshots := funext hsnap
  obtain ⟨magic, formatVersion, sectorSize, sequence, tableCapacity, nextSector,
    currentTableSector, currentTableCount, currentGeneration, snapshots, checksum, reserved⟩ := sb
  simp only [ofSector, mk.injEq] at hsnaps ⊢
  refine ⟨?_, ?_, ?_, ?_, ?_, ?_, ?_, ?_, ?_, hsnaps, ?_, ?_⟩ <;> rw [hr] <;> simp [hskip]

theorem sectorChecksum_sector (sb : DiskSuperblock) (c : UInt32) :
    sectorChecksum 256 sb.sector = sectorChecksum 256 { sb with checksum := c }.sector := by
  unfold sector
  exact sectorChecksum_ofBytes _ _ (by simp) (by simp [objectStoreSectorSize])

end DiskSuperblock

end Jani
