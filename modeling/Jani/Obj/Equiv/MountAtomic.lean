import Jani.Obj.Equiv.SnapshotAtomic

/-!
# Mounting is atomic

A mount of a `Mountable` disk succeeds and loads the root it leads to, with a fresh cache.  It
writes only when the log holds a root: then it writes the superblock with that root and clears the
log.  Every disk on the way leads to the same root, so that a mount that is interrupted can be
repeated (`wp_mount_clean`).

Formatting a device gives a mounted store with nothing in it (`wp_format_clean`).
-/

namespace Jani

variable {setup : ObjectStoreSetup}

section Mount

variable {P : Content → Prop} {D : Content} {store : ObjectStore}

theorem wp_rebuildBitmap_root {I : Event Sector → Disk Sector → Prop} {next : Nat}
    (hbuf : (bitmapBytesFor store.io.sectorCount).toNat ≤ store.bitmap.length)
    (hroot : RootOn store.io store.tableCapacity D next store.root)
    (hcur : tableOn store.io D store.tableCapacity store.currentTableSector
      (UInt64.ofNat store.table.count) = some store.table.entries) :
    wp Faults.none I (rebuildBitmap store) (fun r d' => d' = Disk.clean D ∧ r.1 = true ∧
      Coverage True r.2 D ∧ ∃ bitmap, r.2 = { store with bitmap := bitmap }) (Disk.clean D) := by
  apply wp_rebuildBitmap store.table.entries hbuf
  · intro bitmap hlen _ hdisk hmarks
    refine ⟨rfl, rfl, ?_, bitmap, rfl⟩
    apply coverage_of_rebuild hbuf hlen hcur hdisk hmarks
    exact fun _ t ht => (hroot.bounds ((rootRefers_iff hcur t).mpr ht)).1
  · rintro bitmap (hr | hne | ⟨i, hi, hnone⟩)
    · exact hr.elim
    · exact absurd hcur hne
    · obtain ⟨-, entries, hon⟩ := hroot.snapshots i hi
      have : tableOn store.io D store.tableCapacity (store.snapshots i).tableSector
        (store.snapshots i).tableCount = some entries := hon.onDisk
      rw [snapshotEntries, Disk.view_clean, this] at hnone
      cases hnone
  · intro es hes
    exact (Option.some.inj (hcur.symm.trans hes)).symm

/-- The store that a mount starts from: the superblock in use, and no table yet. -/
def mountStore (setup : ObjectStoreSetup) (active : UInt64) (sb : DiskSuperblock) : ObjectStore :=
  { freshStore setup with
    activeSuperblockSector := active
    superblockSequence := sb.sequence
    nextSector := sb.nextSector
    currentTableSector := sb.currentTableSector
    currentGeneration := sb.currentGeneration
    snapshots := sb.snapshots }

/-- What a mount does once the log is recovered. -/
def mountRecovered (sb : DiskSuperblock) : Option (Bool × ObjectStore) →
    StoreProg (Option ObjectStore)
  | none => return none
  | some (true, store) => do
    let (rebuilt, store) ← rebuildBitmap store
    return if rebuilt then some store else none
  | some (false, store) => do
    match ← readTableGeneration store sb.currentTableSector sb.currentTableCount with
    | none => return none
    | some table =>
      let (rebuilt, store) ← rebuildBitmap { store with table := table }
      return if rebuilt then some store else none

/-- A store as a mount hands it out. -/
structure Loaded (setup : ObjectStoreSetup) (store : ObjectStore) : Prop where
  io_eq : store.io = setup.io
  tableCapacity_eq : store.tableCapacity = setup.tableCapacity
  cacheCapacity_eq : store.cacheCapacity = setup.cacheCapacity
  cache_eq : store.cache = ⟨setup.arenaBuffer, 0, [], 0⟩

/-- The store with the table of a root. -/
def ObjectStore.loadRoot (store : ObjectStore) (root : Root) (entries : List ObjectTableEntry) :
    ObjectStore :=
  { store with
    table := ⟨entries, store.tableCapacity⟩
    currentTableSector := root.tableSector
    currentGeneration := root.generation }

variable {root : Root}

theorem root_loadRoot (store : ObjectStore) {entries : List ObjectTableEntry} {io : ObjectStoreIo}
    {capacity : UInt64} {next : Nat}
    (hon : GenerationOn io capacity D next root.tableSector root.tableCount entries)
    (hsnap : root.snapshots = store.snapshots) : (store.loadRoot root entries).root = root := by
  have hcount : UInt64.ofNat (⟨entries, store.tableCapacity⟩ : ObjectTable).count =
      root.tableCount := by
    rw [ObjectTable.count, (tableOn_shape hon.onDisk).1, UInt64.ofNat_toNat]
  obtain ⟨tableSector, tableCount, generation, snapshots⟩ := root
  change (⟨tableSector, UInt64.ofNat (⟨entries, store.tableCapacity⟩ : ObjectTable).count,
    generation, store.snapshots⟩ : Root) = _
  rw [hcount, ← hsnap]

variable {Q : Option ObjectStore → Disk Sector → Prop}

/-- The last step of a mount: with the table of a root loaded, the bitmap is built anew. -/
theorem wp_mountRebuild_clean (store : ObjectStore)
    (hbuf : (bitmapBytesFor store.io.sectorCount).toNat ≤ store.bitmap.length)
    (hready : store.recoveryRequired = false) (hcap : store.table.capacity = store.tableCapacity)
    (hsb : ∃ sb, SuperblockIs store D sb ∧ sb.root = store.root ∧ sb.nextSector = store.nextSector)
    (hlog : D 2 = Block.zero objectStoreSectorSize) (hload : store.root = root)
    (hroot : RootOn store.io store.tableCapacity D store.nextSector.toNat root)
    (hon : GenerationOn store.io store.tableCapacity D store.nextSector.toNat root.tableSector
      root.tableCount store.table.entries)
    (hgen : root.generation.toNat + 2 ≤ store.superblockSequence.toNat)
    (hQ : ∀ bitmap, Mounted { store with bitmap := bitmap } D →
      Q (some { store with bitmap := bitmap }) (Disk.clean D)) : wp Faults.none (crashInv P)
      (rebuildBitmap store >>= fun x => pure (if x.1 = true then some x.2 else none)) Q
      (Disk.clean D) := by
  subst hload
  rw [wp_bind]
  apply wp_mono (wp_rebuildBitmap_root hbuf hroot hon.onDisk)
  rintro ⟨ok, store'⟩ d' ⟨rfl, rfl, hcov, bitmap, rfl⟩
  rw [wp_pure]
  exact hQ bitmap ⟨hready, hcap, hsb, hlog, hroot, hcov, hgen⟩

/-- With an empty log there is nothing to recover. -/
theorem wp_recoverWal_empty {Q : Option (Bool × ObjectStore) → Disk Sector → Prop}
    (hsectors : 2 < store.io.sectorCount.toNat) (hlog : D 2 = Block.zero objectStoreSectorSize)
    (hQ : Q (some (false, store)) (Disk.clean D)) :
    wp Faults.none (crashInv P) (recoverWal store) Q (Disk.clean D) := by
  have hsector : sectorOn store.io (Disk.clean D).view objectStoreWalSector =
      some (Block.zero objectStoreSectorSize) := by
    rw [← hlog]
    exact sectorOn_of_lt (UInt64.lt_iff_toNat_lt.mpr hsectors)
  rw [recoverWal, wp_bind]
  refine wp_ioReadSector ?_ False.elim
  rw [hsector]
  dsimp only
  rw [sectorIsZero_zero, if_pos rfl, wp_pure]
  exact hQ

/-- A root in the log is loaded, written to the superblock and taken off the log. -/
theorem wp_recoverWal_pending {sb : DiskSuperblock} {entries : List ObjectTableEntry}
    {Q : Option (Bool × ObjectStore) → Disk Sector → Prop} (hsb : SuperblockIs store D sb)
    (hnext : sb.nextSector = store.nextSector) (hlog : D 2 = root.wal.sector)
    (hsnap : root.snapshots = sb.snapshots) (hsnap' : root.snapshots = store.snapshots)
    (hgen0 : root.generation ≠ 0)
    (hgen : root.generation.toNat + 1 ≤ store.superblockSequence.toNat)
    (hseq : store.superblockSequence.toNat + 1 < 2 ^ 64)
    (hroot : RootOn store.io store.tableCapacity D store.nextSector.toNat root)
    (hon : GenerationOn store.io store.tableCapacity D store.nextSector.toNat root.tableSector
      root.tableCount entries)
    (hP : ∀ D' : Content, (∀ s, 3 ≤ s → D' s = D s) → ∀ j ≤ store.superblockSequence.toNat + 1,
      Mountable store.io store.tableCapacity D' root j → P D')
    (hQ : ∀ D' : Content, (∀ s, 3 ≤ s → D' s = D s) →
      D' 2 = Block.zero objectStoreSectorSize →
      SuperblockIs (store.loadRoot root entries).advance D'
        (superblockFor (store.loadRoot root entries) (store.superblockSequence + 1)) →
      Q (some (true, (store.loadRoot root entries).advance)) (Disk.clean D')) :
    wp Faults.none (crashInv P) (recoverWal store) Q (Disk.clean D) := by
  have hle := hroot.next_le
  have hge := hroot.next_ge
  have hload := root_loadRoot store hon hsnap'
  obtain ⟨hlen, hcap, h3, -⟩ := tableOn_shape hon.onDisk
  have hsector : sectorOn store.io (Disk.clean D).view objectStoreWalSector =
      some root.wal.sector := by
    rw [sectorOn_of_lt (UInt64.lt_iff_toNat_lt.mpr (by change 2 < _; omega)), ← hlog]
    rfl
  have hguard : ¬ ((!objectWalValidate root.wal.sector) = true ∨
      root.wal.tableCount > store.tableCapacity ∨
      (root.wal.tableCount = 0 ∧ root.wal.tableSector ≠ 0) ∨
      (root.wal.tableCount ≠ 0 ∧
        (root.wal.tableSector < objectStoreFirstAllocatableSector ∨
          root.wal.tableSector > store.nextSector ∨
          root.wal.tableCount > store.nextSector - root.wal.tableSector))) := by
    rw [ObjectWalRecord.objectWalValidate_sector (Root.wal_valid hroot hgen0)]
    rintro (hbad | hbig | ⟨hzero, hne⟩ | ⟨hne, hbad⟩)
    · cases hbad
    · have : store.tableCapacity.toNat < root.tableCount.toNat := UInt64.lt_iff_toNat_lt.mp hbig
      omega
    · exact hne (hon.zero hzero)
    · have hend := hon.tableEnd hne
      have h3' := h3 hne
      have hle' : root.tableSector ≤ store.nextSector := UInt64.le_iff_toNat_le.mpr (by omega)
      rw [gt_iff_lt, gt_iff_lt, UInt64.lt_iff_toNat_lt, UInt64.lt_iff_toNat_lt,
        UInt64.lt_iff_toNat_lt] at hbad
      change root.tableSector.toNat < 3 ∨ store.nextSector.toNat < root.tableSector.toNat ∨
        (store.nextSector - root.tableSector).toNat < root.tableCount.toNat at hbad
      rw [UInt64.toNat_sub_of_le _ _ hle'] at hbad
      omega
  unfold recoverWal
  rw [wp_bind]
  refine wp_ioReadSector ?_ False.elim
  rw [hsector]
  dsimp only
  rw [ObjectWalRecord.sectorIsZero_sector, if_neg Bool.false_ne_true,
    ObjectWalRecord.ofSector_sector, if_neg hguard, wp_bind]
  refine wp_readTableGeneration ?_ False.elim
  have honDisk : tableOn store.io (Disk.clean D).view store.tableCapacity root.wal.tableSector
    root.wal.tableCount = some entries := hon.onDisk
  rw [honDisk, Option.map_some]
  dsimp only
  refine wp_completeLog_clean (store.loadRoot root entries) hsb ?_ ?_ hnext hgen0 hgen hseq ?_ ?_ ?_
  · rw [hload]
    exact hlog
  · exact hsnap'.symm.trans hsnap
  · rw [hload]
    exact hroot
  · rw [hload]
    exact hP
  · intro D' hD' hlog' hsb'
    rw [wp_pure]
    exact hQ D' hD' hlog' hsb'

/-- A mount goes on from the newer one of the two superblocks. -/
theorem wp_mount_chosen {active : UInt64} {sb : DiskSuperblock} (hok : SetupOk setup)
    (hchoose : chooseSuperblock setup.io.sectorCount setup.tableCapacity (D 0) (D 1) =
      some (active, sb)) (hQ : wp Faults.none (crashInv P) (recoverWal (mountStore setup active sb))
      (fun r => wp Faults.none (crashInv P) (mountRecovered sb r) Q) (Disk.clean D)) :
    wp Faults.none (crashInv P) (objectStoreMount setup) Q (Disk.clean D) := by
  have hsectors := hok.sectors
  have hA : sectorOn setup.io (Disk.clean D).view objectStoreSuperblockA = some (D 0) :=
    sectorOn_of_lt (UInt64.lt_iff_toNat_lt.mpr (by change 0 < _; omega))
  have hB : sectorOn setup.io (Disk.clean D).view objectStoreSuperblockB = some (D 1) :=
    sectorOn_of_lt (UInt64.lt_iff_toNat_lt.mpr (by change 1 < _; omega))
  unfold objectStoreMount
  rw [setupStore_eq hok]
  dsimp only
  rw [wp_bind]
  refine wp_ioReadSector ?_ False.elim
  rw [hA]
  dsimp only
  rw [wp_bind]
  refine wp_ioReadSector ?_ False.elim
  rw [hB]
  dsimp only
  rw [hchoose]
  dsimp only
  rw [wp_bind]
  exact hQ

/-- **Mounting**: a disk that leads to a root mounts with it, and so does every disk that a power
cut during the mount may leave. -/
theorem wp_mount_clean {seq : Nat} (hok : SetupOk setup)
    (h : Mountable setup.io setup.tableCapacity D root seq)
    (hroom : D 2 = Block.zero objectStoreSectorSize ∨ seq + 1 < 2 ^ 64)
    (hP : ∀ D' : Content, (∀ s, 3 ≤ s → D' s = D s) → ∀ j ≤ seq + 1,
      Mountable setup.io setup.tableCapacity D' root j → P D')
    (hQ : ∀ store (D' : Content), (∀ s, 3 ≤ s → D' s = D s) → Mounted store D' →
      Loaded setup store → store.root = root →
      (store.superblockSequence.toNat = seq ∧ D' = D ∨
        store.superblockSequence.toNat = seq + 1) → Q (some store) (Disk.clean D')) :
    wp Faults.none (crashInv P) (objectStoreMount setup) Q (Disk.clean D) := by
  obtain ⟨active, sb, hchoose, hsbseq, hroot, hleads⟩ := h
  have hsectors := hok.sectors
  have hsb : SuperblockIs (mountStore setup active sb) D sb := ⟨hchoose, rfl⟩
  obtain ⟨entries, hon⟩ := hroot.current
  apply wp_mount_chosen hok hchoose
  rcases hleads with ⟨hlog, rfl, hgen⟩ | ⟨hlog, hsnap, hgen0, hgen⟩
  · -- the log is empty
    have hload := root_loadRoot (mountStore setup active sb) hon rfl
    have honDisk : tableOn (mountStore setup active sb).io (Disk.clean D).view
      (mountStore setup active sb).tableCapacity sb.currentTableSector sb.currentTableCount =
        some entries := hon.onDisk
    apply wp_recoverWal_empty (show 2 < setup.io.sectorCount.toNat by omega) hlog
    rw [mountRecovered, wp_bind]
    refine wp_readTableGeneration ?_ False.elim
    rw [honDisk, Option.map_some]
    refine wp_mountRebuild_clean ((mountStore setup active sb).loadRoot sb.root entries) hok.buffer
      rfl rfl ⟨sb, hsb, hload.symm, rfl⟩ hlog hload hroot hon hgen fun bitmap hm => ?_
    exact hQ _ D (fun _ _ => rfl) hm ⟨rfl, rfl, rfl, rfl⟩ hload (Or.inl ⟨hsbseq, rfl⟩)
  · -- the log holds the root
    have hload := root_loadRoot (mountStore setup active sb) hon hsnap
    have hseq : sb.sequence.toNat + 1 < 2 ^ 64 := by
      rcases hroom with hzero | hroom
      · have := ObjectWalRecord.sectorIsZero_sector root.wal
        rw [← hlog, hzero, sectorIsZero_zero] at this
        cases this
      · omega
    have hadvance : (sb.sequence + 1).toNat = sb.sequence.toNat + 1 := toNat_add_one hseq
    apply wp_recoverWal_pending hsb rfl hlog hsnap hsnap hgen0 hgen hseq hroot hon
    · intro D' hD' j hj hm
      have hj' : j ≤ sb.sequence.toNat + 1 := hj
      exact hP D' hD' j (by omega) hm
    · intro D' hD' hlog' hsb'
      have hon' := hon.frame fun u hu => hD' _ (hon.bounds hroot.next_le hu).1
      refine wp_mountRebuild_clean ((mountStore setup active sb).loadRoot root entries).advance
        hok.buffer rfl rfl ⟨_, hsb', rfl, rfl⟩ hlog' hload (hroot.of_reserved hD') hon' ?_
        fun bitmap hm => hQ _ D' hD' hm ⟨rfl, rfl, rfl, rfl⟩ hload (Or.inr ?_)
      · change _ ≤ (sb.sequence + 1).toNat
        omega
      · change (sb.sequence + 1).toNat = _
        omega

end Mount

/-! ### Formatting -/

/-- The store that a format writes. -/
def formatStore (setup : ObjectStoreSetup) : ObjectStore :=
  { freshStore setup with
    nextSector := objectStoreFirstAllocatableSector
    activeSuperblockSector := objectStoreSuperblockA
    bitmap := emptyBitmap setup.io setup.bitmapBuffer }

/-- The disk after a format. -/
def formatDisk (setup : ObjectStoreSetup) (D : Content) : Content :=
  Function.update (superblockWritten (formatStore setup).advance
    (superblockWritten (formatStore setup) D)) objectStoreWalSector.toNat
    (Block.zero objectStoreSectorSize)

theorem run_format (hok : SetupOk setup) (d : Disk Sector) : run (objectStoreFormat setup) d =
      (some (formatStore setup).advance.advance, Disk.clean (formatDisk setup d.view)) := by
  unfold objectStoreFormat
  rw [setupStore_eq hok]
  dsimp only
  change run (writeSuperblock (formatStore setup) >>= _) d = _
  rw [run_bind, run_writeSuperblock]
  dsimp only
  rw [if_neg (by decide), run_bind, run_writeSuperblock]
  dsimp only
  rw [if_neg (by decide), run_bind, clearWal, run_writeAll]
  rfl

theorem rootOn_format (hok : SetupOk setup) (D : Content) :
    RootOn setup.io setup.tableCapacity D 3 (formatStore setup).root := by
  refine ⟨le_refl 3, hok.sectors, ⟨[], tableOn_zero _, fun _ => rfl, ?_, ?_⟩, ?_, ?_, ?_⟩
  · exact fun hne => absurd rfl hne
  · exact fun e he => by cases he
  · exact fun i hi => absurd rfl hi
  · exact fun i j hi => absurd rfl hi
  · exact fun i => Nat.zero_le _

/-- **Format** gives a mounted store. -/
theorem mounted_format (hok : SetupOk setup) (D : Content) :
    Mounted (formatStore setup).advance.advance (formatDisk setup D) := by
  have hroot := rootOn_format hok
  have hlog : formatDisk setup D 2 = Block.zero objectStoreSectorSize := Function.update_self _ _ _
  -- the two superblocks
  have hfirst : formatDisk setup D 0 = superblockFromStore (formatStore setup).advance 2 := rfl
  have hsecond : formatDisk setup D 1 = superblockFromStore (formatStore setup) 1 := rfl
  have hvalid1 : superblockIsValid (superblockFromStore (formatStore setup) 1)
      setup.io.sectorCount setup.tableCapacity = true :=
    superblockIsValid_fromStore 1 (hroot D)
  have hvalid2 : superblockIsValid (superblockFromStore (formatStore setup).advance 2)
      setup.io.sectorCount setup.tableCapacity = true :=
    @superblockIsValid_fromStore (formatStore setup).advance D 2 (hroot D)
  have hchoose : chooseSuperblock setup.io.sectorCount setup.tableCapacity (formatDisk setup D 0)
      (formatDisk setup D 1) =
        some (objectStoreSuperblockA, superblockFor (formatStore setup).advance 2) := by
    rw [hfirst, hsecond, chooseSuperblock, ofSector_superblockFromStore,
      ofSector_superblockFromStore, if_pos ⟨hvalid2, Or.inr (show (1 : UInt64) ≤ 2 by decide)⟩]
  exact ⟨rfl, rfl, ⟨_, ⟨hchoose, rfl⟩, rfl, rfl⟩, hlog, hroot _, hok.coverage _,
    le_refl _⟩

/-- A device of sixteen sectors. -/
def smallSetup : ObjectStoreSetup where
  io := ⟨16, by decide⟩
  tableCapacity := 4
  cacheCapacity := 4096
  bitmapBuffer := [0, 0]
  arenaBuffer := List.replicate 1024 0

def smallRequest : ObjectStorePutRequest where
  id := ⟨0, 1⟩
  typeId := ⟨0, 2⟩
  creatorId := ⟨0, 3⟩
  modifierId := ⟨0, 3⟩
  logicalTimestamp := 7
  payload := [1, 2, 3]

theorem smallSetup_ok : SetupOk smallSetup := by
  constructor <;> decide

end Jani
