import Jani.Obj.Equiv.Coverage
import Jani.Obj.Equiv.Recovery

/-!
# Mounted stores

`Mounted store D` is the invariant of a store between two operations on a device that works: the
superblock in use is the one the store would write, the log is empty, everything the root refers
to is on disk, and the bitmap covers it.

The steps that operations are built from keep it: writes to sectors that are not marked
(`Mounted.of_untouched`), a superblock write (`mounted_superblockWritten`) and the publication of
a new table (`wp_commit`).  For each of them the disks that a power cut may leave are
`Recoverable`, with the logical state before the step or after it.
-/

namespace Jani

open ObjectTable (Sorted)

/-! ### The invariant -/

/-- The store and the disk of a mounted store between two operations. -/
structure Mounted (store : ObjectStore) (D : Content) : Prop where
  ready : store.recoveryRequired = false
  capacity : store.table.capacity = store.tableCapacity
  superblock : ∃ sb, SuperblockIs store D sb ∧ sb.root = store.root ∧
    sb.nextSector = store.nextSector
  log : D 2 = Block.zero objectStoreSectorSize
  root : RootOn store.io store.tableCapacity D store.nextSector.toNat store.root
  coverage : Coverage True store D
  sequence : store.currentGeneration.toNat + 2 ≤ store.superblockSequence.toNat

/-- The reserved sectors and the marked ones are the same. -/
structure Untouched (n : UInt64) (bitmap : List UInt8) (D D' : Content) : Prop where
  reserved : ∀ s, s < 3 → D' s = D s
  kept : Kept n bitmap D D'

theorem Untouched.refl (n : UInt64) (bitmap : List UInt8) (D : Content) : Untouched n bitmap D D :=
  ⟨fun _ _ => rfl, fun _ _ _ _ => rfl⟩

theorem Untouched.trans {n : UInt64} {bitmap : List UInt8} {D D' D'' : Content}
    (h : Untouched n bitmap D D') (h' : Untouched n bitmap D' D'') : Untouched n bitmap D D'' :=
  ⟨fun s hs => (h'.reserved s hs).trans (h.reserved s hs), h.kept.trans h'.kept⟩

section Basics

variable {store : ObjectStore} {D D' : Content}

/-- The root of a store whose table is on disk refers to the same sectors as the store. -/
theorem rootRefers_iff (hcur : tableOn store.io D store.tableCapacity store.currentTableSector
      (UInt64.ofNat store.table.count) = some store.table.entries) (u : UInt64) :
    RootRefers store.io store.tableCapacity D store.root u ↔ Refers store D u := by
  apply or_congr _ Iff.rfl
  change GenerationRefers ((tableOn store.io D store.tableCapacity store.currentTableSector
    (UInt64.ofNat store.table.count)).getD []) store.currentTableSector
    (UInt64.ofNat store.table.count) u ↔ _
  rw [hcur]
  rfl

theorem Coverage.marked_of_rootRefers (h : Coverage True store D) {u : UInt64}
    (hu : RootRefers store.io store.tableCapacity D store.root u) :
    bitmapTest store.io.sectorCount store.bitmap u = true ∧ 3 ≤ u.toNat := by
  have hrefers := (rootRefers_iff h.current.onDisk u).mp hu
  exact ⟨(h.marked hrefers).1, (h.marked hrefers).2 trivial⟩

/-- What a store with this coverage refers to is the same on a disk that is untouched. -/
theorem Coverage.agree_of_untouched {next : Nat} (h : Coverage True store D)
    (hroot : RootOn store.io store.tableCapacity D next store.root)
    (hD : Untouched store.io.sectorCount store.bitmap D D') (u : UInt64)
    (hu : RootRefers store.io store.tableCapacity D store.root u) : D' u.toNat = D u.toNat := by
  obtain ⟨hmark, h3⟩ := h.marked_of_rootRefers hu
  have hlt := (hroot.bounds hu).2
  have hle := hroot.next_le
  exact hD.kept u h3 hmark (by omega)

theorem Coverage.logicalState_eq (h : Coverage True store D) :
    logicalState store D = store.root.logical store.io store.tableCapacity D :=
  Jani.logicalState_eq h.current.onDisk

section

variable (h : Mounted store D)

include h

theorem Mounted.entry_end {e : ObjectTableEntry} (he : e ∈ store.table.entries) :
    3 ≤ e.firstSector.toNat ∧
      e.firstSector.toNat + e.sectorCount.toNat ≤ store.nextSector.toNat := by
  obtain ⟨entries, hc⟩ := h.root.current
  have honDisk : tableOn store.io D store.tableCapacity store.currentTableSector
    (UInt64.ofNat store.table.count) = some entries := hc.onDisk
  rw [h.coverage.current.onDisk] at honDisk
  rw [Option.some.inj honDisk] at he
  exact hc.extents e he

theorem Mounted.extentOn_eq
    (hagree : ∀ u : UInt64, RootRefers store.io store.tableCapacity D store.root u →
      D' u.toNat = D u.toNat) {e : ObjectTableEntry} (he : e ∈ store.table.entries) :
    extentOn D' e = extentOn D e := by
  have hend := (h.entry_end he).2
  have hnext := store.nextSector.toNat_lt
  apply extentOn_congr (by omega)
  intro u hu
  apply hagree u
  left
  change GenerationRefers ((tableOn store.io D store.tableCapacity store.currentTableSector
    (UInt64.ofNat store.table.count)).getD []) _ _ u
  rw [h.coverage.current.onDisk]
  exact Or.inr ⟨e, he, hu⟩

theorem Mounted.mountable :
    Mountable store.io store.tableCapacity D store.root store.superblockSequence.toNat := by
  obtain ⟨sb, hsb, hroot, hnext⟩ := h.superblock
  refine ⟨_, sb, hsb.1, by rw [hsb.2], ?_, Or.inl ⟨h.log, hroot.symm, ?_⟩⟩
  · rw [hnext]
    exact h.root
  · rw [hsb.2]
    exact h.sequence

theorem Mounted.recoverable : Recoverable store.io store.tableCapacity D (logicalState store D)
      store.superblockSequence.toNat :=
  h.mountable.recoverable le_rfl h.coverage.logicalState_eq.symm

/-- The frame of `Mounted`: sectors that an earlier, smaller bitmap did not mark may change. -/
theorem Mounted.of_untouched {bitmap : List UInt8}
    (hcov : Coverage True { store with bitmap := bitmap } D)
    (hgrow : ∀ V, Coverage True { store with bitmap := bitmap } V → Coverage True store V)
    (hD : Untouched store.io.sectorCount bitmap D D') :
    Mounted store D' ∧ logicalState store D' = logicalState store D := by
  have hagree := hcov.agree_of_untouched h.root hD
  have hcov' : Coverage True store D' := hgrow _ (CoverageOf.frame hcov hD.kept)
  obtain ⟨sb, hsb, hroot, hnext⟩ := h.superblock
  refine ⟨⟨h.ready, h.capacity, ⟨sb, ⟨?_, hsb.2⟩, hroot, hnext⟩, ?_, h.root.frame hagree, hcov',
    h.sequence⟩, ?_⟩
  · rw [hD.reserved 0 (by omega), hD.reserved 1 (by omega)]
    exact hsb.1
  · rw [hD.reserved 2 (by omega)]
    exact h.log
  · rw [hcov'.logicalState_eq, h.coverage.logicalState_eq]
    exact Root.logical_frame h.root hagree

end

theorem mounted_superblockWritten {sb : DiskSuperblock} (hsb : SuperblockIs store D sb)
    (hseq : store.superblockSequence.toNat + 1 < 2 ^ 64)
    (hlog : D 2 = Block.zero objectStoreSectorSize)
    (hroot : RootOn store.io store.tableCapacity D store.nextSector.toNat store.root)
    (hcov : Coverage True store D) (hready : store.recoveryRequired = false)
    (hcap : store.table.capacity = store.tableCapacity)
    (hgen : store.currentGeneration.toNat + 1 ≤ store.superblockSequence.toNat) :
    Mounted store.advance (superblockWritten store D) ∧
      logicalState store.advance (superblockWritten store D) = logicalState store D := by
  have hge : ∀ s, 3 ≤ s → superblockWritten store D s = D s :=
    fun s hs => superblockWritten_of_ge (by omega)
  have hcov' : Coverage True store.advance (superblockWritten store D) :=
    CoverageOf.frame hcov (ReservedOnly.kept hge)
  refine ⟨⟨hready, hcap,
    ⟨_, ⟨chooseSuperblock_superblockWritten hsb hseq hroot, rfl⟩, rfl, rfl⟩, ?_,
    hroot.of_reserved hge, hcov', ?_⟩, ?_⟩
  · rw [superblockWritten_of_ge (le_refl 2)]
    exact hlog
  · change store.currentGeneration.toNat + 2 ≤ (store.superblockSequence + 1).toNat
    rw [toNat_add_one (by omega)]
    omega
  · rw [hcov'.logicalState_eq, hcov.logicalState_eq]
    exact Root.logical_of_reserved hroot hge

theorem advance_sequence (hseq : store.superblockSequence.toNat + 1 < 2 ^ 64) :
    store.advance.superblockSequence.toNat = store.superblockSequence.toNat + 1 :=
  toNat_add_one hseq

theorem advance_sequence_le (store : ObjectStore) :
    store.advance.superblockSequence.toNat ≤ store.superblockSequence.toNat + 1 :=
  (UInt64.toNat_add _ _).trans_le (Nat.mod_le _ _)

theorem Mounted.generation_succ (h : Mounted store D) :
    (store.currentGeneration + 1).toNat = store.currentGeneration.toNat + 1 := by
  have := h.sequence
  have := store.superblockSequence.toNat_lt
  exact toNat_add_one (by omega)

end Basics

/-! ### Steps under power cuts -/

section Steps

variable {P : Content → Prop} {D : Content} {Q : Bool × ObjectStore → Disk Sector → Prop}

/-- Writing the superblock of `store`, which differs from that of the mounted store `old`. -/
theorem wp_writeSuperblock_mounted (store : ObjectStore) {old : ObjectStore} (hold : Mounted old D)
    (hio : store.io = old.io) (hcapacity : store.tableCapacity = old.tableCapacity)
    (hactive : store.activeSuperblockSector = old.activeSuperblockSector)
    (hseqs : store.superblockSequence = old.superblockSequence)
    (hseq : store.superblockSequence.toNat + 1 < 2 ^ 64)
    (hroot : RootOn store.io store.tableCapacity D store.nextSector.toNat store.root)
    (hcov : Coverage True store D) (hready : store.recoveryRequired = false)
    (hcap : store.table.capacity = store.tableCapacity)
    (hgen : store.currentGeneration.toNat + 1 ≤ store.superblockSequence.toNat)
    (hP : ∀ D', Recoverable store.io store.tableCapacity D' (logicalState old D)
        (store.superblockSequence.toNat + 1) ∨
      Recoverable store.io store.tableCapacity D' (logicalState store D)
        (store.superblockSequence.toNat + 1) → P D')
    (hQ : Mounted store.advance (superblockWritten store D) →
      logicalState store.advance (superblockWritten store D) = logicalState store D →
      Q (true, store.advance) (Disk.clean (superblockWritten store D))) :
    wp Faults.none (crashInv P) (writeSuperblock store) Q (Disk.clean D) := by
  obtain ⟨sb, hsb, -, -⟩ := hold.superblock
  have hsb' : SuperblockIs store D sb := by
    rw [SuperblockIs, hio, hcapacity, hactive, hseqs]
    exact hsb
  obtain ⟨hmounted, hlogical⟩ :=
    mounted_superblockWritten hsb' hseq hold.log hroot hcov hready hcap hgen
  apply wp_writeSuperblock_clean
  · apply hP
    left
    rw [hio, hcapacity, hseqs]
    exact hold.recoverable.mono (Nat.le_succ _)
  · apply hP
    right
    have := hmounted.recoverable
    rw [hlogical, advance_sequence hseq] at this
    exact this
  · exact hQ hmounted hlogical

/-- **Commit**: a table on disk becomes the current one. -/
theorem wp_commit {store : ObjectStore} {table : ObjectTable} {tableSector : UInt64}
    (h : Mounted store D) (hseq : store.superblockSequence.toNat + 1 < 2 ^ 64)
    (hcap : table.capacity = store.tableCapacity)
    (hcov : Coverage True (store.adopt table tableSector) D)
    (hnew : ∃ entries, GenerationOn store.io store.tableCapacity D store.nextSector.toNat
      tableSector (UInt64.ofNat table.count) entries)
    (hP : ∀ D', Recoverable store.io store.tableCapacity D' (logicalState store D)
        (store.superblockSequence.toNat + 1) ∨
      Recoverable store.io store.tableCapacity D' (logicalState (store.adopt table tableSector) D)
        (store.superblockSequence.toNat + 1) → P D')
    (hQ : ∀ D', (∀ s, 3 ≤ s → D' s = D s) → Mounted (store.adopt table tableSector).advance D' →
      logicalState (store.adopt table tableSector).advance D' =
        logicalState (store.adopt table tableSector) D →
      Q (true, (store.adopt table tableSector).advance) (Disk.clean D')) :
    wp Faults.none (crashInv P) (publishTable store table tableSector) Q (Disk.clean D) := by
  have hgen1 := h.generation_succ
  have hroot : RootOn store.io store.tableCapacity D store.nextSector.toNat
      (store.adopt table tableSector).root := by
    refine ⟨h.root.next_ge, h.root.next_le, hnew, h.root.snapshots, h.root.ids_inj, ?_⟩
    intro i
    have hle : (store.snapshots i).id.toNat ≤ store.currentGeneration.toNat := h.root.ids_le i
    change (store.snapshots i).id.toNat ≤ (store.currentGeneration + 1).toNat
    omega
  have hlogical : ∀ D', (∀ s, 3 ≤ s → D' s = D s) →
      (store.adopt table tableSector).root.logical store.io store.tableCapacity D' =
        logicalState (store.adopt table tableSector) D := by
    intro D' hD'
    rw [hcov.logicalState_eq]
    exact Root.logical_of_reserved hroot hD'
  obtain ⟨sb, hsb, hsbroot, hsbnext⟩ := h.superblock
  apply wp_publishTable_clean hsb hsbroot hsbnext h.log h.sequence hseq h.root hroot
  · rintro D' hD' (hm | ⟨k, hk, hm⟩)
    · refine hP D' (Or.inl (hm.recoverable (Nat.le_succ _) ?_))
      rw [h.coverage.logicalState_eq]
      exact Root.logical_of_reserved h.root hD'
    · exact hP D' (Or.inr (hm.recoverable hk (hlogical D' hD')))
  · intro D' hD' hlog hsb
    have hcov' : Coverage True (store.adopt table tableSector).advance D' :=
      CoverageOf.frame hcov (ReservedOnly.kept hD')
    have hmounted : Mounted (store.adopt table tableSector).advance D' := by
      refine ⟨h.ready, hcap, ⟨_, hsb, rfl, rfl⟩, hlog, hroot.of_reserved hD', hcov', ?_⟩
      have hseq' : (store.adopt table tableSector).superblockSequence.toNat + 1 < 2 ^ 64 := hseq
      rw [advance_sequence hseq']
      change (store.currentGeneration + 1).toNat + 2 ≤ store.superblockSequence.toNat + 1
      have := h.sequence
      omega
    refine hQ D' hD' hmounted ?_
    rw [hcov'.logicalState_eq]
    exact hlogical D' hD'

end Steps

end Jani
