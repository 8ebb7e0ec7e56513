import Jani.Obj.Equiv.Logical

/-!
# Disks that can be mounted

A mount takes the valid superblock with the larger sequence number and completes a root that is
in the log.  `Mountable` says that a disk holds such a superblock, with sequence number `seq`, and
that the root it leads to is on disk.  This module gives the steps between mountable disks on
which the crash proofs rest:

* a new superblock written over the older one is the one that is taken next, as long as the
  sequence number does not wrap around (`chooseSuperblock_write`, `wp_writeSuperblock_clean`);
* writes outside the sectors a root refers to do not matter (`Mountable.frame`);
* publishing a new root passes only through disks that mount with the old root or the new one
  (`wp_publishTable_clean`).
-/

namespace Jani

/-! ### Superblocks -/

theorem ofSector_superblockFromStore (store : ObjectStore) (sequence : UInt64) :
    DiskSuperblock.ofSector (superblockFromStore store sequence) =
      superblockFor store sequence := by
  rw [superblockFromStore, DiskSuperblock.ofSector_sector]

theorem sectorChecksum_superblockFromStore (store : ObjectStore) (sequence : UInt64) :
    sectorChecksum 256 (superblockFromStore store sequence) =
      (superblockFor store sequence).checksum := by
  have hzero : { superblockFor store sequence with checksum := 0 } =
      superblockWith store sequence 0 := rfl
  rw [superblockFromStore, DiskSuperblock.sectorChecksum_sector _ 0, hzero, superblockFor]
  simp only [superblockWith]

variable {store : ObjectStore} {sb : DiskSuperblock} {capacity : UInt64} {D : Content} {b : Sector}

/-- The superblock of a store with a root on disk passes its check. -/
theorem superblockIsValid_fromStore {V : Content} (sequence : UInt64)
    (h : RootOn store.io store.tableCapacity V store.nextSector.toNat store.root) :
    superblockIsValid (superblockFromStore store sequence) store.io.sectorCount
      store.tableCapacity = true := by
  obtain ⟨entries, hc⟩ := h.current
  obtain ⟨-, hcap, h3, -⟩ := tableOn_shape hc.onDisk
  have hnext := h.next_ge
  have hle := h.next_le
  have hzero := hc.zero
  have hend := hc.tableEnd
  simp only [ObjectStore.root] at hcap h3 hzero hend
  unfold superblockIsValid
  rw [sectorChecksum_superblockFromStore, ofSector_superblockFromStore]
  simp only [superblockFor, superblockWith]
  have hg1 : ¬ (store.nextSector < objectStoreFirstAllocatableSector ∨
      store.nextSector > store.io.sectorCount) := by
    rw [not_or, gt_iff_lt, UInt64.not_lt, UInt64.not_lt, UInt64.le_iff_toNat_le,
      UInt64.le_iff_toNat_le]
    exact ⟨hnext, hle⟩
  have hg2 : ¬ ((store.currentTableSector = 0 ∧ UInt64.ofNat store.table.count ≠ 0) ∨
      UInt64.ofNat store.table.count > store.tableCapacity) := by
    rw [not_or, gt_iff_lt, UInt64.not_lt, UInt64.le_iff_toNat_le]
    refine ⟨?_, hcap⟩
    rintro ⟨hts, hne⟩
    have := h3 hne
    rw [hts] at this
    simp at this
  have hg3 : ¬ (store.currentTableSector ≠ 0 ∧
      (store.currentTableSector < objectStoreFirstAllocatableSector ∨
        store.currentTableSector > store.nextSector ∨
        UInt64.ofNat store.table.count > store.nextSector - store.currentTableSector)) := by
    rintro ⟨hts, hbad⟩
    have hne : UInt64.ofNat store.table.count ≠ 0 := fun h0 => hts (hzero h0)
    have h1 := h3 hne
    have h2 := hend hne
    have hle' : store.currentTableSector ≤ store.nextSector := UInt64.le_iff_toNat_le.mpr (by omega)
    rw [gt_iff_lt, gt_iff_lt, UInt64.lt_iff_toNat_lt, UInt64.lt_iff_toNat_lt,
      UInt64.lt_iff_toNat_lt, UInt64.toNat_sub_of_le _ _ hle'] at hbad
    change store.currentTableSector.toNat < 3 ∨ _ at hbad
    omega
  rw [if_neg (by simpa using hg1), if_neg hg2, if_neg hg3]
  simp

theorem chooseSuperblock_active {n : UInt64} {first second : Sector} {a : UInt64}
    (h : chooseSuperblock n capacity first second = some (a, sb)) :
    a = objectStoreSuperblockA ∨ a = objectStoreSuperblockB := by
  unfold chooseSuperblock at h
  split_ifs at h
  · exact Or.inl (Prod.mk.inj (Option.some.inj h)).1.symm
  · exact Or.inr (Prod.mk.inj (Option.some.inj h)).1.symm

/-- **The next superblock**: a valid superblock with a larger sequence number, written to the
other sector, is taken from then on. -/
theorem chooseSuperblock_write {n : UInt64} {a : UInt64}
    (h : chooseSuperblock n capacity (D 0) (D 1) = some (a, sb))
    (hvalid : superblockIsValid b n capacity = true)
    (hseq : sb.sequence < (DiskSuperblock.ofSector b).sequence) :
    chooseSuperblock n capacity (Function.update D (otherSuperblock a).toNat b 0)
      (Function.update D (otherSuperblock a).toNat b 1) =
        some (otherSuperblock a, DiskSuperblock.ofSector b) := by
  have hseq' := UInt64.lt_iff_toNat_lt.mp hseq
  rcases chooseSuperblock_active h with rfl | rfl
  · -- the first superblock is in use, the second one is written
    have hfirst : superblockIsValid (D 0) n capacity = true ∧
      DiskSuperblock.ofSector (D 0) = sb := by
      unfold chooseSuperblock at h
      split_ifs at h with h1
      · exact ⟨h1.1, (Prod.mk.inj (Option.some.inj h)).2⟩
      · have := (Prod.mk.inj (Option.some.inj h)).1
        exact absurd this (by decide)
    have hother : (otherSuperblock objectStoreSuperblockA).toNat = 1 := by decide
    rw [hother, Function.update_self, Function.update_of_ne (by decide), chooseSuperblock,
      if_neg, if_pos hvalid]
    · rfl
    · rintro ⟨-, hbad | hbad⟩
      · exact hbad hvalid
      · rw [hfirst.2] at hbad
        have := UInt64.le_iff_toNat_le.mp hbad
        omega
  · -- the second superblock is in use, the first one is written
    have hsecond : DiskSuperblock.ofSector (D 1) = sb := by
      unfold chooseSuperblock at h
      split_ifs at h with h1 h2
      · have := (Prod.mk.inj (Option.some.inj h)).1
        exact absurd this (by decide)
      · exact (Prod.mk.inj (Option.some.inj h)).2
    have hother : (otherSuperblock objectStoreSuperblockB).toNat = 0 := by decide
    rw [hother, Function.update_self, Function.update_of_ne (by decide), chooseSuperblock,
      if_pos]
    · rfl
    · refine ⟨hvalid, Or.inr ?_⟩
      rw [hsecond, ge_iff_le, UInt64.le_iff_toNat_le]
      omega

/-- **An older superblock** in the other sector is not taken. -/
theorem chooseSuperblock_write_older {n : UInt64} {a : UInt64}
    (h : chooseSuperblock n capacity (D 0) (D 1) = some (a, sb))
    (hseq : (DiskSuperblock.ofSector b).sequence < sb.sequence) :
    chooseSuperblock n capacity (Function.update D (otherSuperblock a).toNat b 0)
      (Function.update D (otherSuperblock a).toNat b 1) = some (a, sb) := by
  have hseq' := UInt64.lt_iff_toNat_lt.mp hseq
  unfold chooseSuperblock at h
  split_ifs at h with h1 h2
  · -- the first superblock is in use, the second one is written
    obtain ⟨rfl, rfl⟩ := Prod.mk.inj (Option.some.inj h)
    have hother : (otherSuperblock objectStoreSuperblockA).toNat = 1 := by decide
    rw [hother, Function.update_self, Function.update_of_ne (by decide), chooseSuperblock,
      if_pos ⟨h1.1, Or.inr (UInt64.le_of_lt hseq)⟩]
  · -- the second superblock is in use, the first one is written
    obtain ⟨rfl, rfl⟩ := Prod.mk.inj (Option.some.inj h)
    have hother : (otherSuperblock objectStoreSuperblockB).toNat = 0 := by decide
    rw [hother, Function.update_self, Function.update_of_ne (by decide), chooseSuperblock,
      if_neg, if_pos h2]
    rintro ⟨-, hbad | hbad⟩
    · exact hbad h2
    · have := UInt64.le_iff_toNat_le.mp hbad
      omega

/-! ### Mountable disks -/

/-- The log record of a root. -/
def Root.wal (root : Root) : ObjectWalRecord :=
  ⟨root.tableSector, root.tableCount, root.generation⟩

/-- The superblock that is taken, and the log, lead to the root.  Every generation has taken a
superblock write of its own, or will take one when its log record is completed. -/
def LeadsTo (sb : DiskSuperblock) (log : Sector) (root : Root) : Prop :=
  (log = Block.zero objectStoreSectorSize ∧ root = sb.root ∧
      root.generation.toNat + 2 ≤ sb.sequence.toNat) ∨
    (log = root.wal.sector ∧ root.snapshots = sb.snapshots ∧ root.generation ≠ 0 ∧
      root.generation.toNat + 1 ≤ sb.sequence.toNat)

/-- The disk mounts with the given root, from a superblock with the given sequence number. -/
def Mountable (io : ObjectStoreIo) (capacity : UInt64) (D : Content) (root : Root) (seq : Nat) :
    Prop :=
  ∃ active sb, chooseSuperblock io.sectorCount capacity (D 0) (D 1) = some (active, sb) ∧
    sb.sequence.toNat = seq ∧ RootOn io capacity D sb.nextSector.toNat root ∧
    LeadsTo sb (D 2) root

/-- The disk mounts with the given logical state, from a sequence number up to `limit`. -/
def Recoverable (io : ObjectStoreIo) (capacity : UInt64) (D : Content) (L : LogicalState)
    (limit : Nat) : Prop :=
  ∃ root seq, Mountable io capacity D root seq ∧ seq ≤ limit ∧ root.logical io capacity D = L

section Mountable

variable {io : ObjectStoreIo} {capacity : UInt64} {D D' : Content} {root : Root} {seq : Nat}

theorem Mountable.recoverable {limit : Nat} {L : LogicalState}
    (h : Mountable io capacity D root seq) (hle : seq ≤ limit)
    (hL : root.logical io capacity D = L) : Recoverable io capacity D L limit :=
  ⟨root, seq, h, hle, hL⟩

theorem Recoverable.mono {L : LogicalState} {limit limit' : Nat}
    (h : Recoverable io capacity D L limit) (hle : limit ≤ limit') :
    Recoverable io capacity D L limit' := by
  obtain ⟨root, seq, hm, hseq, hL⟩ := h
  exact ⟨root, seq, hm, hseq.trans hle, hL⟩

end Mountable

/-! ### Single writes -/

theorem mixture_single {D' : Content} {s : Nat} (h : ∀ t, D' t = D t ∨ (t, D' t) ∈ [(s, b)]) :
    D' = D ∨ D' = Function.update D s b := by
  rcases h s with hs | hs
  · left
    funext t
    rcases h t with ht | ht
    · exact ht
    · rw [List.mem_singleton, Prod.mk.injEq] at ht
      rw [ht.1]
      exact hs
  · right
    funext t
    by_cases hts : t = s
    · subst hts
      rw [List.mem_singleton, Prod.mk.injEq] at hs
      rw [Function.update_self]
      exact hs.2
    · rw [Function.update_of_ne hts]
      rcases h t with ht | ht
      · exact ht
      · rw [List.mem_singleton, Prod.mk.injEq] at ht
        exact absurd ht.1 hts

section Clean

variable {P : Content → Prop}

theorem wp_writeOne_clean {s : Nat} {Q : Bool → Disk Sector → Prop} (hold : P D)
    (hnew : P (Function.update D s b)) (hQ : Q true (Disk.clean (Function.update D s b))) :
    wp Faults.none (crashInv P) (writeAll [(s, b)]) Q (Disk.clean D) := by
  apply wp_writeAll_clean
  · intro D' hD'
    rcases mixture_single hD' with rfl | rfl
    · exact hold
    · exact hnew
  · exact hQ

/-- The store after its superblock was written. -/
def ObjectStore.advance (store : ObjectStore) : ObjectStore :=
  { store with
    superblockSequence := store.superblockSequence + 1
    activeSuperblockSector := otherSuperblock store.activeSuperblockSector }

/-- The content after a superblock write. -/
def superblockWritten (store : ObjectStore) (D : Content) : Content :=
  Function.update D (otherSuperblock store.activeSuperblockSector).toNat
    (superblockFromStore store (store.superblockSequence + 1))

/-- The superblock in use is the one of the store, up to its root and its used area. -/
def SuperblockIs (store : ObjectStore) (D : Content) (sb : DiskSuperblock) : Prop :=
  chooseSuperblock store.io.sectorCount store.tableCapacity (D 0) (D 1) =
    some (store.activeSuperblockSector, sb) ∧ sb.sequence = store.superblockSequence

theorem superblockWritten_of_ge {s : Nat} (hs : 2 ≤ s) : superblockWritten store D s = D s := by
  have : (otherSuperblock store.activeSuperblockSector).toNat < 2 := by
    unfold otherSuperblock
    split_ifs <;> decide
  exact Function.update_of_ne (by omega) _ _

theorem chooseSuperblock_superblockWritten (hsb : SuperblockIs store D sb)
    (hseq : store.superblockSequence.toNat + 1 < 2 ^ 64)
    (hroot : RootOn store.io store.tableCapacity D store.nextSector.toNat store.root) :
    chooseSuperblock store.io.sectorCount store.tableCapacity (superblockWritten store D 0)
      (superblockWritten store D 1) =
        some (otherSuperblock store.activeSuperblockSector,
          superblockFor store (store.superblockSequence + 1)) := by
  rw [← ofSector_superblockFromStore]
  apply chooseSuperblock_write hsb.1 (superblockIsValid_fromStore _ hroot)
  rw [ofSector_superblockFromStore, hsb.2]
  change store.superblockSequence < store.superblockSequence + 1
  rw [UInt64.lt_iff_toNat_lt, UInt64.toNat_add]
  simp only [UInt64.reduceToNat]
  omega

variable {Q : Bool × ObjectStore → Disk Sector → Prop}

theorem wp_writeSuperblock_clean (hold : P D) (hnew : P (superblockWritten store D))
    (hQ : Q (true, store.advance) (Disk.clean (superblockWritten store D))) :
    wp Faults.none (crashInv P) (writeSuperblock store) Q (Disk.clean D) := by
  unfold writeSuperblock
  dsimp only
  rw [wp_bind]
  apply wp_writeOne_clean hold hnew
  rw [wp_unless_true, wp_pure]
  exact hQ

theorem run_writeSuperblock (store : ObjectStore) (d : Disk Sector) :
    run (writeSuperblock store) d =
      ((true, store.advance), Disk.clean (superblockWritten store d.view)) := by
  rw [writeSuperblock, run_bind, run_writeAll]
  rfl

variable {io : ObjectStoreIo} {root : Root}

theorem RootOn.of_reserved {D' : Content} {next : Nat} (h : RootOn io capacity D next root)
    (hD : ∀ s, 3 ≤ s → D' s = D s) : RootOn io capacity D' next root :=
  h.frame fun _ hu => hD _ (h.bounds hu).1

theorem Root.logical_of_reserved {D' : Content} {next : Nat} (h : RootOn io capacity D next root)
    (hD : ∀ s, 3 ≤ s → D' s = D s) : root.logical io capacity D' = root.logical io capacity D :=
  Root.logical_frame h fun _ hu => hD _ (h.bounds hu).1

/-- The store with a new table, as the next generation. -/
def ObjectStore.adopt (store : ObjectStore) (table : ObjectTable) (tableSector : UInt64) :
    ObjectStore :=
  { store with
    table := table
    currentTableSector := tableSector
    currentGeneration := store.currentGeneration + 1 }


theorem log_of_ge (s : Nat) (hs : 3 ≤ s) : Function.update D objectStoreWalSector.toNat b s = D s :=
  Function.update_of_ne (show s ≠ 2 by omega) _ _

theorem SuperblockIs.log (h : SuperblockIs store D sb) (b : Sector) :
    SuperblockIs store (Function.update D objectStoreWalSector.toNat b) sb := by
  refine ⟨?_, h.2⟩
  have h0 : Function.update D objectStoreWalSector.toNat b 0 = D 0 :=
    Function.update_of_ne (show 0 ≠ 2 by omega) _ _
  have h1 : Function.update D objectStoreWalSector.toNat b 1 = D 1 :=
    Function.update_of_ne (show 1 ≠ 2 by omega) _ _
  rw [h0, h1]
  exact h.1

theorem Root.wal_valid {next : Nat} (h : RootOn io capacity D next root)
    (hgen : root.generation ≠ 0) : root.wal.Valid := by
  obtain ⟨entries, hc⟩ := h.current
  refine ⟨⟨hc.zero, ?_⟩, hgen⟩
  intro hts
  by_contra hne
  have h3 := (tableOn_shape hc.onDisk).2.2.1 hne
  have hts' : root.tableSector = 0 := hts
  rw [hts'] at h3
  simp at h3

/-- **Completing a logged root**: the superblock with the root of the store is written while the
log holds it, and then the log is cleared.  Every disk on the way mounts with that root. -/
theorem wp_completeLog_clean {α : Type} (store : ObjectStore) {Q : α → Disk Sector → Prop}
    {f g k : Bool × ObjectStore → StoreProg α} (hsb : SuperblockIs store D sb)
    (hlog : D 2 = store.root.wal.sector) (hsnap : store.snapshots = sb.snapshots)
    (hnext : sb.nextSector = store.nextSector) (hgen0 : store.currentGeneration ≠ 0)
    (hgen : store.currentGeneration.toNat + 1 ≤ store.superblockSequence.toNat)
    (hseq : store.superblockSequence.toNat + 1 < 2 ^ 64)
    (hroot : RootOn store.io store.tableCapacity D store.nextSector.toNat store.root)
    (hP : ∀ D' : Content, (∀ s, 3 ≤ s → D' s = D s) → ∀ j ≤ store.superblockSequence.toNat + 1,
      Mountable store.io store.tableCapacity D' store.root j → P D')
    (hQ : ∀ D' : Content, (∀ s, 3 ≤ s → D' s = D s) →
      D' 2 = Block.zero objectStoreSectorSize →
      SuperblockIs store.advance D' (superblockFor store (store.superblockSequence + 1)) →
      wp Faults.none (crashInv P) (k (true, store.advance)) Q (Disk.clean D')) :
    wp Faults.none (crashInv P)
      (writeSuperblock store >>= fun x => if (!x.1) = true then f x
        else clearWal >>= fun y => if (!y) = true then g x else k x) Q (Disk.clean D) := by
  have hseq1 := toNat_add_one hseq
  have hlogged : P D := hP D (fun _ _ => rfl) _ (Nat.le_succ _) ⟨_, sb, hsb.1, by rw [hsb.2],
    hnext ▸ hroot, Or.inr ⟨hlog, hsnap, hgen0, by rw [hsb.2]; exact hgen⟩⟩
  -- the disk with the new superblock beside the log
  have hchoose := chooseSuperblock_superblockWritten hsb hseq hroot
  have hge : ∀ s, 3 ≤ s → superblockWritten store D s = D s :=
    fun s hs => superblockWritten_of_ge (by omega)
  have hlog1 : superblockWritten store D 2 = store.root.wal.sector :=
    (superblockWritten_of_ge (le_refl 2)).trans hlog
  generalize hD1 : superblockWritten store D = D1 at hchoose hge hlog1
  have hsb1 : SuperblockIs store.advance D1 (superblockFor store (store.superblockSequence + 1)) :=
    ⟨hchoose, rfl⟩
  have hwritten : P D1 := hP D1 hge _ (le_refl _) ⟨_, _, hsb1.1, hseq1, hroot.of_reserved hge,
    Or.inr ⟨hlog1, rfl, hgen0, by
      change store.currentGeneration.toNat + 1 ≤ (store.superblockSequence + 1).toNat
      omega⟩⟩
  -- the disk with the log cleared
  have hsb2 := hsb1.log (Block.zero objectStoreSectorSize)
  have hge2 : ∀ s, 3 ≤ s → Function.update D1 objectStoreWalSector.toNat
      (Block.zero objectStoreSectorSize) s = D s :=
    fun s hs => (log_of_ge s hs).trans (hge s hs)
  have hlog2 : Function.update D1 objectStoreWalSector.toNat
      (Block.zero objectStoreSectorSize) 2 = _ := Function.update_self _ _ _
  rw [wp_bind]
  apply wp_writeSuperblock_clean hlogged
  · rw [hD1]
    exact hwritten
  rw [hD1]
  dsimp only
  rw [wp_unless_true, clearWal, wp_bind]
  apply wp_writeOne_clean hwritten
  · exact hP _ hge2 _ (le_refl _) ⟨_, _, hsb2.1, hseq1, hroot.of_reserved hge2,
      Or.inl ⟨hlog2, rfl, by
        change store.currentGeneration.toNat + 2 ≤ (store.superblockSequence + 1).toNat
        omega⟩⟩
  rw [wp_unless_true]
  exact hQ _ hge2 hlog2 hsb2

/-- **Publishing a root**: every disk on the way mounts with the old root or with the new one, and
the last one with the new root and an empty log. -/
theorem wp_publishTable_clean {table : ObjectTable} {tableSector : UInt64}
    (hsb : SuperblockIs store D sb) (hroot : sb.root = store.root)
    (hnext : sb.nextSector = store.nextSector) (hwal : D 2 = Block.zero objectStoreSectorSize)
    (hgen : store.currentGeneration.toNat + 2 ≤ store.superblockSequence.toNat)
    (hseq : store.superblockSequence.toNat + 1 < 2 ^ 64)
    (hold : RootOn store.io store.tableCapacity D store.nextSector.toNat store.root)
    (hnew : RootOn store.io store.tableCapacity D store.nextSector.toNat
      (store.adopt table tableSector).root) (hP : ∀ D' : Content, (∀ s, 3 ≤ s → D' s = D s) →
      (Mountable store.io store.tableCapacity D' store.root store.superblockSequence.toNat ∨
        ∃ k, k ≤ store.superblockSequence.toNat + 1 ∧
          Mountable store.io store.tableCapacity D' (store.adopt table tableSector).root k) →
      P D') (hQ : ∀ D' : Content, (∀ s, 3 ≤ s → D' s = D s) →
      D' 2 = Block.zero objectStoreSectorSize →
      SuperblockIs (store.adopt table tableSector).advance D'
        (superblockFor (store.adopt table tableSector) (store.superblockSequence + 1)) →
      Q (true, (store.adopt table tableSector).advance) (Disk.clean D')) :
    wp Faults.none (crashInv P) (publishTable store table tableSector) Q (Disk.clean D) := by
  have hgen1 : (store.currentGeneration + 1).toNat = store.currentGeneration.toNat + 1 :=
    toNat_add_one (by omega)
  have hgen0 : store.currentGeneration + 1 ≠ 0 := by
    intro h0
    rw [h0] at hgen1
    simp at hgen1
  have hgen1' : (store.currentGeneration + 1).toNat + 1 ≤ store.superblockSequence.toNat := by
    omega
  have hvalid : objectWalValidate (store.adopt table tableSector).root.wal.sector = true :=
    ObjectWalRecord.objectWalValidate_sector (Root.wal_valid hnew hgen0)
  have hsnapshots : store.snapshots = sb.snapshots := (congrArg Root.snapshots hroot).symm
  -- the disk with the new root in the log
  have hsb1 := hsb.log (store.adopt table tableSector).root.wal.sector
  have hge1 := log_of_ge (D := D) (b := (store.adopt table tableSector).root.wal.sector)
  have hlog1 : Function.update D objectStoreWalSector.toNat
      (store.adopt table tableSector).root.wal.sector 2 = _ := Function.update_self _ _ _
  generalize hD1 : Function.update D objectStoreWalSector.toNat
      (store.adopt table tableSector).root.wal.sector = D1 at hsb1 hge1 hlog1
  unfold publishTable
  dsimp only
  rw [wp_bind, writeWalRoot]
  change wp _ _ (if (!objectWalValidate (store.adopt table tableSector).root.wal.sector) = true
    then _ else writeAll [(objectStoreWalSector.toNat,
      (store.adopt table tableSector).root.wal.sector)]) _ _
  rw [hvalid, wp_unless_true]
  apply wp_writeOne_clean
  · exact hP D (fun _ _ => rfl) (Or.inl ⟨_, _, hsb.1, by rw [hsb.2], hnext ▸ hold,
      Or.inl ⟨hwal, hroot.symm, by rw [hsb.2]; exact hgen⟩⟩)
  · rw [hD1]
    exact hP D1 hge1 (Or.inr ⟨_, Nat.le_succ _, _, _, hsb1.1, by rw [hsb1.2],
      hnext ▸ hnew.of_reserved hge1, Or.inr ⟨hlog1, hsnapshots, hgen0, by
        rw [hsb1.2]
        exact hgen1'⟩⟩)
  rw [hD1, wp_unless_true]
  refine wp_completeLog_clean (store.adopt table tableSector) hsb1 hlog1 hsnapshots hnext
    hgen0 hgen1' hseq (hnew.of_reserved hge1) ?_ ?_
  · intro D' hD' j hj hm
    exact hP D' (fun s hs => (hD' s hs).trans (hge1 s hs)) (Or.inr ⟨j, hj, hm⟩)
  · intro D' hD' hlog hsb'
    rw [wp_pure]
    exact hQ D' (fun s hs => (hD' s hs).trans (hge1 s hs)) hlog hsb'

end Clean

end Jani
