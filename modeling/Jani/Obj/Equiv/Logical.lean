import Jani.Obj.Equiv.Rebuild

/-!
# The logical state of a disk

What a mounted store means: the objects of the current table with the sectors they occupy, the
generation number, and the retained snapshots with their objects (`LogicalState`).  It is
determined by the root of the store (`Root`): the place of the current table, the generation and
the snapshot slots.

`RootOn` says that everything a root refers to is on disk, below a given end.  Both it and the
logical state depend only on the sectors that the root refers to (`RootOn.frame`,
`Root.logical_frame`).
-/

namespace Jani

open ObjectTable (Sorted)

/-! ### Objects -/

/-- The sectors of an object. -/
def extentOn (V : Content) (e : ObjectTableEntry) : List Sector :=
  (List.range e.sectorCount.toNat).map fun i => V (e.firstSector.toNat + i)

/-- The entries of a table, each with the sectors of its object. -/
def objectsOn (V : Content) (entries : List ObjectTableEntry) :
    List (ObjectTableEntry × List Sector) :=
  entries.map fun e => (e, extentOn V e)

/-- The objects of a snapshot; a free slot has none. -/
def slotObjects (io : ObjectStoreIo) (capacity : UInt64) (V : Content) (s : ObjectStoreSnapshot) :
    List (ObjectTableEntry × List Sector) :=
  if s.id = 0 then [] else objectsOn V ((tableOn io V capacity s.tableSector s.tableCount).getD [])

structure LogicalState where
  objects : List (ObjectTableEntry × List Sector)
  generation : UInt64
  snapshots : Snapshots
  /-- the objects of each retained snapshot; empty for a free slot -/
  snapshotObjects : Fin objectStoreSnapshotLimit → List (ObjectTableEntry × List Sector)

/-- The logical state of a mounted store. -/
def logicalState (store : ObjectStore) (V : Content) : LogicalState where
  objects := objectsOn V store.table.entries
  generation := store.currentGeneration
  snapshots := store.snapshots
  snapshotObjects i := slotObjects store.io store.tableCapacity V (store.snapshots i)

/-! ### Roots -/

structure Root where
  tableSector : UInt64
  tableCount : UInt64
  generation : UInt64
  snapshots : Snapshots

def ObjectStore.root (store : ObjectStore) : Root :=
  ⟨store.currentTableSector, UInt64.ofNat store.table.count, store.currentGeneration,
    store.snapshots⟩

def DiskSuperblock.root (sb : DiskSuperblock) : Root :=
  ⟨sb.currentTableSector, sb.currentTableCount, sb.currentGeneration, sb.snapshots⟩

/-- The logical state of a root on a disk. -/
def Root.logical (io : ObjectStoreIo) (capacity : UInt64) (V : Content) (root : Root) :
    LogicalState where
  objects := objectsOn V ((tableOn io V capacity root.tableSector root.tableCount).getD [])
  generation := root.generation
  snapshots := root.snapshots
  snapshotObjects i := slotObjects io capacity V (root.snapshots i)

/-- The table generation is on disk, and it and its objects end before `next`. -/
structure GenerationOn (io : ObjectStoreIo) (capacity : UInt64) (V : Content) (next : Nat)
    (tableSector tableCount : UInt64) (entries : List ObjectTableEntry) : Prop where
  onDisk : tableOn io V capacity tableSector tableCount = some entries
  zero : tableCount = 0 → tableSector = 0
  tableEnd : tableCount ≠ 0 → tableSector.toNat + tableCount.toNat ≤ next
  extents : ∀ e ∈ entries, 3 ≤ e.firstSector.toNat ∧
    e.firstSector.toNat + e.sectorCount.toNat ≤ next

/-- Everything the root refers to is on disk, before `next`; the identifiers of the snapshots are
distinct and not beyond the generation. -/
structure RootOn (io : ObjectStoreIo) (capacity : UInt64) (V : Content) (next : Nat)
    (root : Root) : Prop where
  next_ge : 3 ≤ next
  next_le : next ≤ io.sectorCount.toNat
  current : ∃ entries, GenerationOn io capacity V next root.tableSector root.tableCount entries
  snapshots : ∀ i, (root.snapshots i).id ≠ 0 → (root.snapshots i).tableCount ≠ 0 ∧
    ∃ entries, GenerationOn io capacity V next (root.snapshots i).tableSector
      (root.snapshots i).tableCount entries
  ids_inj : ∀ i j, (root.snapshots i).id ≠ 0 → (root.snapshots i).id = (root.snapshots j).id →
    i = j
  ids_le : ∀ i, (root.snapshots i).id.toNat ≤ root.generation.toNat

/-- The sectors a root refers to. -/
def RootRefers (io : ObjectStoreIo) (capacity : UInt64) (V : Content) (root : Root)
    (u : UInt64) : Prop :=
  GenerationRefers ((tableOn io V capacity root.tableSector root.tableCount).getD [])
      root.tableSector root.tableCount u ∨
    ∃ i, (root.snapshots i).id ≠ 0 ∧
      GenerationRefers ((tableOn io V capacity (root.snapshots i).tableSector
        (root.snapshots i).tableCount).getD []) (root.snapshots i).tableSector
        (root.snapshots i).tableCount u

/-! ### Frame -/

section Frame

variable {io : ObjectStoreIo} {capacity : UInt64} {V V' : Content} {next : Nat}

variable {entries : List ObjectTableEntry} {tableSector tableCount : UInt64}

theorem GenerationOn.mono {next' : Nat} (hle : next ≤ next')
    (h : GenerationOn io capacity V next tableSector tableCount entries) :
    GenerationOn io capacity V next' tableSector tableCount entries :=
  ⟨h.onDisk, h.zero, fun hne => (h.tableEnd hne).trans hle,
    fun e he => ⟨(h.extents e he).1, (h.extents e he).2.trans hle⟩⟩

theorem extentOn_congr {e : ObjectTableEntry}
    (hend : e.firstSector.toNat + e.sectorCount.toNat ≤ 2 ^ 64)
    (hV : ∀ u : UInt64, InExtent e.firstSector e.sectorCount u → V' u.toNat = V u.toNat) :
    extentOn V' e = extentOn V e := by
  unfold extentOn
  apply List.map_congr_left
  intro i hi
  rw [List.mem_range] at hi
  have hu : (UInt64.ofNat (e.firstSector.toNat + i)).toNat = e.firstSector.toNat + i :=
    UInt64.toNat_ofNat_of_lt' (show _ < 2 ^ 64 by omega)
  have := hV (UInt64.ofNat (e.firstSector.toNat + i)) (by
    rw [inExtent_iff hend, hu]
    omega)
  rwa [hu] at this

theorem GenerationOn.frame (h : GenerationOn io capacity V next tableSector tableCount entries)
    (hV : ∀ u : UInt64, GenerationRefers entries tableSector tableCount u →
      V' u.toNat = V u.toNat) :
    GenerationOn io capacity V' next tableSector tableCount entries := by
  refine ⟨?_, h.zero, h.tableEnd, h.extents⟩
  rw [tableOn_congr fun t ht => hV t (Or.inl ht)]
  exact h.onDisk

section

variable (hnext : next ≤ io.sectorCount.toNat)
  (h : GenerationOn io capacity V next tableSector tableCount entries)

include hnext h

theorem GenerationOn.objectsOn_frame
    (hV : ∀ u : UInt64, GenerationRefers entries tableSector tableCount u →
      V' u.toNat = V u.toNat) : objectsOn V' entries = objectsOn V entries := by
  have hn := io.sectorCount.toNat_lt
  unfold objectsOn
  apply List.map_congr_left
  intro e he
  have hend := (h.extents e he).2
  rw [extentOn_congr (by omega) fun u hu => hV u (Or.inr ⟨e, he, hu⟩)]

theorem GenerationOn.bounds {u : UInt64} (hu : GenerationRefers entries tableSector tableCount u) :
    3 ≤ u.toNat ∧ u.toNat < next := by
  have hn := io.sectorCount.toNat_lt
  rcases hu with hu | ⟨e, he, hu⟩
  · have hcount : tableCount ≠ 0 := by
      rintro rfl
      exact not_inExtent_zero _ _ hu
    have hend := h.tableEnd hcount
    have h3 := (tableOn_shape h.onDisk).2.2.1 hcount
    rw [inExtent_iff (by omega)] at hu
    omega
  · obtain ⟨h3, hend⟩ := h.extents e he
    rw [inExtent_iff (by omega)] at hu
    omega

end

variable {root : Root}

theorem RootOn.mono {next' : Nat} (hle : next ≤ next') (hle' : next' ≤ io.sectorCount.toNat)
    (h : RootOn io capacity V next root) : RootOn io capacity V next' root :=
  ⟨h.next_ge.trans hle, hle', h.current.imp fun _ hc => hc.mono hle,
    fun i hi => ⟨(h.snapshots i hi).1, (h.snapshots i hi).2.imp fun _ hc => hc.mono hle⟩,
    h.ids_inj, h.ids_le⟩

variable (h : RootOn io capacity V next root)

include h

theorem RootOn.current_getD : GenerationOn io capacity V next root.tableSector root.tableCount
      ((tableOn io V capacity root.tableSector root.tableCount).getD []) := by
  obtain ⟨entries, hc⟩ := h.current
  rw [hc.onDisk]
  exact hc

theorem RootOn.snapshot_getD {i : Fin objectStoreSnapshotLimit} (hi : (root.snapshots i).id ≠ 0) :
    GenerationOn io capacity V next (root.snapshots i).tableSector (root.snapshots i).tableCount
      ((tableOn io V capacity (root.snapshots i).tableSector
        (root.snapshots i).tableCount).getD []) := by
  obtain ⟨-, entries, hc⟩ := h.snapshots i hi
  rw [hc.onDisk]
  exact hc

theorem RootOn.bounds {u : UInt64} (hu : RootRefers io capacity V root u) :
    3 ≤ u.toNat ∧ u.toNat < next := by
  rcases hu with hu | ⟨i, hi, hu⟩
  · exact h.current_getD.bounds h.next_le hu
  · exact (h.snapshot_getD hi).bounds h.next_le hu

/-- **Frame**: a root depends only on the sectors it refers to. -/
theorem RootOn.frame (hV : ∀ u : UInt64, RootRefers io capacity V root u → V' u.toNat = V u.toNat) :
    RootOn io capacity V' next root := by
  refine ⟨h.next_ge, h.next_le, ⟨_, h.current_getD.frame fun u hu => hV u (Or.inl hu)⟩, ?_,
    h.ids_inj, h.ids_le⟩
  intro i hi
  exact ⟨(h.snapshots i hi).1, _,
    (h.snapshot_getD hi).frame fun u hu => hV u (Or.inr ⟨i, hi, hu⟩)⟩

/-- **Frame**: so does its logical state. -/
theorem Root.logical_frame
    (hV : ∀ u : UInt64, RootRefers io capacity V root u → V' u.toNat = V u.toNat) :
    root.logical io capacity V' = root.logical io capacity V := by
  have hcur := h.current_getD
  have hcurV : ∀ u : UInt64, GenerationRefers _ root.tableSector root.tableCount u →
    V' u.toNat = V u.toNat := fun u hu => hV u (Or.inl hu)
  unfold Root.logical
  rw [(hcur.frame hcurV).onDisk, Option.getD_some, hcur.objectsOn_frame h.next_le hcurV]
  congr 1
  funext i
  unfold slotObjects
  split_ifs with hi
  · rfl
  · have hsnap := h.snapshot_getD hi
    have hsnapV : ∀ u : UInt64, GenerationRefers _ (root.snapshots i).tableSector
      (root.snapshots i).tableCount u → V' u.toNat = V u.toNat :=
      fun u hu => hV u (Or.inr ⟨i, hi, hu⟩)
    rw [(hsnap.frame hsnapV).onDisk, Option.getD_some, hsnap.objectsOn_frame h.next_le hsnapV]

end Frame

theorem logicalState_eq {store : ObjectStore} {V : Content}
    (h : tableOn store.io V store.tableCapacity store.currentTableSector
      (UInt64.ofNat store.table.count) = some store.table.entries) :
    logicalState store V = store.root.logical store.io store.tableCapacity V := by
  unfold logicalState Root.logical ObjectStore.root
  rw [h]
  rfl

end Jani
