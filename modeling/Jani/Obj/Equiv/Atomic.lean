import Jani.Obj.Equiv.LogicalStep
import Jani.Obj.Equiv.Mounted
import Jani.Obj.Equiv.ObjectBytes

/-!
# Operations are atomic

Every operation of a mounted store, on a device that works, ends in a mounted store whose logical
state is as `StoreOp.Effect` says, and every disk that a power cut may leave on the way mounts
with the state before the operation or with the state after it (`Atomic`, `op_atomic`).  A prune
is a sequence of discards, so that a power cut may also leave a state between two of them.

The one assumption is that the sequence number of the superblock does not wrap around: the store
does not check it.
-/

namespace Jani

open ObjectTable (Sorted)

/-! ### Atomic operations -/

/-- What a completed operation does to the cache. -/
def StoreOp.CacheEffect (store : ObjectStore) (D : Content) :
    StoreOp → StoreResult → ObjectCache → Prop
  | .putMany [r], .batch .committed, cache =>
    cache = (cacheInsert store.cache r.id (nextVersion store r.id)
      (putBytes r (nextVersion store r.id))).2
  | .delete id, .flag true, cache => cache = cacheRemoveObject store.cache id
  | .get id, _, cache => cache = (getOn store D id).2
  | _, _, cache => cache = store.cache

/-- The store is mounted again, with the same device and capacities, after at most so many
superblock writes. -/
structure Reaches (store : ObjectStore) (writes : Nat) (store' : ObjectStore) (D' : Content) :
    Prop where
  mounted : Mounted store' D'
  io_eq : store'.io = store.io
  tableCapacity_eq : store'.tableCapacity = store.tableCapacity
  cacheCapacity_eq : store'.cacheCapacity = store.cacheCapacity
  sequence_le : store'.superblockSequence.toNat ≤ store.superblockSequence.toNat + writes

/-- The outcome of an operation on a device that works. -/
structure Stepped (store : ObjectStore) (D : Content) (op : StoreOp)
    (r : StoreResult × ObjectStore) (D' : Content) : Prop
    extends Reaches store (op.superblockWrites store.snapshots) r.2 D' where
  effect : op.Effect r.1 (logicalState store D) (logicalState r.2 D')
  cache : op.CacheEffect store D r.1 r.2.cache

/-- The operation ends as it should, and a power cut on the way leaves one of the states that
`StoreOp.Cut` allows. -/
def Atomic (store : ObjectStore) (D : Content) (op : StoreOp) : Prop :=
  ∃ L', wp Faults.none
    (crashInv fun D' => ∃ M, op.Cut (logicalState store D) L' M ∧
      Recoverable store.io store.tableCapacity D' M
        (store.superblockSequence.toNat + op.superblockWrites store.snapshots))
    (op.prog store)
    (fun r d' => ∃ D', d' = Disk.clean D' ∧ Stepped store D op r D' ∧ logicalState r.2 D' = L')
    (Disk.clean D)

theorem wp_wrapResult_iff {m : Faults} {I : Event Sector → Disk Sector → Prop} {α : Type}
    {wrap : α → StoreResult} {p : StoreProg (α × ObjectStore)}
    {Q : StoreResult × ObjectStore → Disk Sector → Prop} {d : Disk Sector} :
    wp m I (wrapResult wrap p) Q d ↔ wp m I p (fun r d' => Q (wrap r.1, r.2) d') d := by
  rw [wrapResult, wp_bind]
  simp only [wp_pure]

theorem run_wrapResult {α : Type} (wrap : α → StoreResult) (p : StoreProg (α × ObjectStore))
    (d : Disk Sector) : run (wrapResult wrap p) d =
      ((wrap (run p d).1.1, (run p d).1.2), (run p d).2) := by
  rw [wrapResult, run_bind]
  rfl

variable {store store' : ObjectStore} {D : Content}

theorem atomic_of_pure {op : StoreOp} (r : StoreResult) (h : Mounted store D)
    (hprog : op.prog store = pure (r, store))
    (heffect : op.Effect r (logicalState store D) (logicalState store D))
    (hcache : op.CacheEffect store D r store.cache) : Atomic store D op := by
  refine ⟨logicalState store D, ?_⟩
  rw [hprog, wp_pure]
  exact ⟨D, rfl, ⟨⟨h, rfl, rfl, rfl, Nat.le_add_right _ _⟩, heffect, hcache⟩, rfl⟩

theorem Reaches.withCache {writes : Nat} {D' : Content} (h : Reaches store writes store' D')
    (cache : ObjectCache) : Reaches store writes { store' with cache := cache } D' :=
  ⟨⟨h.mounted.ready, h.mounted.capacity, h.mounted.superblock, h.mounted.log, h.mounted.root,
    h.mounted.coverage, h.mounted.sequence⟩, h.io_eq, h.tableCapacity_eq, h.cacheCapacity_eq,
    h.sequence_le⟩

theorem Mounted.sameMarks (h : Mounted store D) (hsame : SameMarks store store') :
    Mounted store' D := by
  rw [hsame.eq]
  refine ⟨h.ready, h.capacity, h.superblock, h.log, h.root, ?_, h.sequence⟩
  exact h.coverage.mono hsame.length_eq fun t ht => (hsame.marks t).trans ht

/-! ### Extents -/

section Extents

variable {n : UInt64} {bitmap : List UInt8} {firstSector count : UInt64} {bs : List Sector}
  {D D' : Content}

theorem Allocated.untouched (h : Allocated n bitmap count firstSector)
    (hlen : bs.length = count.toNat)
    (hD : ∀ s, D' s = D s ∨ (s, D' s) ∈ sectorWrites firstSector bs) : Untouched n bitmap D D' := by
  have hn := n.toNat_lt
  have hfirst := h.first
  have hlast := h.last
  have hend : firstSector.toNat + bs.length ≤ 2 ^ 64 := by omega
  constructor
  · intro s hs
    rcases hD s with heq | hmem
    · exact heq
    · have := (mem_sectorWrites_bounds hend hmem).1
      dsimp only at this
      omega
  · intro t _ hmark _
    rcases hD t.toNat with heq | hmem
    · exact heq
    · have hb := mem_sectorWrites_bounds hend hmem
      rw [hlen] at hb
      rw [h.free t ((inExtent_iff (by omega)).mpr hb)] at hmark
      cases hmark

theorem extentOn_applyWrites {e : ObjectTableEntry}
    (hend : e.firstSector.toNat + e.sectorCount.toNat ≤ 2 ^ 64)
    (hlen : bs.length = e.sectorCount.toNat) (D : Content) :
    extentOn (applyWrites D (sectorWrites e.firstSector bs)) e = bs := by
  have hend' : e.firstSector.toNat + bs.length ≤ 2 ^ 64 := by omega
  apply List.ext_getElem
  · rw [extentOn, List.length_map, List.length_range, hlen]
  intro i hi hi'
  have hmem : (e.firstSector.toNat + i, bs[i]) ∈ sectorWrites e.firstSector bs := by
    rw [sectorWrites_eq bs e.firstSector hend', List.mem_iff_getElem]
    refine ⟨i, by simpa using hi', ?_⟩
    simp
  have := applyWrites_sectorWrites_of_mem hend' D hmem
  simpa [extentOn] using this

end Extents

/-! ### The objects of a put -/

/-- The disk after the objects of a put were written. -/
def objectsWritten : List ObjectStoreStagedPut → Content → Content
  | [], D => D
  | s :: rest, D => objectsWritten rest
    (applyWrites D (sectorWrites s.firstSector (objectSectors (putBytes s.request s.version))))

section Objects

variable {n : UInt64} {bitmap : List UInt8} {store : ObjectStore} {P : Content → Prop}

variable {s : ObjectStoreStagedPut}

theorem StagedOk.transfer (h : StagedOk store s) (hcap : store'.cacheCapacity = store.cacheCapacity)
    (htable : store'.table = store.table) : StagedOk store' s := by
  refine ⟨h.id_ne, h.typeId_ne, ?_, ?_, h.version_ne, h.byteCount_eq, h.sectorCount_eq,
    h.sectorCount_ne⟩
  · rw [hcap]
    exact h.fits
  · rw [h.version_eq, nextVersion, nextVersion, htable]

theorem StagedOk.length_objectSectors (h : StagedOk store s) :
    (objectSectors (putBytes s.request s.version)).length = s.sectorCount.toNat := by
  rw [Jani.length_objectSectors, length_putBytes, h.sectorCount_toNat, h.byteCount_eq]

theorem objectStorePreparePutBytes_some (h : StagedOk store s) :
    objectStorePreparePutBytes store s = some (putBytes s.request s.version) := by
  have hfits := h.fits
  have hcap := store.cacheCapacity.toNat_lt
  have hvalid : objectHeaderValidate (putBytes s.request s.version) = true := by
    have := objectHeaderValidate_putBytes [] h.id_ne h.typeId_ne h.version_ne (by omega)
    rwa [List.append_nil] at this
  unfold objectStorePreparePutBytes
  rw [if_neg]
  · dsimp only
    rw [if_pos hvalid]
  · rw [h.byteCount_eq]
    rintro (h0 | h1 | h2)
    · exact h.version_ne h0
    · omega
    · omega

theorem objectsWritten_of_notMem : ∀ (staged : List ObjectStoreStagedPut)
    (D : Content) (t : UInt64),
    (∀ s ∈ staged, StagedOk store s) →
    (∀ s ∈ staged, Allocated n bitmap s.sectorCount s.firstSector) →
    (∀ s ∈ staged, ¬ InExtent s.firstSector s.sectorCount t) →
    objectsWritten staged D t.toNat = D t.toNat
  | [], _, _, _, _, _ => rfl
  | s :: rest, D, t, hok, halloc, ht => by
    have hn := n.toNat_lt
    have hlast := (halloc s List.mem_cons_self).last
    have hlen := (hok s List.mem_cons_self).length_objectSectors
    have hnot := ht s List.mem_cons_self
    rw [inExtent_iff (by omega)] at hnot
    rw [objectsWritten, objectsWritten_of_notMem rest _ t
      (fun r hr => hok r (List.mem_cons_of_mem _ hr))
      (fun r hr => halloc r (List.mem_cons_of_mem _ hr))
      (fun r hr => ht r (List.mem_cons_of_mem _ hr))]
    exact applyWrites_sectorWrites_of_notMem (by omega) D (by omega)

theorem objectsWritten_untouched : ∀ (staged : List ObjectStoreStagedPut) (D : Content),
    (∀ s ∈ staged, StagedOk store s) →
    (∀ s ∈ staged, Allocated n bitmap s.sectorCount s.firstSector) →
    Untouched n bitmap D (objectsWritten staged D)
  | [], D, _, _ => Untouched.refl n bitmap D
  | s :: rest, D, hok, halloc => by
    refine Untouched.trans ?_ (objectsWritten_untouched rest _
      (fun r hr => hok r (List.mem_cons_of_mem _ hr))
      (fun r hr => halloc r (List.mem_cons_of_mem _ hr)))
    exact (halloc s List.mem_cons_self).untouched
      (hok s List.mem_cons_self).length_objectSectors (applyWrites_cases _ D)

/-- **The objects of a put are on disk** after they were written: the extents are disjoint. -/
theorem extentOn_objectsWritten : ∀ (staged : List ObjectStoreStagedPut) (D : Content),
    (∀ s ∈ staged, StagedOk store s) →
    (∀ s ∈ staged, Allocated n bitmap s.sectorCount s.firstSector) →
    staged.Pairwise (fun s r => ∀ t, InExtent s.firstSector s.sectorCount t →
      ¬ InExtent r.firstSector r.sectorCount t) →
    ∀ s ∈ staged, extentOn (objectsWritten staged D) s.entry =
      objectSectors (putBytes s.request s.version)
  | s :: rest, D, hok, halloc, hdisj, r, hr => by
    rw [List.pairwise_cons] at hdisj
    have hok' : ∀ r ∈ rest, StagedOk store r := fun r hr => hok r (List.mem_cons_of_mem _ hr)
    have halloc' : ∀ r ∈ rest, Allocated n bitmap r.sectorCount r.firstSector :=
      fun r hr => halloc r (List.mem_cons_of_mem _ hr)
    rw [objectsWritten]
    rcases List.mem_cons.mp hr with rfl | hr
    · have hn := n.toNat_lt
      have hlast := (halloc r List.mem_cons_self).last
      have hend : r.entry.firstSector.toNat + r.entry.sectorCount.toNat ≤ 2 ^ 64 := by
        change r.firstSector.toNat + r.sectorCount.toNat ≤ 2 ^ 64
        omega
      rw [extentOn_congr hend fun u hu =>
        objectsWritten_of_notMem rest _ u hok' halloc' fun s hs => hdisj.1 s hs u hu]
      exact extentOn_applyWrites hend (hok r List.mem_cons_self).length_objectSectors D
    · exact extentOn_objectsWritten rest _ hok' halloc' hdisj.2 r hr

theorem wp_writeStaged_clean : ∀ (staged : List ObjectStoreStagedPut) (D : Content)
    (Q : Bool → Disk Sector → Prop), (∀ s ∈ staged, StagedOk store s) →
    (∀ s ∈ staged, Allocated n bitmap s.sectorCount s.firstSector) →
    (∀ D', Untouched n bitmap D D' → P D') → Q true (Disk.clean (objectsWritten staged D)) →
    wp Faults.none (crashInv P) (writeStaged store staged) Q (Disk.clean D)
  | [], D, Q, _, _, _, hQ => by
    rw [writeStaged, wp_pure]
    exact hQ
  | s :: rest, D, Q, hok, halloc, hP, hQ => by
    have hlen := (hok s List.mem_cons_self).length_objectSectors
    have hal := halloc s List.mem_cons_self
    have hne : (putBytes s.request s.version).length ≠ 0 := by
      rw [length_putBytes, objectHeaderSize]
      omega
    rw [writeStaged, objectStorePreparePutBytes_some (hok s List.mem_cons_self)]
    dsimp only
    rw [wp_bind, writeObjectBytes, if_neg hne]
    apply wp_writeAll_clean
    · exact fun D' hD' => hP D' (hal.untouched hlen hD')
    rw [wp_unless_true]
    apply wp_writeStaged_clean rest _ Q (fun r hr => hok r (List.mem_cons_of_mem _ hr))
      (fun r hr => halloc r (List.mem_cons_of_mem _ hr)) _ hQ
    intro D' hD'
    exact hP D' ((hal.untouched hlen (applyWrites_cases _ D)).trans hD')

/-- The disk after a table was written. -/
def tableWritten (table : ObjectTable) (tableSector : UInt64) (D : Content) : Content :=
  applyWrites D (sectorWrites tableSector (table.entries.map tableEntrySector))

variable {table : ObjectTable} {tableSector : UInt64} {D : Content}

section

variable (hcount : table.count ≤ store.tableCapacity.toNat)

include hcount

theorem length_map_tableEntrySector :
    (table.entries.map tableEntrySector).length = (UInt64.ofNat table.count).toNat := by
  rw [List.length_map, toNat_ofNat_of_le hcount]
  rfl

theorem tableOn_tableWritten (hsorted : Sorted table.entries)
    (hvalid : ∀ e ∈ table.entries, e.Valid)
    (hal : Allocated store.io.sectorCount bitmap (UInt64.ofNat table.count) tableSector)
    (D : Content) :
    tableOn store.io (tableWritten table tableSector D) store.tableCapacity tableSector
      (UInt64.ofNat table.count) = some table.entries := by
  have hn := store.io.sectorCount.toNat_lt
  have hlast := hal.last
  rw [toNat_ofNat_of_le hcount] at hlast
  apply tableOn_of_stored hcount hal.first hlast hsorted hvalid
  intro w hw
  apply applyWrites_sectorWrites_of_mem _ _ hw
  rw [List.length_map]
  change tableSector.toNat + table.count ≤ 2 ^ 64
  omega

theorem tableWritten_untouched (hal : Allocated n bitmap (UInt64.ofNat table.count) tableSector)
    (D : Content) : Untouched n bitmap D (tableWritten table tableSector D) :=
  hal.untouched (length_map_tableEntrySector hcount) (applyWrites_cases _ D)

end

theorem wp_writeTableGeneration_clean {Q : Bool → Disk Sector → Prop}
    (hcap : table.capacity = store.tableCapacity) (hcount : table.count ≤ store.tableCapacity.toNat)
    (hal : Allocated store.io.sectorCount bitmap (UInt64.ofNat table.count) tableSector)
    (hP : ∀ D', Untouched store.io.sectorCount bitmap D D' → P D')
    (hQ : Q true (Disk.clean (tableWritten table tableSector D))) :
    wp Faults.none (crashInv P) (writeTableGeneration store table tableSector) Q
      (Disk.clean D) := by
  have hnat := toNat_ofNat_of_le hcount
  have hpos := hal.pos
  have hfirst := hal.first
  have hlast := hal.last
  rw [hnat] at hpos hlast
  have hsub : (store.io.sectorCount - tableSector).toNat =
      store.io.sectorCount.toNat - tableSector.toNat := by
    rw [UInt64.toNat_sub_of_le]
    rw [UInt64.le_iff_toNat_le]
    omega
  unfold writeTableGeneration
  rw [if_neg]
  · apply wp_writeAll_clean _ _ hQ
    exact fun D' hD' => hP D' (hal.untouched (length_map_tableEntrySector hcount) hD')
  · rw [hcap, hsub]
    rintro (h | h | h | h)
    · omega
    · omega
    · have : tableSector.toNat < 3 := UInt64.lt_iff_toNat_lt.mp h
      omega
    · omega

end Objects

/-! ### Allocations -/

/-- The store with its allocations. -/
def ObjectStore.allocate (store : ObjectStore) (bitmap : List UInt8) (nextSector : UInt64) :
    ObjectStore :=
  { store with bitmap := bitmap, nextSector := nextSector }

variable {Q : Bool × ObjectStore → Disk Sector → Prop} {bitmap : List UInt8}
variable {nextSector tableSector : UInt64} {P : Content → Prop}

theorem Mounted.agree_of_untouched {D1 D3 : Content} (h : Mounted store D)
    (hD1 : ∀ s, 3 ≤ s → D1 s = D s) (hD3 : Untouched store.io.sectorCount store.bitmap D1 D3)
    (u : UInt64) (hu : RootRefers store.io store.tableCapacity D store.root u) :
    D3 u.toNat = D u.toNat := by
  obtain ⟨hmark, h3⟩ := h.coverage.marked_of_rootRefers hu
  have hlt := (h.root.bounds hu).2
  have hle := h.root.next_le
  rw [hD3.kept u h3 hmark (by omega), hD1 _ h3]

/-- The disk on which the new table of a plan is published. -/
def planDisk (store : ObjectStore) (D : Content) (staged : List ObjectStoreStagedPut)
    (candidate : ObjectTable) (tableSector : UInt64) : Content :=
  let written := objectsWritten staged (superblockWritten store D)
  if candidate.count = 0 then written else tableWritten candidate tableSector written

theorem planDisk_of_ne {staged : List ObjectStoreStagedPut} {candidate : ObjectTable}
    (h : candidate.count ≠ 0) : planDisk store D staged candidate tableSector =
      tableWritten candidate tableSector (objectsWritten staged (superblockWritten store D)) :=
  if_neg h

/-- The logical state that a plan publishes. -/
def planState (store : ObjectStore) (D : Content) (bitmap : List UInt8) (nextSector : UInt64)
    (staged : List ObjectStoreStagedPut) (candidate : ObjectTable) (tableSector : UInt64) :
    LogicalState :=
  logicalState (store.adopt candidate tableSector)
    (planDisk (store.allocate bitmap nextSector) D staged candidate tableSector)

/-- While only sectors are written that the store had not marked, `P` holds, and the store with its
allocations is mounted in the old state. -/
def StaysMounted (store : ObjectStore) (D : Content) (bitmap : List UInt8) (nextSector : UInt64)
    (P : Content → Prop) : Prop :=
  ∀ D', Untouched store.io.sectorCount store.bitmap
      (superblockWritten (store.allocate bitmap nextSector) D) D' →
    P D' ∧ Coverage True store D' ∧ Mounted (store.allocate bitmap nextSector).advance D' ∧
      logicalState (store.allocate bitmap nextSector).advance D' = logicalState store D

/-- `P` holds of every disk that recovers to the state before or to the one after, and `Q` at the
end. -/
structure Accepts (store : ObjectStore) (L L' : LogicalState) (P : Content → Prop)
    (Q : ObjectStore → Disk Sector → Prop) : Prop where
  before : ∀ D', Recoverable store.io store.tableCapacity D' L
    (store.superblockSequence.toNat + 2) → P D'
  after : ∀ D', Recoverable store.io store.tableCapacity D' L'
    (store.superblockSequence.toNat + 2) → P D'
  done : ∀ store' D', Reaches store 2 store' D' → store'.cache = store.cache →
    logicalState store' D' = L' → Q store' (Disk.clean D')

section Plan

variable {staged : List ObjectStoreStagedPut} {replaced : List ObjectId} {candidate : ObjectTable}
  {L' : LogicalState} {R : ObjectStore → Disk Sector → Prop}
  (hplan : TablePlan store staged replaced bitmap nextSector candidate tableSector)
  (h : Mounted store D) (hseq : store.superblockSequence.toNat + 2 < 2 ^ 64)

include hplan

theorem TablePlan.untouched (store' : ObjectStore) :
    Untouched store.io.sectorCount store.bitmap (superblockWritten store' D)
      (planDisk store' D staged candidate tableSector) := by
  have hwritten := objectsWritten_untouched staged (superblockWritten store' D) hplan.staged_ok
    hplan.allocated
  unfold planDisk
  dsimp only
  split_ifs with hzero
  · exact hwritten
  · exact hwritten.trans (tableWritten_untouched hplan.count_le (hplan.tableAllocated hzero) _)

include h

theorem TablePlan.onDisk (store' : ObjectStore) :
    tableOn store.io (planDisk store' D staged candidate tableSector) store.tableCapacity
      tableSector (UInt64.ofNat candidate.count) = some candidate.entries := by
  unfold planDisk
  dsimp only
  split_ifs with hzero
  · rw [hzero, List.length_eq_zero_iff.mp hzero]
    exact tableOn_zero _
  · exact tableOn_tableWritten hplan.count_le hplan.sorted (hplan.valid h.coverage.valid)
      (hplan.tableAllocated hzero) _

/-- The new table, once it is on disk, refers only to sectors before the end of the used area. -/
theorem TablePlan.generationOn {V : Content}
    (htable : tableOn store.io V store.tableCapacity tableSector (UInt64.ofNat candidate.count) =
      some candidate.entries) :
    GenerationOn store.io store.tableCapacity V nextSector.toNat tableSector
      (UInt64.ofNat candidate.count) candidate.entries := by
  have hnat := toNat_ofNat_of_le hplan.count_le
  refine ⟨htable, ?_, ?_, ?_⟩
  · intro h0
    apply hplan.zero
    rw [← hnat, h0]
    rfl
  · intro hne
    rw [hnat]
    apply hplan.tableEnd
    intro h0
    rw [h0] at hne
    exact hne rfl
  · intro e he
    rcases (hplan.mem_iff e).mp he with ⟨s, hs, rfl⟩ | ⟨he, -⟩
    · exact ⟨(hplan.allocated s hs).first, hplan.ends s hs⟩
    · exact ⟨(h.entry_end he).1, (h.entry_end he).2.trans hplan.next_le⟩

include hseq

/-- The superblock with the new end of the used area, which puts and deletes write first.  After
it, sectors that the store had not marked can be written: the old root stays in place. -/
theorem wp_writeSuperblock_allocate (haccepts : Accepts store (logicalState store D) L' P R)
    (hQ : StaysMounted store D bitmap nextSector P →
      Q (true, (store.allocate bitmap nextSector).advance)
        (Disk.clean (superblockWritten (store.allocate bitmap nextSector) D))) :
    wp Faults.none (crashInv P) (writeSuperblock (store.allocate bitmap nextSector)) Q
      (Disk.clean D) := by
  have hgen := h.sequence
  have hseq1 : (store.allocate bitmap nextSector).superblockSequence.toNat + 1 < 2 ^ 64 :=
    Nat.lt_of_succ_lt hseq
  have hcov : ∀ V, Coverage True store V → Coverage True (store.allocate bitmap nextSector) V :=
    fun V hV => hplan.coverage_grow hV
  have hold : ∀ D', Recoverable store.io store.tableCapacity D' (logicalState store D)
      (store.superblockSequence.toNat + 1) → P D' :=
    fun D' hD' => haccepts.before D' (hD'.mono (Nat.le_succ _))
  apply wp_writeSuperblock_mounted (store.allocate bitmap nextSector) h rfl rfl rfl rfl hseq1
    (h.root.mono hplan.next_le (hplan.next_in h.root.next_le)) (hcov D h.coverage) h.ready
    h.capacity (show store.currentGeneration.toNat + 1 ≤ store.superblockSequence.toNat by omega)
  · rintro D' (hD' | hD')
    · exact hold D' hD'
    · exact hold D' hD'
  intro hmounted hlogical
  apply hQ
  intro D' hD'
  have hcov1 : Coverage True store (superblockWritten (store.allocate bitmap nextSector) D) :=
    h.coverage.frame (ReservedOnly.kept fun s hs => superblockWritten_of_ge (by omega))
  obtain ⟨hm, hl⟩ := hmounted.of_untouched hcov1 hcov hD'
  have hrec := hm.recoverable
  rw [hl, hlogical, advance_sequence hseq1] at hrec
  exact ⟨hold D' hrec, hcov1.frame hD'.kept, hm, hl.trans hlogical⟩

/-- The end of such an operation: the new table, which is on disk, is published. -/
theorem wp_commit_allocate (hstays : StaysMounted store D bitmap nextSector P)
    (haccepts : Accepts store (logicalState store D)
      (planState store D bitmap nextSector staged candidate tableSector) P R)
    (hQ : ∀ store' d, R store' d → Q (true, store') d) : wp Faults.none (crashInv P)
      (publishTable (store.allocate bitmap nextSector).advance candidate tableSector) Q
      (Disk.clean (planDisk (store.allocate bitmap nextSector) D staged candidate
        tableSector)) := by
  obtain ⟨-, hcov, hm, hl⟩ := hstays _ (hplan.untouched _)
  have hon := hplan.onDisk h (store.allocate bitmap nextSector)
  have hseq1 : (store.allocate bitmap nextSector).superblockSequence.toNat + 1 < 2 ^ 64 :=
    Nat.lt_of_succ_lt hseq
  have hseq2 :
      (store.allocate bitmap nextSector).advance.superblockSequence.toNat + 1 < 2 ^ 64 := by
    rw [advance_sequence hseq1]
    exact hseq
  apply wp_commit hm hseq2 hplan.capacity (hplan.coverage_new hcov hon)
    ⟨_, hplan.generationOn h hon⟩
  · rw [advance_sequence hseq1, hl]
    rintro D' (hD' | hD')
    · exact haccepts.before D' hD'
    · exact haccepts.after D' hD'
  · intro D' _ hm hl
    have hle := (advance_sequence_le ((store.allocate bitmap nextSector).advance.adopt candidate
      tableSector)).trans (Nat.succ_le_succ (advance_sequence_le _))
    exact hQ _ _ (haccepts.done _ D' ⟨hm, rfl, rfl, rfl, hle⟩ rfl hl)

end Plan

/-! ### Put -/

section Put

variable {store : ObjectStore} {D : Content}

theorem Mounted.objectTableFind_eq (h : Mounted store D) {id : ObjectId} (hid : id ≠ ⟨0, 0⟩) :
    objectTableFind store.table id = ((logicalState store D).find id).map Prod.fst := by
  have hcount : store.table.count ≤ store.table.capacity.toNat := by
    rw [h.capacity]
    exact h.coverage.count_le
  have hfind : (logicalState store D).find id =
      (ObjectTable.lookup store.table.entries id).map fun e => (e, extentOn D e) := by
    rw [LogicalState.find, logicalState, objectsOn, List.find?_map, ObjectTable.lookup]
    rfl
  rw [Jani.objectTableFind_eq h.coverage.sorted hcount hid, hfind, Option.map_map]
  exact Option.map_id'.symm

theorem logicalState_nextVersion (h : Mounted store D) {id : ObjectId} (hid : id ≠ ⟨0, 0⟩) :
    (logicalState store D).nextVersion id = nextVersion store id := by
  rw [LogicalState.nextVersion, nextVersion, h.objectTableFind_eq hid]
  cases (logicalState store D).find id with
  | none => rfl
  | some o => rfl

variable {requests : List ObjectStorePutRequest} {staged : List ObjectStoreStagedPut}
variable {candidate : ObjectTable}

theorem cachePut_spec (hok : ∀ s ∈ staged, StagedOk store s)
    (hreq : staged.map (·.request) = requests) (hcap : store'.cacheCapacity = store.cacheCapacity)
    (hcache : store'.cache = store.cache) :
    ∃ cache, cachePut store' staged = { store' with cache := cache } ∧
      (StoreOp.putMany requests).CacheEffect store D (.batch .committed) cache := by
  subst hreq
  match staged with
  | [] => exact ⟨store'.cache, rfl, hcache⟩
  | [s] =>
    have hs := hok s List.mem_cons_self
    have hprep : objectStorePreparePutBytes store' s = some (putBytes s.request s.version) := by
      have := objectStorePreparePutBytes_some hs
      unfold objectStorePreparePutBytes at this ⊢
      rw [hcap]
      exact this
    refine ⟨_, by rw [cachePut, hprep], ?_⟩
    change _ = (cacheInsert store.cache s.request.id (nextVersion store s.request.id)
      (putBytes s.request (nextVersion store s.request.id))).2
    rw [hcache, ← hs.version_eq]
  | s :: r :: rest => exact ⟨store'.cache, rfl, hcache⟩

/-- **The effect of a put**, once its objects and its table are on disk. -/
theorem PutPlan.effect
    (hplan : PutPlan store requests bitmap nextSector staged candidate tableSector)
    (h : Mounted store D) : PutEffect requests (logicalState store D)
      (planState store D bitmap nextSector staged candidate tableSector) := by
  have hagree := h.agree_of_untouched (fun s hs => superblockWritten_of_ge (by omega))
    (hplan.untouched (store.allocate bitmap nextSector))
  have hwritten : ∀ s ∈ staged, extentOn
      (planDisk (store.allocate bitmap nextSector) D staged candidate tableSector) s.entry =
        objectSectors (putBytes s.request s.version) := by
    intro s hs
    have hn := store.io.sectorCount.toNat_lt
    have hlast := (hplan.allocated s hs).last
    have htlast := (hplan.tableAllocated hplan.count_ne).last
    rw [planDisk_of_ne hplan.count_ne,
      ← extentOn_objectsWritten staged _ hplan.staged_ok hplan.allocated hplan.disjoint s hs]
    apply extentOn_congr (by change s.firstSector.toNat + s.sectorCount.toNat ≤ 2 ^ 64; omega)
    intro u hu
    have hnot := hplan.tableDisjoint s hs u hu
    rw [inExtent_iff (by omega)] at hnot
    have hlen := length_map_tableEntrySector hplan.count_le
    exact applyWrites_sectorWrites_of_notMem (by omega) _ (by omega)
  unfold planState
  generalize planDisk (store.allocate bitmap nextSector) D staged candidate tableSector = D3 at *
  refine ⟨?_, rfl, rfl, ?_, ?_, ?_⟩
  · intro r hr
    rw [← hplan.requests_eq, List.mem_map] at hr
    obtain ⟨s, hs, rfl⟩ := hr
    have hok := hplan.staged_ok s hs
    exact ⟨hok.id_ne, hok.typeId_ne, hok.fits.trans_lt store.cacheCapacity.toNat_lt⟩
  · have hlogical := Root.logical_frame h.root hagree
    rw [h.coverage.logicalState_eq, ← hlogical]
    rfl
  · intro r hr
    rw [← hplan.requests_eq, List.mem_map] at hr
    obtain ⟨s, hs, rfl⟩ := hr
    have hok := hplan.staged_ok s hs
    rw [logicalState_nextVersion h hok.id_ne, ← hok.version_eq, ← hok.byteCount_eq,
      ← hok.sectorCount_eq]
    refine ⟨hok.version_ne, s.firstSector, ?_⟩
    rw [← hwritten s hs]
    exact List.mem_map_of_mem ((hplan.mem_iff _).mpr (Or.inl ⟨s, hs, rfl⟩))
  · intro o ho
    have hnot : o.1.id ∉ requests.map (·.id) := by
      intro hmem
      obtain ⟨r, hr, heq⟩ := List.mem_map.mp hmem
      exact ho r hr heq.symm
    constructor
    · intro hmem
      obtain ⟨e, he, rfl⟩ := List.mem_map.mp hmem
      rcases (hplan.mem_iff e).mp he with ⟨s, hs, rfl⟩ | ⟨he, -⟩
      · rw [← hplan.requests_eq, List.map_map] at hnot
        exact absurd (List.mem_map_of_mem hs) hnot
      · rw [h.extentOn_eq hagree he]
        exact List.mem_map_of_mem he
    · intro hmem
      obtain ⟨e, he, rfl⟩ := List.mem_map.mp hmem
      rw [← h.extentOn_eq hagree he]
      exact List.mem_map_of_mem ((hplan.mem_iff e).mpr (Or.inr ⟨he, hnot⟩))

/-- A put is atomic once its sectors are allocated. -/
theorem wp_putAllocated_clean {Q : ObjectStoreBatchResult × ObjectStore → Disk Sector → Prop}
    (h : Mounted store D)
    (hplan : PutPlan store requests bitmap nextSector staged candidate tableSector)
    (hseq : store.superblockSequence.toNat + 2 < 2 ^ 64)
    (haccepts : Accepts store (logicalState store D)
      (planState store D bitmap nextSector staged candidate tableSector) P
      fun store' d => Q (.committed, cachePut store' staged) d) :
    wp Faults.none (crashInv P)
      (putAllocated (store.allocate bitmap nextSector) store.nextSector staged candidate
        tableSector) Q (Disk.clean D) := by
  have hwritten := objectsWritten_untouched staged
    (superblockWritten (store.allocate bitmap nextSector) D) hplan.staged_ok hplan.allocated
  rw [putAllocated]
  dsimp only
  rw [wp_bind]
  apply wp_writeSuperblock_allocate hplan.toTablePlan h hseq haccepts
  intro hstays
  dsimp only
  rw [wp_unless_true, wp_bind]
  refine wp_writeStaged_clean staged _ _ ?_ hplan.allocated (fun D' hD' => (hstays D' hD').1) ?_
  · exact fun s hs => (hplan.staged_ok s hs).transfer rfl rfl
  rw [wp_unless_true, wp_bind]
  apply wp_writeTableGeneration_clean hplan.capacity hplan.count_le
    (hplan.tableAllocated hplan.count_ne)
  · exact fun D' hD' => (hstays D' (hwritten.trans hD')).1
  rw [← planDisk_of_ne hplan.count_ne, wp_unless_true, wp_bind]
  refine wp_commit_allocate hplan.toTablePlan h hseq hstays haccepts fun store' d hR => ?_
  rw [wp_unless_true, wp_pure]
  exact hR

/-- **Put is atomic.** -/
theorem put_atomic (h : Mounted store D) (requests : List ObjectStorePutRequest)
    (hseq : store.superblockSequence.toNat + 2 < 2 ^ 64) : Atomic store D (.putMany requests) := by
  unfold Atomic
  simp only [StoreOp.prog, wp_wrapResult_iff]
  rcases objectStorePutMany_cases requests h.coverage.fits h.coverage.sorted with
    ⟨store', hsame, heq⟩ | ⟨bitmap, nextSector, staged, candidate, tableSector, hplan, heq⟩
  · refine ⟨logicalState store D, ?_⟩
    rw [heq, wp_pure]
    have hlogical : logicalState store' D = logicalState store D := by
      rw [hsame.eq]
      rfl
    refine ⟨D, rfl, ⟨⟨h.sameMarks hsame, ?_, ?_, ?_, ?_⟩, hlogical, ?_⟩, hlogical⟩
    all_goals dsimp only
    all_goals rw [hsame.eq]
    · exact Nat.le_add_right _ _
    · cases requests with
      | nil => rfl
      | cons r rest => cases rest <;> rfl
  · refine ⟨planState store D bitmap nextSector staged candidate tableSector, ?_⟩
    rw [heq]
    refine wp_putAllocated_clean h hplan hseq ⟨fun D' hD' => ⟨_, Or.inl rfl, hD'⟩,
      fun D' hD' => ⟨_, Or.inr (Or.inl rfl), hD'⟩, fun store' D' hreach hcache hlogical => ?_⟩
    obtain ⟨cache, hput, heffect⟩ :=
      cachePut_spec hplan.staged_ok hplan.requests_eq hreach.cacheCapacity_eq hcache
    rw [hput]
    refine ⟨D', rfl, ⟨hreach.withCache cache, ?_, heffect⟩, hlogical⟩
    change PutEffect requests _ (logicalState store' D')
    rw [hlogical]
    exact hplan.effect h

theorem put_committed (h : Mounted store D) (hseq : store.superblockSequence.toNat + 2 < 2 ^ 64)
    (hwrites : ∀ r, objectStorePutMany store requests ≠ pure r) :
    (run (StoreOp.prog store (.putMany requests)) (Disk.clean D)).1.1 = .batch .committed := by
  rcases objectStorePutMany_cases requests h.coverage.fits h.coverage.sorted with
    ⟨store', -, heq⟩ | ⟨bitmap, nextSector, staged, candidate, tableSector, hplan, heq⟩
  · exact absurd heq (hwrites _)
  · have hwp : wp Faults.none (crashInv fun _ => True) (StoreOp.prog store (.putMany requests))
        (fun r _ => r.1 = .batch .committed) (Disk.clean D) := by
      rw [StoreOp.prog, wp_wrapResult_iff, heq]
      exact wp_putAllocated_clean h hplan hseq
        ⟨fun _ _ => trivial, fun _ _ => trivial, fun _ _ _ _ _ => rfl⟩
    exact wp_exec hwp ((exec_none_iff _ _ _ _).mpr rfl)

end Put

/-! ### Delete -/

section Delete

variable {store : ObjectStore} {D : Content}

variable {id : ObjectId} {bitmap : List UInt8} {nextSector : UInt64} {candidate : ObjectTable}
  {tableSector : UInt64}

/-- **The effect of a delete**, once its table is on disk. -/
theorem TablePlan.deleteEffect
    (hplan : TablePlan store [] [id] bitmap nextSector candidate tableSector)
    (h : Mounted store D) : DeleteEffect id (logicalState store D)
      (planState store D bitmap nextSector [] candidate tableSector) := by
  have hagree := h.agree_of_untouched (fun s hs => superblockWritten_of_ge (by omega))
    (hplan.untouched (store.allocate bitmap nextSector))
  have hmem : ∀ e, e ∈ candidate.entries ↔ e ∈ store.table.entries ∧ e.id ≠ id := fun e => by
    rw [hplan.mem_iff]
    simp
  refine ⟨rfl, rfl, ?_, fun o => ?_⟩
  · have hlogical := Root.logical_frame h.root hagree
    rw [h.coverage.logicalState_eq, ← hlogical]
    rfl
  constructor
  · intro ho
    obtain ⟨e, he, rfl⟩ := List.mem_map.mp ho
    obtain ⟨he', hne⟩ := (hmem e).mp he
    rw [h.extentOn_eq hagree he']
    exact ⟨List.mem_map_of_mem he', hne⟩
  · rintro ⟨ho, hne⟩
    obtain ⟨e, he, rfl⟩ := List.mem_map.mp ho
    rw [← h.extentOn_eq hagree he]
    exact List.mem_map_of_mem ((hmem e).mpr ⟨he, hne⟩)

/-- A delete is atomic once its sectors are allocated. -/
theorem wp_deleteAllocated_clean (h : Mounted store D)
    (hplan : TablePlan store [] [id] bitmap nextSector candidate tableSector)
    (hseq : store.superblockSequence.toNat + 2 < 2 ^ 64)
    (haccepts : Accepts store (logicalState store D)
      (planState store D bitmap nextSector [] candidate tableSector) P fun store' d =>
        Q (true, { store' with cache := cacheRemoveObject store'.cache id }) d) :
    wp Faults.none (crashInv P)
      (deleteAllocated (store.allocate bitmap nextSector) id candidate tableSector) Q
      (Disk.clean D) := by
  rw [deleteAllocated]
  dsimp only
  rw [wp_bind]
  apply wp_writeSuperblock_allocate hplan h hseq haccepts
  intro hstays
  dsimp only
  rw [wp_unless_true, wp_bind]
  have hremaining : ∀ R : Bool → Disk Sector → Prop,
      R true (Disk.clean (planDisk (store.allocate bitmap nextSector) D [] candidate tableSector)) →
      wp Faults.none (crashInv P) (writeRemaining (store.allocate bitmap nextSector).advance
        candidate tableSector) R
        (Disk.clean (superblockWritten (store.allocate bitmap nextSector) D)) := by
    intro R hR
    unfold writeRemaining
    by_cases hzero : candidate.count = 0
    · rw [if_neg (not_not.mpr hzero), wp_pure]
      rw [planDisk, if_pos hzero] at hR
      exact hR
    · rw [if_pos hzero]
      rw [planDisk_of_ne hzero] at hR
      exact wp_writeTableGeneration_clean hplan.capacity hplan.count_le
        (hplan.tableAllocated hzero) (fun D' hD' => (hstays D' hD').1) hR
  apply hremaining
  rw [wp_unless_true, wp_bind]
  refine wp_commit_allocate hplan h hseq hstays haccepts fun store' d hR => ?_
  rw [wp_unless_true, wp_pure]
  exact hR

/-- **Delete is atomic.** -/
theorem delete_atomic (h : Mounted store D) (id : ObjectId)
    (hseq : store.superblockSequence.toNat + 2 < 2 ^ 64) : Atomic store D (.delete id) := by
  rcases objectStoreDelete_cases id h.coverage.fits h.coverage.sorted with
    heq | ⟨bitmap, nextSector, candidate, tableSector, hplan, heq⟩
  · exact atomic_of_pure (.flag false) h (by rw [StoreOp.prog, heq]; rfl) rfl rfl
  · refine ⟨planState store D bitmap nextSector [] candidate tableSector, ?_⟩
    rw [StoreOp.prog, wp_wrapResult_iff, heq]
    refine wp_deleteAllocated_clean h hplan hseq ⟨fun D' hD' => ⟨_, Or.inl rfl, hD'⟩,
      fun D' hD' => ⟨_, Or.inr (Or.inl rfl), hD'⟩, fun store' D' hreach hcache hlogical => ?_⟩
    refine ⟨D', rfl, ⟨hreach.withCache _, ?_, ?_⟩, hlogical⟩
    · change DeleteEffect id _ (logicalState store' D')
      rw [hlogical]
      exact hplan.deleteEffect h
    · change cacheRemoveObject store'.cache id = cacheRemoveObject store.cache id
      rw [hcache]

end Delete

end Jani
