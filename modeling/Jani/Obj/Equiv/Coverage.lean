import Jani.Obj.Equiv.Plan
import Jani.Obj.Equiv.Rebuild

/-!
# The bitmap covers the live sectors

A mounted store refers to the sectors of its current table and of the objects in it, and to those
of every retained snapshot (`Refers`).  `Coverage` says that the tables are on disk and that all
these sectors are marked.  Every operation keeps it, whichever calls of the device fail
(`wp_put_coverage` and so on), with the exception of a rebuild of the bitmap in which a read
fails: `object_store_collect` and `object_store_snapshot_prune` clear the bitmap first.

Since puts and deletes write only to the reserved sectors and to sectors that were not marked,
they never write to a sector that is referred to.
-/

namespace Jani

open ObjectTable (Sorted)

/-! ### Coverage -/

/-- The generation is on disk and its sectors are marked; if `strict`, none of them is a reserved
sector.  A store that was formatted here is strict, but a mounted image may hold any extents. -/
structure GenerationCovered (strict : Prop) (io : ObjectStoreIo) (capacity : UInt64)
    (bitmap : List UInt8) (V : Content) (entries : List ObjectTableEntry)
    (tableSector tableCount : UInt64) : Prop where
  onDisk : tableOn io V capacity tableSector tableCount = some entries
  marked : ∀ s, GenerationRefers entries tableSector tableCount s →
    bitmapTest io.sectorCount bitmap s = true ∧ (strict → 3 ≤ s.toNat)

/-- The fields of `Coverage`, over the parts of a store it depends on. -/
structure CoverageOf (strict : Prop) (io : ObjectStoreIo) (capacity : UInt64)
    (bitmap : List UInt8) (table : ObjectTable) (tableSector : UInt64) (snapshots : Snapshots)
    (V : Content) : Prop where
  buffer : (bitmapBytesFor io.sectorCount).toNat ≤ bitmap.length
  reserved : ∀ s : UInt64, s.toNat < 3 → bitmapTest io.sectorCount bitmap s = true
  current : GenerationCovered strict io capacity bitmap V table.entries tableSector
    (UInt64.ofNat table.count)
  snapshots : ∀ i, (snapshots i).id ≠ 0 → ∃ entries,
    GenerationCovered strict io capacity bitmap V entries (snapshots i).tableSector
      (snapshots i).tableCount

/-- Every table the store refers to is on disk, and every sector it refers to is marked. -/
def Coverage (strict : Prop) (store : ObjectStore) (V : Content) : Prop :=
  CoverageOf strict store.io store.tableCapacity store.bitmap store.table store.currentTableSector
    store.snapshots V

/-- The marked allocatable sectors of the device are the same. -/
def Kept (n : UInt64) (bitmap : List UInt8) (V V' : Content) : Prop :=
  ∀ t : UInt64, 3 ≤ t.toNat → bitmapTest n bitmap t = true → t.toNat < n.toNat →
    V' t.toNat = V t.toNat

variable {bitmap : List UInt8} {V : Content} {entries : List ObjectTableEntry}
variable {tableSector : UInt64}

theorem Kept.trans {n : UInt64} {V' V'' : Content} (h : Kept n bitmap V V')
    (h' : Kept n bitmap V' V'') : Kept n bitmap V V'' :=
  fun t h3 hm hn => (h' t h3 hm hn).trans (h t h3 hm hn)

/-- Nothing but reserved sectors has changed. -/
def ReservedOnly (V V' : Content) : Prop := ∀ s, 3 ≤ s → V' s = V s

theorem ReservedOnly.trans {V' V'' : Content} (h : ReservedOnly V V') (h' : ReservedOnly V' V'') :
    ReservedOnly V V'' := fun s hs => (h' s hs).trans (h s hs)

theorem ReservedOnly.kept {n : UInt64} {V' : Content} (h : ReservedOnly V V') :
    Kept n bitmap V V' := fun t h3 _ _ => h t.toNat h3

variable {strict : Prop}

section Basics

variable {io : ObjectStoreIo} {capacity : UInt64} {bitmap bitmap' : List UInt8} {V V' : Content}

theorem inDevice_of_tableOn {tableCount t : UInt64}
    (h : tableOn io V capacity tableSector tableCount = some entries)
    (ht : InExtent tableSector tableCount t) : 3 ≤ t.toNat ∧ t.toNat < io.sectorCount.toNat := by
  obtain ⟨hlen, -, h3, hshape⟩ := tableOn_shape h
  have hcount : tableCount ≠ 0 := by
    rintro rfl
    exact not_inExtent_zero _ _ ht
  have hpos : 0 < tableCount.toNat := by
    have : tableCount.toNat ≠ (0 : UInt64).toNat := fun h => hcount (UInt64.toNat_inj.mp h)
    simp only [UInt64.reduceToNat] at this
    omega
  have hne : entries ≠ [] := by
    rintro rfl
    rw [List.length_nil] at hlen
    omega
  have hin := hshape.inDevice hne
  have hn := io.sectorCount.toNat_lt
  rw [hlen] at hin
  rw [inExtent_iff (by omega)] at ht
  have := h3 hcount
  omega

/-- **Frame**: a covered generation depends on the marked allocatable sectors only. -/
theorem GenerationCovered.frame {tableCount : UInt64}
    (h : GenerationCovered strict io capacity bitmap V entries tableSector tableCount)
    (hV : Kept io.sectorCount bitmap V V') :
    GenerationCovered strict io capacity bitmap V' entries tableSector tableCount := by
  refine ⟨?_, h.marked⟩
  rw [tableOn_congr (V := V), h.onDisk]
  intro t ht
  obtain ⟨h3, hlt⟩ := inDevice_of_tableOn h.onDisk ht
  exact hV t h3 (h.marked t (Or.inl ht)).1 hlt

theorem GenerationCovered.mono {tableCount : UInt64}
    (h : GenerationCovered strict io capacity bitmap V entries tableSector tableCount)
    (hmono : ∀ t, bitmapTest io.sectorCount bitmap t = true →
      bitmapTest io.sectorCount bitmap' t = true) :
    GenerationCovered strict io capacity bitmap' V entries tableSector tableCount :=
  ⟨h.onDisk, fun s hs => ⟨hmono s (h.marked s hs).1, (h.marked s hs).2⟩⟩

variable {table : ObjectTable} {tableSector : UInt64} {snapshots : Snapshots}
  (h : CoverageOf strict io capacity bitmap table tableSector snapshots V)

include h

theorem CoverageOf.frame (hV : Kept io.sectorCount bitmap V V') :
    CoverageOf strict io capacity bitmap table tableSector snapshots V' :=
  ⟨h.buffer, h.reserved, h.current.frame hV,
    fun i hi => (h.snapshots i hi).imp fun _ hc => hc.frame hV⟩

theorem CoverageOf.mono (hlen : bitmap'.length = bitmap.length)
    (hmono : ∀ t, bitmapTest io.sectorCount bitmap t = true →
      bitmapTest io.sectorCount bitmap' t = true) :
    CoverageOf strict io capacity bitmap' table tableSector snapshots V :=
  ⟨by rw [hlen]; exact h.buffer, fun s hs => hmono s (h.reserved s hs), h.current.mono hmono,
    fun i hi => (h.snapshots i hi).imp fun _ hc => hc.mono hmono⟩

theorem CoverageOf.fits : BitmapFits io.sectorCount bitmap := bitmapFits_of_buffer h.buffer

theorem CoverageOf.sorted : Sorted table.entries := (tableOn_shape h.current.onDisk).2.2.2.sorted

theorem CoverageOf.valid : ∀ e ∈ table.entries, e.Valid :=
  (tableOn_shape h.current.onDisk).2.2.2.valid

theorem CoverageOf.count_le : table.count ≤ capacity.toNat := by
  obtain ⟨hlen, hle, -, -⟩ := tableOn_shape h.current.onDisk
  rw [ObjectTable.count, hlen]
  exact hle

end Basics

variable {store : ObjectStore}

/-- **Coverage**: the sectors a store refers to are marked. -/
theorem Coverage.marked (h : Coverage strict store V) {s : UInt64} (hs : Refers store V s) :
    bitmapTest store.io.sectorCount store.bitmap s = true ∧ (strict → 3 ≤ s.toNat) := by
  rcases hs with hs | ⟨i, hi, hs⟩
  · exact h.current.marked s hs
  · obtain ⟨entries, hc⟩ := h.snapshots i hi
    rw [hc.onDisk] at hs
    exact hc.marked s hs

/-! ### The writes of an operation -/

/-- Only reserved sectors and sectors that are not marked are written. -/
def FreshWrites (n : UInt64) (bitmap : List UInt8) (e : Event Sector) (_ : Disk Sector) : Prop :=
  match e with
  | .write s _ => s < 3 ∨ ∃ t : UInt64, t.toNat = s ∧ bitmapTest n bitmap t = false
  | .flush => True

variable {d : Disk Sector} {Q : Bool → Disk Sector → Prop}

section Primitives

variable {m : Faults} {n : UInt64} {bitmap : List UInt8}

theorem otherSuperblock_toNat_lt (sector : UInt64) : (otherSuperblock sector).toNat < 2 := by
  unfold otherSuperblock
  split_ifs <;> decide

theorem wp_writeReserved {sector : Nat} (hsector : sector < 3) {b : Sector}
    (hQ : ∀ ok, ∀ d' : Disk Sector, ReservedOnly d.view d'.view → Q ok d') :
    wp m (FreshWrites n bitmap) (writeAll [(sector, b)]) Q d := by
  have hframe : ∀ s, 3 ≤ s → s ∉ [sector] := by
    intro s hs
    rw [List.mem_singleton]
    omega
  apply wp_writeAll_view
  · intro w hw d'
    rw [List.mem_singleton.mp hw]
    exact Or.inl hsector
  · intro d'
    trivial
  · intro d' hd'
    apply hQ true d'
    intro s hs
    rw [hd']
    exact applyWrites_of_notMem _ _ _ (hframe s hs)
  · intro _ d' hd'
    exact hQ false d' fun s hs => hd' s (hframe s hs)

theorem wp_writeSuperblock_view {Q : Bool × ObjectStore → Disk Sector → Prop}
    (hok : ∀ d' : Disk Sector, ReservedOnly d.view d'.view →
      Q (true, { store with
        superblockSequence := store.superblockSequence + 1
        activeSuperblockSector := otherSuperblock store.activeSuperblockSector }) d')
    (hfail : ∀ d' : Disk Sector, ReservedOnly d.view d'.view → Q (false, store) d') :
    wp m (FreshWrites n bitmap) (writeSuperblock store) Q d := by
  have hlt := otherSuperblock_toNat_lt store.activeSuperblockSector
  unfold writeSuperblock
  simp only [wp_bind, wp_ite, wp_pure]
  refine wp_writeReserved (by omega) fun ok d' hd' => ?_
  cases ok with
  | false => exact ⟨fun _ => hfail d' hd', by simp⟩
  | true => exact ⟨by simp, fun _ => hok d' hd'⟩

theorem wp_writeWal_view {b : Sector}
    (hQ : ∀ ok, ∀ d' : Disk Sector, ReservedOnly d.view d'.view → Q ok d') :
    wp m (FreshWrites n bitmap) (writeAll [(objectStoreWalSector.toNat, b)]) Q d :=
  wp_writeReserved (by decide) hQ

theorem wp_writeWalRoot_view {record : ObjectWalRecord}
    (hQ : ∀ ok, ∀ d' : Disk Sector, ReservedOnly d.view d'.view → Q ok d') :
    wp m (FreshWrites n bitmap) (writeWalRoot record) Q d := by
  unfold writeWalRoot
  rw [wp_ite, wp_pure]
  exact ⟨fun _ => hQ false d fun _ _ => rfl, fun _ => wp_writeWal_view hQ⟩

/-- The new root may be taken over or not; nothing but reserved sectors is written. -/
theorem wp_publishTable_view {table : ObjectTable} {Q : Bool × ObjectStore → Disk Sector → Prop}
    (hold : ∀ store' : ObjectStore, ∀ d' : Disk Sector, ReservedOnly d.view d'.view →
      (∀ V, Coverage strict store V → Coverage strict store' V) → Q (false, store') d')
    (hnew : ∀ ok, ∀ store' : ObjectStore, ∀ d' : Disk Sector,
      ReservedOnly d.view d'.view →
      (∀ V, Coverage strict { store with table := table, currentTableSector := tableSector } V →
        Coverage strict store' V) → Q (ok, store') d') :
    wp m (FreshWrites n bitmap) (publishTable store table tableSector) Q d := by
  unfold publishTable
  dsimp only
  rw [wp_bind]
  apply wp_writeWalRoot_view
  intro ok d1 hd1
  cases ok with
  | false =>
    rw [wp_unless_false, wp_pure]
    exact hold { store with recoveryRequired := true } d1 hd1 fun V h => h
  | true =>
    rw [wp_unless_true, wp_bind]
    apply wp_writeSuperblock_view
    · intro d2 hd2
      rw [wp_unless_true, wp_bind, clearWal]
      apply wp_writeWal_view
      intro ok d3 hd3
      have hd13 := (hd1.trans hd2).trans hd3
      cases ok with
      | false =>
        rw [wp_unless_false, wp_pure]
        exact hnew _ _ d3 hd13 fun V h => h
      | true =>
        rw [wp_unless_true, wp_pure]
        exact hnew _ _ d3 hd13 fun V h => h
    · intro d2 hd2
      rw [wp_unless_false, wp_pure]
      exact hnew _ _ d2 (hd1.trans hd2) fun V h => h

/-- Writing a free extent keeps every sector in use. -/
theorem wp_writeExtent_view {firstSector count : UInt64} {bs : List Sector}
    (hlen : bs.length = count.toNat)
    (hfree : ∀ t, InExtent firstSector count t → bitmapTest n bitmap t = false)
    (hok : ∀ d' : Disk Sector, d'.view = applyWrites d.view (sectorWrites firstSector bs) →
      Kept n bitmap d.view d'.view → Q true d')
    (hfail : ∀ d' : Disk Sector, Kept n bitmap d.view d'.view → Q false d') :
    wp m (FreshWrites n bitmap) (writeAll (sectorWrites firstSector bs)) Q d := by
  have hcount := count.toNat_lt
  have hmem : ∀ w ∈ sectorWrites firstSector bs, ∃ t : UInt64, w.1 = t.toNat ∧
      InExtent firstSector count t := by
    intro w hw
    obtain ⟨t, ht, hlt⟩ := mem_sectorWrites_inExtent bs firstSector w (by omega) hw
    exact ⟨t, ht, UInt64.lt_iff_toNat_lt.mpr (by omega)⟩
  have hnot : ∀ t : UInt64, bitmapTest n bitmap t = true →
      t.toNat ∉ (sectorWrites firstSector bs).map Prod.fst := by
    intro t ht hin
    obtain ⟨w, hw, hwt⟩ := List.mem_map.mp hin
    obtain ⟨u, hu, hext⟩ := hmem w hw
    have : u = t := UInt64.toNat_inj.mp (by rw [← hu, hwt])
    rw [← this, hfree u hext] at ht
    cases ht
  apply wp_writeAll_view
  · intro w hw d'
    obtain ⟨t, ht, hext⟩ := hmem w hw
    exact Or.inr ⟨t, ht.symm, hfree t hext⟩
  · intro d'
    trivial
  · intro d' hd'
    apply hok d' hd'
    intro t _ ht _
    rw [hd']
    exact applyWrites_of_notMem _ _ _ (hnot t ht)
  · intro _ d' hd'
    apply hfail d'
    intro t _ ht _
    exact hd' t.toNat (hnot t ht)

end Primitives

/-! ### Put -/

theorem objectStorePreparePutBytes_eq {staged : ObjectStoreStagedPut} {bytes : List UInt8}
    (h : objectStorePreparePutBytes store staged = some bytes) :
    bytes = putBytes staged.request staged.version := by
  unfold objectStorePreparePutBytes at h
  dsimp only at h
  split_ifs at h
  exact (Option.some.inj h).symm

theorem cachePut_eq (store : ObjectStore) (staged : List ObjectStoreStagedPut) :
    ∃ cache, cachePut store staged = { store with cache := cache } := by
  unfold cachePut
  split
  · split
    · exact ⟨store.cache, rfl⟩
    · exact ⟨_, rfl⟩
  · exact ⟨store.cache, rfl⟩

section Put

variable {m : Faults}

/-- Writing the staged objects keeps every sector in use. -/
theorem wp_writeStaged_view {store : ObjectStore} {n : UInt64} {bitmap : List UInt8} :
    ∀ (staged : List ObjectStoreStagedPut) (Q : Bool → Disk Sector → Prop) (d : Disk Sector),
      (∀ s ∈ staged, s.sectorCount.toNat =
        sectorsFor (objectHeaderSize + s.request.payload.length)) →
      (∀ s ∈ staged, ∀ t, InExtent s.firstSector s.sectorCount t → bitmapTest n bitmap t = false) →
      (∀ ok, ∀ d' : Disk Sector, Kept n bitmap d.view d'.view → Q ok d') →
      wp m (FreshWrites n bitmap) (writeStaged store staged) Q d
  | [], Q, d, _, _, hQ => by
    rw [writeStaged, wp_pure]
    exact hQ true d fun _ _ _ _ => rfl
  | s :: rest, Q, d, hsize, hfree, hQ => by
    rw [writeStaged]
    cases hprep : objectStorePreparePutBytes store s with
    | none =>
      rw [wp_pure]
      exact hQ false d fun _ _ _ _ => rfl
    | some bytes =>
      have hbytes := objectStorePreparePutBytes_eq hprep
      have hlen : (objectSectors bytes).length = s.sectorCount.toNat := by
        rw [length_objectSectors, hbytes, length_putBytes, hsize s List.mem_cons_self]
      have hne : bytes.length ≠ 0 := by
        rw [hbytes, length_putBytes, objectHeaderSize]
        omega
      dsimp only
      rw [wp_bind, writeObjectBytes, if_neg hne]
      apply wp_writeExtent_view hlen (hfree s List.mem_cons_self)
      · intro d' _ hkept
        rw [wp_unless_true]
        apply wp_writeStaged_view rest Q d' (fun r hr => hsize r (List.mem_cons_of_mem _ hr))
          (fun r hr => hfree r (List.mem_cons_of_mem _ hr))
        intro ok d'' hkept'
        exact hQ ok d'' (hkept.trans hkept')
      · intro d' hkept
        rw [wp_unless_false, wp_pure]
        exact hQ false d' hkept

/-- A table written to free sectors reads back. -/
theorem wp_writeTableGeneration_view {table : ObjectTable}
    (hcount : table.count ≤ store.tableCapacity.toNat) (hsorted : Sorted table.entries)
    (hvalid : ∀ e ∈ table.entries, e.Valid)
    (halloc : Allocated store.io.sectorCount bitmap (UInt64.ofNat table.count) tableSector)
    (hok : ∀ d' : Disk Sector, Kept store.io.sectorCount bitmap d.view d'.view →
      tableOn store.io d'.view store.tableCapacity tableSector (UInt64.ofNat table.count) =
        some table.entries → Q true d')
    (hfail : ∀ d' : Disk Sector, Kept store.io.sectorCount bitmap d.view d'.view → Q false d') :
    wp m (FreshWrites store.io.sectorCount bitmap) (writeTableGeneration store table tableSector)
      Q d := by
  have hlen : (table.entries.map tableEntrySector).length =
      (UInt64.ofNat table.count).toNat := by
    rw [List.length_map, toNat_ofNat_of_le hcount]
    rfl
  have hn := store.io.sectorCount.toNat_lt
  have hlast := halloc.last
  unfold writeTableGeneration
  rw [wp_ite]
  constructor
  · intro _
    rw [wp_pure]
    exact hfail d fun _ _ _ _ => rfl
  · intro _
    apply wp_writeExtent_view hlen halloc.free
    · intro d' hd' hkept
      apply hok d' hkept
      rw [toNat_ofNat_of_le hcount] at hlast
      apply tableOn_of_stored hcount halloc.first hlast hsorted hvalid
      intro w hw
      rw [hd']
      apply applyWrites_sectorWrites_of_mem _ _ hw
      rw [List.length_map]
      change tableSector.toNat + table.count ≤ 2 ^ 64
      omega
    · exact hfail

variable {store store' : ObjectStore} {requests : List ObjectStorePutRequest} {V : Content}
  {bitmap : List UInt8} {nextSector : UInt64} {staged : List ObjectStoreStagedPut}
  {candidate : ObjectTable} {tableSector : UInt64}

section Plan

variable {replaced : List ObjectId}
  (hplan : TablePlan store staged replaced bitmap nextSector candidate tableSector)

include hplan

theorem TablePlan.valid (hold : ∀ e ∈ store.table.entries, e.Valid) :
    ∀ e ∈ candidate.entries, e.Valid := by
  intro e he
  rcases (hplan.mem_iff e).mp he with ⟨s, hs, rfl⟩ | ⟨he, -⟩
  · have hok := hplan.staged_ok s hs
    have hfirst := (hplan.allocated s hs).first
    refine ⟨hok.id_ne, hok.version_ne, ?_, hok.sectorCount_ne⟩
    intro hzero
    have hz : s.firstSector = 0 := hzero
    rw [hz] at hfirst
    simp at hfirst
  · exact hold e he

/-- Coverage when the allocations are given back. -/
theorem TablePlan.coverage_reject (h : Coverage strict store V) :
    CoverageOf strict store.io store.tableCapacity
      ((rejectedRanges staged (some (tableSector, UInt64.ofNat candidate.count))).foldl
        (fun b r => bitmapClearRange store.io.sectorCount b r.1 r.2) bitmap)
      store.table store.currentTableSector store.snapshots V := by
  have hfit : BitmapFits store.io.sectorCount bitmap := by
    rw [BitmapFits, hplan.length_eq]
    exact h.fits
  apply h.mono
  · rw [foldl_clear_length, hplan.length_eq]
  · intro t ht
    rw [bitmapTest_rejected hfit hplan.marks hplan.free, ht]

/-- Coverage after the allocations, by the old table and by the new one. -/
theorem TablePlan.coverage_grow (h : Coverage strict store V) :
    CoverageOf strict store.io store.tableCapacity bitmap store.table store.currentTableSector
      store.snapshots V :=
  h.mono hplan.length_eq fun t ht => (hplan.marks t).mpr (Or.inl ht)

theorem TablePlan.coverage_new (h : Coverage strict store V)
    (htable : tableOn store.io V store.tableCapacity tableSector (UInt64.ofNat candidate.count) =
      some candidate.entries) :
    CoverageOf strict store.io store.tableCapacity bitmap candidate tableSector
      store.snapshots V := by
  have hgrow := hplan.coverage_grow h
  refine ⟨hgrow.buffer, hgrow.reserved, ⟨htable, ?_⟩, hgrow.snapshots⟩
  rintro t (ht | ⟨e, he, ht⟩)
  · exact ⟨(hplan.marks t).mpr (Or.inr (exists_mem_rejectedRanges.mpr (Or.inr ⟨_, rfl, ht⟩))),
      fun _ => (inDevice_of_tableOn htable ht).1⟩
  · rcases (hplan.mem_iff e).mp he with ⟨s, hs, rfl⟩ | ⟨he, -⟩
    · exact ⟨(hplan.marks t).mpr (Or.inr (exists_mem_rejectedRanges.mpr (Or.inl ⟨s, hs, ht⟩))),
        fun _ => (hplan.allocated s hs).three_le ht⟩
    · exact hgrow.current.marked t (Or.inr ⟨e, he, ht⟩)

end Plan

/-- **Put** keeps the coverage and writes only reserved and unmarked sectors. -/
theorem wp_put_coverage (h : Coverage strict store d.view) (requests : List ObjectStorePutRequest) :
    wp m (FreshWrites store.io.sectorCount store.bitmap) (objectStorePutMany store requests)
      (fun r d' => Coverage strict r.2 d'.view) d := by
  rcases objectStorePutMany_cases requests h.fits h.sorted with
    ⟨store', hsame, heq⟩ | ⟨bitmap, nextSector, staged, candidate, tableSector, hplan, heq⟩
  · rw [heq, wp_pure]
    dsimp only
    rw [hsame.eq]
    exact h.mono hsame.length_eq fun t ht => (hsame.marks t).trans ht
  rw [heq, putAllocated]
  dsimp only
  rw [wp_bind]
  apply wp_writeSuperblock_view
  · intro d1 hd1
    have hcov1 : Coverage strict store d1.view := h.frame hd1.kept
    rw [wp_unless_true, wp_bind]
    apply wp_writeStaged_view staged
    · intro s hs
      rw [(hplan.staged_ok s hs).sectorCount_toNat, (hplan.staged_ok s hs).byteCount_eq]
    · exact fun s hs => (hplan.allocated s hs).free
    intro ok d2 hd2
    have hcov2 : Coverage strict store d2.view := hcov1.frame hd2
    cases ok with
    | false =>
      rw [wp_unless_false, wp_pure, rejectAllocations_eq]
      exact hplan.coverage_reject hcov2
    | true =>
      rw [wp_unless_true, wp_bind]
      apply wp_writeTableGeneration_view hplan.count_le hplan.sorted (hplan.valid h.valid)
        (hplan.tableAllocated hplan.count_ne)
      · intro d3 hd3 htable
        have hcov3 : Coverage strict store d3.view := hcov2.frame hd3
        rw [wp_unless_true, wp_bind]
        apply wp_publishTable_view
        · intro store' d4 hd4 hstore'
          rw [wp_unless_false, wp_pure]
          apply CoverageOf.frame _ hd4.kept
          exact hstore' _ (hplan.coverage_grow hcov3)
        · intro ok store' d4 hd4 hstore'
          have hcov4 : Coverage strict store' d4.view :=
            CoverageOf.frame (hstore' _ (hplan.coverage_new hcov3 htable)) hd4.kept
          cases ok with
          | false =>
            rw [wp_unless_false, wp_pure]
            exact hcov4
          | true =>
            obtain ⟨cache, hcache⟩ := cachePut_eq store' staged
            rw [wp_unless_true, wp_pure, hcache]
            exact hcov4
      · intro d3 hd3
        have hcov3 : Coverage strict store d3.view := hcov2.frame hd3
        rw [wp_unless_false, wp_pure, rejectAllocations_eq]
        exact hplan.coverage_reject hcov3
  · intro d1 hd1
    have hcov1 : Coverage strict store d1.view := h.frame hd1.kept
    rw [wp_unless_false, wp_pure, rejectAllocations_eq]
    exact hplan.coverage_reject hcov1

end Put

/-! ### Delete -/

section Delete

variable {m : Faults} {store : ObjectStore} {id : ObjectId} {bitmap : List UInt8} {V : Content}
  {nextSector : UInt64} {candidate : ObjectTable} {tableSector : UInt64}

theorem wp_writeRemaining_view {sequence active : UInt64} {Q : Bool → Disk Sector → Prop}
    (hplan : TablePlan store [] [id] bitmap nextSector candidate tableSector)
    (hvalid : ∀ e ∈ store.table.entries, e.Valid)
    (hok : ∀ d' : Disk Sector, Kept store.io.sectorCount store.bitmap d.view d'.view →
      tableOn store.io d'.view store.tableCapacity tableSector (UInt64.ofNat candidate.count) =
        some candidate.entries → Q true d')
    (hfail : ∀ d' : Disk Sector, Kept store.io.sectorCount store.bitmap d.view d'.view →
      candidate.count ≠ 0 → Q false d') :
    wp m (FreshWrites store.io.sectorCount store.bitmap)
      (writeRemaining { store with
        bitmap := bitmap, nextSector := nextSector, superblockSequence := sequence
        activeSuperblockSector := active } candidate tableSector) Q d := by
  rw [writeRemaining, wp_ite]
  constructor
  · intro hne
    exact wp_writeTableGeneration_view hplan.count_le hplan.sorted (hplan.valid hvalid)
      (hplan.tableAllocated hne) hok fun d' hd' => hfail d' hd' hne
  · intro hzero
    rw [not_not] at hzero
    rw [wp_pure]
    refine hok d (fun _ _ _ _ => rfl) ?_
    rw [hzero, List.length_eq_zero_iff.mp hzero]
    exact tableOn_zero _

/-- **Delete** keeps the coverage and writes only reserved and unmarked sectors. -/
theorem wp_delete_coverage (h : Coverage strict store d.view) (id : ObjectId) :
    wp m (FreshWrites store.io.sectorCount store.bitmap) (objectStoreDelete store id)
      (fun r d' => Coverage strict r.2 d'.view) d := by
  rcases objectStoreDelete_cases id h.fits h.sorted with
    heq | ⟨bitmap, nextSector, candidate, tableSector, hplan, heq⟩
  · rw [heq, wp_pure]
    exact h
  rw [heq, deleteAllocated]
  dsimp only
  rw [wp_bind]
  apply wp_writeSuperblock_view
  · intro d1 hd1
    have hcov1 : Coverage strict store d1.view := h.frame hd1.kept
    rw [wp_unless_true, wp_bind]
    apply wp_writeRemaining_view hplan h.valid
    · intro d2 hd2 htable
      have hcov2 : Coverage strict store d2.view := hcov1.frame hd2
      rw [wp_unless_true, wp_bind]
      apply wp_publishTable_view
      · intro store' d3 hd3 hstore'
        rw [wp_unless_false, wp_pure]
        exact CoverageOf.frame (hstore' _ (hplan.coverage_grow hcov2)) hd3.kept
      · intro ok store' d3 hd3 hstore'
        have hcov3 : Coverage strict store' d3.view :=
          CoverageOf.frame (hstore' _ (hplan.coverage_new hcov2 htable)) hd3.kept
        cases ok with
        | false =>
          rw [wp_unless_false, wp_pure]
          exact hcov3
        | true =>
          rw [wp_unless_true, wp_pure]
          exact hcov3
    · intro d2 hd2 hne
      rw [wp_unless_false, wp_pure]
      dsimp only
      rw [if_pos hne]
      exact hplan.coverage_reject (hcov1.frame hd2)
  · intro d1 hd1
    rw [wp_unless_false, wp_pure]
    dsimp only
    split_ifs
    · exact hplan.coverage_reject (h.frame hd1.kept)
    · exact hplan.coverage_grow (h.frame hd1.kept)

end Delete

/-! ### Snapshots -/

theorem findSnapshot_some {snapshots : Snapshots} {id : UInt64}
    {slot : Fin objectStoreSnapshotLimit} (h : findSnapshot snapshots id = some slot) :
    (snapshots slot).id = id := by
  have := List.find?_some h
  simpa using this

section

variable {io : ObjectStoreIo} {capacity : UInt64} {bitmap : List UInt8} {V : Content}
  {table : ObjectTable} {tableSector : UInt64} {snapshots : Snapshots}
  (h : CoverageOf strict io capacity bitmap table tableSector snapshots V)

include h

theorem CoverageOf.update (slot : Fin objectStoreSnapshotLimit) {snapshot : ObjectStoreSnapshot}
    (hsnapshot : snapshot.id ≠ 0 → ∃ entries, GenerationCovered strict io capacity bitmap V entries
      snapshot.tableSector snapshot.tableCount) :
    CoverageOf strict io capacity bitmap table tableSector
      (Function.update snapshots slot snapshot) V := by
  refine ⟨h.buffer, h.reserved, h.current, fun i hi => ?_⟩
  by_cases hslot : i = slot
  · subst hslot
    rw [Function.update_self] at hi ⊢
    exact hsnapshot hi
  · rw [Function.update_of_ne hslot] at hi ⊢
    exact h.snapshots i hi

theorem CoverageOf.create (slot : Fin objectStoreSnapshotLimit) (id : UInt64) :
    CoverageOf strict io capacity bitmap table tableSector
      (Function.update snapshots slot ⟨id, tableSector, UInt64.ofNat table.count⟩) V :=
  h.update slot fun _ => ⟨_, h.current⟩

theorem CoverageOf.discard (slot : Fin objectStoreSnapshotLimit) :
    CoverageOf strict io capacity bitmap table tableSector
      (Function.update snapshots slot ⟨0, 0, 0⟩) V :=
  h.update slot fun hne => absurd rfl hne

theorem CoverageOf.rollback {slot : Fin objectStoreSnapshotLimit}
    (hc : GenerationCovered strict io capacity bitmap V entries (snapshots slot).tableSector
      (snapshots slot).tableCount) :
    CoverageOf strict io capacity bitmap ⟨entries, capacity⟩ (snapshots slot).tableSector
      snapshots V := by
  -- the table just read has the length that the snapshot records
  have hcount : UInt64.ofNat (⟨entries, capacity⟩ : ObjectTable).count =
      (snapshots slot).tableCount := by
    rw [ObjectTable.count, (tableOn_shape hc.onDisk).1, UInt64.ofNat_toNat]
  refine ⟨h.buffer, h.reserved, ?_, h.snapshots⟩
  rw [hcount]
  exact hc

end

section Snapshots

variable {m : Faults}

/-- **Snapshot creation** keeps the coverage: the new snapshot is the current table. -/
theorem wp_create_coverage (h : Coverage strict store d.view) :
    wp m (FreshWrites store.io.sectorCount store.bitmap) (objectStoreSnapshotCreate store)
      (fun r d' => Coverage strict r.2 d'.view) d := by
  unfold objectStoreSnapshotCreate
  rw [wp_ite, wp_pure]
  refine ⟨fun _ => h, fun _ => ?_⟩
  dsimp only
  rw [wp_ite, wp_pure]
  refine ⟨fun _ => h, fun _ => ?_⟩
  cases findSnapshot store.snapshots 0 with
  | none =>
    rw [wp_pure]
    exact h
  | some slot =>
    dsimp only
    rw [wp_bind]
    apply wp_writeSuperblock_view
    · intro d' hd'
      rw [wp_unless_true, wp_pure]
      exact (h.frame hd'.kept).create slot _
    · intro d' hd'
      rw [wp_unless_false, wp_pure]
      exact h.frame hd'.kept

/-- **Discarding** a snapshot keeps the coverage. -/
theorem wp_discard_coverage (h : Coverage strict store d.view) (id : UInt64) :
    wp m (FreshWrites store.io.sectorCount store.bitmap) (objectStoreSnapshotDiscard store id)
      (fun r d' => Coverage strict r.2 d'.view ∧ r.2.bitmap = store.bitmap ∧
        r.2.io = store.io) d := by
  unfold objectStoreSnapshotDiscard
  rw [wp_ite, wp_pure]
  refine ⟨fun _ => ⟨h, rfl, rfl⟩, fun _ => ?_⟩
  cases findSnapshot store.snapshots id with
  | none =>
    rw [wp_pure]
    exact ⟨h, rfl, rfl⟩
  | some slot =>
    dsimp only
    rw [wp_bind]
    apply wp_writeSuperblock_view
    · intro d' hd'
      rw [wp_unless_true, wp_pure]
      exact ⟨(h.frame hd'.kept).discard slot, rfl, rfl⟩
    · intro d' hd'
      rw [wp_unless_false, wp_pure]
      exact ⟨h.frame hd'.kept, rfl, rfl⟩

/-- **Rollback** keeps the coverage: the new current table is that of the snapshot. -/
theorem wp_rollback_coverage (h : Coverage strict store d.view) (id : UInt64) :
    wp m (FreshWrites store.io.sectorCount store.bitmap) (objectStoreSnapshotRollback store id)
      (fun r d' => Coverage strict r.2 d'.view) d := by
  unfold objectStoreSnapshotRollback
  rw [wp_ite, wp_pure]
  refine ⟨fun _ => h, fun hguard => ?_⟩
  split
  · rw [wp_pure]
    exact h
  rename_i slot hfind
  rw [wp_ite, wp_pure, wp_bind]
  refine ⟨fun _ => h, fun _ => ?_⟩
  have hid : (store.snapshots slot).id ≠ 0 := by
    rw [findSnapshot_some hfind]
    exact fun h0 => hguard (Or.inr (Or.inl h0))
  obtain ⟨entries, hc⟩ := h.snapshots slot hid
  apply wp_readTableGeneration
  · rw [hc.onDisk, Option.map_some]
    dsimp only
    apply wp_publishTable_view
    · intro store' d' hd' hstore'
      exact CoverageOf.frame (hstore' _ h) hd'.kept
    · intro ok store' d' hd' hstore'
      exact CoverageOf.frame (hstore' _ (CoverageOf.rollback h hc)) hd'.kept
  · intro _
    dsimp only
    rw [wp_pure]
    exact h

end Snapshots

/-! ### Get -/

/-- **Get** keeps the coverage and writes nothing. -/
theorem wp_get_coverage {m : Faults} (h : Coverage strict store d.view) (id : ObjectId) :
    wp m (FreshWrites store.io.sectorCount store.bitmap) (objectStoreGet store id)
      (fun r d' => Coverage strict r.2 d'.view) d := by
  exact wp_get id h fun _ => h

/-! ### Collect and prune -/

section Collect

variable {m : Faults}

/-- A bitmap rebuilt from the disk covers it. -/
theorem coverage_of_rebuild
    (hbuf : (bitmapBytesFor store.io.sectorCount).toNat ≤ store.bitmap.length)
    (hlen : bitmap.length = store.bitmap.length)
    (hcur : tableOn store.io V store.tableCapacity store.currentTableSector
      (UInt64.ofNat store.table.count) = some store.table.entries)
    (hdisk : ∀ i, (store.snapshots i).id ≠ 0 → ∃ entries,
      snapshotEntries store V (store.snapshots i) = some entries)
    (hmarks : ∀ t, bitmapTest store.io.sectorCount bitmap t = true ↔
      (t.toNat < 3 ∨ store.io.sectorCount ≤ t) ∨
        GenerationRefers store.table.entries store.currentTableSector
          (UInt64.ofNat store.table.count) t ∨
        ∃ i, (store.snapshots i).id ≠ 0 ∧
          GenerationRefers ((snapshotEntries store V (store.snapshots i)).getD [])
            (store.snapshots i).tableSector (store.snapshots i).tableCount t)
    (hstrict : strict → ∀ t, Refers store V t → 3 ≤ t.toNat) :
    Coverage strict { store with bitmap := bitmap } V := by
  refine ⟨?_, ?_, ⟨hcur, ?_⟩, ?_⟩
  · dsimp only
    rw [hlen]
    exact hbuf
  · intro s hs
    exact (hmarks s).mpr (Or.inl (Or.inl hs))
  · intro s hs
    exact ⟨(hmarks s).mpr (Or.inr (Or.inl hs)), fun h => hstrict h s (Or.inl hs)⟩
  · intro i hi
    obtain ⟨entries, hentries⟩ := hdisk i hi
    refine ⟨entries, hentries, ?_⟩
    intro s hs
    have hrefers : GenerationRefers ((snapshotEntries store V (store.snapshots i)).getD [])
        (store.snapshots i).tableSector (store.snapshots i).tableCount s := by
      rw [hentries]
      exact hs
    exact ⟨(hmarks s).mpr (Or.inr (Or.inr ⟨i, hi, hrefers⟩)),
      fun h => hstrict h s (Or.inr ⟨i, hi, hrefers⟩)⟩

variable {I : Event Sector → Disk Sector → Prop}

theorem wp_rebuildBitmap_coverage (hm : ¬ m.reads) (h : Coverage strict store d.view) :
    wp m I (rebuildBitmap store) (fun r d' => d' = d ∧ r.1 = true ∧
      Coverage strict r.2 d.view ∧ ∃ bitmap, r.2 = { store with bitmap := bitmap }) d := by
  apply wp_rebuildBitmap store.table.entries h.buffer
  · intro bitmap hlen hcur hdisk hmarks
    refine ⟨rfl, rfl, ?_, bitmap, rfl⟩
    exact coverage_of_rebuild h.buffer hlen hcur hdisk hmarks
      fun hs t ht => (Coverage.marked h ht).2 hs
  · rintro bitmap (hr | hcur | ⟨i, hi, hnone⟩)
    · exact absurd hr hm
    · exact absurd h.current.onDisk hcur
    · obtain ⟨entries, hc⟩ := h.snapshots i hi
      rw [snapshotEntries, hc.onDisk] at hnone
      cases hnone
  · intro es hes
    exact (Option.some.inj (h.current.onDisk.symm.trans hes)).symm

theorem wp_collect_coverage (hm : ¬ m.reads) (h : Coverage strict store d.view) :
    wp m I (objectStoreCollect store) (fun r d' => Coverage strict r.2 d'.view) d := by
  unfold objectStoreCollect
  rw [wp_ite, wp_pure]
  refine ⟨fun _ => h, fun _ => ?_⟩
  apply wp_mono (wp_rebuildBitmap_coverage hm h)
  rintro r d' ⟨rfl, -, hcov, -⟩
  exact hcov

theorem wp_pruneLoop_coverage {keep : Nat} {io : ObjectStoreIo} {bitmap : List UInt8}
    (hm : ¬ m.reads) : ∀ (fuel : Nat) (store : ObjectStore) (d : Disk Sector),
    Coverage strict store d.view → store.io = io → store.bitmap = bitmap →
    wp m (FreshWrites io.sectorCount bitmap) (pruneLoop keep fuel store)
      (fun r d' => Coverage strict r.2 d'.view) d
  | 0, store, d, h, _, _ => wp_collect_coverage hm h
  | fuel + 1, store, d, h, hio, hb => by
    rw [pruneLoop]
    dsimp only
    rw [wp_ite, wp_bind]
    refine ⟨fun _ => wp_collect_coverage hm h, fun _ => ?_⟩
    subst hio hb
    apply wp_mono (wp_discard_coverage h _)
    rintro ⟨ok, store'⟩ d' ⟨h', hb', hio'⟩
    cases ok with
    | false =>
      rw [wp_unless_false, wp_pure]
      exact h'
    | true =>
      rw [wp_unless_true]
      exact wp_pruneLoop_coverage hm fuel store' d' h' hio' hb'

/-- **Prune** keeps the coverage if every read succeeds. -/
theorem wp_prune_coverage (hm : ¬ m.reads) (h : Coverage strict store d.view) (keep : Nat) :
    wp m (FreshWrites store.io.sectorCount store.bitmap) (objectStoreSnapshotPrune store keep)
      (fun r d' => Coverage strict r.2 d'.view) d := by
  unfold objectStoreSnapshotPrune
  rw [wp_ite, wp_pure]
  exact ⟨fun _ => h, fun _ => wp_pruneLoop_coverage hm _ store d h rfl rfl⟩

end Collect

/-! ### Format and mount -/

/-- What `setup_store` has checked. -/
structure SetupOk (setup : ObjectStoreSetup) : Prop where
  tableCapacity_ne : setup.tableCapacity ≠ 0
  cacheCapacity_ge : objectHeaderSize ≤ setup.cacheCapacity.toNat
  buffer : (bitmapBytesFor setup.io.sectorCount).toNat ≤ setup.bitmapBuffer.length
  sectors : 3 ≤ setup.io.sectorCount.toNat

/-- The store that `setup_store` builds. -/
def freshStore (setup : ObjectStoreSetup) : ObjectStore where
  io := setup.io
  table := objectTableInit setup.tableCapacity
  tableCapacity := setup.tableCapacity
  cacheCapacity := setup.cacheCapacity
  cache := ⟨setup.arenaBuffer, 0, [], 0⟩
  bitmap := setup.bitmapBuffer
  nextSector := 0
  currentTableSector := 0
  currentGeneration := 0
  superblockSequence := 0
  activeSuperblockSector := 0
  recoveryRequired := false
  snapshots := fun _ => ⟨0, 0, 0⟩

theorem setupStore_cases (setup : ObjectStoreSetup) :
    setupStore setup = none ∨ (SetupOk setup ∧ setupStore setup = some (freshStore setup)) := by
  unfold setupStore
  split_ifs with hbad
  · exact Or.inl rfl
  · simp only [not_or, not_lt] at hbad
    obtain ⟨h1, h2, h3, h4⟩ := hbad
    exact Or.inr ⟨⟨h1, h2, h3, UInt64.le_iff_toNat_le.mp (UInt64.not_lt.mp h4)⟩, rfl⟩

theorem setupStore_eq {setup : ObjectStoreSetup} (h : SetupOk setup) :
    setupStore setup = some (freshStore setup) := by
  unfold setupStore
  rw [if_neg]
  · rfl
  · rintro (h1 | h2 | h3 | h4)
    · exact h.tableCapacity_ne h1
    · exact absurd h.cacheCapacity_ge (Nat.not_le.mpr h2)
    · exact absurd h.buffer (Nat.not_le.mpr h3)
    · exact absurd h.sectors (Nat.not_le.mpr (UInt64.lt_iff_toNat_lt.mp h4))

/-- The empty table is covered by the empty bitmap. -/
theorem SetupOk.coverage {setup : ObjectStoreSetup} (h : SetupOk setup) (V : Content) :
    CoverageOf strict setup.io setup.tableCapacity (emptyBitmap setup.io setup.bitmapBuffer)
      (objectTableInit setup.tableCapacity) 0 (fun _ => ⟨0, 0, 0⟩) V := by
  refine ⟨?_, ?_, ⟨tableOn_zero _, ?_⟩, fun i hi => absurd rfl hi⟩
  · rw [length_emptyBitmap h.buffer]
    exact h.buffer
  · intro s hs
    exact (bitmapTest_emptyBitmap h.buffer s).mpr (Or.inl hs)
  · rintro s (hs | ⟨e, he, -⟩)
    · exact absurd hs (not_inExtent_zero _ _)
    · cases he

section Mount

variable {m : Faults} {n : UInt64} {bitmap : List UInt8}

/-- **Format** establishes the coverage. -/
theorem wp_format_coverage (strict : Prop) (setup : ObjectStoreSetup) (d : Disk Sector) :
    wp m (FreshWrites n bitmap) (objectStoreFormat setup)
      (fun r d' => ∀ store, r = some store → Coverage strict store d'.view) d := by
  unfold objectStoreFormat
  rcases setupStore_cases setup with hnone | ⟨hok, hsome⟩
  · rw [hnone, wp_pure]
    intro store h
    cases h
  rw [hsome]
  dsimp only
  rw [wp_bind]
  apply wp_writeSuperblock_view
  · intro d1 _
    rw [wp_unless_true, wp_bind]
    apply wp_writeSuperblock_view
    · intro d2 _
      rw [wp_unless_true, wp_bind, clearWal]
      apply wp_writeWal_view
      intro ok d3 _
      cases ok with
      | false =>
        rw [wp_unless_false, wp_pure]
        intro store h
        cases h
      | true =>
        rw [wp_unless_true, wp_pure]
        intro store h
        rw [← Option.some.inj h]
        exact hok.coverage _
    · intro d2 _
      rw [wp_unless_false, wp_pure]
      intro store h
      cases h
  · intro d1 _
    rw [wp_unless_false, wp_pure]
    intro store h
    cases h

/-- The recovery of the log: nothing to do, a failure, or the logged table is taken over. -/
theorem wp_recoverWal_view {Q : Option (Bool × ObjectStore) → Disk Sector → Prop}
    (hnone : ∀ d' : Disk Sector, Q none d') (hclean : Q (some (false, store)) d)
    (hlog : ∀ (record : ObjectWalRecord) (entries : List ObjectTableEntry) (d' : Disk Sector),
      ReservedOnly d.view d'.view →
      tableOn store.io d.view store.tableCapacity record.tableSector record.tableCount =
        some entries →
      Q (some (true, { store with
        table := ⟨entries, store.tableCapacity⟩
        currentTableSector := record.tableSector
        currentGeneration := record.generation
        superblockSequence := store.superblockSequence + 1
        activeSuperblockSector := otherSuperblock store.activeSuperblockSector })) d') :
    wp m (FreshWrites n bitmap) (recoverWal store) Q d := by
  unfold recoverWal
  rw [wp_bind]
  apply wp_ioReadSector
  · cases sectorOn store.io d.view objectStoreWalSector with
    | none =>
      rw [wp_pure]
      exact hnone d
    | some sector =>
      dsimp only
      rw [wp_ite, wp_pure]
      refine ⟨fun _ => hclean, fun _ => ?_⟩
      rw [wp_ite, wp_pure, wp_bind]
      refine ⟨fun _ => hnone d, fun _ => ?_⟩
      apply wp_readTableGeneration
      · cases htable : tableOn store.io d.view store.tableCapacity
            (ObjectWalRecord.ofSector sector).tableSector
            (ObjectWalRecord.ofSector sector).tableCount with
        | none =>
          rw [Option.map_none, wp_pure]
          exact hnone d
        | some entries =>
          rw [Option.map_some]
          dsimp only
          rw [wp_bind]
          apply wp_writeSuperblock_view
          · intro d1 hd1
            rw [wp_unless_true, wp_bind, clearWal]
            apply wp_writeWal_view
            intro ok d2 hd2
            cases ok with
            | false =>
              rw [wp_unless_false, wp_pure]
              exact hnone d2
            | true =>
              rw [wp_unless_true, wp_pure]
              exact hlog _ entries d2 (hd1.trans hd2) htable
          · intro d1 _
            rw [wp_unless_false, wp_pure]
            exact hnone d1
      · intro _
        rw [wp_pure]
        exact hnone d
  · intro _
    rw [wp_pure]
    exact hnone d

theorem wp_mountRebuild_coverage
    (hbuf : (bitmapBytesFor store.io.sectorCount).toNat ≤ store.bitmap.length)
    (hcur : tableOn store.io d.view store.tableCapacity store.currentTableSector
      (UInt64.ofNat store.table.count) = some store.table.entries) :
    wp m (FreshWrites n bitmap)
      (rebuildBitmap store >>= fun x => pure (if x.1 = true then some x.2 else none))
      (fun r d' => ∀ store', r = some store' → Coverage False store' d'.view) d := by
  rw [wp_bind]
  apply wp_rebuildBitmap store.table.entries hbuf
  · intro b hlen hcur hdisk hmarks
    rw [wp_pure]
    intro store' h
    rw [← Option.some.inj h]
    exact coverage_of_rebuild hbuf hlen hcur hdisk hmarks False.elim
  · intro b _
    rw [wp_pure]
    intro store' h
    cases h
  · intro es hes
    exact (Option.some.inj (hcur.symm.trans hes)).symm

/-- **Mount** establishes the coverage, on whatever disk it succeeds. -/
theorem wp_mount_coverage (setup : ObjectStoreSetup) (d : Disk Sector) :
    wp m (FreshWrites n bitmap) (objectStoreMount setup)
      (fun r d' => ∀ store, r = some store → Coverage False store d'.view) d := by
  have hfail : ∀ d' : Disk Sector, wp m (FreshWrites n bitmap) (pure none : StoreProg _)
      (fun r d' => ∀ store, r = some store → Coverage False store d'.view) d' := by
    intro d'
    rw [wp_pure]
    intro store h
    cases h
  unfold objectStoreMount
  rcases setupStore_cases setup with hnone | ⟨hok, hsome⟩
  · rw [hnone]
    exact hfail d
  rw [hsome]
  dsimp only
  rw [wp_bind]
  refine wp_ioReadSector ?_ (fun _ => hfail d)
  cases sectorOn setup.io d.view objectStoreSuperblockA with
  | none => exact hfail d
  | some first =>
    dsimp only
    rw [wp_bind]
    refine wp_ioReadSector ?_ (fun _ => hfail d)
    cases sectorOn setup.io d.view objectStoreSuperblockB with
    | none => exact hfail d
    | some second =>
      dsimp only
      cases chooseSuperblock setup.io.sectorCount setup.tableCapacity first second with
      | none => exact hfail d
      | some chosen =>
        obtain ⟨active, chosen⟩ := chosen
        dsimp only
        rw [wp_bind]
        apply wp_recoverWal_view
        · exact hfail
        · dsimp only
          rw [wp_bind]
          refine wp_readTableGeneration ?_ (fun _ => hfail d)
          cases htable : tableOn (freshStore setup).io d.view (freshStore setup).tableCapacity
              chosen.currentTableSector chosen.currentTableCount with
          | none =>
            rw [Option.map_none]
            exact hfail d
          | some entries =>
            rw [Option.map_some]
            dsimp only
            have hcount : UInt64.ofNat (⟨entries, setup.tableCapacity⟩ : ObjectTable).count =
                chosen.currentTableCount := by
              rw [ObjectTable.count, (tableOn_shape htable).1, UInt64.ofNat_toNat]
            apply wp_mountRebuild_coverage
            · exact hok.buffer
            · exact hcount.symm ▸ htable
        · intro record entries d' hd' htable
          dsimp only
          have hcount : UInt64.ofNat (⟨entries, setup.tableCapacity⟩ : ObjectTable).count =
              record.tableCount := by
            rw [ObjectTable.count, (tableOn_shape htable).1, UInt64.ofNat_toNat]
          -- recovery has written reserved sectors only
          have htable' : tableOn setup.io d'.view setup.tableCapacity record.tableSector
              record.tableCount = some entries := by
            rw [← htable]
            apply tableOn_congr
            intro t ht
            exact hd' t.toNat (inDevice_of_tableOn htable ht).1
          apply wp_mountRebuild_coverage
          · exact hok.buffer
          · exact hcount.symm ▸ htable'

end Mount

end Jani
