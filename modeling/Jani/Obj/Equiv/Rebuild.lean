import Jani.Obj.Equiv.Layout

/-!
# Rebuilding the bitmap

`Refers` gives the sectors a store refers to: those of its current table and of the objects in
it, and those of every retained snapshot.  A rebuild that succeeds marks exactly these sectors and
the reserved ones (`wp_rebuildBitmap`).
-/

namespace Jani

/-! ### The sectors in use -/

/-- The sectors of a table generation: the table itself and the extents of its entries. -/
def GenerationRefers (entries : List ObjectTableEntry) (tableSector tableCount sector : UInt64) :
    Prop :=
  InExtent tableSector tableCount sector ∨
    ∃ e ∈ entries, InExtent e.firstSector e.sectorCount sector

/-- The sectors a store refers to.  The tables of the snapshots are those on disk. -/
def Refers (store : ObjectStore) (V : Content) (sector : UInt64) : Prop :=
  GenerationRefers store.table.entries store.currentTableSector (UInt64.ofNat store.table.count)
      sector ∨
    ∃ i, (store.snapshots i).id ≠ 0 ∧
      GenerationRefers
        ((tableOn store.io V store.tableCapacity (store.snapshots i).tableSector
          (store.snapshots i).tableCount).getD [])
        (store.snapshots i).tableSector (store.snapshots i).tableCount sector

theorem bitmapFits_of_buffer {io : ObjectStoreIo} {bitmap : List UInt8}
    (h : (bitmapBytesFor io.sectorCount).toNat ≤ bitmap.length) :
    BitmapFits io.sectorCount bitmap := by
  have hfit := io.sectorCount_fits
  rw [bitmapBytesFor, UInt64.toNat_div, UInt64.toNat_add] at h
  simp only [UInt64.reduceToNat] at h
  unfold BitmapFits
  omega

theorem tableOn_zero {io : ObjectStoreIo} {V : Content} {capacity : UInt64} (s : UInt64) :
    tableOn io V capacity s 0 = some [] := by
  have hbad : ¬ ((0 : UInt64) > capacity ∨ ((0 : UInt64) ≠ 0 ∧
      (s < objectStoreFirstAllocatableSector ∨ (0 : UInt64) > io.sectorCount - s))) := by
    simp only [ne_eq, not_true_eq_false, false_and, or_false, gt_iff_lt, UInt64.not_lt]
    exact UInt64.le_iff_toNat_le.mpr (Nat.zero_le _)
  rw [tableOn, if_neg hbad]
  rfl

/-! ### Marking a generation -/

section Marking

variable {n : UInt64} {bitmap : List UInt8}

/-- The bitmap with a generation marked. -/
def markEntries (n : UInt64) (bitmap : List UInt8) (entries : List ObjectTableEntry)
    (tableSector tableCount : UInt64) : List UInt8 :=
  entries.foldl
    (fun bitmap entry => bitmapSetRange n bitmap entry.firstSector entry.sectorCount)
    (bitmapSetRange n bitmap tableSector tableCount)

theorem foldl_set_length (entries : List ObjectTableEntry) : ∀ bitmap : List UInt8,
    (entries.foldl (fun b e => bitmapSetRange n b e.firstSector e.sectorCount) bitmap).length =
      bitmap.length := by
  induction entries with
  | nil => intro bitmap; rfl
  | cons e entries ih =>
    intro bitmap
    rw [List.foldl_cons, ih, length_bitmapSetRange]

theorem bitmapTest_foldl_set (t : UInt64) : ∀ (entries : List ObjectTableEntry)
    (bitmap : List UInt8), BitmapFits n bitmap →
    (bitmapTest n (entries.foldl
        (fun b e => bitmapSetRange n b e.firstSector e.sectorCount) bitmap) t = true ↔
      bitmapTest n bitmap t = true ∨ ∃ e ∈ entries, InExtent e.firstSector e.sectorCount t)
  | [], bitmap, _ => by simp
  | e :: entries, bitmap, hfit => by
    have hfit' : BitmapFits n (bitmapSetRange n bitmap e.firstSector e.sectorCount) := by
      rw [BitmapFits, length_bitmapSetRange]
      exact hfit
    rw [List.foldl_cons, bitmapTest_foldl_set t entries _ hfit', bitmapTest_bitmapSetRange hfit,
      List.exists_mem_cons_iff, or_assoc]

@[simp]
theorem length_markEntries (entries : List ObjectTableEntry) (tableSector tableCount : UInt64) :
    (markEntries n bitmap entries tableSector tableCount).length = bitmap.length := by
  rw [markEntries, foldl_set_length, length_bitmapSetRange]

theorem bitmapTest_markEntries (hfit : BitmapFits n bitmap) (entries : List ObjectTableEntry)
    (tableSector tableCount t : UInt64) :
    bitmapTest n (markEntries n bitmap entries tableSector tableCount) t = true ↔
      bitmapTest n bitmap t = true ∨ GenerationRefers entries tableSector tableCount t := by
  have hfit' : BitmapFits n (bitmapSetRange n bitmap tableSector tableCount) := by
    rw [BitmapFits, length_bitmapSetRange]
    exact hfit
  rw [markEntries, bitmapTest_foldl_set t entries _ hfit', bitmapTest_bitmapSetRange hfit,
    GenerationRefers, or_assoc]

/-- The empty bitmap marks the three root sectors and what is past the device. -/
theorem bitmapTest_emptyBitmap {io : ObjectStoreIo}
    (hbuf : (bitmapBytesFor io.sectorCount).toNat ≤ bitmap.length) (t : UInt64) :
    bitmapTest io.sectorCount (emptyBitmap io bitmap) t = true ↔
      t.toNat < 3 ∨ io.sectorCount ≤ t := by
  have hlen : (writeAt bitmap 0
      (List.replicate (bitmapBytesFor io.sectorCount).toNat 0)).length = bitmap.length := by
    simp only [writeAt, List.take_zero, List.nil_append, List.length_append,
      List.length_replicate, List.length_drop]
    omega
  have hfit : BitmapFits io.sectorCount
      (writeAt bitmap 0 (List.replicate (bitmapBytesFor io.sectorCount).toNat 0)) := by
    apply bitmapFits_of_buffer
    rw [hlen]
    exact hbuf
  have hext : InExtent 0 objectStoreFirstAllocatableSector t ↔ t.toNat < 3 := by
    rw [inExtent_iff (by decide)]
    exact and_iff_right (Nat.zero_le _)
  rw [emptyBitmap, bitmapTest_bitmapSetRange hfit, hext, or_comm]
  apply or_congr Iff.rfl
  rcases Nat.lt_or_ge t.toNat io.sectorCount.toNat with hlt | hge
  · have hsec := io.sectorCount_fits
    have hbyte : t.toNat / 8 < (bitmapBytesFor io.sectorCount).toNat := by
      rw [bitmapBytesFor, UInt64.toNat_div, UInt64.toNat_add]
      simp only [UInt64.reduceToNat]
      omega
    have hzero : (writeAt bitmap 0 (List.replicate (bitmapBytesFor io.sectorCount).toNat 0)).getD
        (t.toNat / 8) 0 = 0 := by
      rw [writeAt, List.take_zero, List.nil_append, List.getD_eq_getElem?_getD,
        List.getElem?_append_left (by simpa using hbyte), List.getElem?_replicate, if_pos hbyte]
      rfl
    rw [bitmapTest_of_lt (UInt64.lt_iff_toNat_lt.mpr hlt), hzero]
    simp only [UInt8.toNat_zero, Nat.zero_testBit, Bool.false_eq_true, false_iff, UInt64.not_le]
    exact UInt64.lt_iff_toNat_lt.mpr hlt
  · have hle := UInt64.le_iff_toNat_le.mpr hge
    rw [bitmapTest_of_ge hle]
    exact ⟨fun _ => hle, fun _ => rfl⟩

theorem length_emptyBitmap {io : ObjectStoreIo}
    (hbuf : (bitmapBytesFor io.sectorCount).toNat ≤ bitmap.length) :
    (emptyBitmap io bitmap).length = bitmap.length := by
  rw [emptyBitmap, length_bitmapSetRange]
  simp only [writeAt, List.take_zero, List.nil_append, List.length_append,
    List.length_replicate, List.length_drop]
  omega

end Marking

/-! ### The rebuild -/

section Rebuild

variable {m : Faults} {I : Event Sector → Disk Sector → Prop}

theorem wp_markGeneration {store : ObjectStore} {tableSector tableCount : UInt64}
    {Q : Bool × List UInt8 → Disk Sector → Prop} {d : Disk Sector}
    (hok : ∀ entries, tableOn store.io d.view store.tableCapacity tableSector tableCount =
      some entries → Q (true, markEntries store.io.sectorCount store.bitmap entries tableSector
        tableCount) d)
    (hfail : m.reads ∨ tableOn store.io d.view store.tableCapacity tableSector tableCount = none →
      Q (false, store.bitmap) d) :
    wp m I (markGeneration store tableSector tableCount) Q d := by
  unfold markGeneration
  rw [wp_ite, wp_pure, wp_bind]
  constructor
  · rintro rfl
    exact hok [] (tableOn_zero _)
  · intro _
    apply wp_readTableGeneration
    · cases htable : tableOn store.io d.view store.tableCapacity tableSector tableCount with
      | none =>
        rw [Option.map_none, wp_pure]
        exact hfail (Or.inr htable)
      | some entries =>
        rw [Option.map_some, wp_pure]
        exact hok entries htable
    · intro hm
      rw [wp_pure]
      exact hfail (Or.inl hm)

/-- The entries of a snapshot's table on disk. -/
def snapshotEntries (store : ObjectStore) (V : Content) (snapshot : ObjectStoreSnapshot) :
    Option (List ObjectTableEntry) :=
  tableOn store.io V store.tableCapacity snapshot.tableSector snapshot.tableCount

/-- Marking every retained snapshot marks what their generations refer to. -/
theorem wp_markSnapshots : ∀ (snapshots : List ObjectStoreSnapshot) (store : ObjectStore)
    (Q : Bool × ObjectStore → Disk Sector → Prop) (d : Disk Sector),
    BitmapFits store.io.sectorCount store.bitmap →
    (∀ bitmap : List UInt8, bitmap.length = store.bitmap.length →
      (∀ s ∈ snapshots, s.id ≠ 0 → ∃ entries, snapshotEntries store d.view s = some entries) →
      (∀ t, bitmapTest store.io.sectorCount bitmap t = true ↔
        bitmapTest store.io.sectorCount store.bitmap t = true ∨
          ∃ s ∈ snapshots, s.id ≠ 0 ∧
            GenerationRefers ((snapshotEntries store d.view s).getD []) s.tableSector
              s.tableCount t) →
      Q (true, { store with bitmap := bitmap }) d) →
    (∀ bitmap : List UInt8, (m.reads ∨ ∃ s ∈ snapshots, s.id ≠ 0 ∧
      snapshotEntries store d.view s = none) → Q (false, { store with bitmap := bitmap }) d) →
    wp m I (markSnapshots store snapshots) Q d
  | [], store, Q, d, _, hok, _ => by
    rw [markSnapshots, wp_pure]
    exact hok store.bitmap rfl (by simp) (by simp)
  | s :: snapshots, store, Q, d, hfit, hok, hfail => by
    rw [markSnapshots, wp_ite, wp_bind]
    constructor
    · -- a free slot
      intro hzero
      apply wp_markSnapshots snapshots store Q d hfit
      · intro bitmap hlen hdisk hmarks
        apply hok bitmap hlen
        · intro r hr hne
          rcases List.mem_cons.mp hr with rfl | hr
          · exact absurd hzero hne
          · exact hdisk r hr hne
        · intro t
          rw [hmarks, List.exists_mem_cons_iff]
          simp [hzero]
      · intro bitmap hbad
        apply hfail bitmap
        exact hbad.imp id (Exists.imp fun _ => And.imp_left (List.mem_cons_of_mem _))
    · intro hne
      apply wp_markGeneration
      · intro entries hentries
        rw [wp_unless_true]
        have hfit' : BitmapFits store.io.sectorCount (markEntries store.io.sectorCount store.bitmap
            entries s.tableSector s.tableCount) := by
          rw [BitmapFits, length_markEntries]
          exact hfit
        apply wp_markSnapshots snapshots _ Q d hfit'
        · intro bitmap hlen hdisk hmarks
          rw [length_markEntries] at hlen
          apply hok bitmap hlen
          · intro r hr hr0
            rcases List.mem_cons.mp hr with rfl | hr
            · exact ⟨entries, hentries⟩
            · exact hdisk r hr hr0
          · intro t
            have hhead : (snapshotEntries store d.view s).getD [] = entries := by
              rw [snapshotEntries, hentries]
              rfl
            rw [hmarks, bitmapTest_markEntries hfit, List.exists_mem_cons_iff, hhead, or_assoc]
            simp only [ne_eq, hne, not_false_eq_true, true_and]
            exact Iff.rfl
        · intro bitmap hbad
          apply hfail bitmap
          exact hbad.imp id (Exists.imp fun _ => And.imp_left (List.mem_cons_of_mem _))
      · intro hbad
        rw [wp_unless_false, wp_pure]
        apply hfail store.bitmap
        exact hbad.imp id fun h => ⟨s, List.mem_cons_self, hne, h⟩

/-- **Rebuild**: a rebuild that succeeds found every table on disk, and marks the reserved sectors
and the sectors in use; it fails only when a read fails or a table is not there. -/
theorem wp_rebuildBitmap {store : ObjectStore} {Q : Bool × ObjectStore → Disk Sector → Prop}
    {d : Disk Sector} (entries : List ObjectTableEntry)
    (hbuf : (bitmapBytesFor store.io.sectorCount).toNat ≤ store.bitmap.length)
    (hok : ∀ bitmap : List UInt8, bitmap.length = store.bitmap.length →
      tableOn store.io d.view store.tableCapacity store.currentTableSector
        (UInt64.ofNat store.table.count) = some entries →
      (∀ i, (store.snapshots i).id ≠ 0 → ∃ entries,
        snapshotEntries store d.view (store.snapshots i) = some entries) →
      (∀ t, bitmapTest store.io.sectorCount bitmap t = true ↔
        (t.toNat < 3 ∨ store.io.sectorCount ≤ t) ∨
          GenerationRefers entries store.currentTableSector (UInt64.ofNat store.table.count) t ∨
          ∃ i, (store.snapshots i).id ≠ 0 ∧
            GenerationRefers ((snapshotEntries store d.view (store.snapshots i)).getD [])
              (store.snapshots i).tableSector (store.snapshots i).tableCount t) →
      Q (true, { store with bitmap := bitmap }) d)
    (hfail : ∀ bitmap : List UInt8,
      (m.reads ∨ tableOn store.io d.view store.tableCapacity store.currentTableSector
        (UInt64.ofNat store.table.count) ≠ some entries ∨
        ∃ i, (store.snapshots i).id ≠ 0 ∧
          snapshotEntries store d.view (store.snapshots i) = none) →
      Q (false, { store with bitmap := bitmap }) d)
    (hentries : ∀ es, tableOn store.io d.view store.tableCapacity store.currentTableSector
        (UInt64.ofNat store.table.count) = some es → es = entries) :
    wp m I (rebuildBitmap store) Q d := by
  unfold rebuildBitmap
  rw [wp_ite, wp_bind, wp_pure]
  refine ⟨fun h => absurd hbuf (by omega), fun _ => ?_⟩
  have hfit : BitmapFits store.io.sectorCount (emptyBitmap store.io store.bitmap) := by
    apply bitmapFits_of_buffer
    rw [length_emptyBitmap hbuf]
    exact hbuf
  apply wp_markGeneration
  · intro es hes
    obtain rfl := hentries es hes
    rw [wp_unless_true]
    apply wp_markSnapshots
    · rw [BitmapFits, length_markEntries]
      exact hfit
    · intro bitmap hlen hdisk hmarks
      rw [length_markEntries, length_emptyBitmap hbuf] at hlen
      apply hok bitmap hlen hes
      · intro i hi
        exact hdisk _ (List.mem_ofFn.mpr ⟨i, rfl⟩) hi
      · intro t
        rw [hmarks, bitmapTest_markEntries hfit, bitmapTest_emptyBitmap hbuf, or_assoc]
        simp only [List.mem_ofFn, exists_exists_eq_and]
        exact Iff.rfl
    · rintro bitmap (hm | ⟨s, hs, hne, hnone⟩)
      · exact hfail bitmap (Or.inl hm)
      · obtain ⟨i, rfl⟩ := List.mem_ofFn.mp hs
        exact hfail bitmap (Or.inr (Or.inr ⟨i, hne, hnone⟩))
  · intro hbad
    rw [wp_unless_false, wp_pure]
    apply hfail
    rcases hbad with hm | hnone
    · exact Or.inl hm
    · right; left
      intro h
      have hsome : tableOn store.io d.view store.tableCapacity store.currentTableSector
        (UInt64.ofNat store.table.count) = none := hnone
      rw [hsome] at h
      cases h

end Rebuild

end Jani
