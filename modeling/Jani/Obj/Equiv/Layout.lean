import Jani.Obj.Operations
import Jani.Obj.Equiv.Bitmap
import Jani.Obj.Equiv.DiskFormat
import Jani.Obj.Equiv.ObjectTable

/-!
# Table generations and extents on a disk

`tableOn` is the table that a content `V` of the disk holds at a given place: what
`readTableGeneration` returns when no read fails (`wp_readTableGeneration`).  It depends only on
the sectors of the table (`tableOn_congr`), and `writeTableGeneration` puts a table there
(`tableOn_of_writes`).
-/

namespace Jani

open ObjectTable (Sorted)

/-- The content of a disk, sector by sector. -/
abbrev Content := Nat → Sector

/-! ### Consecutive sectors -/

variable {sector : UInt64} {bs : List Sector}

theorem mem_sectorWrites_inExtent : ∀ (bs : List Sector) (sector : UInt64) (w : Nat × Sector),
    bs.length < 2 ^ 64 → w ∈ sectorWrites sector bs →
      ∃ t : UInt64, w.1 = t.toNat ∧ (t - sector).toNat < bs.length
  | b :: bs, sector, w, hlen, h => by
    rw [List.length_cons] at hlen ⊢
    rw [sectorWrites] at h
    rcases List.mem_cons.mp h with rfl | h
    · refine ⟨sector, rfl, ?_⟩
      rw [UInt64.sub_self]
      exact Nat.succ_pos _
    · obtain ⟨t, ht, hlt⟩ := mem_sectorWrites_inExtent bs (sector + 1) w (by omega) h
      exact ⟨t, ht, (sub_toNat_lt_succ_iff t sector hlen).mpr (Or.inr hlt)⟩

theorem sectorWrites_eq : ∀ (bs : List Sector) (sector : UInt64),
    sector.toNat + bs.length ≤ 2 ^ 64 →
      sectorWrites sector bs = (List.range' sector.toNat bs.length).zip bs
  | [], _, _ => rfl
  | [b], _, _ => rfl
  | b :: c :: bs, sector, h => by
    have hnext : (sector + 1).toNat = sector.toNat + 1 := by
      rw [List.length_cons, List.length_cons] at h
      exact toNat_add_one (by omega)
    rw [sectorWrites, sectorWrites_eq (c :: bs) (sector + 1)
      (by rw [hnext]; rw [List.length_cons] at h; omega), hnext]
    rfl

section

variable (h : sector.toNat + bs.length ≤ 2 ^ 64)

include h

theorem map_fst_sectorWrites :
    (sectorWrites sector bs).map Prod.fst = List.range' sector.toNat bs.length := by
  rw [sectorWrites_eq bs sector h, List.map_fst_zip]
  simp

theorem applyWrites_sectorWrites_of_notMem (V : Content) {s : Nat}
    (hs : s < sector.toNat ∨ sector.toNat + bs.length ≤ s) :
    applyWrites V (sectorWrites sector bs) s = V s := by
  apply applyWrites_of_notMem
  rw [map_fst_sectorWrites h, List.mem_range'_1]
  omega

theorem applyWrites_sectorWrites_of_mem (V : Content) {w : Nat × Sector}
    (hw : w ∈ sectorWrites sector bs) : applyWrites V (sectorWrites sector bs) w.1 = w.2 := by
  apply applyWrites_of_mem _ _ _ _ _ hw
  rw [map_fst_sectorWrites h]
  exact List.nodup_range'

theorem mem_sectorWrites_bounds {w : Nat × Sector} (hw : w ∈ sectorWrites sector bs) :
    sector.toNat ≤ w.1 ∧ w.1 < sector.toNat + bs.length := by
  have := List.mem_map_of_mem (f := Prod.fst) hw
  rw [map_fst_sectorWrites h, List.mem_range'_1] at this
  exact this

end

/-! ### Tables -/

section Tables

variable (io : ObjectStoreIo) (V : Content)

/-- What `io.read_sector` returns when it does not fail. -/
def sectorOn (sector : UInt64) : Option Sector :=
  if sector ≥ io.sectorCount then none else some (V sector.toNat)

/-- What `readTableEntries` returns when no read fails. -/
def tableEntriesOn : Nat → UInt64 → Option ObjectId → Option (List ObjectTableEntry)
  | 0, _, _ => some []
  | count + 1, sector, previous =>
    match sectorOn io V sector with
    | none => none
    | some record =>
      let entry := tableEntryOfSector record
      if !tableEntryIsValid record ∨ previous.any (fun id => objectIdCompare id entry.id ≠ .lt) then
        none
      else (tableEntriesOn count (sector + 1) (some entry.id)).map (entry :: ·)

/-- What `readTableGeneration` returns when no read fails. -/
def tableOn (capacity firstSector count : UInt64) : Option (List ObjectTableEntry) :=
  if count > capacity ∨
      (count ≠ 0 ∧ (firstSector < objectStoreFirstAllocatableSector ∨
        count > io.sectorCount - firstSector)) then none
  else tableEntriesOn io V count.toNat firstSector none

end Tables

section Reading

variable {m : Faults} {I : Event Sector → Disk Sector → Prop} {io : ObjectStoreIo}

variable {d : Disk Sector}

theorem wp_ioReadSector {Q : Option Sector → Disk Sector → Prop}
    (hQ : Q (sectorOn io d.view sector) d) (hfail : m.reads → Q none d) :
    wp m I (ioReadSector io sector) Q d := by
  unfold ioReadSector
  unfold sectorOn at hQ
  split_ifs at hQ ⊢ with h
  · rw [wp_pure]
    exact hQ
  · rw [wp_readSector]
    exact ⟨hQ, hfail⟩

/-- Reading a table gives the disk's entries, or nothing on a failed read. -/
theorem wp_readTableEntries : ∀ (count : Nat) (sector : UInt64) (previous : Option ObjectId)
    (Q : Option (List ObjectTableEntry) → Disk Sector → Prop) (d : Disk Sector),
    Q (tableEntriesOn io d.view count sector previous) d → (m.reads → Q none d) →
      wp m I (readTableEntries io count sector previous) Q d
  | 0, _, _, _, _, hQ, _ => by
    rw [readTableEntries, wp_pure]
    exact hQ
  | count + 1, sector, previous, Q, d, hQ, hfail => by
    rw [readTableEntries, wp_bind]
    rw [tableEntriesOn] at hQ
    apply wp_ioReadSector _ (by simpa using hfail)
    cases hs : sectorOn io d.view sector with
    | none =>
      rw [hs] at hQ
      rw [wp_pure]
      exact hQ
    | some record =>
      rw [hs] at hQ
      dsimp only at hQ
      simp only [wp_ite, wp_pure, wp_bind]
      refine ⟨fun hbad => by rwa [if_pos hbad] at hQ, fun hgood => ?_⟩
      rw [if_neg hgood] at hQ
      apply wp_readTableEntries count _ _ _ d _ (by simpa using hfail)
      cases hrest : tableEntriesOn io d.view count (sector + 1)
          (some (tableEntryOfSector record).id) with
      | none =>
        rw [hrest] at hQ
        rw [wp_pure]
        exact hQ
      | some entries =>
        rw [hrest] at hQ
        rw [wp_pure]
        exact hQ

theorem wp_readTableGeneration {store : ObjectStore} {firstSector count : UInt64}
    {Q : Option ObjectTable → Disk Sector → Prop}
    (hQ : Q ((tableOn store.io d.view store.tableCapacity firstSector count).map
      fun entries => ⟨entries, store.tableCapacity⟩) d) (hfail : m.reads → Q none d) :
    wp m I (readTableGeneration store firstSector count) Q d := by
  unfold readTableGeneration
  unfold tableOn at hQ
  simp only [wp_ite, wp_pure, wp_bind]
  refine ⟨fun hbad => by rwa [if_pos hbad] at hQ, fun hgood => ?_⟩
  rw [if_neg hgood] at hQ
  apply wp_readTableEntries _ _ _ _ d _ (by simpa using hfail)
  cases hrest : tableEntriesOn store.io d.view count.toNat firstSector none with
  | none =>
    rw [hrest] at hQ
    rw [wp_pure]
    exact hQ
  | some entries =>
    rw [hrest] at hQ
    rw [wp_pure]
    exact hQ

/-- What `readObjectSectors` returns when no read fails. -/
def objectBytesOn (io : ObjectStoreIo) (V : Content) : Nat → UInt64 → Option (List UInt8)
  | 0, _ => some []
  | count + 1, sector =>
    match sectorOn io V sector with
    | none => none
    | some s => (objectBytesOn io V count (sector + 1)).map (s.bytes ++ ·)

/-- The bytes that `getFromDisk` reads and accepts when no read fails. -/
def objectOn (store : ObjectStore) (V : Content) (id : ObjectId) (entry : ObjectTableEntry) :
    Option (List UInt8) :=
  if entry.sectorCount = 0 ∨ entry.firstSector < objectStoreFirstAllocatableSector ∨
      entry.firstSector ≥ store.io.sectorCount ∨
      entry.sectorCount > store.io.sectorCount - entry.firstSector ∨
      entry.sectorCount.toNat > store.cacheCapacity.toNat / objectStoreSectorSize then none
  else
    (objectBytesOn store.io V entry.sectorCount.toNat entry.firstSector).filter fun bytes =>
      objectHeaderValidate bytes ∧ objectIdEqual (ObjectHeader.ofBytes bytes).id id ∧
        (ObjectHeader.ofBytes bytes).version = entry.version

/-- What a get returns, and what it makes of the cache, when no read fails. -/
def getOn (store : ObjectStore) (V : Content) (id : ObjectId) : Option ObjectView × ObjectCache :=
  if objectStoreRequiresRecovery store ∨ objectIdIsZero id then (none, store.cache)
  else
    match objectTableFind store.table id with
    | none => (none, store.cache)
    | some entry =>
      match cacheFind store.cache id entry.version with
      | some index =>
        (some (objectViewOf (store.cache.arena.drop (store.cache.slots.getD index default).offset)),
          cacheTouch store.cache index)
      | none =>
        match objectOn store V id entry with
        | none => (none, store.cache)
        | some bytes =>
          match cacheInsert store.cache id entry.version bytes with
          | (none, cache) => (some (objectViewOf bytes), cache)
          | (some offset, cache) => (some (objectViewOf (cache.arena.drop offset)), cache)

theorem wp_readObjectSectors : ∀ (count : Nat) (sector : UInt64)
    (Q : Option (List UInt8) → Disk Sector → Prop) (d : Disk Sector),
    Q (objectBytesOn io d.view count sector) d → (m.reads → Q none d) →
      wp m I (readObjectSectors io count sector) Q d
  | 0, _, _, _, hQ, _ => by
    rw [readObjectSectors, wp_pure]
    exact hQ
  | count + 1, sector, Q, d, hQ, hfail => by
    rw [readObjectSectors, wp_bind]
    rw [objectBytesOn] at hQ
    apply wp_ioReadSector _ (by simpa using hfail)
    cases hs : sectorOn io d.view sector with
    | none =>
      rw [hs] at hQ
      rw [wp_pure]
      exact hQ
    | some s =>
      rw [hs] at hQ
      dsimp only at hQ ⊢
      rw [wp_bind]
      apply wp_readObjectSectors count (sector + 1) _ d _ (by simpa using hfail)
      cases hrest : objectBytesOn io d.view count (sector + 1) with
      | none =>
        rw [hrest] at hQ
        rw [wp_pure]
        exact hQ
      | some bytes =>
        rw [hrest] at hQ
        rw [wp_pure]
        exact hQ

/-- **Get** returns what `getOn` says, or nothing if a read fails, and changes only the cache. -/
theorem wp_get {store : ObjectStore} (id : ObjectId)
    {Q : Option ObjectView × ObjectStore → Disk Sector → Prop}
    (hQ : Q ((getOn store d.view id).1, { store with cache := (getOn store d.view id).2 }) d)
    (hfail : m.reads → Q (none, store) d) : wp m I (objectStoreGet store id) Q d := by
  unfold objectStoreGet
  unfold getOn at hQ
  rw [wp_ite, wp_pure]
  refine ⟨fun hguard => ?_, fun hguard => ?_⟩
  · rw [if_pos hguard] at hQ
    exact hQ
  rw [if_neg hguard] at hQ
  cases hfind : objectTableFind store.table id with
  | none =>
    rw [hfind] at hQ
    rw [wp_pure]
    exact hQ
  | some entry =>
    rw [hfind] at hQ
    dsimp only at hQ ⊢
    cases hcache : cacheFind store.cache id entry.version with
    | some index =>
      rw [hcache] at hQ
      rw [wp_pure]
      exact hQ
    | none =>
      rw [hcache] at hQ
      dsimp only at hQ ⊢
      unfold objectOn at hQ
      rw [getFromDisk, wp_ite, wp_pure, wp_bind]
      refine ⟨fun hrange => ?_, fun hrange => ?_⟩
      · rw [if_pos hrange] at hQ
        exact hQ
      rw [if_neg hrange] at hQ
      apply wp_readObjectSectors _ _ _ _ _ (fun h => by rw [wp_pure]; exact hfail h)
      cases hbytes : objectBytesOn store.io d.view entry.sectorCount.toNat entry.firstSector with
      | none =>
        rw [hbytes] at hQ
        rw [wp_pure]
        exact hQ
      | some bytes =>
        rw [hbytes, Option.filter_some] at hQ
        dsimp only
        rw [wp_ite, wp_pure]
        refine ⟨fun hbad => ?_, fun hgood => ?_⟩
        · rw [if_neg (by simpa [-objectIdEqual_iff, imp_iff_not_or] using hbad)] at hQ
          exact hQ
        · rw [if_pos (by simpa [-objectIdEqual_iff, imp_iff_not_or] using hgood)] at hQ
          dsimp only at hQ
          rcases hinsert : cacheInsert store.cache id entry.version bytes with ⟨offset, cache⟩
          rw [hinsert] at hQ
          cases offset with
          | none =>
            rw [wp_pure]
            exact hQ
          | some offset =>
            rw [wp_pure]
            exact hQ

end Reading

/-! ### What a table on disk looks like -/

section Shape

variable {io : ObjectStoreIo} {V V' : Content}

theorem sectorOn_of_lt (h : sector < io.sectorCount) :
    sectorOn io V sector = some (V sector.toNat) := by
  rw [sectorOn, if_neg (UInt64.not_le.mpr h)]

theorem tableEntriesOn_congr : ∀ (count : Nat) (sector : UInt64) (previous : Option ObjectId),
    count < 2 ^ 64 → (∀ t : UInt64, (t - sector).toNat < count → V' t.toNat = V t.toNat) →
      tableEntriesOn io V' count sector previous = tableEntriesOn io V count sector previous
  | 0, _, _, _, _ => rfl
  | count + 1, sector, previous, hlt, h => by
    have hhead : V' sector.toNat = V sector.toNat :=
      h sector ((sub_toNat_lt_succ_iff sector sector hlt).mpr (Or.inl rfl))
    have hrest : ∀ p, tableEntriesOn io V' count (sector + 1) p =
        tableEntriesOn io V count (sector + 1) p := by
      intro p
      apply tableEntriesOn_congr count (sector + 1) p (by omega)
      intro t ht
      exact h t ((sub_toNat_lt_succ_iff t sector hlt).mpr (Or.inr ht))
    simp only [tableEntriesOn, sectorOn, hhead, hrest]

/-- **Frame**: the table at a place depends only on the sectors of the place. -/
theorem tableOn_congr {capacity firstSector count : UInt64}
    (h : ∀ t : UInt64, InExtent firstSector count t → V' t.toNat = V t.toNat) :
    tableOn io V' capacity firstSector count = tableOn io V capacity firstSector count := by
  unfold tableOn
  rw [tableEntriesOn_congr count.toNat firstSector none count.toNat_lt]
  intro t ht
  exact h t (UInt64.lt_iff_toNat_lt.mpr ht)

theorem previous_any_iff (previous : Option ObjectId) (id : ObjectId) :
    previous.any (fun p => objectIdCompare p id ≠ .lt) = false ↔
      ∀ p ∈ previous, p.key < id.key := by
  cases previous with
  | none => simp
  | some p =>
    rw [Option.any_some, decide_eq_false_iff_not, not_not, objectIdCompare_eq,
      Nat.compare_eq_lt]
    simp

/-- What reading a table tells about it. -/
structure TableShape (io : ObjectStoreIo) (V : Content) (sector : Nat)
    (entries : List ObjectTableEntry) : Prop where
  sorted : Sorted entries
  valid : ∀ e ∈ entries, e.Valid
  inDevice : entries ≠ [] → sector + entries.length ≤ io.sectorCount.toNat
  stored : ∀ i e, entries[i]? = some e → tableEntryOfSector (V (sector + i)) = e

theorem tableEntryIsValid_valid {s : Sector} (h : tableEntryIsValid s = true) :
    (tableEntryOfSector s).Valid := by
  unfold tableEntryIsValid at h
  simp only at h
  split_ifs at h with hbad
  simp only [not_or, objectIdIsZero_iff] at hbad
  exact ⟨hbad.2.2.1, hbad.2.2.2.1, hbad.2.2.2.2.1, hbad.2.2.2.2.2⟩

/-- A table read back is sorted, valid and of the length asked for. -/
theorem tableEntriesOn_shape : ∀ (count : Nat) (sector : UInt64) (previous : Option ObjectId)
    (entries : List ObjectTableEntry), tableEntriesOn io V count sector previous = some entries →
      entries.length = count ∧ TableShape io V sector.toNat entries ∧
        ∀ p ∈ previous, ∀ e ∈ entries, p.key < e.id.key
  | 0, sector, previous, entries, h => by
    cases h
    exact ⟨rfl, ⟨List.Pairwise.nil, by simp, by simp, by simp⟩, by simp⟩
  | count + 1, sector, previous, entries, h => by
    rw [tableEntriesOn] at h
    split at h
    · cases h
    rename_i record hs
    dsimp only at h
    split_ifs at h with hbad
    rw [not_or, Bool.not_eq_true', Bool.not_eq_false, Bool.not_eq_true,
      previous_any_iff] at hbad
    obtain ⟨hvalid, hprev⟩ := hbad
    obtain ⟨rest, hrest, rfl⟩ := Option.map_eq_some_iff.mp h
    obtain ⟨hlen, hshape, hlt⟩ := tableEntriesOn_shape count (sector + 1) _ rest hrest
    have hsec : sector < io.sectorCount := by
      unfold sectorOn at hs
      split_ifs at hs with hge
      exact UInt64.not_le.mp hge
    have hnext := toNat_succ_of_lt hsec
    have hrec : record = V sector.toNat := by
      rw [sectorOn_of_lt hsec] at hs
      exact (Option.some.inj hs).symm
    have hfirst : ∀ e ∈ rest, (tableEntryOfSector record).id.key < e.id.key :=
      hlt _ rfl
    refine ⟨by rw [List.length_cons, hlen], ⟨?_, ?_, ?_, ?_⟩, ?_⟩
    · exact List.pairwise_cons.mpr ⟨hfirst, hshape.sorted⟩
    · intro e he
      rcases List.mem_cons.mp he with rfl | he
      · exact tableEntryIsValid_valid hvalid
      · exact hshape.valid e he
    · intro _
      have := UInt64.lt_iff_toNat_lt.mp hsec
      by_cases hnil : rest = []
      · rw [hnil, List.length_singleton]
        omega
      · have := hshape.inDevice hnil
        rw [List.length_cons]
        omega
    · intro i e he
      cases i with
      | zero =>
        rw [List.getElem?_cons_zero] at he
        rw [Nat.add_zero, ← hrec]
        exact Option.some.inj he
      | succ i =>
        rw [List.getElem?_cons_succ] at he
        have := hshape.stored i e he
        rwa [hnext, Nat.add_assoc, Nat.add_comm 1 i] at this
    · intro p hp e he
      have hpe := hprev p hp
      rcases List.mem_cons.mp he with rfl | he
      · exact hpe
      · exact hpe.trans (hfirst e he)

theorem tableOn_shape {capacity firstSector count : UInt64} {entries : List ObjectTableEntry}
    (h : tableOn io V capacity firstSector count = some entries) :
    entries.length = count.toNat ∧ count.toNat ≤ capacity.toNat ∧
      (count ≠ 0 → 3 ≤ firstSector.toNat) ∧ TableShape io V firstSector.toNat entries := by
  unfold tableOn at h
  split_ifs at h with hbad
  simp only [not_or, not_and_or, not_not, gt_iff_lt, UInt64.not_lt] at hbad
  obtain ⟨hlen, hshape, -⟩ := tableEntriesOn_shape _ _ _ _ h
  refine ⟨hlen, UInt64.le_iff_toNat_le.mp hbad.1, ?_, hshape⟩
  intro hcount
  exact UInt64.le_iff_toNat_le.mp (hbad.2.resolve_left hcount).1

theorem tableEntriesOn_of_stored : ∀ (entries : List ObjectTableEntry) (sector : UInt64)
    (previous : Option ObjectId), sector.toNat + entries.length ≤ io.sectorCount.toNat →
    Sorted entries → (∀ e ∈ entries, e.Valid) → (∀ p ∈ previous, ∀ e ∈ entries, p.key < e.id.key) →
    (∀ w ∈ sectorWrites sector (entries.map tableEntrySector), V w.1 = w.2) →
      tableEntriesOn io V entries.length sector previous = some entries
  | [], _, _, _, _, _, _, _ => rfl
  | e :: es, sector, previous, hin, hsorted, hvalid, hprev, hstored => by
    rw [List.length_cons] at hin
    have hsec : sector < io.sectorCount := UInt64.lt_iff_toNat_lt.mpr (by omega)
    have hnext := toNat_succ_of_lt hsec
    obtain ⟨hfirst, hsorted'⟩ := List.pairwise_cons.mp hsorted
    rw [List.map_cons, sectorWrites] at hstored
    have hhead : V sector.toNat = tableEntrySector e := hstored _ List.mem_cons_self
    have hrest := tableEntriesOn_of_stored es (sector + 1) (some e.id) (by omega) hsorted'
      (fun a ha => hvalid a (List.mem_cons_of_mem _ ha))
      (by rintro p hp a ha; cases hp; exact hfirst a ha)
      (fun w hw => hstored w (List.mem_cons_of_mem _ hw))
    have hgood : ¬ ((!tableEntryIsValid (tableEntrySector e)) = true ∨
        previous.any (fun id => objectIdCompare id e.id ≠ .lt) = true) := by
      rw [not_or, Bool.not_eq_true', Bool.not_eq_false, Bool.not_eq_true, previous_any_iff]
      exact ⟨tableEntryIsValid_tableEntrySector (hvalid e List.mem_cons_self),
        fun p hp => hprev p hp e List.mem_cons_self⟩
    rw [List.length_cons, tableEntriesOn, sectorOn_of_lt hsec, hhead]
    dsimp only
    rw [tableEntryOfSector_tableEntrySector, if_neg hgood, hrest]
    rfl

/-- **Writing a table**: after the writes of a generation its table is on disk. -/
theorem tableOn_of_stored {capacity : UInt64} {entries : List ObjectTableEntry}
    (hcap : entries.length ≤ capacity.toNat) (h3 : 3 ≤ sector.toNat)
    (hin : sector.toNat + entries.length ≤ io.sectorCount.toNat) (hsorted : Sorted entries)
    (hvalid : ∀ e ∈ entries, e.Valid)
    (hstored : ∀ w ∈ sectorWrites sector (entries.map tableEntrySector), V w.1 = w.2) :
    tableOn io V capacity sector (UInt64.ofNat entries.length) = some entries := by
  have hlt := capacity.toNat_lt
  have hlen : (UInt64.ofNat entries.length).toNat = entries.length :=
    UInt64.toNat_ofNat_of_lt' (lt_of_le_of_lt hcap hlt)
  have hsub : (io.sectorCount - sector).toNat = io.sectorCount.toNat - sector.toNat := by
    rw [UInt64.toNat_sub_of_le]
    rw [UInt64.le_iff_toNat_le]
    omega
  unfold tableOn
  rw [if_neg, hlen]
  · exact tableEntriesOn_of_stored entries sector none hin hsorted hvalid (by simp) hstored
  · simp only [not_or, not_and_or, gt_iff_lt, UInt64.not_lt, UInt64.le_iff_toNat_le, hlen, hsub]
    refine ⟨hcap, Or.inr ⟨h3, by omega⟩⟩

end Shape

end Jani
