import Jani.Obj.Equiv.Atomic

/-!
# Snapshot operations are atomic

Taking, discarding and rolling back to a snapshot, garbage collection and pruning, as `Atomic`
operations; `op_atomic` collects all the operations of a store.

The loop of a prune discards the oldest snapshot until at most `keep` are left.  `scanSnapshots`
counts the snapshots and finds the oldest one; each discard lowers the count by one
(`scanSnapshots_discardSlot`), which is why the loop stops.
-/

namespace Jani

/-! ### Counting snapshots -/

/-- The scan of `seen` counts the used slots and finds the smallest identifier. -/
structure Scanned (seen : List ObjectStoreSnapshot) (scan : Nat × UInt64) : Prop where
  count : scan.1 = seen.countP fun s => s.id ≠ 0
  oldest : (scan.2 = 0 ∧ ∀ s ∈ seen, s.id = 0) ∨
    (scan.2 ≠ 0 ∧ (∃ s ∈ seen, s.id = scan.2) ∧ ∀ s ∈ seen, s.id ≠ 0 → scan.2 ≤ s.id)

/-- The scan for the oldest snapshot, one slot further. -/
theorem Scanned.step {seen : List ObjectStoreSnapshot} {scan : Nat × UInt64}
    (h : Scanned seen scan) (s : ObjectStoreSnapshot) :
    Scanned (seen ++ [s]) (scanStep scan s) := by
  unfold scanStep
  split_ifs with hs hsmaller
  · -- a free slot
    refine ⟨by simp [h.count, hs], ?_⟩
    rcases h.oldest with ⟨h0, hall⟩ | ⟨hne, ⟨t, ht, hid⟩, hmin⟩
    · refine Or.inl ⟨h0, fun t ht => ?_⟩
      rcases List.mem_append.mp ht with ht | ht
      · exact hall t ht
      · rw [List.mem_singleton.mp ht]
        exact hs
    · refine Or.inr ⟨hne, ⟨t, List.mem_append_left _ ht, hid⟩, fun r hr hr0 => ?_⟩
      rcases List.mem_append.mp hr with hr | hr
      · exact hmin r hr hr0
      · rw [List.mem_singleton.mp hr] at hr0
        exact absurd hs hr0
  · -- the first used slot, or one with a smaller identifier
    refine ⟨by simp [h.count, hs], Or.inr ⟨hs, ⟨s, by simp, rfl⟩, fun r hr hr0 => ?_⟩⟩
    rcases List.mem_append.mp hr with hr | hr
    · rcases h.oldest with ⟨-, hall⟩ | ⟨hne, -, hmin⟩
      · exact absurd (hall r hr) hr0
      · rcases hsmaller with h0 | hlt
        · exact absurd h0 hne
        · exact UInt64.le_trans (UInt64.le_of_lt hlt) (hmin r hr hr0)
    · rw [List.mem_singleton.mp hr]
      exact UInt64.le_refl _
  · -- one with a larger identifier
    rw [not_or, UInt64.not_lt] at hsmaller
    refine ⟨by simp [h.count, hs], Or.inr ?_⟩
    rcases h.oldest with ⟨h0, -⟩ | ⟨hne, ⟨t, ht, hid⟩, hmin⟩
    · exact absurd h0 hsmaller.1
    · refine ⟨hne, ⟨t, List.mem_append_left _ ht, hid⟩, fun r hr hr0 => ?_⟩
      rcases List.mem_append.mp hr with hr | hr
      · exact hmin r hr hr0
      · rw [List.mem_singleton.mp hr]
        exact hsmaller.2

theorem Scanned.foldl : ∀ (todo seen : List ObjectStoreSnapshot) (scan : Nat × UInt64),
    Scanned seen scan → Scanned (seen ++ todo) (todo.foldl scanStep scan)
  | [], seen, scan, h => by
    rw [List.append_nil]
    exact h
  | s :: todo, seen, scan, h => by
    have := Scanned.foldl todo (seen ++ [s]) _ (h.step s)
    rwa [List.append_assoc] at this

/-- **The scan of a prune** counts the snapshots and finds the oldest one. -/
theorem scanSnapshots_spec (snapshots : Snapshots) :
    Scanned (List.ofFn snapshots) (scanSnapshots snapshots) :=
  Scanned.foldl (List.ofFn snapshots) [] (0, 0) ⟨rfl, Or.inl ⟨rfl, fun _ h => by cases h⟩⟩

theorem scanSnapshots_le (snapshots : Snapshots) :
    (scanSnapshots snapshots).1 ≤ objectStoreSnapshotLimit := by
  rw [(scanSnapshots_spec snapshots).count]
  exact List.countP_le_length.trans (by rw [List.length_ofFn])

variable {snapshots : Snapshots} {slot : Fin objectStoreSnapshotLimit}

theorem findSnapshot_none {id : UInt64} (h : findSnapshot snapshots id = none)
    (slot : Fin objectStoreSnapshotLimit) : (snapshots slot).id ≠ id := by
  have := List.find?_eq_none.mp h slot (List.mem_finRange slot)
  simpa using this

theorem exists_oldest (h : (scanSnapshots snapshots).1 ≠ 0) : (scanSnapshots snapshots).2 ≠ 0 ∧
      ∃ slot, findSnapshot snapshots (scanSnapshots snapshots).2 = some slot := by
  have hspec := scanSnapshots_spec snapshots
  rcases hspec.oldest with ⟨-, hall⟩ | ⟨hne, ⟨s, hs, hid⟩, -⟩
  · rw [hspec.count, List.countP_eq_zero.mpr] at h
    · exact absurd rfl h
    · intro s hs
      simpa using hall s hs
  · refine ⟨hne, ?_⟩
    obtain ⟨i, rfl⟩ := List.mem_ofFn.mp hs
    cases hfind : findSnapshot snapshots (scanSnapshots snapshots).2 with
    | none => exact absurd hid (findSnapshot_none hfind i)
    | some slot => exact ⟨slot, rfl⟩

theorem ofFn_update (snapshots : Snapshots) (slot : Fin objectStoreSnapshotLimit)
    (s : ObjectStoreSnapshot) :
    List.ofFn (Function.update snapshots slot s) = (List.ofFn snapshots).set slot s := by
  apply List.ext_getElem
  · simp
  intro i hi hi'
  rw [List.getElem_set, List.getElem_ofFn]
  by_cases hslot : (slot : Nat) = i
  · subst hslot
    simp
  · rw [if_neg hslot, List.getElem_ofFn, Function.update_of_ne]
    intro heq
    exact hslot (congrArg Fin.val heq).symm

theorem scanSnapshots_discardSlot (h : (snapshots slot).id ≠ 0) :
    (scanSnapshots (Function.update snapshots slot ⟨0, 0, 0⟩)).1 =
      (scanSnapshots snapshots).1 - 1 := by
  rw [(scanSnapshots_spec _).count, (scanSnapshots_spec _).count, ofFn_update,
    List.countP_set (by simp)]
  simp [h]

/-! ### Snapshots -/

section Snapshots

variable {store : ObjectStore} {D : Content}

/-- The store with the current table as a snapshot. -/
def ObjectStore.withSnapshot (store : ObjectStore) (slot : Fin objectStoreSnapshotLimit) :
    ObjectStore :=
  { store with
    snapshots := Function.update store.snapshots slot
      ⟨store.currentGeneration + 1, store.currentTableSector, UInt64.ofNat store.table.count⟩
    currentGeneration := store.currentGeneration + 1 }

theorem Mounted.ofNat_count_ne (h : Mounted store D) (hcount : store.table.count ≠ 0) :
    UInt64.ofNat store.table.count ≠ 0 := by
  intro h0
  have := toNat_ofNat_of_le h.coverage.count_le
  rw [h0] at this
  exact hcount this.symm

/-- The root with one more snapshot describes the same disk. -/
theorem Mounted.rootOn_withSnapshot (h : Mounted store D) (hcount : store.table.count ≠ 0)
    (slot : Fin objectStoreSnapshotLimit) :
    RootOn store.io store.tableCapacity D store.nextSector.toNat
      (store.withSnapshot slot).root := by
  have hgen := h.generation_succ
  have hids : ∀ i, (store.snapshots i).id.toNat ≤ store.currentGeneration.toNat := h.root.ids_le
  have hnew : ∀ i, (store.snapshots i).id ≠ store.currentGeneration + 1 := by
    intro i heq
    have := hids i
    rw [heq] at this
    omega
  have hsnap : (store.withSnapshot slot).root.snapshots = Function.update store.snapshots slot
    ⟨store.currentGeneration + 1, store.currentTableSector, UInt64.ofNat store.table.count⟩ := rfl
  refine ⟨h.root.next_ge, h.root.next_le, h.root.current, ?_, ?_, ?_⟩
  · intro i hi
    rw [hsnap] at hi ⊢
    by_cases hslot : i = slot
    · subst hslot
      rw [Function.update_self]
      exact ⟨h.ofNat_count_ne hcount, h.root.current⟩
    · rw [Function.update_of_ne hslot] at hi ⊢
      exact h.root.snapshots i hi
  · intro i j hi hij
    rw [hsnap] at hi hij
    by_cases hislot : i = slot
    · by_cases hjslot : j = slot
      · rw [hislot, hjslot]
      · subst hislot
        rw [Function.update_self, Function.update_of_ne hjslot] at hij
        exact absurd hij.symm (hnew j)
    · rw [Function.update_of_ne hislot] at hi hij
      by_cases hjslot : j = slot
      · subst hjslot
        rw [Function.update_self] at hij
        exact absurd hij (hnew i)
      · rw [Function.update_of_ne hjslot] at hij
        exact h.root.ids_inj i j hi hij
  · intro i
    rw [hsnap]
    change _ ≤ (store.currentGeneration + 1).toNat
    by_cases hslot : i = slot
    · subst hslot
      rw [Function.update_self]
    · rw [Function.update_of_ne hslot]
      have := hids i
      omega

/-- **The effect of taking a snapshot.** -/
theorem Mounted.createEffect (h : Mounted store D) (hslot : (store.snapshots slot).id = 0) :
    CreateEffect (store.currentGeneration + 1) (logicalState store D)
      (logicalState (store.withSnapshot slot) D) := by
  have hgen : store.currentGeneration + 1 ≠ 0 := by
    intro h0
    have := h.generation_succ
    rw [h0] at this
    simp at this
  refine ⟨rfl, rfl, rfl, slot, _, _, hslot, rfl, ?_⟩
  have hslotObjects : slotObjects store.io store.tableCapacity D
      ⟨store.currentGeneration + 1, store.currentTableSector, UInt64.ofNat store.table.count⟩ =
        (logicalState store D).objects := by
    rw [slotObjects, if_neg hgen, h.coverage.current.onDisk]
    rfl
  rw [← hslotObjects]
  exact Function.comp_update (slotObjects store.io store.tableCapacity D) store.snapshots slot _

/-- **What taking a snapshot does**: it fails, or it writes the superblock with a new slot. -/
theorem objectStoreSnapshotCreate_cases (store : ObjectStore) :
    objectStoreSnapshotCreate store = pure (none, store) ∨
    ∃ slot, (store.snapshots slot).id = 0 ∧ store.table.count ≠ 0 ∧
      objectStoreSnapshotCreate store = (do
        let r ← writeSuperblock (store.withSnapshot slot)
        if !r.1 then return (none, store)
        return (some (store.currentGeneration + 1), r.2)) := by
  unfold objectStoreSnapshotCreate
  dsimp only
  split_ifs with hguard hused
  · exact Or.inl rfl
  · exact Or.inl rfl
  · simp only [not_or] at hguard
    cases hfind : findSnapshot store.snapshots 0 with
    | none => exact Or.inl rfl
    | some slot => exact Or.inr ⟨slot, findSnapshot_some hfind, hguard.2.2.2, rfl⟩

section

variable (h : Mounted store D) (hcount : store.table.count ≠ 0)
  (hfind : findSnapshot store.snapshots 0 = some slot)

include h hcount hfind

theorem Mounted.objectStoreSnapshotCreate_eq : objectStoreSnapshotCreate store = (do
      let r ← writeSuperblock (store.withSnapshot slot)
      if !r.1 then return (none, store)
      return (some (store.currentGeneration + 1), r.2)) := by
  have hgen := h.generation_succ
  have hlt := (store.currentGeneration + 1).toNat_lt
  obtain ⟨-, -, h3, -⟩ := tableOn_shape h.coverage.current.onDisk
  have hunused : findSnapshot store.snapshots (store.currentGeneration + 1) = none := by
    cases hfind' : findSnapshot store.snapshots (store.currentGeneration + 1) with
    | none => rfl
    | some slot' =>
      have hle : (store.snapshots slot').id.toNat ≤ store.currentGeneration.toNat :=
        h.root.ids_le slot'
      rw [findSnapshot_some hfind'] at hle
      omega
  unfold objectStoreSnapshotCreate
  rw [if_neg]
  · dsimp only
    rw [hunused, hfind]
    rfl
  · rw [objectStoreRequiresRecovery, h.ready]
    rintro (hr | hmax | hlow | h0)
    · cases hr
    · rw [hmax] at hgen
      simp at hgen
    · have : store.currentTableSector.toNat < 3 := UInt64.lt_iff_toNat_lt.mp hlow
      have := h3 (h.ofNat_count_ne hcount)
      omega
    · exact hcount h0

theorem Mounted.run_create : run (StoreOp.prog store .snapshotCreate) (Disk.clean D) =
      ((.snapshot (some (store.currentGeneration + 1)), (store.withSnapshot slot).advance),
        Disk.clean (superblockWritten (store.withSnapshot slot) D)) := by
  rw [StoreOp.prog, h.objectStoreSnapshotCreate_eq hcount hfind, wrapResult, run_bind, run_bind,
    run_writeSuperblock]
  rfl

end

/-- **Taking a snapshot is atomic.** -/
theorem create_atomic (h : Mounted store D)
    (hseq : store.superblockSequence.toNat + 1 < 2 ^ 64) : Atomic store D .snapshotCreate := by
  have hgen := h.sequence
  rcases objectStoreSnapshotCreate_cases store with heq | ⟨slot, hslot, hcount, heq⟩
  · exact atomic_of_pure (.snapshot none) h (by rw [StoreOp.prog, heq]; rfl) rfl rfl
  · refine ⟨logicalState (store.withSnapshot slot) D, ?_⟩
    rw [StoreOp.prog, wp_wrapResult_iff, heq, wp_bind]
    apply wp_writeSuperblock_mounted (store.withSnapshot slot) h rfl rfl rfl rfl hseq
      (h.rootOn_withSnapshot hcount slot) (CoverageOf.create h.coverage slot _) h.ready
      h.capacity
    · change (store.currentGeneration + 1).toNat + 1 ≤ store.superblockSequence.toNat
      have := h.generation_succ
      omega
    · rintro D' (hD' | hD')
      · exact ⟨_, Or.inl rfl, hD'⟩
      · exact ⟨_, Or.inr (Or.inl rfl), hD'⟩
    · intro hm hl
      dsimp only
      rw [wp_unless_true, wp_pure]
      refine ⟨_, rfl, ⟨⟨hm, rfl, rfl, rfl, advance_sequence_le _⟩, ?_, rfl⟩, hl⟩
      rw [hl]
      exact h.createEffect hslot

/-! ### Discarding -/

/-- The store without the snapshot in the slot. -/
def ObjectStore.withoutSnapshot (store : ObjectStore) (slot : Fin objectStoreSnapshotLimit) :
    ObjectStore :=
  { store with snapshots := Function.update store.snapshots slot ⟨0, 0, 0⟩ }

/-- The root with one snapshot less describes the same disk. -/
theorem Mounted.rootOn_withoutSnapshot (h : Mounted store D) (slot : Fin objectStoreSnapshotLimit) :
    RootOn store.io store.tableCapacity D store.nextSector.toNat
      (store.withoutSnapshot slot).root := by
  have hsnap : ∀ i, ((store.withoutSnapshot slot).root.snapshots i).id ≠ 0 →
      (store.withoutSnapshot slot).root.snapshots i = store.snapshots i := by
    intro i hi
    change (Function.update store.snapshots slot ⟨0, 0, 0⟩ i).id ≠ 0 at hi
    change Function.update store.snapshots slot ⟨0, 0, 0⟩ i = _
    by_cases hslot : i = slot
    · subst hslot
      rw [Function.update_self] at hi
      exact absurd rfl hi
    · exact Function.update_of_ne hslot _ _
  refine ⟨h.root.next_ge, h.root.next_le, h.root.current, ?_, ?_, ?_⟩
  · intro i hi
    have heq := hsnap i hi
    rw [heq] at hi ⊢
    exact h.root.snapshots i hi
  · intro i j hi hij
    have heqi := hsnap i hi
    have heqj := hsnap j (by rw [← hij]; exact hi)
    rw [heqi] at hi hij
    rw [heqj] at hij
    exact h.root.ids_inj i j hi hij
  · intro i
    by_cases hi : ((store.withoutSnapshot slot).root.snapshots i).id = 0
    · rw [hi]
      exact Nat.zero_le _
    · rw [hsnap i hi]
      exact h.root.ids_le i

theorem logicalState_withoutSnapshot (store : ObjectStore) (D : Content)
    (slot : Fin objectStoreSnapshotLimit) :
    logicalState (store.withoutSnapshot slot) D = (logicalState store D).discardSlot slot := by
  unfold logicalState LogicalState.discardSlot
  congr 1
  exact Function.comp_update (slotObjects store.io store.tableCapacity D) store.snapshots slot _

variable {snapshotId : UInt64}

section

variable (hready : store.recoveryRequired = false) (hid : snapshotId ≠ 0)
  (hfind : findSnapshot store.snapshots snapshotId = some slot)

include hready hid hfind

theorem objectStoreSnapshotDiscard_eq : objectStoreSnapshotDiscard store snapshotId = (do
      let r ← writeSuperblock (store.withoutSnapshot slot)
      if !r.1 then return (false, store)
      return (true, r.2)) := by
  unfold objectStoreSnapshotDiscard
  rw [if_neg (by
    rw [objectStoreRequiresRecovery, hready]
    simpa using hid), hfind]
  rfl

theorem run_discard : run (StoreOp.prog store (.snapshotDiscard snapshotId)) (Disk.clean D) =
      ((.flag true, (store.withoutSnapshot slot).advance),
        Disk.clean (superblockWritten (store.withoutSnapshot slot) D)) := by
  rw [StoreOp.prog, objectStoreSnapshotDiscard_eq hready hid hfind, wrapResult, run_bind, run_bind,
    run_writeSuperblock]
  rfl

end

variable {Q : Bool × ObjectStore → Disk Sector → Prop} {P : Content → Prop}

theorem wp_discard_clean (h : Mounted store D) (hseq : store.superblockSequence.toNat + 1 < 2 ^ 64)
    (hid : snapshotId ≠ 0) (hfind : findSnapshot store.snapshots snapshotId = some slot)
    (hold : ∀ D', Recoverable store.io store.tableCapacity D' (logicalState store D)
      (store.superblockSequence.toNat + 1) → P D')
    (hnew : ∀ D', Recoverable store.io store.tableCapacity D'
      ((logicalState store D).discard snapshotId)
      (store.superblockSequence.toNat + 1) → P D')
    (hQ : ∀ D', Reaches store 1 (store.withoutSnapshot slot).advance D' →
      logicalState (store.withoutSnapshot slot).advance D' =
        (logicalState store D).discard snapshotId →
      Q (true, (store.withoutSnapshot slot).advance) (Disk.clean D')) :
    wp Faults.none (crashInv P) (objectStoreSnapshotDiscard store snapshotId) Q (Disk.clean D) := by
  have hgen := h.sequence
  have hlogical : logicalState (store.withoutSnapshot slot) D =
      (logicalState store D).discard snapshotId := by
    have hfind' : findSnapshot (logicalState store D).snapshots snapshotId = some slot := hfind
    rw [logicalState_withoutSnapshot, LogicalState.discard, hfind']
  rw [objectStoreSnapshotDiscard_eq h.ready hid hfind, wp_bind]
  apply wp_writeSuperblock_mounted (store.withoutSnapshot slot) h rfl rfl rfl rfl hseq
    (h.rootOn_withoutSnapshot slot) (CoverageOf.discard h.coverage slot) h.ready h.capacity
    (show store.currentGeneration.toNat + 1 ≤ store.superblockSequence.toNat by omega)
  · rw [hlogical]
    rintro D' (hD' | hD')
    · exact hold D' hD'
    · exact hnew D' hD'
  · intro hm hl
    dsimp only
    rw [wp_unless_true, wp_pure]
    exact hQ _ ⟨hm, rfl, rfl, rfl, advance_sequence_le _⟩ (hl.trans hlogical)

/-- **Discarding a snapshot is atomic.** -/
theorem discard_atomic (h : Mounted store D) (snapshotId : UInt64)
    (hseq : store.superblockSequence.toNat + 1 < 2 ^ 64) :
    Atomic store D (.snapshotDiscard snapshotId) := by
  by_cases hid : snapshotId = 0
  · refine atomic_of_pure (.flag false) h ?_ rfl rfl
    rw [StoreOp.prog, objectStoreSnapshotDiscard, if_pos (Or.inr hid)]
    rfl
  cases hfind : findSnapshot store.snapshots snapshotId with
  | none =>
    refine atomic_of_pure (.flag false) h ?_ rfl rfl
    rw [StoreOp.prog, objectStoreSnapshotDiscard, hfind]
    dsimp only
    rw [ite_self]
    rfl
  | some slot =>
    refine ⟨(logicalState store D).discard snapshotId, ?_⟩
    rw [StoreOp.prog, wp_wrapResult_iff]
    apply wp_discard_clean h hseq hid hfind
    · exact fun D' hD' => ⟨_, Or.inl rfl, hD'⟩
    · exact fun D' hD' => ⟨_, Or.inr (Or.inl rfl), hD'⟩
    · exact fun D' hreach hl => ⟨D', rfl, ⟨hreach, hl, rfl⟩, hl⟩

/-! ### Rollback -/

theorem rollback_unknown (hfind : findSnapshot store.snapshots snapshotId = none) :
    StoreOp.prog store (.snapshotRollback snapshotId) = pure (.flag false, store) := by
  rw [StoreOp.prog, objectStoreSnapshotRollback, hfind]
  dsimp only
  rw [ite_self]
  rfl

/-- **Rollback is atomic**, and it succeeds on every retained snapshot. -/
theorem rollback_atomic (h : Mounted store D) (snapshotId : UInt64)
    (hseq : store.superblockSequence.toNat + 1 < 2 ^ 64) :
    Atomic store D (.snapshotRollback snapshotId) := by
  have hgen := h.sequence
  have hmax : store.currentGeneration ≠ 0xFFFFFFFFFFFFFFFF := by
    intro heq
    rw [heq] at hgen
    simp only [UInt64.reduceToNat] at hgen
    omega
  by_cases hid : snapshotId = 0
  · refine atomic_of_pure (.flag false) h ?_ ⟨rfl, Or.inl hid⟩ rfl
    rw [StoreOp.prog, objectStoreSnapshotRollback, if_pos (Or.inr (Or.inl hid))]
    rfl
  cases hfind : findSnapshot store.snapshots snapshotId with
  | none =>
    exact atomic_of_pure (.flag false) h (rollback_unknown hfind)
      ⟨rfl, Or.inr (findSnapshot_none hfind)⟩ rfl
  | some slot =>
    have hslot : (store.snapshots slot).id = snapshotId := findSnapshot_some hfind
    have hused : (store.snapshots slot).id ≠ 0 := by
      rw [hslot]
      exact hid
    obtain ⟨hcount, entries, hon⟩ : (store.snapshots slot).tableCount ≠ 0 ∧ ∃ entries,
      GenerationOn store.io store.tableCapacity D store.nextSector.toNat
        (store.snapshots slot).tableSector (store.snapshots slot).tableCount entries :=
      h.root.snapshots slot hused
    have hcovered := h.coverage.snapshots slot hused
    obtain ⟨hlen, hle, h3, -⟩ := tableOn_shape hon.onDisk
    have hbounds : ¬ ((store.snapshots slot).tableSector < objectStoreFirstAllocatableSector ∨
        (store.snapshots slot).tableCount = 0 ∨
        (store.snapshots slot).tableCount > store.tableCapacity) := by
      rintro (hlow | hzero | hbig)
      · have : (store.snapshots slot).tableSector.toNat < 3 := UInt64.lt_iff_toNat_lt.mp hlow
        have := h3 hcount
        omega
      · exact hcount hzero
      · have : store.tableCapacity.toNat < (store.snapshots slot).tableCount.toNat :=
          UInt64.lt_iff_toNat_lt.mp hbig
        omega
    -- the table just read has the length that the snapshot records
    have hcount' : UInt64.ofNat (⟨entries, store.tableCapacity⟩ : ObjectTable).count =
        (store.snapshots slot).tableCount := by
      rw [ObjectTable.count, hlen, UInt64.ofNat_toNat]
    have hcov : Coverage True (store.adopt ⟨entries, store.tableCapacity⟩
        (store.snapshots slot).tableSector) D := by
      obtain ⟨entries', hc⟩ := hcovered
      have : entries' = entries := Option.some.inj (hc.onDisk.symm.trans hon.onDisk)
      subst this
      exact CoverageOf.rollback h.coverage hc
    refine ⟨logicalState (store.adopt ⟨entries, store.tableCapacity⟩
      (store.snapshots slot).tableSector) D, ?_⟩
    rw [StoreOp.prog, wp_wrapResult_iff, objectStoreSnapshotRollback, if_neg (by
      rw [objectStoreRequiresRecovery, h.ready]
      simp only [not_or]
      exact ⟨Bool.false_ne_true, hid, hmax⟩), hfind]
    dsimp only
    rw [if_neg hbounds, wp_bind]
    refine wp_readTableGeneration ?_ False.elim
    rw [Disk.view_clean, hon.onDisk, Option.map_some]
    dsimp only
    apply wp_commit h hseq rfl hcov
    · refine ⟨entries, ?_⟩
      rw [hcount']
      exact hon
    · rintro D' (hD' | hD')
      · exact ⟨_, Or.inl rfl, hD'⟩
      · exact ⟨_, Or.inr (Or.inl rfl), hD'⟩
    · intro D' _ hm hl
      refine ⟨D', rfl, ⟨⟨hm, rfl, rfl, rfl, advance_sequence_le _⟩, ?_, rfl⟩, hl⟩
      rw [hl]
      refine ⟨rfl, rfl, rfl, slot, hid, hslot, ?_⟩
      change objectsOn D entries = slotObjects _ _ D (store.snapshots slot)
      rw [slotObjects, if_neg hused, hon.onDisk, Option.getD_some]

/-! ### Collect and prune -/

theorem wp_collect_clean (h : Mounted store D)
    (hQ : ∀ store', Reaches store 0 store' D → store'.cache = store.cache →
      logicalState store' D = logicalState store D → Q (true, store') (Disk.clean D)) :
    wp Faults.none (crashInv P) (objectStoreCollect store) Q (Disk.clean D) := by
  unfold objectStoreCollect
  rw [objectStoreRequiresRecovery, h.ready, if_neg Bool.false_ne_true]
  apply wp_mono (wp_rebuildBitmap_coverage (fun hf => hf) h.coverage)
  rintro ⟨ok, store'⟩ d' ⟨rfl, rfl, hcov, bitmap, rfl⟩
  exact hQ _ ⟨⟨h.ready, h.capacity, h.superblock, h.log, h.root, hcov, h.sequence⟩, rfl, rfl, rfl,
    le_refl _⟩ rfl rfl

/-- **Collection is atomic.** -/
theorem collect_atomic (h : Mounted store D) : Atomic store D .collect := by
  refine ⟨logicalState store D, ?_⟩
  rw [StoreOp.prog, wp_wrapResult_iff]
  apply wp_collect_clean h
  exact fun store' hreach hcache hl => ⟨D, rfl, ⟨hreach, hl, hcache⟩, hl⟩

/-- The loop of a prune discards the oldest snapshots until at most `keep` are left; a power cut
leaves a disk that recovers to the state after some of these discards. -/
theorem wp_pruneLoop_clean {keep : Nat} :
    ∀ (fuel : Nat) (store : ObjectStore) (D : Content), Mounted store D →
    (scanSnapshots store.snapshots).1 ≤ keep + fuel →
    store.superblockSequence.toNat + ((scanSnapshots store.snapshots).1 - keep) < 2 ^ 64 →
    (∀ discards ≤ (scanSnapshots store.snapshots).1 - keep, ∀ D',
      Recoverable store.io store.tableCapacity D'
        (LogicalState.discardOldest^[discards] (logicalState store D))
        (store.superblockSequence.toNat + ((scanSnapshots store.snapshots).1 - keep)) → P D') →
    (∀ store' D', Reaches store ((scanSnapshots store.snapshots).1 - keep) store' D' →
      store'.cache = store.cache →
      logicalState store' D' = LogicalState.discardOldest^[(scanSnapshots store.snapshots).1 - keep]
        (logicalState store D) → Q (true, store') (Disk.clean D')) →
    wp Faults.none (crashInv P) (pruneLoop keep fuel store) Q (Disk.clean D)
  | 0, store, D, h, hfuel, hseq, _, hQ => by
    have hzero : (scanSnapshots store.snapshots).1 - keep = 0 := by omega
    rw [hzero] at hQ
    rw [pruneLoop]
    apply wp_collect_clean h
    exact fun store' hreach hcache hl => hQ store' D hreach hcache hl
  | fuel + 1, store, D, h, hfuel, hseq, hP, hQ => by
    rw [pruneLoop]
    dsimp only
    by_cases hdone : (scanSnapshots store.snapshots).1 ≤ keep
    · have hzero : (scanSnapshots store.snapshots).1 - keep = 0 := by omega
      rw [hzero] at hQ
      rw [if_pos (Or.inl hdone)]
      apply wp_collect_clean h
      exact fun store' hreach hcache hl => hQ store' D hreach hcache hl
    · obtain ⟨holdest, slot, hfind⟩ :=
        @exists_oldest store.snapshots (by omega)
      have hslot : (store.snapshots slot).id ≠ 0 := by
        rw [findSnapshot_some hfind]
        exact holdest
      have hcount := scanSnapshots_discardSlot hslot
      have hdiscard : (logicalState store D).discardOldest =
          (logicalState store D).discard (scanSnapshots store.snapshots).2 := if_neg holdest
      -- one discard now, the others by the induction hypothesis
      obtain ⟨rest, hrest⟩ : ∃ rest, (scanSnapshots store.snapshots).1 - keep = rest + 1 :=
        ⟨_, (Nat.succ_pred_eq_of_pos (by omega)).symm⟩
      have hrest' : (scanSnapshots (store.withoutSnapshot slot).advance.snapshots).1 - keep =
          rest := by
        change (scanSnapshots (Function.update store.snapshots slot ⟨0, 0, 0⟩)).1 - keep = rest
        rw [hcount]
        omega
      rw [hrest] at hseq hP hQ
      have hseq1 : (store.withoutSnapshot slot).superblockSequence.toNat + 1 < 2 ^ 64 := by
        change store.superblockSequence.toNat + 1 < 2 ^ 64
        omega
      have hadvance : (store.withoutSnapshot slot).advance.superblockSequence.toNat =
          store.superblockSequence.toNat + 1 := advance_sequence hseq1
      rw [if_neg (not_or.mpr ⟨hdone, holdest⟩), wp_bind]
      apply wp_discard_clean h hseq1 holdest hfind
      · exact fun D' hD' => hP 0 (Nat.zero_le _) D' (hD'.mono (by omega))
      · intro D' hD'
        rw [← hdiscard] at hD'
        exact hP 1 (by omega) D' (hD'.mono (by omega))
      · intro D1 hreach1 hl1
        rw [← hdiscard] at hl1
        rw [wp_unless_true]
        apply wp_pruneLoop_clean fuel _ D1 hreach1.mounted
        · change (scanSnapshots (Function.update store.snapshots slot ⟨0, 0, 0⟩)).1 ≤ _
          rw [hcount]
          omega
        · rw [hrest', hadvance]
          omega
        · rw [hrest', hadvance, hl1]
          intro discards hle D' hD'
          refine hP (discards + 1) (by omega) D' ?_
          rw [Function.iterate_succ_apply]
          exact hD'.mono (by omega)
        · rw [hrest', hl1]
          intro store' D' hreach hcache hl
          refine hQ store' D' ⟨hreach.mounted, hreach.io_eq, hreach.tableCapacity_eq,
            hreach.cacheCapacity_eq, ?_⟩ hcache ?_
          · have := hreach.sequence_le
            omega
          · rw [Function.iterate_succ_apply]
            exact hl

/-- **Prune** is atomic up to its discards. -/
theorem prune_atomic (h : Mounted store D) (keep : Nat)
    (hseq : store.superblockSequence.toNat + ((scanSnapshots store.snapshots).1 - keep) < 2 ^ 64) :
    Atomic store D (.snapshotPrune keep) := by
  by_cases hkeep : keep > objectStoreSnapshotLimit
  · refine atomic_of_pure (.flag false) h ?_ rfl rfl
    rw [StoreOp.prog, objectStoreSnapshotPrune, if_pos (Or.inr hkeep)]
    rfl
  · refine ⟨LogicalState.discardOldest^[(scanSnapshots store.snapshots).1 - keep]
      (logicalState store D), ?_⟩
    rw [StoreOp.prog, wp_wrapResult_iff, objectStoreSnapshotPrune, if_neg (by
      rw [objectStoreRequiresRecovery, h.ready]
      exact not_or.mpr ⟨Bool.false_ne_true, hkeep⟩)]
    have hle := scanSnapshots_le store.snapshots
    apply wp_pruneLoop_clean objectStoreSnapshotLimit store D h (by omega) hseq
    · exact fun discards hd D' hD' => ⟨_, Or.inr (Or.inr ⟨keep, discards, rfl, hd, rfl⟩), hD'⟩
    · exact fun store' D' hreach hcache hl => ⟨D', rfl, ⟨hreach, hl, hcache⟩, hl⟩

/-! ### All operations -/

theorem get_atomic (h : Mounted store D) (id : ObjectId) : Atomic store D (.get id) := by
  refine ⟨logicalState store D, ?_⟩
  rw [StoreOp.prog, wp_wrapResult_iff]
  apply wp_get id _ False.elim
  refine ⟨D, rfl, ⟨?_, rfl, rfl⟩, rfl⟩
  exact (⟨h, rfl, rfl, rfl, Nat.le_add_right _ _⟩ : Reaches store _ store D).withCache _

/-- **Step**: every operation of a mounted store is atomic, as long as the sequence number of the
superblock does not wrap around. -/
theorem op_atomic (h : Mounted store D) (op : StoreOp)
    (hseq : store.superblockSequence.toNat + op.superblockWrites store.snapshots < 2 ^ 64) :
    Atomic store D op := by
  cases op with
  | putMany requests => exact put_atomic h requests hseq
  | get id => exact get_atomic h id
  | delete id => exact delete_atomic h id hseq
  | snapshotCreate => exact create_atomic h hseq
  | snapshotRollback id => exact rollback_atomic h id hseq
  | snapshotDiscard id => exact discard_atomic h id hseq
  | collect => exact collect_atomic h
  | snapshotPrune keep => exact prune_atomic h keep hseq

end Snapshots

end Jani
