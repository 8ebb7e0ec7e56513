import Jani.Obj.Equiv.Coherence
import Jani.Obj.Equiv.NoOverwrite

/-!
# Garbage collection is exact

A collect that succeeds leaves a bitmap in which exactly the reserved sectors and the sectors the
store refers to are marked (`wp_collect_exact`).  A prune discards the oldest snapshot until at
most `keep` are left and then collects: its loop ends before its bound (`pruneLoop_add`), and the
snapshots it leaves are the newest ones (`Pruned`).

The collect reads the current table from the device.  It agrees with the table in memory as long as
no live sector was overwritten, hence in the runs of `live_sectors_kept`; after a collect that
failed at a read, a rejected batch may have written over the current table, and a later collect
marks what it finds there (`collect_misses_sector`).
-/

namespace Jani

/-! ### Collect -/

/-- The tables are on disk as the store has them, and the sectors marked are the reserved ones and
those the store refers to. -/
structure BitmapExact (store : ObjectStore) (V : Content) : Prop where
  current : tableOn store.io V store.tableCapacity store.currentTableSector
    (UInt64.ofNat store.table.count) = some store.table.entries
  snapshots : ∀ i, (store.snapshots i).id ≠ 0 → ∃ entries,
    snapshotEntries store V (store.snapshots i) = some entries
  marked_iff : ∀ u : UInt64, u < store.io.sectorCount →
    (bitmapTest store.io.sectorCount store.bitmap u = true ↔ u.toNat < 3 ∨ Refers store V u)

section Collect

variable {m : Faults} {I : Event Sector → Disk Sector → Prop} {strict : Prop}

theorem wp_collect_exact {store : ObjectStore} {d : Disk Sector}
    (h : Coverage strict store d.view) : wp m I (objectStoreCollect store) (fun r d' => r.1 = true →
      BitmapExact r.2 d'.view ∧ ∃ bitmap, r.2 = { store with bitmap := bitmap }) d := by
  unfold objectStoreCollect
  rw [wp_ite, wp_pure]
  refine ⟨fun _ hok => (Bool.false_ne_true hok).elim, fun _ => ?_⟩
  apply wp_rebuildBitmap store.table.entries h.buffer
  · intro bitmap _ hcurrent hsnapshots hmarks _
    refine ⟨⟨hcurrent, hsnapshots, ?_⟩, bitmap, rfl⟩
    intro u hu
    refine (hmarks u).trans (or_congr_left ?_)
    exact ⟨fun h => h.resolve_right (UInt64.not_le.mpr hu), Or.inl⟩
  · intro bitmap _ hok
    exact (Bool.false_ne_true hok).elim
  · intro es hes
    exact (Option.some.inj (h.current.onDisk.symm.trans hes)).symm

end Collect

/-! ### Prune -/

/-- `new` are the `keep` newest snapshots of `old`, or all of them if there are fewer. -/
structure Pruned (keep : Nat) (old new : Snapshots) : Prop where
  slot : ∀ i, new i = old i ∨ new i = ⟨0, 0, 0⟩
  count : (List.ofFn new).countP (fun s => s.id ≠ 0) =
    min keep ((List.ofFn old).countP fun s => s.id ≠ 0)
  newest : ∀ i j, (new i).id ≠ 0 → (old j).id ≠ 0 → (new j).id = 0 → (old j).id ≤ (new i).id

theorem Pruned.refl {keep : Nat} {snapshots : Snapshots}
    (h : (scanSnapshots snapshots).1 ≤ keep) : Pruned keep snapshots snapshots := by
  refine ⟨fun _ => Or.inl rfl, ?_, fun _ j _ hj hj0 => absurd hj0 hj⟩
  rw [(scanSnapshots_spec snapshots).count] at h
  rw [min_eq_right h]

/-- Discarding the oldest snapshot first does not change which ones are kept. -/
theorem Pruned.discard {keep : Nat} {old new : Snapshots} {slot : Fin objectStoreSnapshotLimit}
    (hmore : keep < (scanSnapshots old).1)
    (hslot : (old slot).id = (scanSnapshots old).2) (hne : (scanSnapshots old).2 ≠ 0)
    (h : Pruned keep (Function.update old slot ⟨0, 0, 0⟩) new) : Pruned keep old new := by
  have hspec := scanSnapshots_spec old
  have hempty : new slot = ⟨0, 0, 0⟩ := by
    rcases h.slot slot with hs | hs
    · rw [hs, Function.update_self]
    · exact hs
  have hother : ∀ i, (new i).id ≠ 0 → new i = old i := by
    intro i hi
    rcases h.slot i with hs | hs
    · rwa [Function.update_of_ne] at hs
      rintro rfl
      rw [hempty] at hi
      exact hi rfl
    · rw [hs] at hi
      exact absurd rfl hi
  refine ⟨?_, ?_, ?_⟩
  · intro i
    by_cases hi : i = slot
    · exact Or.inr (hi ▸ hempty)
    · have hs := h.slot i
      rwa [Function.update_of_ne hi] at hs
  · have hcount := scanSnapshots_discardSlot (hslot.trans_ne hne)
    rw [(scanSnapshots_spec _).count] at hcount
    rw [h.count, hcount, ← hspec.count]
    omega
  · intro i j hi hj hj0
    by_cases hjs : j = slot
    · subst hjs
      rw [hslot, hother i hi]
      rcases hspec.oldest with ⟨h0, -⟩ | ⟨-, -, hmin⟩
      · exact absurd h0 hne
      · refine hmin _ (List.mem_ofFn.mpr ⟨i, rfl⟩) ?_
        rwa [← hother i hi]
    · have := h.newest i j hi
      rw [Function.update_of_ne hjs] at this
      exact this hj hj0

/-- The store refuses a discard only while it asks for recovery; otherwise the oldest snapshot is
discarded, or the superblock cannot be written. -/
theorem wp_discard_oldest {m : Faults} {strict : Prop} {store : ObjectStore} {d : Disk Sector}
    (h : Coverage strict store d.view) (hsome : (scanSnapshots store.snapshots).1 ≠ 0) :
    wp m (FreshWrites store.io.sectorCount store.bitmap)
      (objectStoreSnapshotDiscard store (scanSnapshots store.snapshots).2)
      (fun r d' => r.1 = true → ∃ slot,
        findSnapshot store.snapshots (scanSnapshots store.snapshots).2 = some slot ∧
        r.2 = (store.withoutSnapshot slot).advance ∧ Coverage strict r.2 d'.view) d := by
  obtain ⟨hne, slot, hfind⟩ := exists_oldest hsome
  cases hready : store.recoveryRequired with
  | true =>
    have hrecovery : objectStoreRequiresRecovery store = true := hready
    rw [objectStoreSnapshotDiscard, if_pos (Or.inl hrecovery), wp_pure]
    exact fun hok => (Bool.false_ne_true hok).elim
  | false =>
    rw [objectStoreSnapshotDiscard_eq hready hne hfind, wp_bind]
    apply wp_writeSuperblock_view
    · intro d' hd'
      dsimp only
      rw [wp_unless_true, wp_pure]
      exact fun _ => ⟨slot, hfind, rfl,
        CoverageOf.discard (CoverageOf.frame h (ReservedOnly.kept hd')) slot⟩
    · intro d' _
      dsimp only
      rw [wp_unless_false, wp_pure]
      exact fun hok => (Bool.false_ne_true hok).elim

/-- **The loop of a prune**: with enough iterations left for the snapshots in excess, success means
that the newest `keep` snapshots are left and that the bitmap is exact. -/
theorem wp_pruneLoop_exact {m : Faults} {strict : Prop} {keep : Nat} {io : ObjectStoreIo}
    {bitmap : List UInt8} : ∀ (fuel : Nat) (store : ObjectStore) (d : Disk Sector),
    Coverage strict store d.view → store.io = io → store.bitmap = bitmap →
    (scanSnapshots store.snapshots).1 ≤ keep + fuel →
    wp m (FreshWrites io.sectorCount bitmap) (pruneLoop keep fuel store)
      (fun r d' => r.1 = true →
        Pruned keep store.snapshots r.2.snapshots ∧ BitmapExact r.2 d'.view) d
  | 0, store, d, h, _, _, hfuel => by
    rw [pruneLoop]
    apply wp_mono (wp_collect_exact h)
    intro r d' hr hok
    obtain ⟨hexact, bitmap, heq⟩ := hr hok
    rw [heq] at hexact ⊢
    exact ⟨Pruned.refl hfuel, hexact⟩
  | fuel + 1, store, d, h, hio, hb, hfuel => by
    rw [pruneLoop]
    dsimp only
    rw [wp_ite, wp_bind]
    refine ⟨fun hdone => ?_, fun hmore => ?_⟩
    · apply wp_mono (wp_collect_exact h)
      intro r d' hr hok
      obtain ⟨hexact, bitmap, heq⟩ := hr hok
      rw [heq] at hexact ⊢
      refine ⟨Pruned.refl ?_, hexact⟩
      rcases hdone with hle | hzero
      · exact hle
      · by_contra hlt
        exact (exists_oldest (by omega)).1 hzero
    · rw [not_or, Nat.not_le] at hmore
      subst hio hb
      apply wp_mono (wp_discard_oldest h (by omega))
      rintro ⟨ok, store'⟩ d' hr
      cases ok with
      | false =>
        rw [wp_unless_false, wp_pure]
        exact fun hok => (Bool.false_ne_true hok).elim
      | true =>
        obtain ⟨slot, hfind, rfl, hcov⟩ := hr rfl
        have hid := findSnapshot_some hfind
        have hcount := scanSnapshots_discardSlot (hid.trans_ne hmore.2)
        rw [wp_unless_true]
        have hscan : (scanSnapshots (store.withoutSnapshot slot).advance.snapshots).1 =
            (scanSnapshots store.snapshots).1 - 1 := hcount
        apply wp_mono (wp_pruneLoop_exact fuel (store.withoutSnapshot slot).advance d' hcov rfl rfl
          (by omega))
        intro r d'' hr' hok
        obtain ⟨hpruned, hexact⟩ := hr' hok
        exact ⟨hpruned.discard hmore.1 hid hmore.2, hexact⟩

/-- What follows a discard only matters on the store that the discard returns. -/
theorem discard_bind_congr {α : Type} {store : ObjectStore}
    (hsome : (scanSnapshots store.snapshots).1 ≠ 0)
    {f g : Bool × ObjectStore → StoreProg α} (hfail : f (false, store) = g (false, store))
    (hok : ∀ slot, findSnapshot store.snapshots (scanSnapshots store.snapshots).2 = some slot →
      f (true, (store.withoutSnapshot slot).advance) =
        g (true, (store.withoutSnapshot slot).advance)) :
    (objectStoreSnapshotDiscard store (scanSnapshots store.snapshots).2 >>= f) =
      objectStoreSnapshotDiscard store (scanSnapshots store.snapshots).2 >>= g := by
  obtain ⟨hne, slot, hfind⟩ := exists_oldest hsome
  cases hready : store.recoveryRequired with
  | true =>
    have hrecovery : objectStoreRequiresRecovery store = true := hready
    rw [objectStoreSnapshotDiscard, if_pos (Or.inl hrecovery)]
    exact hfail
  | false =>
    rw [objectStoreSnapshotDiscard_eq hready hne hfind, writeSuperblock]
    rw [Prog.bind_assoc, Prog.bind_assoc, Prog.bind_assoc, Prog.bind_assoc]
    congr 1
    funext written
    cases written with
    | false => exact hfail
    | true => exact hok slot hfind

/-- **The loop of a prune ends**: more iterations than there are snapshots in excess are never
used. -/
theorem pruneLoop_add (keep more : Nat) : ∀ (fuel : Nat) (store : ObjectStore),
    (scanSnapshots store.snapshots).1 ≤ keep + fuel →
    pruneLoop keep (fuel + more) store = pruneLoop keep fuel store
  | 0, store, hfuel => by
    cases more with
    | zero => rfl
    | succ more =>
      rw [Nat.zero_add, pruneLoop, pruneLoop]
      exact if_pos (Or.inl hfuel)
  | fuel + 1, store, hfuel => by
    rw [Nat.add_right_comm, pruneLoop, pruneLoop]
    dsimp only
    by_cases hdone : (scanSnapshots store.snapshots).1 ≤ keep ∨
        (scanSnapshots store.snapshots).2 = 0
    · rw [if_pos hdone, if_pos hdone]
    · rw [if_neg hdone, if_neg hdone]
      rw [not_or, Nat.not_le] at hdone
      refine discard_bind_congr (by omega) rfl ?_
      intro slot hfind
      have hcount : (scanSnapshots (store.withoutSnapshot slot).advance.snapshots).1 =
          (scanSnapshots store.snapshots).1 - 1 :=
        scanSnapshots_discardSlot ((findSnapshot_some hfind).trans_ne hdone.2)
      exact pruneLoop_add keep more fuel (store.withoutSnapshot slot).advance (by omega)

/-! ### Every reachable state -/

/-- **Garbage collection is exact.**  In a run from a format or a mount in which any call may fail,
but no read fails while a collect or a prune rebuilds the bitmap: whatever fails during the next
call, a collect that succeeds leaves exactly the reserved sectors and the sectors in use marked; the
loop of a prune ends before its bound, and a prune that succeeds leaves exactly the newest snapshots
and a bitmap that is exact. -/
theorem collection_exact {setup : ObjectStoreSetup} {s t : StoreState} (hstart : Started setup s)
    (hrun : FaultyRun faultsOutsideRebuild s t) :
    (∀ store d, Exec Faults.all (objectStoreCollect t.1) t.2 (true, store) d →
      BitmapExact store d.view ∧ ∃ bitmap, store = { t.1 with bitmap := bitmap }) ∧
    ∀ keep ≤ objectStoreSnapshotLimit,
      (∀ more, pruneLoop keep (objectStoreSnapshotLimit + more) t.1 =
        pruneLoop keep objectStoreSnapshotLimit t.1) ∧
      ∀ store d, Exec Faults.all (objectStoreSnapshotPrune t.1 keep) t.2 (true, store) d →
        Pruned keep t.1.snapshots store.snapshots ∧ BitmapExact store d.view := by
  have hcov : Coverage False t.1 t.2.view := hrun.coverage hstart.coverage
  have hcount := scanSnapshots_le t.1.snapshots
  refine ⟨?_, ?_⟩
  · intro store d hexec
    have hwp : wp Faults.all (FreshWrites 0 []) _ _ _ := wp_collect_exact hcov
    exact wp_exec hwp hexec rfl
  · intro keep _
    refine ⟨fun more => pruneLoop_add keep more _ t.1 (by omega), ?_⟩
    intro store d hexec
    have hwp : wp Faults.all _ (pruneLoop keep objectStoreSnapshotLimit t.1) _ _ :=
      wp_pruneLoop_exact objectStoreSnapshotLimit t.1 t.2 hcov rfl rfl (by omega)
    rw [objectStoreSnapshotPrune] at hexec
    split_ifs at hexec with hguard
    · cases hexec
    · exact wp_exec hwp hexec rfl

set_option maxRecDepth 200000 in
theorem busyState_collect : (run (objectStoreCollect busyState.1) busyState.2).1.1 = true ∧
    bitmapTest 16 busyState.1.bitmap 9 = true ∧
    bitmapTest 16 (run (objectStoreCollect busyState.1) busyState.2).1.2.bitmap 9 = false ∧
    (run (objectStoreSnapshotPrune busyState.1 1) busyState.2).1.1 = true ∧
    scanSnapshots busyState.1.snapshots = (2, 2) ∧
    scanSnapshots (run (objectStoreSnapshotPrune busyState.1 1) busyState.2).1.2.snapshots =
      (1, 4) := by
  decide +kernel

/-- The device with two snapshots: a collect frees sector 9, where a table was that nothing refers
to any more, and a prune to one snapshot keeps the newer one. -/
theorem collection_exact_small : ∃ store d store' d',
    Exec Faults.all (objectStoreCollect busyState.1) busyState.2 (true, store) d ∧
    bitmapTest 16 busyState.1.bitmap 9 = true ∧ bitmapTest 16 store.bitmap 9 = false ∧
    BitmapExact store d.view ∧
    (∀ more, pruneLoop 1 (objectStoreSnapshotLimit + more) busyState.1 =
      pruneLoop 1 objectStoreSnapshotLimit busyState.1) ∧
    Exec Faults.all (objectStoreSnapshotPrune busyState.1 1) busyState.2 (true, store') d' ∧
    scanSnapshots busyState.1.snapshots = (2, 2) ∧ scanSnapshots store'.snapshots = (1, 4) ∧
    Pruned 1 busyState.1.snapshots store'.snapshots ∧ BitmapExact store' d'.view := by
  obtain ⟨hok, hbefore, hafter, hpruned, htwo, hone⟩ := busyState_collect
  obtain ⟨hcollect, hprune⟩ := collection_exact smallSetup_started busyState_run
  generalize busyState = t at *
  obtain ⟨store, d⟩ := t
  have hexec := exec_run Faults.all (objectStoreCollect store) d
  have hexec' := exec_run Faults.all (objectStoreSnapshotPrune store 1) d
  generalize run (objectStoreCollect store) d = r at *
  generalize run (objectStoreSnapshotPrune store 1) d = r' at *
  obtain ⟨⟨ok, collected⟩, d1⟩ := r
  obtain ⟨⟨ok', pruned⟩, d2⟩ := r'
  obtain rfl : ok = true := hok
  obtain rfl : ok' = true := hpruned
  obtain ⟨hloop, hkeep⟩ := hprune 1 (by decide)
  exact ⟨collected, d1, pruned, d2, hexec, hbefore, hafter, (hcollect _ _ hexec).1, hloop, hexec',
    htwo, hone, hkeep _ _ hexec'⟩

/-! ### A collect after a failed one -/

/-- Two objects, the one with the smaller identifier in the later sector. -/
def twoObjects : StoreState :=
  runOps [.putMany [byteRequest 2 1, byteRequest 1 2]] smallStart

/-- The batch after a failed collect writes over the current table, its flush fails and it is
rejected. -/
def overwritten : StoreState :=
  faultOp 7 (.putMany [byteRequest 3 3]) (faultOp 0 .collect twoObjects)

set_option maxRecDepth 200000 in
theorem overwritten_collect : (run (objectStoreCollect overwritten.1) overwritten.2).1.1 = true ∧
    (run (objectStoreCollect overwritten.1) overwritten.2).1.2.io.sectorCount = 16 ∧
    bitmapTest 16 (run (objectStoreCollect overwritten.1) overwritten.2).1.2.bitmap 4 = false ∧
    ∃ e ∈ (run (objectStoreCollect overwritten.1) overwritten.2).1.2.table.entries,
      InExtent e.firstSector e.sectorCount 4 := by
  decide +kernel

/-- **A collect misses a sector in use**: two objects are put, a collect fails at its first read, a
batch is rejected because its flush fails, and a collect succeeds.  It read the current table from
the sectors that the batch wrote to, and leaves the first sector of an object unmarked. -/
theorem collect_misses_sector : ∃ setup s t store d, Started setup s ∧
    FaultyRun (fun _ => Faults.all) s t ∧
    Exec Faults.none (objectStoreCollect t.1) t.2 (true, store) d ∧
    ∃ u : UInt64, u < store.io.sectorCount ∧ Refers store d.view u ∧
      bitmapTest store.io.sectorCount store.bitmap u = false := by
  obtain ⟨hok, hio, hfree, e, he, hin⟩ := overwritten_collect
  have hrun : FaultyRun (fun _ => Faults.all) smallStart overwritten := by
    unfold overwritten twoObjects
    exact ((FaultyRun.runOps _ _ (.refl _)).fault 0 rfl).fault 7 rfl
  generalize overwritten = t at *
  have hexec := exec_run Faults.none (objectStoreCollect t.1) t.2
  generalize run (objectStoreCollect t.1) t.2 = r at *
  obtain ⟨⟨ok, store⟩, d⟩ := r
  obtain rfl : ok = true := hok
  refine ⟨smallSetup, _, t, store, d, smallSetup_started, hrun, hexec, 4, ?_,
    Or.inl (Or.inr ⟨e, he, hin⟩), ?_⟩
  · have hio' : store.io.sectorCount = 16 := hio
    rw [hio']
    decide
  · have hio' : store.io.sectorCount = 16 := hio
    rw [hio']
    exact hfree

end Jani
