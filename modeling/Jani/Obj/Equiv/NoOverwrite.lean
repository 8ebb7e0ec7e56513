import Jani.Obj.Equiv.CrashAtomic

/-!
# No operation overwrites live data

Runs of a store in which any sector read, write or flush may fail.  As long as no read fails
during a collect or a prune, every reachable state has its live sectors marked, and no put or
delete writes to one of them (`live_sectors_kept`).  A read that fails during a collect breaks
this: the bitmap has been cleared, and the operation gives up before it is complete
(`collect_read_failure`).
-/

namespace Jani

/-! ### Runs with faults -/

/-- A mounted store and its disk. -/
abbrev StoreState := ObjectStore × Disk Sector

/-- The state after a successful format or mount, on any disk and whatever failed before. -/
def Started (setup : ObjectStoreSetup) (s : StoreState) : Prop :=
  ∃ d, Exec Faults.all (objectStoreFormat setup) d (some s.1) s.2 ∨
    Exec Faults.all (objectStoreMount setup) d (some s.1) s.2

/-- Runs of operations, each with the calls that may fail during it. -/
inductive FaultyRun (faults : StoreOp → Faults) : StoreState → StoreState → Prop where
  | refl (s : StoreState) : FaultyRun faults s s
  | step {s t : StoreState} {op : StoreOp} {r : StoreResult} {store : ObjectStore}
      {d : Disk Sector} : FaultyRun faults s t →
      Exec (faults op) (op.prog t.1) t.2 (r, store) d → FaultyRun faults s (store, d)

/-- Any call may fail, except for the reads of the operations that rebuild the bitmap. -/
def faultsOutsideRebuild : StoreOp → Faults
  | .collect => ⟨False, True⟩
  | .snapshotPrune _ => ⟨False, True⟩
  | _ => Faults.all

/-! ### The invariant along a run -/

variable {d : Disk Sector} {store : ObjectStore} {strict : Prop}

theorem wp_wrapResult {m : Faults} {I : Event Sector → Disk Sector → Prop} {α : Type}
    {wrap : α → StoreResult} {p : StoreProg (α × ObjectStore)} {P : ObjectStore → Content → Prop}
    (h : wp m I p (fun r d' => P r.2 d'.view) d) :
    wp m I (wrapResult wrap p) (fun r d' => P r.2 d'.view) d := by
  rw [wrapResult, wp_bind]
  apply wp_mono h
  intro r d' hr
  rw [wp_pure]
  exact hr

/-- **Step**: every operation keeps the coverage and writes fresh sectors only. -/
theorem wp_op_coverage (h : Coverage strict store d.view) (op : StoreOp) :
    wp (faultsOutsideRebuild op) (FreshWrites store.io.sectorCount store.bitmap) (op.prog store)
      (fun r d' => Coverage strict r.2 d'.view) d := by
  cases op with
  | putMany requests => exact wp_wrapResult (wp_put_coverage h requests)
  | get id => exact wp_wrapResult (wp_get_coverage h id)
  | delete id => exact wp_wrapResult (wp_delete_coverage h id)
  | snapshotCreate => exact wp_wrapResult (wp_create_coverage h)
  | snapshotRollback id => exact wp_wrapResult (wp_rollback_coverage h id)
  | snapshotDiscard id =>
    exact wp_wrapResult (wp_mono (wp_discard_coverage h id) fun r d' hr => hr.1)
  | collect => exact wp_wrapResult (wp_collect_coverage (fun h => h) h)
  | snapshotPrune keep => exact wp_wrapResult (wp_prune_coverage (fun h => h) h keep)

/-- **Run**: every state of a run has the coverage its first state has. -/
theorem FaultyRun.coverage {s t : StoreState} (hrun : FaultyRun faultsOutsideRebuild s t)
    (h : Coverage strict s.1 s.2.view) : Coverage strict t.1 t.2.view := by
  induction hrun with
  | refl => exact h
  | step _ hexec ih => exact wp_exec (wp_op_coverage ih _) hexec

theorem Started.coverage {setup : ObjectStoreSetup} {s : StoreState} (h : Started setup s) :
    Coverage False s.1 s.2.view := by
  obtain ⟨d, hformat | hmount⟩ := h
  · have hwp : wp Faults.all (FreshWrites 0 []) _ _ d := wp_format_coverage False setup d
    exact wp_exec hwp hformat _ rfl
  · have hwp : wp Faults.all (FreshWrites 0 []) _ _ d := wp_mount_coverage setup d
    exact wp_exec hwp hmount _ rfl

theorem Coverage.strengthen {V : Content} (h : Coverage False store V)
    (hreserved : ∀ u, Refers store V u → 3 ≤ u.toNat) : Coverage True store V := by
  refine ⟨h.buffer, h.reserved, ⟨h.current.onDisk, ?_⟩, ?_⟩
  · intro u hu
    exact ⟨(h.current.marked u hu).1, fun _ => hreserved u (Or.inl hu)⟩
  · intro i hi
    obtain ⟨entries, hc⟩ := h.snapshots i hi
    refine ⟨entries, hc.onDisk, ?_⟩
    intro u hu
    refine ⟨(hc.marked u hu).1, fun _ => hreserved u (Or.inr ⟨i, hi, ?_⟩)⟩
    rw [hc.onDisk]
    exact hu

/-- The operations that write objects and tables. -/
def StoreOp.Writes : StoreOp → Prop
  | .putMany _ => True
  | .delete _ => True
  | _ => False

theorem wp_writes_coverage (h : Coverage strict store d.view) {op : StoreOp} (hop : op.Writes) :
    wp Faults.all (FreshWrites store.io.sectorCount store.bitmap) (op.prog store)
      (fun r d' => Coverage strict r.2 d'.view) d := by
  cases op with
  | putMany requests => exact wp_op_coverage h (.putMany requests)
  | delete id => exact wp_op_coverage h (.delete id)
  | _ => exact hop.elim

theorem Coverage.not_refers_of_emits {d' : Disk Sector} (h : Coverage strict store d.view)
    {op : StoreOp} (hop : op.Writes) {u : UInt64} {b : Sector}
    (he : Emits Faults.all (op.prog store) d (.write u.toNat b) d') :
    u.toNat < 3 ∨ ¬ Refers store d.view u := by
  rcases wp_emits (wp_writes_coverage h hop) he with hlt | ⟨v, hv, hfree⟩
  · exact Or.inl hlt
  · right
    intro hrefers
    have huv : v = u := UInt64.toNat_inj.mp hv
    rw [huv, (Coverage.marked h hrefers).1] at hfree
    cases hfree

/-- **No operation overwrites live data.**  In a run from a format or a mount in which any call
may fail, but no read fails while a collect or a prune rebuilds the bitmap: the reserved sectors
and every sector that the current table or a retained snapshot refers to are marked, and no put or
delete writes to such a sector.  (Superblock and log writes go to the reserved sectors, which
nothing refers to unless the mounted image already did.) -/
theorem live_sectors_kept {setup : ObjectStoreSetup} {s t : StoreState} (hstart : Started setup s)
    (hrun : FaultyRun faultsOutsideRebuild s t) :
    (∀ u : UInt64, u.toNat < 3 ∨ Refers t.1 t.2.view u →
      bitmapTest t.1.io.sectorCount t.1.bitmap u = true) ∧
    ∀ op : StoreOp, op.Writes → ∀ (u : UInt64) (b : Sector) (d : Disk Sector),
      Emits Faults.all (op.prog t.1) t.2 (.write u.toNat b) d →
        (u.toNat < 3 ∨ ¬ Refers t.1 t.2.view u) ∧
        ((∀ v, Refers s.1 s.2.view v → 3 ≤ v.toNat) → ¬ Refers t.1 t.2.view u) := by
  have hcov : Coverage False t.1 t.2.view := hrun.coverage hstart.coverage
  refine ⟨?_, ?_⟩
  · rintro u (hu | hu)
    · exact hcov.reserved u hu
    · exact (Coverage.marked hcov hu).1
  · intro op hop u b d he
    have hfresh := Coverage.not_refers_of_emits hcov hop he
    refine ⟨hfresh, ?_⟩
    intro hreserved hrefers
    have hstrict : Coverage True t.1 t.2.view :=
      hrun.coverage (Coverage.strengthen hstart.coverage hreserved)
    have h3 := (Coverage.marked hstrict hrefers).2 trivial
    exact hfresh.elim (by omega) fun h => h hrefers

section Examples

variable {faults : StoreOp → Faults} {s : StoreState}

theorem smallSetup_started : Started smallSetup smallStart := by
  have hexec := exec_run Faults.all (objectStoreFormat smallSetup)
    (Disk.clean fun _ => Block.zero objectStoreSectorSize)
  rw [smallStart_format] at hexec
  exact ⟨_, Or.inl hexec⟩

theorem FaultyRun.runOps : ∀ (ops : List StoreOp) (t : StoreState),
    FaultyRun faults s t → FaultyRun faults s (runOps ops t)
  | [], _, h => h
  | op :: ops, t, h => FaultyRun.runOps ops _ (.step h (exec_run (faults op) (op.prog t.1) t.2))

/-- The state after an operation whose device call number `n` fails. -/
def faultOp (n : Nat) (op : StoreOp) (s : StoreState) : StoreState :=
  ((runFault n (op.prog s.1) s.2).1.2, (runFault n (op.prog s.1) s.2).2)

theorem FaultyRun.fault {t : StoreState} (h : FaultyRun faults s t) (n : Nat) {op : StoreOp}
    (hop : faults op = Faults.all) : FaultyRun faults s (faultOp n op t) :=
  .step h (hop ▸ exec_runFault (op.prog t.1) n t.2)

end Examples

/-- Two snapshots, the older one with an object that was put anew and then deleted. -/
def twoSnapshots : StoreState :=
  runOps [.putMany [byteRequest 1 1], .snapshotCreate, .putMany [byteRequest 1 2, byteRequest 5 4],
    .snapshotCreate, .delete ⟨0, 1⟩, .putMany [byteRequest 7 7]] smallStart

/-- The same device after a delete that failed: the flush of its new table reported an error. -/
def busyState : StoreState := faultOp 3 (.delete ⟨0, 7⟩) twoSnapshots

theorem busyState_run : FaultyRun faultsOutsideRebuild smallStart busyState := by
  unfold busyState
  refine FaultyRun.fault ?_ 3 rfl
  unfold twoSnapshots
  exact FaultyRun.runOps _ _ (.refl _)

set_option maxRecDepth 200000 in
theorem busyState_spec : busyState.1.io.sectorCount = 16 ∧ busyState.2.pending ≠ [] ∧
    (busyState.1.snapshots firstSlot).id ≠ 0 ∧
    ∃ e ∈ (tableOn busyState.1.io busyState.2.view busyState.1.tableCapacity
        (busyState.1.snapshots firstSlot).tableSector
        (busyState.1.snapshots firstSlot).tableCount).getD [],
      InExtent e.firstSector e.sectorCount 3 := by
  decide +kernel

/-- The older snapshot refers to sector 3, which holds the first version of its object.  The sector
is marked, and no delete writes to it. -/
theorem live_sectors_kept_small : Refers busyState.1 busyState.2.view 3 ∧
    bitmapTest 16 busyState.1.bitmap 3 = true ∧
    ∀ b d, ¬ Emits Faults.all (StoreOp.prog busyState.1 (.delete ⟨0, 7⟩)) busyState.2
      (.write 3 b) d := by
  obtain ⟨hsize, -, hid, hsnapshot⟩ := busyState_spec
  have hrefers : Refers busyState.1 busyState.2.view 3 := Or.inr ⟨firstSlot, hid, Or.inr hsnapshot⟩
  have hreserved : ∀ v, Refers smallStart.1 smallStart.2.view v → 3 ≤ v.toNat := by
    rintro v ((hin | ⟨e, he, -⟩) | ⟨i, hi, -⟩)
    · exact absurd hin (UInt64.not_lt.mpr UInt64.zero_le)
    · cases he
    · exact absurd rfl hi
  obtain ⟨hmarked, hkept⟩ := live_sectors_kept smallSetup_started busyState_run
  refine ⟨hrefers, hsize ▸ hmarked 3 (Or.inr hrefers), fun b d hwrite => ?_⟩
  exact (hkept (.delete ⟨0, 7⟩) trivial 3 b d hwrite).2 hreserved hrefers

/-! ### A read failure during a rebuild -/

/-- The small device after a put and a collect whose first read fails. -/
def uncollectedPut : StoreState := faultOp 0 .collect onePut

set_option maxRecDepth 200000 in
theorem uncollectedPut_spec : uncollectedPut.1.recoveryRequired = false ∧
    InExtent uncollectedPut.1.currentTableSector
      (UInt64.ofNat uncollectedPut.1.table.count) uncollectedPut.1.currentTableSector ∧
    bitmapTest uncollectedPut.1.io.sectorCount uncollectedPut.1.bitmap
      uncollectedPut.1.currentTableSector = false := by
  decide +kernel

/-- **A failed collect unmarks live sectors**: after a format, a put and a collect whose first read
fails, the store does not ask for recovery, and its current table is not marked. -/
theorem collect_read_failure : ∃ setup s t, Started setup s ∧
    FaultyRun (fun _ => Faults.all) s t ∧ t.1.recoveryRequired = false ∧
    ∃ u, Refers t.1 t.2.view u ∧ bitmapTest t.1.io.sectorCount t.1.bitmap u = false := by
  obtain ⟨hready, hin, hfree⟩ := uncollectedPut_spec
  have hrun : FaultyRun (fun _ => Faults.all) smallStart uncollectedPut := by
    unfold uncollectedPut onePut
    exact (FaultyRun.runOps _ _ (.refl _)).fault 0 rfl
  generalize uncollectedPut = t at *
  exact ⟨smallSetup, smallStart, t, smallSetup_started, hrun, hready, _, Or.inl (Or.inl hin), hfree⟩

end Jani
