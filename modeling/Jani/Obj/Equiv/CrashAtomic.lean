import Jani.Obj.Equiv.MountAtomic

/-!
# Crash atomicity

A run of the object store starts with a completed format and performs operations and remounts on
a device that works; the power may be cut at any write or flush of an operation and of the mounts
that follow (`StoreRun`).  Whatever the cut leaves, the next mount that completes succeeds, with
the logical state before the operation or the one after it, and with the one after it if the
operation had returned (`CrashAtomic`).

This holds as long as no superblock write starts from the largest sequence number
(`crash_atomic`).  The store does not check for that, although it does check the generation
number: the sequence number wraps around to zero, and the next mount takes the other superblock,
which is older (`discard_lost`).
-/

namespace Jani

/-! ### Runs -/

/-- The same device, capacities and buffer sizes; the contents of the buffers may differ. -/
structure SameCapacities (setup setup' : ObjectStoreSetup) : Prop where
  io_eq : setup'.io = setup.io
  tableCapacity_eq : setup'.tableCapacity = setup.tableCapacity
  cacheCapacity_eq : setup'.cacheCapacity = setup.cacheCapacity
  bitmapBuffer_length : setup'.bitmapBuffer.length = setup.bitmapBuffer.length
  arenaBuffer_length : setup'.arenaBuffer.length = setup.arenaBuffer.length

/-- `n` mounts in a row, each cut short by a power cut. -/
inductive InterruptedMounts (setup : ObjectStoreSetup) : Nat → Content → Content → Prop where
  | none (D : Content) : InterruptedMounts setup 0 D D
  | cut {n : Nat} {D D1 D2 : Content} {setup' : ObjectStoreSetup} {e : Event Sector}
      {d : Disk Sector} : SameCapacities setup setup' →
      Emits Faults.none (objectStoreMount setup') (Disk.clean D) e d → (e.disk d).Survives D1 →
      InterruptedMounts setup n D1 D2 → InterruptedMounts setup (n + 1) D D2

/-- However often the mount of the disk is cut short, the one that completes succeeds with a
logical state in `S`. -/
def MountsWith (setup : ObjectStoreSetup) (n : Nat) (D : Content) (S : LogicalState → Prop) :
    Prop :=
  ∀ (D' : Content) (setup' : ObjectStoreSetup), InterruptedMounts setup n D D' →
    SameCapacities setup setup' → ∃ store D'',
      run (objectStoreMount setup') (Disk.clean D') = (some store, Disk.clean D'') ∧
        S (logicalState store D'')

/-- The states of a store from a completed format on.  `room` restricts the superblock writes:
`room store k` must hold before up to `k` of them. -/
inductive StoreRun (room : ObjectStore → Nat → Prop) (setup : ObjectStoreSetup) :
    ObjectStore → Disk Sector → Prop where
  | format {d d' : Disk Sector} {store : ObjectStore} :
      run (objectStoreFormat setup) d = (some store, d') → StoreRun room setup store d'
  | step {store store' : ObjectStore} {d d' : Disk Sector} {r : StoreResult} (op : StoreOp) :
      StoreRun room setup store d → room store (op.superblockWrites store.snapshots) →
      run (op.prog store) d = ((r, store'), d') → StoreRun room setup store' d'
  | remount {store store' : ObjectStore} {d d' : Disk Sector} {setup' : ObjectStoreSetup} :
      StoreRun room setup store d → SameCapacities setup setup' →
      run (objectStoreMount setup') d = (some store', d') → StoreRun room setup store' d'
  | powerCut {store store' : ObjectStore} {d d1 d' : Disk Sector} {e : Event Sector}
      {D1 D2 : Content} {n : Nat} {setup' : ObjectStoreSetup} (op : StoreOp) :
      StoreRun room setup store d →
      room store (op.superblockWrites store.snapshots + (n + 1)) →
      Emits Faults.none (op.prog store) d e d1 → (e.disk d1).Survives D1 →
      InterruptedMounts setup n D1 D2 → SameCapacities setup setup' →
      run (objectStoreMount setup') (Disk.clean D2) = (some store', d') →
      StoreRun room setup store' d'

/-- The sequence number does not wrap around in so many superblock writes. -/
def SequenceRoom (store : ObjectStore) (writes : Nat) : Prop :=
  store.superblockSequence.toNat + writes < 2 ^ 64

/-- Operations whose superblock writes do not wrap the sequence number around. -/
def RoomFor (store : ObjectStore) (_ : Content) (op : StoreOp) : Prop :=
  SequenceRoom store (op.superblockWrites store.snapshots)

instance (store : ObjectStore) (D : Content) (op : StoreOp) : Decidable (RoomFor store D op) :=
  inferInstanceAs (Decidable (_ < _))

/-! ### Mounting after a power cut -/

variable {setup setup' : ObjectStoreSetup} {D : Content} {L : LogicalState} {limit : Nat}

theorem SetupOk.sameCapacities (h : SetupOk setup) (hsame : SameCapacities setup setup') :
    SetupOk setup' := by
  refine ⟨?_, ?_, ?_, ?_⟩
  · rw [hsame.tableCapacity_eq]
    exact h.tableCapacity_ne
  · rw [hsame.cacheCapacity_eq]
    exact h.cacheCapacity_ge
  · rw [hsame.io_eq, hsame.bitmapBuffer_length]
    exact h.buffer
  · rw [hsame.io_eq]
    exact h.sectors

theorem wp_mount_recoverable (hok : SetupOk setup) (hsame : SameCapacities setup setup')
    (h : Recoverable setup.io setup.tableCapacity D L limit)
    (hroom : D 2 = Block.zero objectStoreSectorSize ∨ limit + 1 < 2 ^ 64) : wp Faults.none
      (crashInv fun D' => Recoverable setup.io setup.tableCapacity D' L (limit + 1))
      (objectStoreMount setup')
      (fun r d' => ∃ store D', r = some store ∧ d' = Disk.clean D' ∧ Mounted store D' ∧
        Loaded setup' store ∧ logicalState store D' = L) (Disk.clean D) := by
  obtain ⟨root, seq, hm, hle, rfl⟩ := h
  obtain ⟨active, sb, -, -, hroot, -⟩ := id hm
  have hm' : Mountable setup'.io setup'.tableCapacity D root seq := by
    rw [hsame.io_eq, hsame.tableCapacity_eq]
    exact hm
  apply wp_mount_clean (hok.sameCapacities hsame) hm' (hroom.imp_right fun h => by omega)
  · intro D' hD' j hj hm1
    rw [hsame.io_eq, hsame.tableCapacity_eq] at hm1
    exact hm1.recoverable (by omega) (Root.logical_of_reserved hroot hD')
  · intro store D' hD' hmounted hloaded hrooteq _
    refine ⟨store, D', rfl, rfl, hmounted, hloaded, ?_⟩
    rw [hmounted.coverage.logicalState_eq, hrooteq, hloaded.io_eq, hloaded.tableCapacity_eq,
      hsame.io_eq, hsame.tableCapacity_eq]
    exact Root.logical_of_reserved hroot hD'

theorem InterruptedMounts.recoverable {n : Nat} {D' : Content} (hok : SetupOk setup)
    (h : InterruptedMounts setup n D D') (hD : Recoverable setup.io setup.tableCapacity D L limit)
    (hroom : limit + n < 2 ^ 64) : Recoverable setup.io setup.tableCapacity D' L (limit + n) := by
  induction h generalizing limit with
  | none D => exact hD
  | cut hsame hemit hcut _ ih =>
    have hwp := wp_mount_recoverable hok hsame hD (Or.inr (by omega))
    have := ih (wp_emits hwp hemit _ hcut) (by omega)
    exact this.mono (by omega)

theorem MountsWith.mono {n : Nat} {S T : LogicalState → Prop} (h : MountsWith setup n D S)
    (hST : ∀ L, S L → T L) : MountsWith setup n D T := by
  intro D' setup' hmounts hsame
  obtain ⟨store, D'', hrun, hS⟩ := h D' setup' hmounts hsame
  exact ⟨store, D'', hrun, hST _ hS⟩

/-! ### The invariant of a run -/

/-- A mounted store with the device and the capacities of the setup. -/
structure RunState (setup : ObjectStoreSetup) (store : ObjectStore) (D : Content) : Prop where
  setup_ok : SetupOk setup
  mounted : Mounted store D
  io_eq : store.io = setup.io
  tableCapacity_eq : store.tableCapacity = setup.tableCapacity
  cacheCapacity_eq : store.cacheCapacity = setup.cacheCapacity

variable {store : ObjectStore} {d' d : Disk Sector}

theorem RunState.of_loaded (hok : SetupOk setup) (hsame : SameCapacities setup setup')
    (hm : Mounted store D) (hl : Loaded setup' store) : RunState setup store D :=
  ⟨hok, hm, hl.io_eq.trans hsame.io_eq, hl.tableCapacity_eq.trans hsame.tableCapacity_eq,
    hl.cacheCapacity_eq.trans hsame.cacheCapacity_eq⟩

theorem RunState.recoverable (h : RunState setup store D) :
    Recoverable setup.io setup.tableCapacity D (logicalState store D)
      store.superblockSequence.toNat := by
  rw [← h.io_eq, ← h.tableCapacity_eq]
  exact h.mounted.recoverable

/-- **Step**: an operation leads to a state of the same kind, and a power cut on the way to a
recoverable disk. -/
theorem RunState.step (h : RunState setup store D) (op : StoreOp)
    (hroom : SequenceRoom store (op.superblockWrites store.snapshots)) :
    ∃ r store' D', run (op.prog store) (Disk.clean D) = ((r, store'), Disk.clean D') ∧
      RunState setup store' D' ∧ Stepped store D op (r, store') D' ∧
      ∀ e d1 D1, Emits Faults.none (op.prog store) (Disk.clean D) e d1 → (e.disk d1).Survives D1 →
        ∃ M, op.Cut (logicalState store D) (logicalState store' D') M ∧
          Recoverable setup.io setup.tableCapacity D1 M
            (store.superblockSequence.toNat + op.superblockWrites store.snapshots) := by
  obtain ⟨L', hwp⟩ := op_atomic h.mounted op hroom
  obtain ⟨D', hd, hstep, rfl⟩ := wp_exec hwp ((exec_none_iff _ _ _ _).mpr rfl)
  refine ⟨_, _, D', Prod.ext rfl hd, ?_, hstep, ?_⟩
  · exact ⟨h.setup_ok, hstep.mounted, hstep.io_eq.trans h.io_eq,
      hstep.tableCapacity_eq.trans h.tableCapacity_eq,
      hstep.cacheCapacity_eq.trans h.cacheCapacity_eq⟩
  · intro e d1 D1 hemit hcut
    rw [← h.io_eq, ← h.tableCapacity_eq]
    exact wp_emits hwp hemit D1 hcut

section

variable (hok : SetupOk setup) (hsame : SameCapacities setup setup')
  (h : Recoverable setup.io setup.tableCapacity D L limit)
  (hroom : D 2 = Block.zero objectStoreSectorSize ∨ limit + 1 < 2 ^ 64)

include hok hsame h hroom

theorem RunState.exists_mount :
    ∃ store D', run (objectStoreMount setup') (Disk.clean D) = (some store, Disk.clean D') ∧
      RunState setup store D' ∧ Loaded setup' store ∧ logicalState store D' = L := by
  have hwp := wp_mount_recoverable hok hsame h hroom
  obtain ⟨store, D', hr, hd, hm, hl, hL⟩ := wp_exec hwp ((exec_none_iff _ _ _ _).mpr rfl)
  exact ⟨store, D', Prod.ext hr hd, RunState.of_loaded hok hsame hm hl, hl, hL⟩

theorem RunState.of_mount (hrun : run (objectStoreMount setup') (Disk.clean D) = (some store, d')) :
    ∃ D', d' = Disk.clean D' ∧ RunState setup store D' ∧ Loaded setup' store ∧
      logicalState store D' = L := by
  obtain ⟨store', D', hrun', hstate, hl, hL⟩ := RunState.exists_mount hok hsame h hroom
  rw [hrun'] at hrun
  obtain ⟨hr, rfl⟩ := Prod.mk.inj hrun
  obtain rfl := Option.some.inj hr
  exact ⟨D', rfl, hstate, hl, hL⟩

end

theorem Recoverable.mountsWith {n : Nat} (hok : SetupOk setup)
    (h : Recoverable setup.io setup.tableCapacity D L limit) (hroom : limit + n + 1 < 2 ^ 64) :
    MountsWith setup n D fun M => M = L := by
  intro D' setup' hmounts hsame
  have hD' := hmounts.recoverable hok h (by omega)
  obtain ⟨store, D'', hrun, -, -, hl⟩ := RunState.exists_mount hok hsame hD' (Or.inr hroom)
  exact ⟨store, D'', hrun, hl⟩

theorem RunState.of_format (hrun : run (objectStoreFormat setup) d = (some store, d')) :
    ∃ D, d' = Disk.clean D ∧ RunState setup store D ∧ Loaded setup store := by
  rcases setupStore_cases setup with hnone | ⟨hok, -⟩
  · rw [objectStoreFormat, hnone] at hrun
    cases hrun
  · rw [run_format hok] at hrun
    obtain ⟨hstore, rfl⟩ := Prod.mk.inj hrun
    obtain rfl := Option.some.inj hstore
    exact ⟨_, rfl, ⟨hok, mounted_format hok _, rfl, rfl, rfl⟩, rfl, rfl, rfl, rfl⟩

/-- **Run**: every state of a run in which the sequence number has room is mounted. -/
theorem StoreRun.runState (h : StoreRun SequenceRoom setup store d) :
    ∃ D, d = Disk.clean D ∧ RunState setup store D := by
  induction h with
  | format hrun =>
    obtain ⟨D, hd, hstate, -⟩ := RunState.of_format hrun
    exact ⟨D, hd, hstate⟩
  | step op _ hroom hrun ih =>
    obtain ⟨D, rfl, hstate⟩ := ih
    obtain ⟨r, store', D', hrun', hstate', -, -⟩ := hstate.step op hroom
    rw [hrun'] at hrun
    obtain ⟨hr, rfl⟩ := Prod.mk.inj hrun
    obtain ⟨-, rfl⟩ := Prod.mk.inj hr
    exact ⟨D', rfl, hstate'⟩
  | remount _ hsame hrun ih =>
    obtain ⟨D, rfl, hstate⟩ := ih
    obtain ⟨D', hd, hstate', -⟩ := RunState.of_mount hstate.setup_ok hsame hstate.recoverable
      (Or.inl hstate.mounted.log) hrun
    exact ⟨D', hd, hstate'⟩
  | powerCut op _ hroom hemit hcut hmounts hsame hrun ih =>
    obtain ⟨D, rfl, hstate⟩ := ih
    unfold SequenceRoom at hroom
    obtain ⟨r, store', D', -, -, -, hcuts⟩ := hstate.step op (by unfold SequenceRoom; omega)
    obtain ⟨M, -, hM⟩ := hcuts _ _ _ hemit hcut
    have hM' := hmounts.recoverable hstate.setup_ok hM (by omega)
    obtain ⟨D', hd, hstate', -⟩ := RunState.of_mount hstate.setup_ok hsame hM'
      (Or.inr (by omega)) hrun
    exact ⟨D', hd, hstate'⟩

/-! ### Runs from a state on -/

/-- The states that follow, by operations that are `allowed` where they start and by remounts, on
a device that works. -/
inductive RunFrom (allowed : ObjectStore → Content → StoreOp → Prop) (setup : ObjectStoreSetup)
    (store : ObjectStore) (d : Disk Sector) : ObjectStore → Disk Sector → Prop where
  | refl : RunFrom allowed setup store d store d
  | step {store1 store2 : ObjectStore} {d1 d2 : Disk Sector} {r : StoreResult} (op : StoreOp) :
      RunFrom allowed setup store d store1 d1 → allowed store1 d1.view op →
      run (op.prog store1) d1 = ((r, store2), d2) → RunFrom allowed setup store d store2 d2
  | remount {store1 store2 : ObjectStore} {d1 d2 : Disk Sector} {setup' : ObjectStoreSetup} :
      RunFrom allowed setup store d store1 d1 → SameCapacities setup setup' →
      run (objectStoreMount setup') d1 = (some store2, d2) →
      RunFrom allowed setup store d store2 d2

variable {allowed : ObjectStore → Content → StoreOp → Prop}

/-- **Invariants of a run**: what every operation and every remount keeps. -/
theorem RunFrom.induct {store' : ObjectStore} (hroom : ∀ store D op, allowed store D op →
      SequenceRoom store (op.superblockWrites store.snapshots)) (P : ObjectStore → Content → Prop)
    (hstate : RunState setup store D) (h0 : P store D)
    (hstep : ∀ store D op r D', RunState setup store D → allowed store D op →
      Stepped store D op r D' → P store D → P r.2 D')
    (hmount : ∀ store D setup' store' D', RunState setup store D → Loaded setup' store' →
      Mounted store' D' → logicalState store' D' = logicalState store D → P store D → P store' D')
    (h : RunFrom allowed setup store (Disk.clean D) store' d') :
    ∃ D', d' = Disk.clean D' ∧ RunState setup store' D' ∧ P store' D' := by
  induction h with
  | refl => exact ⟨D, rfl, hstate, h0⟩
  | step op _ hallowed hrun ih =>
    obtain ⟨D1, rfl, hstate1, h1⟩ := ih
    obtain ⟨r, store2, D2, hrun', hstate2, hstepped, -⟩ := hstate1.step op (hroom _ _ _ hallowed)
    rw [hrun'] at hrun
    obtain ⟨hr, rfl⟩ := Prod.mk.inj hrun
    obtain ⟨-, rfl⟩ := Prod.mk.inj hr
    exact ⟨D2, rfl, hstate2, hstep _ _ _ _ _ hstate1 hallowed hstepped h1⟩
  | remount _ hsame hrun ih =>
    obtain ⟨D1, rfl, hstate1, h1⟩ := ih
    obtain ⟨D2, hd, hstate2, hloaded, hL⟩ := RunState.of_mount hstate1.setup_ok hsame
      hstate1.recoverable (Or.inl hstate1.mounted.log) hrun
    exact ⟨D2, hd, hstate2, hmount _ _ _ _ _ hstate1 hloaded hstate2.mounted hL h1⟩

/-! ### Crash atomicity -/

/-- **Crash atomicity** of an operation, with `n` further power cuts during the mounts that
follow: a cut on the way leaves the state before the operation or after it (or between the
discards of a prune), a cut after its end the state after it, and one before its start, which may
be that of a remount, the state before it. -/
structure CrashAtomic (setup : ObjectStoreSetup) (store : ObjectStore) (d : Disk Sector)
    (op : StoreOp) (n : Nat) : Prop where
  during : ∀ e d1 D1, Emits Faults.none (op.prog store) d e d1 → (e.disk d1).Survives D1 →
    MountsWith setup n D1 (op.Cut (logicalState store d.view)
      (logicalState (run (op.prog store) d).1.2 (run (op.prog store) d).2.view))
  after : ∀ D1, (run (op.prog store) d).2.Survives D1 → MountsWith setup n D1 fun M =>
    M = logicalState (run (op.prog store) d).1.2 (run (op.prog store) d).2.view
  before : ∀ D1, d.Survives D1 → MountsWith setup n D1 fun M => M = logicalState store d.view

/-- **Crash atomicity of the object store**: in every run in which no superblock write starts from
the largest sequence number. -/
theorem crash_atomic {setup : ObjectStoreSetup} {store : ObjectStore} {d : Disk Sector}
    (hrun : StoreRun SequenceRoom setup store d) (op : StoreOp) (n : Nat)
    (hroom : SequenceRoom store (op.superblockWrites store.snapshots + (n + 1))) :
    CrashAtomic setup store d op n := by
  obtain ⟨D, rfl, hstate⟩ := hrun.runState
  have hok := hstate.setup_ok
  unfold SequenceRoom at hroom
  obtain ⟨r, store', D', hrun', hstate', hstep, hcuts⟩ :=
    hstate.step op (by unfold SequenceRoom; omega)
  have hseq := hstep.sequence_le
  dsimp only at hseq
  refine ⟨?_, ?_, ?_⟩
  · intro e d1 D1 hemit hcut
    obtain ⟨M, hM, hrec⟩ := hcuts e d1 D1 hemit hcut
    rw [hrun']
    apply (hrec.mountsWith hok (by omega)).mono
    rintro L rfl
    exact hM
  · rw [hrun']
    intro D1 hcut
    rw [Disk.survives_clean_iff.mp hcut]
    exact hstate'.recoverable.mountsWith hok (by omega)
  · intro D1 hcut
    rw [Disk.survives_clean_iff.mp hcut]
    exact hstate.recoverable.mountsWith hok (by omega)

theorem crash_atomic_small : CrashAtomic smallSetup (formatStore smallSetup).advance.advance
    (Disk.clean (formatDisk smallSetup fun _ => Block.zero objectStoreSectorSize))
    (.putMany [smallRequest]) 2 :=
  crash_atomic (.format (run_format smallSetup_ok (Disk.clean _))) _ _
    (by unfold SequenceRoom; decide)

/-! ### Runs of given operations -/

/-- The state after the operations, on a device that works. -/
def runOps : List StoreOp → ObjectStore × Disk Sector → ObjectStore × Disk Sector
  | [], s => s
  | op :: ops, s => runOps ops ((run (op.prog s.1) s.2).1.2, (run (op.prog s.1) s.2).2)

/-- Every operation is allowed in the state it starts in. -/
def OpsAllowed (allowed : ObjectStore → Content → StoreOp → Prop) :
    List StoreOp → ObjectStore × Disk Sector → Prop
  | [], _ => True
  | op :: ops, s => allowed s.1 s.2.view op ∧ OpsAllowed allowed ops (runOps [op] s)

instance OpsAllowed.decidable {allowed : ObjectStore → Content → StoreOp → Prop}
    [∀ store D op, Decidable (allowed store D op)] : ∀ ops s, Decidable (OpsAllowed allowed ops s)
  | [], _ => isTrue trivial
  | _ :: ops, _ =>
    have : ∀ s, Decidable (OpsAllowed allowed ops s) := OpsAllowed.decidable ops
    inferInstanceAs (Decidable (_ ∧ _))

/-- **Run**: what every allowed operation keeps holds at the end. -/
theorem runOps_induct {P : ObjectStore × Disk Sector → Prop}
    (hstep : ∀ op s, allowed s.1 s.2.view op → P s → P (runOps [op] s)) :
    ∀ ops s, OpsAllowed allowed ops s → P s → P (runOps ops s)
  | [], _, _, h => h
  | op :: ops, s, hallowed, h => runOps_induct hstep ops _ hallowed.2 (hstep op s hallowed.1 h)

theorem StoreRun.of_ops {ops : List StoreOp} {s : ObjectStore × Disk Sector}
    (himp : ∀ store D op, allowed store D op → RoomFor store D op) (h : OpsAllowed allowed ops s)
    (hrun : StoreRun SequenceRoom setup s.1 s.2) :
    StoreRun SequenceRoom setup (runOps ops s).1 (runOps ops s).2 :=
  runOps_induct (P := fun s => StoreRun SequenceRoom setup s.1 s.2)
    (fun op _ hallowed hrun => .step op hrun (himp _ _ _ hallowed) rfl) ops s h hrun

/-- The small device before its first put. -/
def smallDisk : Content := formatDisk smallSetup fun _ => Block.zero objectStoreSectorSize

/-- The small device, freshly formatted. -/
def smallStart : ObjectStore × Disk Sector :=
  ((formatStore smallSetup).advance.advance, Disk.clean smallDisk)

/-- A request for the object, with a payload of one byte. -/
def byteRequest (id : UInt64) (byte : UInt8) : ObjectStorePutRequest :=
  { smallRequest with id := ⟨0, id⟩, payload := [byte] }

theorem smallStart_format : run (objectStoreFormat smallSetup)
    (Disk.clean fun _ => Block.zero objectStoreSectorSize) = (some smallStart.1, smallStart.2) :=
  run_format smallSetup_ok _

theorem smallStart_run : StoreRun SequenceRoom smallSetup smallStart.1 smallStart.2 :=
  .format smallStart_format

def firstSlot : Fin objectStoreSnapshotLimit := ⟨0, by decide⟩

/-- The small device with one object. -/
def onePut : ObjectStore × Disk Sector := runOps [.putMany [byteRequest 1 1]] smallStart

set_option maxRecDepth 200000 in
theorem onePut_spec : OpsAllowed RoomFor [.putMany [byteRequest 1 1]] smallStart ∧
    onePut.1.table.count ≠ 0 ∧ (∀ i ≠ firstSlot, (onePut.1.snapshots i).id = 0) ∧
    onePut.1.superblockSequence.toNat ≤ 4 := by
  decide +kernel

theorem onePut_run : StoreRun SequenceRoom smallSetup onePut.1 onePut.2 := by
  unfold onePut
  exact StoreRun.of_ops (fun _ _ _ h => h) onePut_spec.1 smallStart_run

/-! ### The sequence number wraps around -/

theorem StoreRun.mono {room room' : ObjectStore → Nat → Prop}
    (hroom : ∀ store k, room store k → room' store k) (h : StoreRun room setup store d) :
    StoreRun room' setup store d := by
  induction h with
  | format hrun => exact .format hrun
  | step op _ hr hrun ih => exact .step op ih (hroom _ _ hr) hrun
  | remount _ hsame hrun ih => exact .remount ih hsame hrun
  | powerCut op _ hr hemit hcut hmounts hsame hrun ih =>
    exact .powerCut op ih (hroom _ _ hr) hemit hcut hmounts hsame hrun

/-- A store with an object, and at most one snapshot, in the first slot. -/
structure AtMostOneSnapshot (store : ObjectStore) : Prop where
  count_ne : store.table.count ≠ 0
  others : ∀ i ≠ firstSlot, (store.snapshots i).id = 0

theorem findSnapshot_first {snapshots : Snapshots} {id : UInt64}
    (h : (snapshots firstSlot).id = id) : findSnapshot snapshots id = some firstSlot := by
  have hcons : List.finRange objectStoreSnapshotLimit =
      firstSlot :: (List.finRange objectStoreSnapshotLimit).tail := by decide
  rw [findSnapshot, hcons, List.find?_cons_of_pos]
  simpa using h

theorem AtMostOneSnapshot.exists_free (h : AtMostOneSnapshot store) :
    ∃ slot, findSnapshot store.snapshots 0 = some slot := by
  cases hfind : findSnapshot store.snapshots 0 with
  | none => exact absurd (h.others ⟨1, by decide⟩ (by decide)) (findSnapshot_none hfind _)
  | some slot => exact ⟨slot, rfl⟩

/-- Taking and discarding a snapshot in turn moves the sequence number on by one each time. -/
theorem AtMostOneSnapshot.step (h : AtMostOneSnapshot store)
    (hrun : StoreRun SequenceRoom setup store (Disk.clean D))
    (hroom : store.superblockSequence.toNat + 1 < 2 ^ 64) :
    ∃ store' D', StoreRun SequenceRoom setup store' (Disk.clean D') ∧ AtMostOneSnapshot store' ∧
      store'.superblockSequence.toNat = store.superblockSequence.toNat + 1 := by
  obtain ⟨D0, hD0, hstate⟩ := hrun.runState
  obtain rfl : D = D0 := congrArg Disk.durable hD0
  by_cases hfree : (store.snapshots firstSlot).id = 0
  · have hcreate := hstate.mounted.run_create h.count_ne (findSnapshot_first hfree)
    refine ⟨_, _, .step .snapshotCreate hrun hroom hcreate, ⟨h.count_ne, ?_⟩,
      @advance_sequence (store.withSnapshot firstSlot) hroom⟩
    intro i hi
    change (Function.update store.snapshots firstSlot _ i).id = 0
    rw [Function.update_of_ne hi]
    exact h.others i hi
  · have hdiscard := run_discard (D := D) hstate.mounted.ready hfree (findSnapshot_first rfl)
    refine ⟨_, _, .step (.snapshotDiscard _) hrun hroom hdiscard, ⟨h.count_ne, ?_⟩,
      @advance_sequence (store.withoutSnapshot firstSlot) hroom⟩
    intro i hi
    change (Function.update store.snapshots firstSlot _ i).id = 0
    rw [Function.update_of_ne hi]
    exact h.others i hi

theorem AtMostOneSnapshot.climb {setup : ObjectStoreSetup} : ∀ (n : Nat) {store : ObjectStore}
    {D : Content}, AtMostOneSnapshot store → StoreRun SequenceRoom setup store (Disk.clean D) →
    store.superblockSequence.toNat + n < 2 ^ 64 →
    ∃ store' D', StoreRun SequenceRoom setup store' (Disk.clean D') ∧ AtMostOneSnapshot store' ∧
      store'.superblockSequence.toNat = store.superblockSequence.toNat + n
  | 0, store, D, h, hrun, _ => ⟨store, D, hrun, h, rfl⟩
  | n + 1, store, D, h, hrun, hroom => by
    obtain ⟨store1, D1, hrun1, h1, hseq1⟩ := h.step hrun (by omega)
    obtain ⟨store2, D2, hrun2, h2, hseq2⟩ := AtMostOneSnapshot.climb n h1 hrun1 (by omega)
    exact ⟨store2, D2, hrun2, h2, by omega⟩

theorem exists_small_run : ∃ store D, StoreRun SequenceRoom smallSetup store (Disk.clean D) ∧
    AtMostOneSnapshot store ∧ store.superblockSequence.toNat ≤ 4 := by
  obtain ⟨-, hcount, hothers, hseq⟩ := onePut_spec
  have hrun := onePut_run
  generalize onePut = s at *
  obtain ⟨store, d⟩ := s
  obtain ⟨D, rfl, -⟩ := hrun.runState
  exact ⟨store, D, hrun, ⟨hcount, hothers⟩, hseq⟩

/-- From the largest sequence number on, a superblock write has no effect on the next mount. -/
theorem RunState.recoverable_of_wrap (h : RunState setup store D) (store' : ObjectStore)
    (hseq : store.superblockSequence.toNat = 2 ^ 64 - 1)
    (hactive : store'.activeSuperblockSector = store.activeSuperblockSector)
    (hseq' : store'.superblockSequence = store.superblockSequence) :
    Recoverable setup.io setup.tableCapacity (superblockWritten store' D) (logicalState store D)
        (2 ^ 64 - 1) ∧
      superblockWritten store' D 2 = Block.zero objectStoreSectorSize := by
  have hge : ∀ s, 3 ≤ s → superblockWritten store' D s = D s :=
    fun s hs => superblockWritten_of_ge (by omega)
  have hlog : superblockWritten store' D 2 = Block.zero objectStoreSectorSize :=
    (superblockWritten_of_ge (le_refl 2)).trans h.mounted.log
  obtain ⟨sb, hsb, hroot, hnext⟩ := h.mounted.superblock
  have holder : (DiskSuperblock.ofSector (superblockFromStore store'
      (store'.superblockSequence + 1))).sequence < sb.sequence := by
    rw [ofSector_superblockFromStore, hsb.2]
    change store'.superblockSequence + 1 < store.superblockSequence
    rw [hseq', UInt64.lt_iff_toNat_lt, UInt64.toNat_add]
    simp only [UInt64.reduceToNat]
    omega
  have hchoose := chooseSuperblock_write_older hsb.1 holder
  rw [← hactive] at hchoose
  refine ⟨⟨store.root, _, ⟨store'.activeSuperblockSector, sb, ?_, rfl, ?_,
    Or.inl ⟨hlog, hroot.symm, ?_⟩⟩, ?_, ?_⟩, hlog⟩
  · rw [← h.io_eq, ← h.tableCapacity_eq]
    exact hchoose
  · rw [hnext, ← h.io_eq, ← h.tableCapacity_eq]
    exact h.mounted.root.of_reserved hge
  · rw [hsb.2]
    exact h.mounted.sequence
  · rw [hsb.2, hseq]
  · rw [h.mounted.coverage.logicalState_eq, ← h.io_eq, ← h.tableCapacity_eq]
    exact Root.logical_of_reserved h.mounted.root hge

/-- **A discarded snapshot comes back**: from the largest sequence number, the superblock of a
discard gets the number zero, and the next mount takes the one before it. -/
theorem discard_lost : ∃ setup store d snapshotId, StoreRun (fun _ _ => True) setup store d ∧
    (run (StoreOp.prog store (.snapshotDiscard snapshotId)) d).1.1 = .flag true ∧
    ¬ CrashAtomic setup store d (.snapshotDiscard snapshotId) 0 := by
  -- a run to the last sequence number but one
  obtain ⟨store0, D0, hrun0, hone0, hseq0⟩ := exists_small_run
  obtain ⟨store1, D1, hrun1, hone1, hseq1⟩ :=
    hone0.climb (2 ^ 64 - 2 - store0.superblockSequence.toNat) hrun0 (by omega)
  obtain ⟨D1', hD1, hstate1⟩ := hrun1.runState
  obtain rfl : D1 = D1' := congrArg Disk.durable hD1
  have hroom1 : store1.superblockSequence.toNat + 1 < 2 ^ 64 := by omega
  -- a snapshot, which takes the last number
  obtain ⟨slot, hfind⟩ := hone1.exists_free
  have hrun2 := StoreRun.step .snapshotCreate hrun1 hroom1
    (hstate1.mounted.run_create hone1.count_ne hfind)
  have hseq2 := @advance_sequence (store1.withSnapshot slot) hroom1
  have hid : ((store1.withSnapshot slot).advance.snapshots slot).id ≠ 0 := by
    change (Function.update store1.snapshots slot _ slot).id ≠ 0
    rw [Function.update_self]
    intro h0
    have hgen := hstate1.mounted.generation_succ
    have h0' : store1.currentGeneration + 1 = 0 := h0
    rw [h0'] at hgen
    simp at hgen
  generalize (store1.withSnapshot slot).advance = store2 at hrun2 hseq2 hid
  generalize superblockWritten (store1.withSnapshot slot) D1 = D2 at hrun2
  obtain ⟨D2', hD2, hstate2⟩ := hrun2.runState
  obtain rfl : D2 = D2' := congrArg Disk.durable hD2
  have hseq2' : store2.superblockSequence.toNat = 2 ^ 64 - 1 := by
    rw [hseq2]
    change store1.superblockSequence.toNat + 1 = 2 ^ 64 - 1
    omega
  -- its discard
  obtain ⟨slot', hfind'⟩ : ∃ slot', findSnapshot store2.snapshots (store2.snapshots slot).id =
      some slot' := by
    cases hfind' : findSnapshot store2.snapshots (store2.snapshots slot).id with
    | none => exact absurd rfl (findSnapshot_none hfind' slot)
    | some slot' => exact ⟨slot', rfl⟩
  have hdiscard := run_discard (D := D2) hstate2.mounted.ready hid hfind'
  refine ⟨smallSetup, store2, Disk.clean D2, (store2.snapshots slot).id,
    hrun2.mono (fun _ _ _ => trivial), by rw [hdiscard], ?_⟩
  intro hatomic
  obtain ⟨hrec, hlog⟩ :=
    hstate2.recoverable_of_wrap (store2.withoutSnapshot slot') hseq2' rfl rfl
  have hafter := hatomic.after
  rw [hdiscard] at hafter
  obtain ⟨store3, D3, hmount, heq⟩ := hafter _ (Disk.survives_clean_iff.mpr rfl) _ smallSetup
    (.none _) ⟨rfl, rfl, rfl, rfl, rfl⟩
  obtain ⟨D3', hD3, -, -, hold⟩ := RunState.of_mount hstate2.setup_ok ⟨rfl, rfl, rfl, rfl, rfl⟩ hrec
    (Or.inl hlog) hmount
  obtain rfl : D3 = D3' := congrArg Disk.durable hD3
  -- the slot is used before the discard and free after it
  rw [hold] at heq
  have hslot : store2.snapshots slot' = Function.update store2.snapshots slot' ⟨0, 0, 0⟩ slot' :=
    congrFun (congrArg LogicalState.snapshots heq) slot'
  rw [Function.update_self] at hslot
  have hid' := findSnapshot_some hfind'
  rw [hslot] at hid'
  exact hid hid'.symm

end Jani
